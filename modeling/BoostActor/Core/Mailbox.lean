import BoostActor.Core.QueueInvariant

/-!
# The mailbox as a sequential object

What `single_reader_queue` is for: a list of unread elements to which every call of
`enqueue` adds one and from which the reader takes them in the same order, with a mark
for a blocked reader and for a closed mailbox. Every operation is one step here.

* `Mailbox` — the operations;
* `Queue.refines` — every step of the queue is a step of the mailbox, or changes nothing
  that the mailbox knows.
-/

namespace BoostActor

open Lib

variable {α : Type}

-- -------------------------
-- Mailboxes
-- -------------------------

/-- The stack of a mailbox: the reader has closed it or is blocked, or it holds elements,
the last one first. -/
inductive MailboxStack (α : Type) where
  | closed
  | blocked
  | elements (xs : List α)
deriving DecidableEq, Repr

/-- A mailbox: the stack, and the list that the reader has fetched. -/
structure Mailbox (α : Type) where
  stack : MailboxStack α
  head : List α
deriving DecidableEq, Repr

namespace Mailbox

/-- A new mailbox. -/
def initial : Mailbox α := ⟨.elements [], []⟩

/-- `enqueue(new_element)`. -/
def enqueue (m : Mailbox α) (x : α) : EnqueueResult × Mailbox α :=
  match m.stack with
  | .closed => (.queueClosed, m)
  | .blocked => (.unblockedReader, { m with stack := .elements [x] })
  | .elements xs => (.success, { m with stack := .elements (x :: xs) })

/-- `fetch_new_data()`, when nothing is left of what was fetched before. -/
def fetchNewData (m : Mailbox α) : Mailbox α :=
  match m.stack with
  | .closed => m
  | .blocked => { m with stack := .elements [] }
  | .elements xs => ⟨.elements [], xs.reverse⟩

/-- `try_pop()`. -/
def tryPop (m : Mailbox α) : Option α × Mailbox α :=
  let m := if m.head.isEmpty then m.fetchNewData else m
  (m.head.head?, { m with head := m.head.tail })

/-- `can_fetch_more()`. -/
def canFetchMore (m : Mailbox α) : Bool :=
  !m.head.isEmpty || match m.stack with
    | .elements xs => !xs.isEmpty
    | _ => false

/-- `try_block()`. -/
def tryBlock (m : Mailbox α) : Bool × Mailbox α :=
  match m.stack with
  | .elements [] => (true, { m with stack := .blocked })
  | .blocked => (true, m)
  | _ => (false, m)

/-- `try_unblock()`. -/
def tryUnblock (m : Mailbox α) : Bool × Mailbox α :=
  match m.stack with
  | .blocked => (true, { m with stack := .elements [] })
  | _ => (false, m)

/-- The elements that have not been read, the first one first. -/
def unread (m : Mailbox α) : List α :=
  m.head ++ match m.stack with
    | .elements xs => xs.reverse
    | _ => []

/-- `close(f)`, together with the elements passed to `f`. -/
def close (m : Mailbox α) : List α × Mailbox α := (m.unread, ⟨.closed, []⟩)

variable {m m' : Mailbox α} {x : α}

/-- An element that is not refused comes behind the others. -/
theorem unread_enqueue (h : (m.enqueue x).1 ≠ .queueClosed) :
    (m.enqueue x).2.unread = m.unread ++ [x] := by
  unfold enqueue at h ⊢
  cases hs : m.stack <;> simp_all [unread]

theorem enqueue_closed (h : (m.enqueue x).1 = .queueClosed) : (m.enqueue x).2 = m := by
  unfold enqueue at h ⊢
  cases hs : m.stack <;> simp_all

/-- The oldest element is taken. -/
theorem unread_tryPop_some (h : m.tryPop = (some x, m')) : m.unread = x :: m'.unread := by
  obtain ⟨stack, head⟩ := m
  cases head with
  | nil =>
    cases stack with
    | closed | blocked => simp [tryPop, fetchNewData] at h
    | elements xs =>
      simp only [tryPop, fetchNewData, List.isEmpty_nil, if_pos, Prod.mk.injEq] at h
      obtain ⟨hx, rfl⟩ := h
      obtain ⟨tail, htail⟩ := List.head?_eq_some_iff.mp hx
      simp [unread, htail]
  | cons y head =>
    simp only [tryPop, List.isEmpty_cons, Bool.false_eq_true, if_neg, not_false_eq_true,
      List.head?_cons, List.tail_cons, Prod.mk.injEq, Option.some.injEq] at h
    obtain ⟨rfl, rfl⟩ := h
    rfl

/-- Nothing is lost when there was nothing to take. -/
theorem unread_tryPop_none (h : m.tryPop = (none, m')) : m'.unread = m.unread := by
  obtain ⟨stack, head⟩ := m
  cases head with
  | nil =>
    cases stack with
    | closed | blocked =>
      simp only [tryPop, fetchNewData, List.isEmpty_nil, if_pos, Prod.mk.injEq] at h
      obtain ⟨-, rfl⟩ := h
      rfl
    | elements xs =>
      simp only [tryPop, fetchNewData, List.isEmpty_nil, if_pos, Prod.mk.injEq,
        List.head?_eq_none_iff] at h
      obtain ⟨hx, rfl⟩ := h
      simp [unread, hx]
  | cons y head => simp [tryPop] at h

/-- If `try_pop()` returns null, nothing is unread. -/
theorem unread_of_tryPop_none (h : m.tryPop = (none, m')) : m.unread = [] := by
  obtain ⟨stack, head⟩ := m
  cases head with
  | cons y head => simp [tryPop] at h
  | nil =>
    cases stack with
    | closed | blocked => rfl
    | elements xs =>
      simp only [tryPop, fetchNewData, List.isEmpty_nil, if_pos, Prod.mk.injEq,
        List.head?_eq_none_iff] at h
      simp [unread, h.1]

@[simp] theorem unread_tryBlock : m.tryBlock.2.unread = m.unread := by
  unfold tryBlock
  split
  · next hs => simp [unread, hs]
  · rfl
  · rfl

end Mailbox

-- -------------------------
-- Refinement
-- -------------------------

/-- What the mailbox does while the queue takes a step. `close` takes the elements from
the stack at once and passes them on one by one. -/
inductive Mailbox.Step : Mailbox α → Mailbox α → Prop where
  | nothing {m : Mailbox α} : Step m m
  | enqueue {m : Mailbox α} (x : α) (ho : m.stack ≠ .closed) : Step m (m.enqueue x).2
  | fetch {m : Mailbox α} (hh : m.head = []) (ho : m.stack ≠ .closed) : Step m m.fetchNewData
  | take {m : Mailbox α} {x : α} {xs : List α} (hh : m.head = x :: xs) :
    Step m { m with head := xs }
  | block {m : Mailbox α} : Step m m.tryBlock.2
  | unblock {m : Mailbox α} : Step m m.tryUnblock.2
  | close {m : Mailbox α} (hh : m.head = []) (ho : m.stack ≠ .closed) : Step m ⟨.closed, m.unread⟩

/-- The stack of the mailbox that a queue stands for. -/
def Queue.mailboxStack (q : Queue) (S : List Addr) : MailboxStack CallId :=
  match q.stack with
  | .null => .closed
  | .readerBlockedDummy => .blocked
  | _ => .elements (S.map q.value)

/-- The mailbox that a queue stands for. -/
def Queue.mailbox (q : Queue) (S R H : List Addr) : Mailbox CallId :=
  ⟨q.mailboxStack S, (R.reverse ++ H).map q.value⟩

namespace Queue

variable {q q' : Queue} {S R H : List Addr}

/-- Elements at an address that is none of theirs do not matter. -/
theorem mailbox_congr (hs : q'.stack = q.stack) (hv : ∀ a ∈ S ++ R ++ H, q'.value a = q.value a) :
    q'.mailbox S R H = q.mailbox S R H := by
  have hmap : ∀ as : List Addr, as ⊆ S ++ R ++ H → as.map q'.value = as.map q.value :=
    fun as has => List.map_congr_left fun a ha => hv a (has ha)
  have hS : S.map q'.value = S.map q.value := hmap S fun a ha => by simp [ha]
  have hH : (R.reverse ++ H).map q'.value = (R.reverse ++ H).map q.value := by
    refine hmap _ fun a ha => ?_
    simp only [List.mem_append, List.mem_reverse] at ha ⊢
    tauto
  rw [mailbox, mailbox, hH, mailboxStack, mailboxStack, hs, hS]

/-- The stack of the mailbox, when the top of the stack is no element. -/
theorem mailboxStack_of_below (h : Holds q S R H) (hb : q.stack.below = .null) : S = [] := by
  have hs := h.stack
  rw [hb] at hs
  exact hs.eq_nil

/-- The step in which `enqueue` has its element on the stack is the `enqueue` of the mailbox. -/
theorem refines_push (h : Holds q S R H) {c : CallId} {a : Addr} {e : Pointer} {late : Bool}
    (hc : Control q) (hl : q.calls c = .linked a e late) (hs : q.stack = e) :
    Mailbox.Step (q.mailbox S R H) (({ q with
      stack := .node a
      pushed := q.pushed ++ [c] } : Queue).mailbox (a :: S) R H) := by
  have hval : q.value a = c := (h.own c a (by rw [hl]; rfl)).2.2
  have hne := (hc.linked c a e late hl).2
  have hopen : (q.mailbox S R H).stack ≠ .closed := by
    unfold mailbox mailboxStack
    cases hst : q.stack with
    | null => exact absurd (hs.symm.trans hst) hne
    | _ => simp
  have hout : (({ q with
      stack := .node a
      pushed := q.pushed ++ [c] } : Queue).mailbox (a :: S) R H) =
      ((q.mailbox S R H).enqueue c).2 := by
    unfold mailbox mailboxStack Mailbox.enqueue
    cases hst : q.stack with
    | null => exact absurd (hs.symm.trans hst) hne
    -- a mailbox that was blocked is empty
    | readerBlockedDummy =>
      have hS := mailboxStack_of_below h (by rw [hst]; rfl)
      simp [hval, hS]
    | stackEmptyDummy | node => simp [hval]
  rw [hout]
  exact .enqueue c hopen

/-- The reader marks the stack as blocked, empty or closed, while no element is on it. -/
theorem refines_mark (h : Holds q S R H) {p : Pointer} {r : QueueReader} {replaced : Bool}
    (hr : q.reader.rest = .null) (hp : p.below = q.stack.below)
    (hn : q.stack = .null → p = .null)
    (hh : p ≠ q.stack → p = .null → q.reader.drained = true) :
    Mailbox.Step (q.mailbox S R H) (({ q with
      stack := p
      reader := r
      replaced := replaced } : Queue).mailbox S R H) := by
  by_cases hsame : p = q.stack
  · subst hsame
    exact .nothing
  have hR := h.rest_nil hr
  cases hs : q.stack with
  | null => exact absurd ((hn hs).trans hs.symm) hsame
  | node a =>
    -- then `p` is the same node
    rw [hs] at hp hsame
    cases p with
    | node b => exact absurd hp hsame
    | null | stackEmptyDummy | readerBlockedDummy => cases hp
  -- an empty stack may become blocked or closed
  | stackEmptyDummy =>
    have hS := mailboxStack_of_below h (by rw [hs]; rfl)
    rw [hs] at hp hsame
    cases p with
    | node b => cases hp
    | stackEmptyDummy => exact absurd rfl hsame
    | readerBlockedDummy =>
      have hstep := Mailbox.Step.block (m := q.mailbox S R H)
      simpa [mailbox, mailboxStack, Mailbox.tryBlock, hs, hS] using hstep
    | null =>
      have hH := h.drained (hh (by rw [hs]; exact hsame) rfl)
      have hstep := Mailbox.Step.close (m := q.mailbox S R H) (by simp [mailbox, hR, hH])
        (by simp [mailbox, mailboxStack, hs])
      simpa [mailbox, mailboxStack, Mailbox.unread, hs, hS, hR, hH] using hstep
  -- so may a blocked one, which also may become empty again
  | readerBlockedDummy =>
    have hS := mailboxStack_of_below h (by rw [hs]; rfl)
    rw [hs] at hp hsame
    cases p with
    | node b => cases hp
    | readerBlockedDummy => exact absurd rfl hsame
    | stackEmptyDummy =>
      have hstep := Mailbox.Step.unblock (m := q.mailbox S R H)
      simpa [mailbox, mailboxStack, Mailbox.tryUnblock, hs, hS] using hstep
    | null =>
      have hH := h.drained (hh (by rw [hs]; exact hsame) rfl)
      have hstep := Mailbox.Step.close (m := q.mailbox S R H) (by simp [mailbox, hR, hH])
        (by simp [mailbox, mailboxStack, hs])
      simpa [mailbox, mailboxStack, Mailbox.unread, hs, hS, hR, hH] using hstep

/-- The reader takes the elements from the stack. -/
theorem refines_swap (h : Holds q S R H) {k : Fetcher} {e : Pointer} {replaced : Bool}
    (hc : Control q) (hr : q.reader = .swap k e) (hs : q.stack = e) (hd : e.isDummy = false) :
    Mailbox.Step (q.mailbox S R H) (({ q with
      stack := k.endPtr
      reader := .reverse k e
      replaced := replaced } : Queue).mailbox [] S []) := by
  have hR := h.rest_nil (by rw [hr]; rfl)
  have hH := h.drained (by rw [hr]; rfl)
  have hne := hc.swap k e hr
  have hhead : (q.mailbox S R H).head = [] := by simp [mailbox, hR, hH]
  have hstack : (q.mailbox S R H).stack = .elements (S.map q.value) := by
    unfold mailbox mailboxStack
    rw [hs]
    cases e with
    | node a => rfl
    | null => exact absurd rfl hne
    | stackEmptyDummy | readerBlockedDummy => cases hd
  have hopen : (q.mailbox S R H).stack ≠ .closed := by rw [hstack]; simp
  cases k with
  -- what is swapped out is fetched, or belongs to the call that closes the mailbox
  | tryPop =>
    have hstep := Mailbox.Step.fetch hhead hopen
    rw [Mailbox.fetchNewData, hstack] at hstep
    simpa [mailbox, mailboxStack, Fetcher.endPtr] using hstep
  | close =>
    have hstep := Mailbox.Step.close hhead hopen
    rw [Mailbox.unread, hstack, hhead] at hstep
    simpa [mailbox, mailboxStack, Fetcher.endPtr] using hstep

/-- **The queue refines the mailbox**: every step of a writer or of the reader is one
step of the mailbox, or none. -/
theorem refines (hc : Control q) (h : Holds q S R H) (hm : Moved q q') :
    ∃ S' R' H', Holds q' S' R' H' ∧ Mailbox.Step (q.mailbox S R H) (q'.mailbox S' R' H') := by
  cases hm with
  | @begin c a hcall ha =>
    -- the new element is in none of the lists
    have hvalue : ∀ b ∈ S ++ R ++ H, Function.update q.value a c b = q.value b := by
      intro b hb
      refine Function.update_of_ne ?_ ..
      rintro rfl
      rw [h.inUse b hb] at ha
      cases ha
    have hsame : ({ q with
        value := Function.update q.value a c
        inUse := Function.update q.inUse a true
        calls := Function.update q.calls c (.start a) } : Queue).mailbox S R H =
        q.mailbox S R H := mailbox_congr rfl hvalue
    refine ⟨S, R, H, h.begin hcall ha, ?_⟩
    rw [hsame]
    exact .nothing
  | load hel =>
    refine ⟨S, R, H, h.calls (fun b hb => ?_) (by simp), .nothing⟩
    cases hb
    exact hel
  | refuse hl => exact ⟨S, R, H, h.refuse (by rw [hl]; rfl), .nothing⟩
  | link hl => exact ⟨S, R, H, h.link (by rw [hl]; rfl), .nothing⟩
  | push hl hs => exact ⟨_, R, H, h.push hl hs, refines_push h hc hl hs⟩
  -- the reader takes the first element of its list
  | @depart a how r hr ha hr' hf hv =>
    have hR := h.rest_nil hr
    obtain ⟨H', rfl, h'⟩ := h.depart how r hr ha hr' hf hv
    have hhead : (q.mailbox S R (a :: H')).head = q.value a :: H'.map q.value := by
      simp [mailbox, hR]
    refine ⟨S, [], H', h', ?_⟩
    have hstep := Mailbox.Step.take hhead
    simpa [mailbox, mailboxStack, Queue.depart, hR] using hstep
  | reader hr hr' hp hf hv _ _ _ hn hh =>
    refine ⟨S, R, H, h.reader hr hr' hp (fun hfetch => ?_) hv, refines_mark h hr hp hn hh⟩
    rcases hf hfetch with hnull | hdrained
    · have hhead := h.head
      rw [hnull] at hhead
      exact hhead.eq_nil
    · exact h.drained hdrained
  -- one element more is in the list of the reader
  | @reverse k a hr =>
    obtain ⟨R', rfl, h'⟩ := h.reverse hr
    have hsame : q.mailbox S (a :: R') H = q.mailbox S R' (a :: H) := by simp [mailbox]
    refine ⟨S, R', a :: H, h', ?_⟩
    rw [hsame]
    exact .nothing
  | swap hr hs hd =>
    exact ⟨[], S, [], h.swap hr hs hd (hc.swap _ _ hr), refines_swap h hc hr hs hd⟩

end Queue

end BoostActor
