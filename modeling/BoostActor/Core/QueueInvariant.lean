import Mathlib.Data.List.Basic
import BoostActor.Core.SingleReaderQueue

/-!
# The elements of the mailbox queue

At any time the queue holds three lists of elements: those on the stack, those that the
reader has fetched and not yet reversed, and those of its own list. Together with the
elements that have left, in this order, they are the elements in the order of their
successful compare-and-swap.

* `Control.step_cases` — inversion of a step: `Moved`;
* `Holds.moved` — every step keeps the three lists apart and in order;
* `Control.moved` — what the steps of a call and of the reader know about `close`.
-/

namespace BoostActor

open Lib

-- -------------------------
-- Representation
-- -------------------------

/-- The list of elements that a pointer leads to. -/
def IsList (next : Addr → Pointer) : Pointer → List Addr → Prop :=
  Linked Pointer.node .null next

/-- The element that a call still owns. -/
def Call.element? : Call → Option Addr
  | .start a | .loaded a _ _ | .linked a _ _ => some a
  | _ => none

/-- The part of the fetched list that the reader has not reversed yet. -/
def QueueReader.rest : QueueReader → Pointer
  | .reverse _ e => e
  | _ => .null

/-- The own list of the reader is empty here. -/
def QueueReader.drained : QueueReader → Bool
  | .fetch _ | .swap _ _ | .closed => true
  | _ => false

/-- The reader is reversing what it fetched. -/
def QueueReader.reversing : QueueReader → Bool
  | .reverse _ _ => true
  | _ => false

/-- The reader is past the point where `close` replaces the stack. -/
def QueueReader.closing : QueueReader → Bool
  | .reverse .close _ | .clearFetched | .closed => true
  | _ => false

/-- The elements in the queue: `S` on the stack, `R` fetched and not yet reversed, `H` in
the list of the reader. -/
structure Holds (q : Queue) (S R H : List Addr) : Prop where
  stack : IsList q.next q.stack.below S
  rest : IsList q.next q.reader.rest R
  head : IsList q.next q.head H
  nodup : (S ++ R ++ H).Nodup
  inUse : ∀ a ∈ S ++ R ++ H, q.inUse a = true
  own : ∀ c a, (q.calls c).element? = some a →
    q.inUse a = true ∧ a ∉ S ++ R ++ H ∧ q.value a = c
  linked : ∀ c a e late, q.calls c = .linked a e late → q.next a = e.below
  order : q.departed.map Prod.fst ++ (R.reverse ++ H ++ S.reverse).map q.value = q.pushed
  /-- nothing is fetched before the own list is empty -/
  drained : q.reader.drained = true → H = []
  /-- what is fetched is not empty -/
  reversing : q.reader.reversing = true → R ++ H ≠ []

variable {q q' : Queue} {S R H : List Addr}

theorem IsList.eq_nil {next : Addr → Pointer} {as : List Addr} (h : IsList next .null as) :
    as = [] := (Linked.null_iff (by simp) h).mp rfl

theorem IsList.of_node {next : Addr → Pointer} {a : Addr} {as : List Addr}
    (h : IsList next (.node a) as) : ∃ rest, as = a :: rest ∧ IsList next (next a) rest :=
  Linked.of_node (by simp) (fun _ _ he => by cases he; rfl) h

/-- The calls after a step of one of them. -/
theorem update_cases (calls : CallId → Call) (c : CallId) (call : Call) (c' : CallId) :
    c' = c ∧ Function.update calls c call c' = call ∨
      c' ≠ c ∧ Function.update calls c call c' = calls c' := by
  by_cases h : c' = c
  · subst h
    exact Or.inl ⟨rfl, Function.update_self ..⟩
  · exact Or.inr ⟨h, Function.update_of_ne h ..⟩

namespace Holds

/-- Nothing is left to reverse outside of the inner loop. -/
theorem rest_nil (h : Holds q S R H) (hr : q.reader.rest = .null) : R = [] := by
  have := h.rest
  rw [hr] at this
  exact this.eq_nil

/-- A call whose progress does not matter to the lists: it still owns its element, if it
did, and has not set the next pointer. -/
theorem calls (h : Holds q S R H) {c : CallId} {call : Call}
    (he : ∀ a, call.element? = some a → (q.calls c).element? = some a)
    (hl : ∀ a e late, call = .linked a e late → q.next a = e.below) :
    Holds { q with calls := Function.update q.calls c call } S R H := by
  refine ⟨h.stack, h.rest, h.head, h.nodup, h.inUse, fun c' a ha => ?_, fun c' a e late hc => ?_,
    h.order, h.drained, h.reversing⟩
  · replace ha : (Function.update q.calls c call c').element? = some a := ha
    rcases update_cases q.calls c call c' with ⟨rfl, hu⟩ | ⟨-, hu⟩
    · rw [hu] at ha
      exact h.own c' a (he a ha)
    · rw [hu] at ha
      exact h.own c' a ha
  · replace hc : Function.update q.calls c call c' = .linked a e late := hc
    rcases update_cases q.calls c call c' with ⟨rfl, hu⟩ | ⟨-, hu⟩
    · rw [hu] at hc
      exact hl a e late hc
    · rw [hu] at hc
      exact h.linked c' a e late hc

/-- A free address gets a new element. -/
theorem begin (h : Holds q S R H) {c : CallId} {a : Addr} (hc : q.calls c = .notStarted)
    (ha : q.inUse a = false) :
    Holds { q with
      value := Function.update q.value a c
      inUse := Function.update q.inUse a true
      calls := Function.update q.calls c (.start a) } S R H := by
  -- the address is not in use, so it is on none of the lists
  have hfresh : a ∉ S ++ R ++ H := fun hm => by simp [h.inUse a hm] at ha
  have hne : ∀ b, q.inUse b = true → b ≠ a := fun b hb he => by simp [he, ha] at hb
  refine ⟨h.stack, h.rest, h.head, h.nodup, fun b hb => ?_, fun c' b hb => ?_,
    fun c' b e late hl => ?_, ?_, h.drained, h.reversing⟩
  · show Function.update q.inUse a true b = true
    rw [Function.update_of_ne (hne b (h.inUse b hb)), h.inUse b hb]
  · show Function.update q.inUse a true b = true ∧ _ ∧ Function.update q.value a c b = c'
    -- the call that begins owns the address, the other calls keep theirs
    replace hb : (Function.update q.calls c (.start a) c').element? = some b := hb
    rcases update_cases q.calls c (.start a) c' with ⟨rfl, hu⟩ | ⟨-, hu⟩
    · rw [hu] at hb
      cases hb
      exact ⟨Function.update_self .., hfresh, Function.update_self ..⟩
    · rw [hu] at hb
      obtain ⟨huse, hmem, hval⟩ := h.own c' b hb
      rw [Function.update_of_ne (hne b huse), Function.update_of_ne (hne b huse)]
      exact ⟨huse, hmem, hval⟩
  · replace hl : Function.update q.calls c (.start a) c' = .linked b e late := hl
    rcases update_cases q.calls c (.start a) c' with ⟨rfl, hu⟩ | ⟨-, hu⟩
    · rw [hu] at hl
      cases hl
    · rw [hu] at hl
      exact h.linked c' b e late hl
  · rw [← h.order]
    congr 1
    refine List.map_congr_left fun b hb => Function.update_of_ne (fun hba => hfresh ?_) ..
    rw [← hba]
    simp only [List.mem_append, List.mem_reverse] at hb ⊢
    tauto

/-- The other calls own other elements. -/
theorem own_ne (h : Holds q S R H) {c c' : CallId} {a b : Addr}
    (ha : (q.calls c).element? = some a) (hb : (q.calls c').element? = some b) (hne : c' ≠ c) :
    b ≠ a := by
  rintro rfl
  exact hne ((h.own c' b hb).2.2.symm.trans (h.own c b ha).2.2)

/-- A call that has returned owns no element. -/
theorem returned_own {c c' : CallId} {b : Addr} {result : EnqueueResult} {late : Bool}
    (hb : (Function.update q.calls c (.returned result late) c').element? = some b) :
    c' ≠ c ∧ (q.calls c').element? = some b := by
  rcases update_cases q.calls c (.returned result late) c' with ⟨-, hu⟩ | ⟨hcc, hu⟩
  · rw [hu] at hb
    cases hb
  · rw [hu] at hb
    exact ⟨hcc, hb⟩

/-- A call that has returned is not linked, so the linked ones are the others. -/
theorem returned_linked {c c' : CallId} {b : Addr} {e : Pointer} {result : EnqueueResult}
    {late late' : Bool}
    (hl : Function.update q.calls c (.returned result late) c' = .linked b e late') :
    q.calls c' = .linked b e late' := by
  rcases update_cases q.calls c (.returned result late) c' with ⟨-, hu⟩ | ⟨-, hu⟩
  · rw [hu] at hl
    cases hl
  · rw [hu] at hl
    exact hl

/-- A call gives up its element, which is freed. -/
theorem refuse (h : Holds q S R H) {c : CallId} {a : Addr} {result : EnqueueResult} {late : Bool}
    (hc : (q.calls c).element? = some a) :
    Holds { q with
      inUse := Function.update q.inUse a false
      calls := Function.update q.calls c (.returned result late) } S R H := by
  obtain ⟨-, hfresh, -⟩ := h.own c a hc
  refine ⟨h.stack, h.rest, h.head, h.nodup, fun b hb => ?_, fun c' b hb => ?_,
    fun c' b e late hl => ?_, h.order, h.drained, h.reversing⟩
  · show Function.update q.inUse a false b = true
    rw [Function.update_of_ne (fun hba : b = a => hfresh (hba ▸ hb)), h.inUse b hb]
  · obtain ⟨hcc, hb⟩ := returned_own hb
    show Function.update q.inUse a false b = true ∧ _
    rw [Function.update_of_ne (h.own_ne hc hb hcc)]
    exact h.own c' b hb
  · exact h.linked c' b e late (returned_linked hl)

/-- A call sets the next pointer of its element. -/
theorem link (h : Holds q S R H) {c : CallId} {a : Addr} {e : Pointer} {late : Bool}
    (hc : (q.calls c).element? = some a) :
    Holds { q with
      next := Function.update q.next a e.below
      calls := Function.update q.calls c (.linked a e late) } S R H := by
  obtain ⟨huse, hfresh, hval⟩ := h.own c a hc
  simp only [List.mem_append, not_or] at hfresh
  refine ⟨h.stack.update hfresh.1.1, h.rest.update hfresh.1.2, h.head.update hfresh.2, h.nodup,
    h.inUse, fun c' b hb => ?_, fun c' b e' late' hl => ?_, h.order, h.drained, h.reversing⟩
  · replace hb : (Function.update q.calls c (.linked a e late) c').element? = some b := hb
    rcases update_cases q.calls c (.linked a e late) c' with ⟨rfl, hu⟩ | ⟨-, hu⟩
    · rw [hu] at hb
      cases hb
      exact h.own c' a hc
    · rw [hu] at hb
      exact h.own c' b hb
  · -- the link is written to the element of this call only
    show Function.update q.next a e.below b = e'.below
    replace hl : Function.update q.calls c (.linked a e late) c' = .linked b e' late' := hl
    rcases update_cases q.calls c (.linked a e late) c' with ⟨rfl, hu⟩ | ⟨hcc, hu⟩
    · rw [hu] at hl
      cases hl
      exact Function.update_self ..
    · rw [hu] at hl
      have hb : (q.calls c').element? = some b := by rw [hl]; rfl
      rw [Function.update_of_ne (h.own_ne hc hb hcc)]
      exact h.linked c' b e' late' hl

/-- Compare-and-swap succeeds: the element is on top of the stack. -/
theorem push (h : Holds q S R H) {c : CallId} {a : Addr} {e : Pointer} {late : Bool}
    {result : EnqueueResult} (hc : q.calls c = .linked a e late) (hs : q.stack = e) :
    Holds { q with
      stack := .node a
      calls := Function.update q.calls c (.returned result late)
      pushed := q.pushed ++ [c] } (a :: S) R H := by
  have hc' : (q.calls c).element? = some a := by rw [hc]; rfl
  obtain ⟨huse, hfresh, hval⟩ := h.own c a hc'
  have hnext : q.next a = q.stack.below := by rw [hs, h.linked c a e late hc]
  refine ⟨⟨rfl, ?_⟩, h.rest, h.head, ?_, fun b hb => ?_, fun c' b hb => ?_,
    fun c' b e' late' hl => ?_, ?_, h.drained, h.reversing⟩
  · -- the element was linked to the stack that the compare and swap has seen
    show Linked _ _ q.next (q.next a) S
    rw [hnext]
    exact h.stack
  · exact List.nodup_cons.mpr ⟨hfresh, h.nodup⟩
  · rcases List.mem_cons.mp hb with rfl | hb
    · exact huse
    · exact h.inUse b hb
  · obtain ⟨hcc, hb⟩ := returned_own hb
    obtain ⟨huse', hfresh', hval'⟩ := h.own c' b hb
    refine ⟨huse', fun hm => ?_, hval'⟩
    rcases List.mem_cons.mp hm with hba | hm
    · exact h.own_ne hc' hb hcc hba
    · exact hfresh' hm
  · exact h.linked c' b e' late' (returned_linked hl)
  · show _ ++ (R.reverse ++ H ++ (a :: S).reverse).map q.value = q.pushed ++ [c]
    rw [← h.order]
    simp [hval]

/-- A step of the reader that moves no element. -/
theorem reader (h : Holds q S R H) {r : QueueReader} {p : Pointer} {replaced : Bool}
    (hr : q.reader.rest = .null) (hr' : r.rest = .null) (hp : p.below = q.stack.below)
    (hf : r.drained = true → H = []) (hv : r.reversing = false) :
    Holds { q with stack := p, reader := r, replaced := replaced } S R H := by
  obtain rfl := h.rest_nil hr
  refine ⟨?_, ?_, h.head, h.nodup, h.inUse, h.own, h.linked, h.order, hf, fun hrev => ?_⟩
  · show IsList q.next p.below S
    rw [hp]
    exact h.stack
  · exact hr'
  · replace hrev : r.reversing = true := hrev
    rw [hv] at hrev
    cases hrev

/-- A step of the reader that only changes where it is. -/
theorem goes (h : Holds q S R H) {r : QueueReader} (hr : q.reader.rest = .null)
    (hr' : r.rest = .null) (hf : r.drained = true → H = []) (hv : r.reversing = false) :
    Holds { q with reader := r } S R H :=
  h.reader hr hr' rfl hf hv

/-- The first element leaves the list of the reader. -/
theorem depart (h : Holds q S R H) {a : Addr} (how : Departure) (r : QueueReader)
    (hr : q.reader.rest = .null) (ha : q.head = .node a) (hr' : r.rest = .null)
    (hf : r.drained = false) (hv : r.reversing = false) :
    -- nothing is left to reverse, so the element is the first of the queue's own list
    ∃ H', H = a :: H' ∧ Holds (q.depart a how r) S [] H' := by
  obtain rfl := h.rest_nil hr
  have hhead := h.head
  rw [ha] at hhead
  obtain ⟨H', rfl, hlist⟩ := hhead.of_node
  have hnodup := h.nodup
  rw [List.append_nil, List.nodup_append] at hnodup
  obtain ⟨hS, hH, hdisj⟩ := hnodup
  rw [List.nodup_cons] at hH
  have hgone : a ∉ S ++ [] ++ H' := by
    rw [List.append_nil, List.mem_append, not_or]
    exact ⟨fun hm => hdisj a hm a List.mem_cons_self rfl, hH.1⟩
  have hsub : ∀ b, b ∈ S ++ [] ++ H' → b ∈ S ++ [] ++ a :: H' := by
    intro b hb
    rcases List.mem_append.mp hb with hb | hb
    · exact List.mem_append_left _ hb
    · exact List.mem_append_right _ (List.mem_cons_of_mem _ hb)
  refine ⟨H', rfl, h.stack, hr', hlist, ?_, fun b hb => ?_, fun c b hb => ?_, h.linked, ?_, ?_, ?_⟩
  · rw [List.append_nil, List.nodup_append]
    exact ⟨hS, hH.2, fun x hx y hy => hdisj x hx y (List.mem_cons_of_mem _ hy)⟩
  · show Function.update q.inUse a false b = true
    rw [Function.update_of_ne (fun hba : b = a => hgone (hba ▸ hb)), h.inUse b (hsub b hb)]
  · obtain ⟨huse, hfresh, hval⟩ := h.own c b hb
    have hne : b ≠ a := by
      rintro rfl
      exact hfresh (List.mem_append_right _ List.mem_cons_self)
    refine ⟨?_, fun hm => hfresh (hsub b hm), hval⟩
    show Function.update q.inUse a false b = true
    rw [Function.update_of_ne hne, huse]
  · show _ = q.pushed
    rw [← h.order]
    simp [Queue.depart]
  · intro hfetch
    replace hfetch : r.drained = true := hfetch
    rw [hf] at hfetch
    cases hfetch
  · intro hrev
    replace hrev : r.reversing = true := hrev
    rw [hv] at hrev
    cases hrev

/-- One round of the inner loop moves an element to the front of the own list. -/
theorem reverse (h : Holds q S R H) {k : Fetcher} {a : Addr}
    (hr : q.reader = .reverse k (.node a)) :
    ∃ R', R = a :: R' ∧ Holds { q with
      next := Function.update q.next a q.head
      head := .node a
      reader := .reverse k (q.next a) } S R' (a :: H) := by
  have hrest := h.rest
  rw [hr] at hrest
  obtain ⟨R', rfl, hlist⟩ := IsList.of_node hrest
  -- the element moves from one list to the other
  have hperm : (S ++ R' ++ a :: H).Perm (S ++ a :: R' ++ H) := by
    simp only [List.append_assoc]
    exact List.Perm.append_left S List.perm_middle
  have hnodup : (S ++ R' ++ a :: H).Nodup := hperm.nodup_iff.mpr h.nodup
  have hout : a ∉ S ∧ a ∉ R' ∧ a ∉ H := by
    have hfirst : (a :: (S ++ R' ++ H)).Nodup := List.perm_middle.nodup_iff.mp hnodup
    have := (List.nodup_cons.mp hfirst).1
    simp only [List.mem_append, not_or] at this
    exact ⟨this.1.1, this.1.2, this.2⟩
  refine ⟨R', rfl, h.stack.update hout.1, Linked.update hout.2.1 hlist, h.head.push hout.2.2,
    hnodup, fun b hb => h.inUse b (hperm.mem_iff.mp hb), fun c b hb => ?_,
    fun c b e late hl => ?_, ?_, ?_, ?_⟩
  · obtain ⟨huse, hfresh, hval⟩ := h.own c b hb
    exact ⟨huse, fun hm => hfresh (hperm.mem_iff.mp hm), hval⟩
  · have hb : (q.calls c).element? = some b := by
      replace hl : q.calls c = .linked b e late := hl
      rw [hl]
      rfl
    have hne : b ≠ a := by
      rintro rfl
      exact (h.own c b hb).2.1 (by simp)
    show Function.update q.next a q.head b = e.below
    rw [Function.update_of_ne hne]
    exact h.linked c b e late hl
  · rw [← h.order]
    simp
  · intro hf
    cases hf
  · intro _
    simp

/-- The reader takes the whole stack. -/
theorem swap (h : Holds q S R H) {k : Fetcher} {e : Pointer} {replaced : Bool}
    (hr : q.reader = .swap k e) (hs : q.stack = e) (hd : e.isDummy = false) (hn : e ≠ .null) :
    Holds { q with stack := k.endPtr, reader := .reverse k e, replaced := replaced } [] S [] := by
  obtain rfl := h.rest_nil (by rw [hr]; rfl)
  obtain rfl := h.drained (by rw [hr]; rfl)
  have hbelow : q.stack.below = e := by rw [hs, Pointer.below, hd, if_neg (by decide)]
  have hstack := h.stack
  rw [hbelow] at hstack
  have hend : k.endPtr.below = .null := by cases k <;> rfl
  refine ⟨hend, hstack, h.head, ?_, fun b hb => h.inUse b (by simpa using hb), fun c b hb => ?_,
    h.linked, ?_, ?_, ?_⟩
  · simpa using h.nodup
  · simpa using h.own c b hb
  · rw [← h.order]
    simp
  · intro hf
    cases hf
  · intro _ hnil
    have hS : S = [] := by simpa using hnil
    exact hn ((Linked.null_iff (by simp) hstack).mpr hS)

end Holds

-- -------------------------
-- Steps
-- -------------------------

/-- The call has put its element on the stack. -/
def Call.accepted : Call → Bool
  | .returned result _ => result ≠ .queueClosed
  | _ => false

/-- What is known about the progress of the calls and of the reader. -/
structure Control (q : Queue) : Prop where
  replaced : q.replaced = true ↔ q.stack = .null
  closing : q.replaced = q.reader.closing
  swap : ∀ k e, q.reader = .swap k e → e ≠ .null
  loaded : ∀ c a e late, q.calls c = .loaded a e late → (late = true ↔ e = .null)
  linked : ∀ c a e late, q.calls c = .linked a e late → late = false ∧ e ≠ .null
  returned : ∀ c result late, q.calls c = .returned result late →
    (result = .queueClosed ↔ late = true)
  pushed : ∀ c, c ∈ q.pushed ↔ (q.calls c).accepted = true
  nodup : q.pushed.Nodup

/-- What a step can do. -/
inductive Moved (q : Queue) : Queue → Prop where
  | begin {c : CallId} {a : Addr} (hc : q.calls c = .notStarted) (ha : q.inUse a = false) :
      Moved q { q with
        value := Function.update q.value a c
        inUse := Function.update q.inUse a true
        calls := Function.update q.calls c (.start a) }
  | load {c : CallId} {a : Addr} (hc : (q.calls c).element? = some a) :
      Moved q { q with calls := Function.update q.calls c (.loaded a q.stack q.replaced) }
  | refuse {c : CallId} {a : Addr} {late : Bool} (hc : q.calls c = .loaded a .null late) :
      Moved q { q with
        inUse := Function.update q.inUse a false
        calls := Function.update q.calls c (.returned .queueClosed late) }
  | link {c : CallId} {a : Addr} {e : Pointer} {late : Bool} (hc : q.calls c = .loaded a e late)
      (he : e ≠ .null) :
      Moved q { q with
        next := Function.update q.next a e.below
        calls := Function.update q.calls c (.linked a e late) }
  | push {c : CallId} {a : Addr} {e : Pointer} {late : Bool} {result : EnqueueResult}
      (hc : q.calls c = .linked a e late) (hs : q.stack = e)
      (hr : result = if e = .readerBlockedDummy then .unblockedReader else .success) :
      Moved q { q with
        stack := .node a
        calls := Function.update q.calls c (.returned result late)
        pushed := q.pushed ++ [c] }
  | depart {a : Addr} {how : Departure} {r : QueueReader} (hr : q.reader.rest = .null)
      (ha : q.head = .node a) (hr' : r.rest = .null) (hf : r.drained = false)
      (hv : r.reversing = false) (hc : r.closing = q.reader.closing) : Moved q (q.depart a how r)
  | reader {r : QueueReader} {p : Pointer} {replaced : Bool} (hr : q.reader.rest = .null)
      (hr' : r.rest = .null) (hp : p.below = q.stack.below)
      (hf : r.drained = true → q.head = .null ∨ q.reader.drained = true)
      (hv : r.reversing = false) (hrep : replaced = true ↔ p = .null) (hc : replaced = r.closing)
      (hs : ∀ k e, r = .swap k e → e ≠ .null) (hn : q.stack = .null → p = .null)
      (hh : p ≠ q.stack → p = .null → q.reader.drained = true) :
      Moved q { q with stack := p, reader := r, replaced := replaced }
  | reverse {k : Fetcher} {a : Addr} (hr : q.reader = .reverse k (.node a)) :
      Moved q { q with
        next := Function.update q.next a q.head
        head := .node a
        reader := .reverse k (q.next a) }
  | swap {k : Fetcher} {e : Pointer} (hr : q.reader = .swap k e) (hs : q.stack = e)
      (hd : e.isDummy = false) :
      Moved q { q with
        stack := k.endPtr
        reader := .reverse k e
        replaced := q.replaced || k = Fetcher.close }

namespace Control

/-- A step of the reader that only changes where it is. -/
theorem goes (h : Control q) {r : QueueReader} (hr : q.reader.rest = .null) (hr' : r.rest = .null)
    (hf : r.drained = true → q.head = .null ∨ q.reader.drained = true)
    (hv : r.reversing = false) (hc : r.closing = q.reader.closing)
    (hs : ∀ k e, r = .swap k e → e ≠ .null) : Moved q { q with reader := r } :=
  .reader hr hr' rfl hf hv h.replaced (h.closing.trans hc.symm) hs id (fun hne => absurd rfl hne)

/-- The reader blocks or unblocks. -/
theorem marks (h : Control q) {p : Pointer} (hr : q.reader = .idle)
    (hp : p.below = q.stack.below) (hn : p ≠ .null) : Moved q { q with stack := p } := by
  refine .reader (r := q.reader) (by rw [hr]; rfl) (by rw [hr]; rfl) hp
    (fun hf => by simp [hr, QueueReader.drained] at hf) (by rw [hr]; rfl) ?_ h.closing h.swap ?_
    fun _ hp => absurd hp hn
  · rw [h.closing, hr]
    exact iff_of_false (by simp [QueueReader.closing]) hn
  · intro hs
    have hrep := h.replaced.mpr hs
    rw [h.closing, hr] at hrep
    cases hrep

/-- Before `close` replaces the stack, it is not null. -/
theorem stack_ne (h : Control q) (hr : q.reader.closing = false) : q.stack ≠ .null := by
  intro hs
  have := h.replaced.mpr hs
  rw [h.closing, hr] at this
  cases this

/-- The steps of a writer. -/
theorem stepEnqueue_cases {c : CallId} (hs : q.stepEnqueue c = some q') : Moved q q' := by
  unfold Queue.stepEnqueue at hs
  -- the three states of a call: it loads the stack, links its element, and swaps it in
  split at hs
  · next a hc =>
    cases hs
    exact .load (by rw [hc]; rfl)
  · next a e late hc =>
    split at hs
    · next he =>
      cases hs
      exact .refuse (he ▸ hc)
    · next he =>
      cases hs
      exact .link hc he
  · next a e late hc =>
    split at hs
    · next he =>
      cases hs
      exact .push hc he rfl
    · cases hs
      exact .load (by rw [hc]; rfl)
  · cases hs

/-- The steps of the reader. -/
theorem stepReader_cases (h : Control q) {spurious : Bool}
    (hs : q.stepReader spurious = some q') : Moved q q' := by
  unfold Queue.stepReader at hs
  split at hs
  · -- the fetch loads the stack
    next k hr =>
    cases hs
    have hopen : q.reader.closing = false := by rw [hr]; rfl
    refine h.goes (by rw [hr]; rfl) rfl (fun _ => Or.inr (by rw [hr]; rfl)) rfl
      (by rw [hopen]; rfl) ?_
    intro k' e he
    cases he
    exact h.stack_ne hopen
  · -- then it exchanges the stack for the end marker
    next k e hr =>
    have hopen : q.reader.closing = false := by rw [hr]; rfl
    have hrest : q.reader.rest = .null := by rw [hr]; rfl
    split at hs
    · next he =>
      -- nothing to fetch; `close` never sees a queue that is closed already
      cases hs
      cases k with
      | tryPop => exact h.goes hrest rfl (fun hf => by cases hf) rfl (by rw [hopen]; rfl) (by simp)
      | close => exact absurd he (h.swap _ _ hr)
    · split at hs
      · next hcas =>
        split at hs
        · next hd =>
          cases hs
          have hbelow : ∀ p : Pointer, p.below = .null → p.below = q.stack.below := by
            intro p hp
            rw [hp, hcas.1, Pointer.below, hd, if_pos rfl]
          cases k with
          | tryPop =>
            refine .reader (p := .stackEmptyDummy) hrest rfl (hbelow _ rfl)
              (fun hf => by cases hf) rfl
              ?_ ?_ (by simp) (fun hs => absurd hs (h.stack_ne hopen)) (by simp)
            · simp [h.closing, hopen]
            · rw [h.closing, hopen]
              rfl
          | close =>
            exact .reader (p := .null) hrest rfl (hbelow _ rfl)
              (fun _ => Or.inr (by rw [hr]; rfl)) rfl
              (by simp) (by simp [QueueReader.closing]) (by simp) (fun _ => rfl)
              fun _ _ => by rw [hr]; rfl
        · next hd =>
          cases hs
          exact .swap hr hcas.1 (by simpa using hd)
      · cases hs
        refine h.goes hrest rfl (fun _ => Or.inr (by rw [hr]; rfl)) rfl (by rw [hopen]; rfl) ?_
        intro k' e' he
        cases he
        exact h.stack_ne hopen
  · -- then it reverses what it got
    next k e hr =>
    split at hs
    · -- the whole list is reversed
      cases k with
      | tryPop =>
        unfold Queue.fetchedData at hs
        dsimp only at hs
        split at hs
        · next a ha =>
          cases hs
          exact .depart (by rw [hr]; rfl) ha rfl rfl rfl (by rw [hr]; rfl)
        · cases hs
      | close =>
        cases hs
        exact h.goes (by rw [hr]; rfl) rfl (fun hf => by cases hf) rfl (by rw [hr]; rfl) (by simp)
    · cases hs
      exact .reverse hr
    · cases hs
  · -- closing clears the queue's own list, then fetches, and clears again
    next hr =>
    unfold Queue.clearCachedElements at hs
    split at hs
    · next a ha =>
      cases hs
      exact .depart (by rw [hr]; rfl) ha (by rw [hr]; rfl) (by rw [hr]; rfl) (by rw [hr]; rfl) rfl
    · next ha =>
      cases hs
      exact h.goes (by rw [hr]; rfl) rfl (fun _ => Or.inl ha) rfl (by rw [hr]; rfl) (by simp)
    · cases hs
  · next hr =>
    unfold Queue.clearCachedElements at hs
    split at hs
    · next a ha =>
      cases hs
      exact .depart (by rw [hr]; rfl) ha (by rw [hr]; rfl) (by rw [hr]; rfl) (by rw [hr]; rfl) rfl
    · next ha =>
      cases hs
      exact h.goes (by rw [hr]; rfl) rfl (fun _ => Or.inl ha) rfl (by rw [hr]; rfl) (by simp)
    · cases hs
  · cases hs

/-- Inversion of a step. -/
theorem step_cases (h : Control q) {i : Queue.Input} (hs : q.step i = some q') : Moved q q' := by
  cases i with
  | beginEnqueue c a =>
    replace hs : q.beginEnqueue c a = some q' := hs
    unfold Queue.beginEnqueue at hs
    split at hs
    · next hc =>
      cases hs
      exact .begin hc.1 hc.2
    · cases hs
  | stepEnqueue c => exact stepEnqueue_cases hs
  | tryPop =>
    replace hs : q.tryPop = some q' := hs
    unfold Queue.tryPop at hs
    split at hs
    · next hr =>
      split at hs
      · next ha =>
        cases hs
        exact h.goes (by rw [hr]; rfl) rfl (fun _ => Or.inl ha) rfl (by rw [hr]; rfl) (by simp)
      · next a ha =>
        cases hs
        exact .depart (by rw [hr]; rfl) ha rfl rfl rfl (by rw [hr])
      · cases hs
    · cases hs
  | tryBlock =>
    replace hs : (if q.reader = .idle then some q.tryBlock.2 else none) = some q' := hs
    split at hs
    · next hr =>
      cases hs
      unfold Queue.tryBlock
      split
      · next hd => exact h.marks hr (by rw [hd]; rfl) (by simp)
      · exact h.marks hr rfl (h.stack_ne (by rw [hr]; rfl))
    · cases hs
  | tryUnblock =>
    replace hs : (if q.reader = .idle then some q.tryUnblock.2 else none) = some q' := hs
    split at hs
    · next hr =>
      cases hs
      unfold Queue.tryUnblock
      split
      · next hd => exact h.marks hr (by rw [hd]; rfl) (by simp)
      · exact h.marks hr rfl (h.stack_ne (by rw [hr]; rfl))
    · cases hs
  | close =>
    replace hs : (if q.reader = .idle then some { q with reader := .clear } else none) = some q' :=
      hs
    split at hs
    · next hr =>
      cases hs
      exact h.goes (by rw [hr]; rfl) rfl (fun hf => by cases hf) rfl (by rw [hr]; rfl) (by simp)
    · cases hs
  | stepReader spurious => exact h.stepReader_cases hs

/-- The calls after a step of one of them, with what is known about each kind of call. -/
theorem update (h : Control q) (c : CallId) (call : Call) {q' : Queue}
    (hcalls : q'.calls = Function.update q.calls c call) (hreader : q'.reader = q.reader)
    (hreplaced : q'.replaced = q.replaced) (hstack : q'.stack = .null ↔ q.stack = .null)
    (hload : ∀ a e late, call = .loaded a e late → (late = true ↔ e = .null))
    (hlink : ∀ a e late, call = .linked a e late → late = false ∧ e ≠ .null)
    (hret : ∀ result late, call = .returned result late → (result = .queueClosed ↔ late = true))
    (hpushed : ∀ c', c' ∈ q'.pushed ↔ (q'.calls c').accepted = true) (hnodup : q'.pushed.Nodup) :
    Control q' := by
  refine ⟨?_, ?_, ?_, fun c' a e late hc => ?_, fun c' a e late hc => ?_,
    fun c' result late hc => ?_, hpushed, hnodup⟩
  · rw [hreplaced, hstack]
    exact h.replaced
  · rw [hreplaced, hreader]
    exact h.closing
  · rw [hreader]
    exact h.swap
  · rw [hcalls] at hc
    rcases update_cases q.calls c call c' with ⟨-, hu⟩ | ⟨-, hu⟩
    · exact hload a e late (hu.symm.trans hc)
    · exact h.loaded c' a e late (hu.symm.trans hc)
  · rw [hcalls] at hc
    rcases update_cases q.calls c call c' with ⟨-, hu⟩ | ⟨-, hu⟩
    · exact hlink a e late (hu.symm.trans hc)
    · exact h.linked c' a e late (hu.symm.trans hc)
  · rw [hcalls] at hc
    rcases update_cases q.calls c call c' with ⟨-, hu⟩ | ⟨-, hu⟩
    · exact hret result late (hu.symm.trans hc)
    · exact h.returned c' result late (hu.symm.trans hc)

/-- A call that was not accepted and still is not. -/
theorem pushed_update (h : Control q) {c : CallId} {call : Call}
    (hc : (q.calls c).accepted = false) (hc' : call.accepted = false) (c' : CallId) :
    c' ∈ q.pushed ↔ (Function.update q.calls c call c').accepted = true := by
  rcases update_cases q.calls c call c' with ⟨rfl, hu⟩ | ⟨-, hu⟩
  · rw [hu, hc', h.pushed, hc]
  · rw [hu, h.pushed]

/-- A step of the reader. -/
theorem of_reader (h : Control q) {q' : Queue} (hcalls : q'.calls = q.calls)
    (hpushed : q'.pushed = q.pushed) (hrep : q'.replaced = true ↔ q'.stack = .null)
    (hc : q'.replaced = q'.reader.closing) (hs : ∀ k e, q'.reader = .swap k e → e ≠ .null) :
    Control q' := by
  refine ⟨hrep, hc, hs, ?_, ?_, ?_, ?_, ?_⟩
  · rw [hcalls]
    exact h.loaded
  · rw [hcalls]
    exact h.linked
  · rw [hcalls]
    exact h.returned
  · rw [hcalls, hpushed]
    exact h.pushed
  · rw [hpushed]
    exact h.nodup

/-- A call that still holds its element has not been accepted. -/
theorem accepted_of_element {call : Call} {a : Addr} (h : call.element? = some a) :
    call.accepted = false := by
  cases call with
  | returned => cases h
  | _ => rfl

/-- Every move keeps the control state. -/
theorem moved (h : Control q) (hm : Moved q q') : Control q' := by
  cases hm with
  -- one case for each move
  | @begin c a hc =>
    refine h.update c (.start a) rfl rfl rfl Iff.rfl (by simp) (by simp) (by simp)
      (h.pushed_update ?_ rfl) h.nodup
    rw [hc]
    rfl
  | @load c a hc =>
    refine h.update c (.loaded a q.stack q.replaced) rfl rfl rfl Iff.rfl ?_ (by simp)
      (by simp) (h.pushed_update (accepted_of_element hc) rfl) h.nodup
    intro a' e late he
    cases he
    exact h.replaced
  | @refuse c a late hc =>
    refine h.update c (.returned .queueClosed late) rfl rfl rfl Iff.rfl (by simp)
      (by simp) ?_ (h.pushed_update ?_ rfl) h.nodup
    · intro result late' he
      cases he
      exact iff_of_true rfl ((h.loaded c a .null late hc).mpr rfl)
    · rw [hc]
      rfl
  | @link c a e late hc he =>
    refine h.update c (.linked a e late) rfl rfl rfl Iff.rfl (by simp) ?_ (by simp)
      (h.pushed_update ?_ rfl) h.nodup
    · intro a' e' late' heq
      cases heq
      refine ⟨?_, he⟩
      rw [Bool.eq_false_iff]
      exact fun hl => he ((h.loaded c a e late hc).mp hl)
    · rw [hc]
      rfl
  | @push c a e late result hc hs hr =>
    -- the stack that was swapped is not null, so the queue was open
    have hlate := h.linked c a e late hc
    have hres : result ≠ .queueClosed := by
      rw [hr]
      split <;> simp
    have hacc : (Call.returned result late).accepted = true := by simpa [Call.accepted] using hres
    have hnew : c ∉ q.pushed := by
      rw [h.pushed, hc]
      simp [Call.accepted]
    refine h.update c (.returned result late) rfl rfl rfl ?_ (by simp) (by simp) ?_
      (fun c' => ?_) ?_
    · exact iff_of_false (by simp) (hs ▸ hlate.2)
    · intro result' late' he
      cases he
      exact iff_of_false hres (by simp [hlate.1])
    · show c' ∈ q.pushed ++ [c] ↔ (Function.update q.calls c _ c').accepted = true
      rw [List.mem_append, List.mem_singleton]
      rcases update_cases q.calls c (.returned result late) c' with ⟨rfl, hu⟩ | ⟨hcc, hu⟩
      · rw [hu]
        exact iff_of_true (Or.inr rfl) hacc
      · rw [hu, h.pushed]
        exact or_iff_left hcc
    · exact List.nodup_append.mpr ⟨h.nodup, by simp, by
        intro x hx y hy
        rw [List.mem_singleton.mp hy]
        rintro rfl
        exact hnew hx⟩
  | @depart a how r _ _ _ hf _ hc =>
    refine h.of_reader rfl rfl h.replaced (h.closing.trans hc.symm) fun k e he => ?_
    replace he : r = .swap k e := he
    rw [he] at hf
    cases hf
  | reader _ _ _ _ _ hrep hc hs => exact h.of_reader rfl rfl hrep hc hs
  | @reverse k a hr =>
    refine h.of_reader rfl rfl h.replaced ?_ (by simp)
    rw [h.closing, hr]
    cases k <;> rfl
  | @swap k e hr hs hd =>
    have hopen : q.replaced = false := by
      rw [h.closing, hr]
      rfl
    refine h.of_reader rfl rfl ?_ ?_ (by simp)
    · rw [hopen]
      cases k <;> simp [Fetcher.endPtr]
    · rw [hopen]
      cases k <;> rfl

end Control

/-- Every step keeps the elements apart and in order. -/
theorem Holds.moved (h : Holds q S R H) (hc : Control q) (hm : Moved q q') :
    ∃ S' R' H', Holds q' S' R' H' := by
  cases hm with
  | begin hc ha => exact ⟨S, R, H, h.begin hc ha⟩
  | @load c a hel =>
    refine ⟨S, R, H, h.calls (fun b hb => ?_) (by simp)⟩
    cases hb
    exact hel
  | refuse hl => exact ⟨S, R, H, h.refuse (by rw [hl]; rfl)⟩
  | link hl => exact ⟨S, R, H, h.link (by rw [hl]; rfl)⟩
  | push hl hs => exact ⟨_, R, H, h.push hl hs⟩
  | @depart a how r hr ha hr' hf hv =>
    obtain ⟨H', -, h'⟩ := h.depart how r hr ha hr' hf hv
    exact ⟨S, [], H', h'⟩
  | reader hr hr' hp hf hv =>
    refine ⟨S, R, H, h.reader hr hr' hp (fun hfetch => ?_) hv⟩
    rcases hf hfetch with hn | hn
    · have hhead := h.head
      rw [hn] at hhead
      exact hhead.eq_nil
    · exact h.drained hn
  | reverse hr =>
    obtain ⟨R', -, h'⟩ := h.reverse hr
    exact ⟨S, R', _, h'⟩
  | swap hr hs hd => exact ⟨[], S, [], h.swap hr hs hd (hc.swap _ _ hr)⟩

/-- The elements are in order in every reachable state. -/
theorem queue_invariant (h : q.Reachable) : Control q ∧ ∃ S R H, Holds q S R H := by
  refine h.invariant (I := fun q => Control q ∧ ∃ S R H, Holds q S R H) ?_ ?_
  · rintro _ ⟨next, value, rfl⟩
    refine ⟨⟨?_, rfl, ?_, ?_, ?_, ?_, ?_, ?_⟩, [], [], [],
      ⟨rfl, rfl, rfl, ?_, ?_, ?_, ?_, rfl, ?_, ?_⟩⟩
    all_goals simp [Queue.initial, Call.accepted, Call.element?, QueueReader.drained,
      QueueReader.reversing]
  · rintro q i q' ⟨hc, S, R, H, hh⟩ - hs
    have hm := hc.step_cases hs
    exact ⟨hc.moved hm, hh.moved hc hm⟩

end BoostActor
