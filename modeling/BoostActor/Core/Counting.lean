import BoostActor.Core.PartitionedList
import BoostActor.Core.QueueInvariant

/-!
# Counting the elements of a mailbox

`single_reader_queue::count` counts the elements in the cache, fetches new data and counts what is
in the list of the reader. Other than `take_head` it fetches also if this list is not empty, and
the elements that it fetches are put before those that are in the list already.

Here, a call of the reader is one step: it accesses the stack once, apart from attempts that have
no effect, and everything else belongs to the reader.

* `count_spec` — the result of `count`, and the queue afterwards;
* `pops_eq` — what later calls of `try_pop` return;
* `counting_observes_iff` — when counting does not change the order of the elements.
-/

namespace BoostActor

open Lib

-- -------------------------
-- Operations
-- -------------------------

namespace Queue

/-- The inner loop of `fetch_new_data`. -/
def prependAll : Nat → Queue → Pointer → Option Queue
  | 0, _, _ => none
  | fuel + 1, q, e =>
    match e with
    | .null => some q
    | .node a =>
      let next := q.next a
      prependAll fuel { q with next := Function.update q.next a q.head, head := .node a } next
    | _ => none

/-- `fetch_new_data()`, without its result. -/
def fetchNewData (q : Queue) (fuel : Nat) : Option Queue :=
  let e := q.stack
  if e = .stackEmptyDummy then some q
  else
    let q := { q with stack := .stackEmptyDummy }
    if e.isDummy then some q else prependAll fuel q e

/-- `take_head()`: the element, if there is one. -/
def takeHead (q : Queue) (fuel : Nat) : Option (Option CallId × Queue) :=
  let fetched := if q.head ≠ .null then some q else q.fetchNewData fuel
  fetched.map fun q => match q.head with
    | .node a => (some (q.value a), q.depart a .popped .idle)
    | _ => (none, q)

/-- The loop of `count`; `maxCount` is what is left of the argument. -/
def countList (q : Queue) : Pointer → Nat → Nat
  | .node a, maxCount + 1 => q.countList (q.next a) maxCount + 1
  | _, _ => 0

/-- `count(max_count)`. -/
def count (q : Queue) (cache : PartitionedList CallId) (maxCount fuel : Nat) :
    Option (Nat × Queue) :=
  let res := cache.count maxCount
  if maxCount ≤ res then some (res, q)
  else (q.fetchNewData fuel).map fun q => (res + q.countList q.head (maxCount - res), q)

/-- What the next calls of `try_pop` return. -/
def pops : Nat → Queue → Nat → Option (List (Option CallId))
  | 0, _, _ => some []
  | n + 1, q, fuel => (q.takeHead fuel).bind fun (x, q) => (pops n q fuel).map (x :: ·)

/-- The queue is neither closed nor blocked, and the reader may call it. -/
def isReady (q : Queue) : Prop :=
  q.reader = .idle ∧ q.stack ≠ .null ∧ q.stack ≠ .readerBlockedDummy

instance (q : Queue) : Decidable q.isReady := inferInstanceAs (Decidable (_ ∧ _ ∧ _))

/-- A step of the queue as before, or a call of `count`. -/
inductive CountingInput where
  | queue (i : Input)
  | count (cache : PartitionedList CallId) (maxCount fuel : Nat)

def stepCounting (q : Queue) : CountingInput → Option Queue
  | .queue i => q.step i
  | .count cache maxCount fuel =>
    if q.isReady then (q.count cache maxCount fuel).map (·.2) else none

/-- The states that are reached with calls of `count` in between. -/
def CountingReachable : Queue → Prop := Reach isInitial stepCounting anyStep

end Queue

-- -------------------------
-- Elements out of order
-- -------------------------

/-- The queue holds these elements, but they may have changed places. -/
def Permuted (q : Queue) (S R H : List Addr) : Prop :=
  ∃ pushed, pushed.Perm q.pushed ∧ Holds { q with pushed } S R H

variable {q q' : Queue} {S R H : List Addr}

/-- No step looks at the record of successful calls. -/
theorem Moved.permuted (h : Moved q q') {p : List CallId} (hp : p.Perm q.pushed) :
    ∃ p', p'.Perm q'.pushed ∧ Moved { q with pushed := p } { q' with pushed := p' } := by
  cases h with
  | begin hc ha => exact ⟨p, hp, .begin hc ha⟩
  | load hc => exact ⟨p, hp, .load hc⟩
  | refuse hc => exact ⟨p, hp, .refuse hc⟩
  | link hc he => exact ⟨p, hp, .link hc he⟩
  | push hc hs hr => exact ⟨p ++ [_], hp.append_right _, .push hc hs hr⟩
  | depart hr ha hr' hf hv hc => exact ⟨p, hp, .depart hr ha hr' hf hv hc⟩
  | reader hr hr' hp' hf hv hrep hc hs hn hh =>
    exact ⟨p, hp, .reader hr hr' hp' hf hv hrep hc hs hn hh⟩
  | reverse hr => exact ⟨p, hp, .reverse hr⟩
  | swap hr hs hd => exact ⟨p, hp, .swap hr hs hd⟩

/-- The order of the elements does not matter for the control state. -/
theorem Control.permuted (h : Control q) {p : List CallId} (hp : p.Perm q.pushed) :
    Control { q with pushed := p } :=
  { h with
    pushed := fun c => hp.mem_iff.trans (h.pushed c)
    nodup := hp.nodup_iff.mpr h.nodup }

namespace Permuted

/-- A step of the queue keeps what it holds, in some order. -/
theorem moved (h : Permuted q S R H) (hc : Control q) (hm : Moved q q') :
    ∃ S' R' H', Permuted q' S' R' H' := by
  obtain ⟨p, hp, hh⟩ := h
  obtain ⟨p', hp', hm'⟩ := hm.permuted hp
  obtain ⟨S', R', H', hh'⟩ := hh.moved (hc.permuted hp) hm'
  exact ⟨S', R', H', p', hp', hh'⟩

end Permuted

-- -------------------------
-- Fetching
-- -------------------------

/-- The elements on the stack are put before those in the list of the reader. -/
theorem prependAll_spec {e : Pointer} (hS : IsList q.next e S) (hH : IsList q.next q.head H)
    (hd : (S ++ H).Nodup) {fuel : Nat} (hf : S.length < fuel) :
    ∃ head next, Queue.prependAll fuel q e = some { q with head, next } ∧
      IsList next head (S.reverse ++ H) ∧ ∀ a, a ∉ S → next a = q.next a := by
  induction S generalizing q e H fuel with
  | nil =>
    obtain ⟨fuel, rfl⟩ := Nat.exists_eq_add_of_lt hf
    obtain rfl : e = .null := hS
    exact ⟨q.head, q.next, by simp [Queue.prependAll], hH, fun _ _ => rfl⟩
  | cons a S ih =>
    cases fuel with
    | zero => exact absurd hf (Nat.not_lt_zero _)
    | succ fuel =>
      obtain ⟨rfl, hS⟩ := hS
      rw [List.cons_append, List.nodup_cons, List.mem_append, not_or] at hd
      obtain ⟨⟨haS, haH⟩, hd⟩ := hd
      have hd' : (S ++ a :: H).Nodup := by
        rw [List.nodup_middle, List.nodup_cons, List.mem_append, not_or]
        exact ⟨⟨haS, haH⟩, hd⟩
      -- one iteration moves `a` to the front of the list of the reader
      let q₁ : Queue := { q with next := Function.update q.next a q.head, head := .node a }
      have hS₁ : IsList q₁.next (q.next a) S := Linked.update haS hS
      have hH₁ : IsList q₁.next q₁.head (a :: H) := Linked.push haH hH
      obtain ⟨head, next, hrun, hlist, hothers⟩ := ih hS₁ hH₁ hd' (Nat.lt_of_succ_lt_succ hf)
      refine ⟨head, next, hrun, by simpa using hlist, ?_⟩
      intro b hb
      rw [List.mem_cons, not_or] at hb
      rw [hothers b hb.2]
      exact Function.update_of_ne hb.1 ..

/-- More fuel does not matter. -/
theorem prependAll_mono {e : Pointer} {fuel fuel' : Nat} (hle : fuel ≤ fuel')
    (h : Queue.prependAll fuel q e = some q') : Queue.prependAll fuel' q e = some q' := by
  induction fuel generalizing q e fuel' with
  | zero => cases h
  | succ fuel ih =>
    cases fuel' with
    | zero => exact absurd hle (Nat.not_succ_le_zero _)
    | succ fuel' =>
      cases e with
      | null => exact h
      | node a =>
        simp only [Queue.prependAll] at h ⊢
        exact ih (Nat.le_of_succ_le_succ hle) h
      | stackEmptyDummy | readerBlockedDummy => cases h

/-- With more fuel, fetching returns the same. -/
theorem fetchNewData_mono {fuel fuel' : Nat} (hle : fuel ≤ fuel')
    (h : q.fetchNewData fuel = some q') : q.fetchNewData fuel' = some q' := by
  unfold Queue.fetchNewData at h ⊢
  dsimp only at h ⊢
  split
  · next hempty => rwa [if_pos hempty] at h
  · next hempty =>
    rw [if_neg hempty] at h
    split
    · next hdummy => rwa [if_pos hdummy] at h
    · next hdummy =>
      rw [if_neg hdummy] at h
      exact prependAll_mono hle h

namespace Permuted

/-- The elements on the stack have been put before those in the list of an idle reader. -/
theorem reversed (h : Permuted q S [] H) (hidle : q.reader = .idle) {head : Pointer}
    {next : Addr → Pointer} (hlist : IsList next head (S.reverse ++ H))
    (hothers : ∀ a, a ∉ S → next a = q.next a) :
    Permuted { q with stack := .stackEmptyDummy, head, next } [] [] (S.reverse ++ H) := by
  obtain ⟨p, hp, hh⟩ := h
  have hmem : ∀ a, a ∈ [] ++ [] ++ (S.reverse ++ H) ↔ a ∈ S ++ [] ++ H := by simp
  refine ⟨q.departed.map Prod.fst ++ (S.reverse ++ H).map q.value, ?_, ?_⟩
  · have horder : q.departed.map Prod.fst ++ ([].reverse ++ H ++ S.reverse).map q.value = p :=
      hh.order
    refine List.Perm.trans ?_ (horder ▸ hp)
    -- the elements of the stack come behind the list of the reader, in reverse
    exact (List.perm_append_comm.map _).append_left _
  · refine ⟨rfl, ?_, hlist, ?_, fun a ha => hh.inUse a ((hmem a).mp ha), ?_, ?_, by simp, ?_, ?_⟩
    · show IsList next q.reader.rest []
      rw [hidle]
      rfl
    · have hperm : (S.reverse ++ H).Perm (S ++ H) := (List.reverse_perm S).append_right H
      have hd : (S ++ H).Nodup := by simpa using hh.nodup
      simpa using hperm.nodup_iff.mpr hd
    · -- elements that are not in the queue yet are owned by their calls
      intro c a ha
      obtain ⟨huse, hfresh, hval⟩ := hh.own c a ha
      exact ⟨huse, fun hm => hfresh ((hmem a).mp hm), hval⟩
    · -- the element of a call of `enqueue` is not on the stack yet, so its link is as before
      intro c a e late hc
      have hfresh := (hh.own c a (by rw [show q.calls c = _ from hc]; rfl)).2.1
      show next a = e.below
      rw [hothers a fun hm => hfresh (by simp [hm])]
      exact hh.linked c a e late hc
    · intro hdr
      replace hdr : q.reader.drained = true := hdr
      rw [hidle] at hdr
      cases hdr
    · intro hrev
      replace hrev : q.reader.reversing = true := hrev
      rw [hidle] at hrev
      cases hrev

/-- `fetch_new_data` leaves nothing on the stack. -/
theorem fetch (h : Permuted q S R H) (hready : q.isReady) {fuel : Nat} (hf : S.length < fuel) :
    ∃ head next, q.fetchNewData fuel = some { q with stack := .stackEmptyDummy, head, next } ∧
      Permuted { q with stack := .stackEmptyDummy, head, next } [] [] (S.reverse ++ H) := by
  obtain ⟨hidle, hopen, hblocked⟩ := hready
  have ⟨_, _, hh⟩ := h
  obtain rfl : R = [] := hh.rest_nil (by show q.reader.rest = _; rw [hidle]; rfl)
  have hstack : IsList q.next q.stack.below S := hh.stack
  by_cases hempty : q.stack = .stackEmptyDummy
  · -- nothing has been enqueued
    rw [hempty] at hstack
    obtain rfl := IsList.eq_nil hstack
    have hsame : ({ q with stack := .stackEmptyDummy } : Queue) = q := by rw [← hempty]
    refine ⟨q.head, q.next, ?_, h.reversed hidle hh.head fun _ _ => rfl⟩
    rw [Queue.fetchNewData, if_pos hempty, hsame]
  · -- the stack is taken as a whole, and its elements are moved one by one
    have hdummy : q.stack.isDummy = false := by simp [Pointer.isDummy, hempty, hblocked]
    rw [Pointer.below, hdummy, if_neg Bool.false_ne_true] at hstack
    have hd : (S ++ H).Nodup := by simpa using hh.nodup
    let q₁ : Queue := { q with stack := .stackEmptyDummy }
    obtain ⟨head, next, hrun, hlist, hothers⟩ :=
      prependAll_spec (q := q₁) (e := q.stack) hstack hh.head hd hf
    refine ⟨head, next, ?_, h.reversed hidle hlist hothers⟩
    rw [Queue.fetchNewData, if_neg hempty, hdummy]
    exact hrun

/-- Counting the list of the reader, up to a bound. -/
theorem countList_eq {e : Pointer} (h : IsList q.next e H) (maxCount : Nat) :
    q.countList e maxCount = min maxCount H.length := by
  induction H generalizing e maxCount with
  | nil =>
    obtain rfl : e = .null := h
    simp [Queue.countList]
  | cons a H ih =>
    obtain ⟨rfl, h⟩ := h
    cases maxCount with
    | zero => simp [Queue.countList]
    | succ n =>
      rw [Queue.countList, ih h, List.length_cons]
      omega

/-- **`count` returns the number of elements, up to its bound.** It fetches new data unless there
are enough elements in the cache. -/
theorem count_spec (h : Permuted q S R H) (hready : q.isReady) {cache : PartitionedList CallId}
    {first second : List CallId} (hc : cache.Holds first second) (maxCount : Nat) {fuel : Nat}
    (hf : S.length < fuel) :
    ∃ stack head next, q.count cache maxCount fuel = some
        (min maxCount (first.length + second.length + H.length + S.length),
          { q with stack, head, next }) ∧
      ({ q with stack, head, next } : Queue).isReady ∧
      if maxCount ≤ first.length + second.length then
        Permuted { q with stack, head, next } S R H
      else Permuted { q with stack, head, next } [] [] (S.reverse ++ H) := by
  unfold Queue.count
  rw [hc.count_eq]
  by_cases hmax : maxCount ≤ first.length + second.length
  · -- the cache is enough: nothing is fetched
    refine ⟨q.stack, q.head, q.next, ?_, hready, ?_⟩
    · dsimp only
      rw [if_pos (by omega), show min maxCount (first.length + second.length) =
        min maxCount (first.length + second.length + H.length + S.length) by omega]
    · rw [if_pos hmax]
      exact h
  · obtain ⟨head, next, hfetch, hnew⟩ := h.fetch hready hf
    refine ⟨.stackEmptyDummy, head, next, ?_, ⟨hready.1, by simp, by simp⟩, ?_⟩
    · obtain ⟨p, -, hh⟩ := hnew
      have hlist : IsList next head (S.reverse ++ H) := hh.head
      dsimp only
      rw [if_neg (by omega), hfetch, Option.map_some, countList_eq hlist, List.length_append,
        List.length_reverse]
      exact congrArg some (Prod.ext (by dsimp only; omega) rfl)
    · rw [if_neg hmax]
      exact hnew

/-- `try_pop` returns the first element. -/
theorem takeHead_spec (h : Permuted q S R H) (hready : q.isReady) {fuel : Nat}
    (hf : S.length < fuel) :
    ∃ q' S' H', q.takeHead fuel = some ((H ++ S.reverse).head?.map q.value, q') ∧
      Permuted q' S' [] H' ∧ q'.isReady ∧ q'.value = q.value ∧
      H' ++ S'.reverse = (H ++ S.reverse).tail ∧ S'.length < fuel := by
  -- an element is in the list of the reader, before or after fetching
  have htake : ∀ {q₁ : Queue} {S₁ R₁ H₁ : List Addr} {a : Addr}, Permuted q₁ S₁ R₁ (a :: H₁) →
      q₁.isReady → q₁.head = .node a ∧ Permuted (q₁.depart a .popped .idle) S₁ [] H₁ ∧
        (q₁.depart a .popped .idle).isReady := by
    rintro q₁ S₁ R₁ H₁ a ⟨p, hp, hh⟩ hready
    have hhead : q₁.head = .node a := hh.head.1
    have hrest : ({ q₁ with pushed := p } : Queue).reader.rest = .null := by
      show q₁.reader.rest = _
      rw [hready.1]
      rfl
    obtain ⟨H', heq, hh'⟩ := hh.depart .popped .idle hrest hhead rfl rfl rfl
    cases heq
    exact ⟨hhead, ⟨p, hp, hh'⟩, rfl, hready.2⟩
  cases H with
  | cons a H =>
    -- there is an element, which is taken
    obtain ⟨hhead, hdep, hready'⟩ := htake h hready
    refine ⟨q.depart a .popped .idle, S, H, ?_, hdep, hready', rfl, rfl, hf⟩
    rw [Queue.takeHead, if_pos (by rw [hhead]; simp)]
    simp [hhead]
  | nil =>
    have hhead : q.head = .null := by
      obtain ⟨p, -, hh⟩ := h
      exact hh.head
    obtain ⟨head, next, hfetch, hnew⟩ := h.fetch hready hf
    -- the list of the reader is empty, so that the stack is fetched first
    rw [List.append_nil] at hnew
    rw [Queue.takeHead, if_neg (by rw [hhead]; simp), hfetch, Option.map_some]
    let q₁ : Queue := { q with stack := .stackEmptyDummy, head, next }
    have hready₁ : q₁.isReady := ⟨hready.1, by simp [q₁], by simp [q₁]⟩
    cases hS : S.reverse with
    | nil =>
      rw [hS] at hnew
      -- there is nothing to fetch either
      obtain ⟨p, hp, hh⟩ := hnew
      have hnull : head = .null := hh.head
      refine ⟨q₁, [], [], ?_, ⟨p, hp, hh⟩, hready₁, rfl, by simp,
        Nat.zero_lt_of_lt hf⟩
      simp [q₁, hnull]
    | cons a H =>
      rw [hS] at hnew
      obtain ⟨hhead₁, hdep, hready'⟩ := htake hnew hready₁
      refine ⟨q₁.depart a .popped .idle, [], H, ?_, hdep, hready', rfl, by simp,
        Nat.zero_lt_of_lt hf⟩
      have hnode : head = .node a := hhead₁
      simp [q₁, hnode]

end Permuted

-- -------------------------
-- Order
-- -------------------------

/-- Elements are taken from the front of a list. -/
def fronts {α : Type} : Nat → List α → List (Option α)
  | 0, _ => []
  | n + 1, xs => xs.head? :: fronts n xs.tail

/-- What is taken from the front tells the list. -/
theorem fronts_injective {α : Type} {xs ys : List α} (h : ∀ n, fronts n xs = fronts n ys) :
    xs = ys := by
  have hhead : xs.head? = ys.head? := (List.cons.inj (h 1)).1
  have htail : ∀ n, fronts n xs.tail = fronts n ys.tail := fun n => (List.cons.inj (h (n + 1))).2
  induction xs generalizing ys with
  | nil =>
    cases ys with
    | nil => rfl
    | cons y ys => cases hhead
  | cons x xs ih =>
    cases ys with
    | nil => cases hhead
    | cons y ys =>
      cases hhead
      have hrest : ∀ n, fronts n xs = fronts n ys := htail
      have hheads := (List.cons.inj (hrest 1)).1
      exact congrArg _ (ih hrest hheads fun n => (List.cons.inj (hrest (n + 1))).2)

/-- Later calls of `try_pop` return the elements in the list of the reader and then those on the
stack. -/
theorem Permuted.pops_eq (h : Permuted q S R H) (hready : q.isReady) {fuel : Nat}
    (hf : S.length < fuel) (n : Nat) :
    Queue.pops n q fuel = some (fronts n ((H ++ S.reverse).map q.value)) := by
  induction n generalizing q S R H with
  | zero => rfl
  | succ n ih =>
    obtain ⟨q', S', H', htake, h', hready', hvalue, hrest, hf'⟩ := h.takeHead_spec hready hf
    rw [Queue.pops, htake, Option.bind_some]
    dsimp only
    rw [ih h' hready' hf', Option.map_some, hvalue, hrest, fronts, List.map_tail, List.head?_map]

/-- Distinct elements change their order if two lists change places. -/
theorem append_comm_iff {α : Type} {xs ys : List α} (hd : (xs ++ ys).Nodup) :
    ys ++ xs = xs ++ ys ↔ xs = [] ∨ ys = [] := by
  constructor
  · intro h
    cases xs with
    | nil => exact Or.inl rfl
    | cons x xs =>
      cases ys with
      | nil => exact Or.inr rfl
      | cons y ys =>
        -- the first elements would be the same
        obtain ⟨rfl, -⟩ := List.cons.inj h
        exact absurd rfl ((List.nodup_append.mp hd).2.2 y List.mem_cons_self y List.mem_cons_self)
  · rintro (rfl | rfl)
    · simp
    · simp

-- -------------------------
-- Runs
-- -------------------------

/-- The elements in a state that is reached with calls of `count`. -/
theorem counting_invariant (h : q.CountingReachable) :
    Control q ∧ ∃ S R H, Permuted q S R H := by
  refine Reach.invariant (I := fun q => Control q ∧ ∃ S R H, Permuted q S R H) ?_ ?_ h
  · -- nothing has been counted yet
    intro q hq
    obtain ⟨hc, S, R, H, hh⟩ := queue_invariant (.init hq)
    exact ⟨hc, S, R, H, q.pushed, .refl _, hh⟩
  · rintro q i q' ⟨hc, S, R, H, hh⟩ - hs
    cases i with
    | queue i =>
      have hm := hc.step_cases hs
      exact ⟨hc.moved hm, hh.moved hc hm⟩
    | count cache maxCount fuel =>
      replace hs : (if q.isReady then (q.count cache maxCount fuel).map (·.2) else none) =
        some q' := hs
      rw [Option.ite_none_right_eq_some, Option.map_eq_some_iff] at hs
      obtain ⟨hready, ⟨n, q'⟩, hcount, rfl⟩ := hs
      unfold Queue.count at hcount
      dsimp only at hcount
      split at hcount
      · cases hcount
        exact ⟨hc, S, R, H, hh⟩
      · -- fetching returned with this fuel, so it returns the same with enough of it
        rw [Option.map_eq_some_iff] at hcount
        obtain ⟨q'', hfetch, heq⟩ := hcount
        cases heq
        have hle : fuel ≤ max fuel (S.length + 1) := Nat.le_max_left ..
        obtain ⟨head, next, hfetch', hnew⟩ := hh.fetch hready (Nat.le_max_right fuel (S.length + 1))
        cases (fetchNewData_mono hle hfetch).symm.trans hfetch'
        refine ⟨hc.of_reader rfl rfl ?_ hc.closing hc.swap, [], [], _, hnew⟩
        rw [hc.replaced]
        exact iff_of_false hready.2.1 (by simp)

/-- The elements of a queue are distinct. -/
theorem Permuted.nodup_values (h : Permuted q S R H) (hc : Control q) (hready : q.isReady) :
    ((H ++ S.reverse).map q.value).Nodup := by
  obtain ⟨p, hp, hh⟩ := h
  obtain rfl : R = [] := hh.rest_nil (by show q.reader.rest = _; rw [hready.1]; rfl)
  have hd : p.Nodup := hp.nodup_iff.mpr hc.nodup
  rw [← show _ = p from hh.order] at hd
  exact (List.nodup_append.mp hd).2.1

/-- **Counting is an observation if and only if nothing is fetched in front of other elements.** In
every state that is neither closed nor blocked, `count` returns the number of elements in the cache,
in the list of the reader and on the stack, up to its bound; later calls of `try_pop` return the
same elements as without this call if and only if the list of the reader or the stack is empty, or
the cache holds as many elements as are to be counted. -/
theorem counting_observes_iff (h : q.CountingReachable) (hready : q.isReady)
    {cache : PartitionedList CallId} {first second : List CallId} (hc : cache.Holds first second) :
    ∃ S H, IsList q.next q.stack.below S ∧ IsList q.next q.head H ∧
      ∀ maxCount fuel, S.length < fuel → ∃ n q', q.count cache maxCount fuel = some (n, q') ∧
        ((n = min maxCount (first.length + second.length + H.length + S.length) ∧
            ∀ k, Queue.pops k q' fuel = Queue.pops k q fuel) ↔
          H = [] ∨ S = [] ∨ maxCount ≤ first.length + second.length) := by
  obtain ⟨hcontrol, S, R, H, hh⟩ := counting_invariant h
  have hlists : IsList q.next q.stack.below S ∧ IsList q.next q.head H := by
    obtain ⟨p, -, hh⟩ := hh
    exact ⟨hh.stack, hh.head⟩
  refine ⟨S, H, hlists.1, hlists.2, ?_⟩
  intro maxCount fuel hf
  obtain ⟨stack, head, next, hcount, hready', hnew⟩ := hh.count_spec hready hc maxCount hf
  refine ⟨_, _, hcount, ?_⟩
  rw [and_iff_right rfl]
  have hbefore := hh.pops_eq hready hf
  by_cases hmax : maxCount ≤ first.length + second.length
  · -- nothing is fetched
    rw [if_pos hmax] at hnew
    refine iff_of_true (fun k => ?_) (Or.inr (Or.inr hmax))
    rw [hnew.pops_eq hready' hf, hbefore]
  · -- the elements of the stack now come first, and elements are distinct
    rw [if_neg hmax] at hnew
    have hafter := hnew.pops_eq hready' (Nat.zero_lt_of_lt hf)
    have hd := hh.nodup_values hcontrol hready
    rw [List.map_append] at hd
    have horder : (∀ k, Queue.pops k { q with stack, head, next } fuel = Queue.pops k q fuel) ↔
        S.reverse.map q.value ++ H.map q.value = H.map q.value ++ S.reverse.map q.value := by
      simp only [hafter, hbefore, Option.some.injEq, List.map_append, List.reverse_nil,
        List.append_nil]
      exact ⟨fronts_injective, fun heq k => by rw [heq]⟩
    rw [horder, append_comm_iff hd]
    simp [hmax]

/-- The steps of one call of `enqueue`. -/
def Queue.enqueueSteps (c : CallId) : List Queue.CountingInput :=
  .queue (.beginEnqueue c c) :: List.replicate 3 (.queue (.stepEnqueue c))

/-- Two elements have been enqueued and not been fetched yet, and the cache holds another one. -/
theorem counting_observes_two : ∃ q : Queue, q.CountingReachable ∧
    IsList q.next q.stack.below [2, 1] ∧ IsList q.next q.head [] ∧
      ∃ n q', q.count (PartitionedList.empty.pushSecondBack 7) 9 9 = some (n, q') ∧ n = 3 ∧
        ∀ k, Queue.pops k q' 9 = Queue.pops k q 9 := by
  obtain ⟨q, hrun, hcheck⟩ := exists_run Queue.stepCounting
    (Queue.initial (fun _ => .null) (fun _ => 0)) (Queue.enqueueSteps 1 ++ Queue.enqueueSteps 2)
    (fun q => q.isReady ∧ q.stack.below = .node 2 ∧ q.next 2 = .node 1 ∧ q.next 1 = .null ∧
      q.head = .null) (by decide)
  have hreach : q.CountingReachable := reach_of_run (.init ⟨_, _, rfl⟩) hrun
  simp only [decide_eq_true_eq] at hcheck
  obtain ⟨hready, hstack, hsecond, hfirst, hhead⟩ := hcheck
  have hcache : (PartitionedList.empty.pushSecondBack 7).Holds [] [7] :=
    PartitionedList.empty_holds.insert_last (by simp)
  obtain ⟨S, H, hS, hH, hcount⟩ := counting_observes_iff hreach hready hcache
  -- the two lists are read off the pointers
  rw [hhead] at hH
  obtain rfl := hH.eq_nil
  have hS' := hS
  rw [hstack] at hS'
  obtain ⟨S₁, rfl, hS₁⟩ := hS'.of_node
  rw [hsecond] at hS₁
  obtain ⟨S₂, rfl, hS₂⟩ := hS₁.of_node
  rw [hfirst] at hS₂
  obtain rfl := hS₂.eq_nil
  obtain ⟨n, q', hresult, hiff⟩ := hcount 9 9 (by decide)
  obtain ⟨hn, hpops⟩ := hiff.mpr (Or.inl rfl)
  exact ⟨q, hreach, hS, hhead ▸ rfl, n, q', hresult, hn, hpops⟩

/-- Two elements are enqueued, one of them is read, and another one is enqueued. Counting moves the
last one to the front. -/
theorem counting_changes_order :
    ¬ ∀ (q : Queue) (cache : PartitionedList CallId) (first second : List CallId),
      q.CountingReachable → q.isReady → cache.Holds first second → ∀ maxCount fuel n q',
        q.count cache maxCount fuel = some (n, q') →
          ∀ k, Queue.pops k q' fuel = Queue.pops k q fuel := by
  intro h
  let check : Queue → Bool := fun q => q.isReady ∧
    (q.count .empty 9 9).any fun r => decide (Queue.pops 2 r.2 9 ≠ Queue.pops 2 q 9)
  obtain ⟨q, hrun, hcheck⟩ := exists_run Queue.stepCounting
    (Queue.initial (fun _ => .null) (fun _ => 0))
    (Queue.enqueueSteps 1 ++ Queue.enqueueSteps 2 ++
      .queue .tryPop :: List.replicate 5 (.queue (.stepReader false)) ++ Queue.enqueueSteps 3)
    check (by decide)
  have hreach : q.CountingReachable := reach_of_run (.init ⟨_, _, rfl⟩) hrun
  simp only [check, decide_eq_true_eq] at hcheck
  obtain ⟨hready, hany⟩ := hcheck
  rw [Option.any_eq_true] at hany
  obtain ⟨⟨n, q'⟩, hcount, hne⟩ := hany
  rw [decide_eq_true_eq] at hne
  exact hne (h q .empty [] [] hreach hready PartitionedList.empty_holds 9 9 n q' hcount 2)

end BoostActor
