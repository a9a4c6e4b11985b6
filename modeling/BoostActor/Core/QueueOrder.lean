import Mathlib.Data.List.Nodup
import BoostActor.Core.QueueInvariant

/-!
# Correctness of the mailbox queue

Elements leave the mailbox in the order in which they were put on the stack, and all of
them have left when `close` returns. The loop of `close` around its compare-and-swap ends
unless writers keep interfering: the reader alone always comes to its end.

* `Queue.Finishes.of_reachable` — the reader can finish in every state;
* `queue_exactly_once` — every element leaves the queue once, in order.
-/

namespace BoostActor

open Lib

variable {q q' : Queue} {S R H : List Addr}

-- -------------------------
-- The reader comes to an end
-- -------------------------

/-- The reader can finish on its own: some of its steps lead to the end of `close`. -/
def Queue.Finishes (q : Queue) : Prop :=
  ∃ is q', (∀ i ∈ is, i = .close ∨ i = .stepReader false) ∧ runAll Queue.step q is = some q' ∧
    q'.reader = .closed

namespace Queue.Finishes

/-- One more step of the reader. -/
theorem step {i : Queue.Input} (hi : i = .close ∨ i = .stepReader false)
    (hs : q.step i = some q') (h : q'.Finishes) : q.Finishes := by
  obtain ⟨is, q'', his, hrun, hr⟩ := h
  refine ⟨i :: is, q'', fun j hj => ?_, ?_, hr⟩
  · rcases List.mem_cons.mp hj with rfl | hj
    · exact hi
    · exact his j hj
  · rw [runAll, hs]
    exact hrun

theorem stepReader (hs : q.stepReader false = some q') (h : q'.Finishes) : q.Finishes :=
  h.step (i := .stepReader false) (Or.inr rfl) hs

/-- The second loop of `close` is as long as the own list. -/
theorem of_clearFetched (h : Holds q S R H) (hr : q.reader = .clearFetched) : q.Finishes := by
  induction H generalizing q R with
  | nil =>
    have hhead : q.head = .null := h.head
    have hs : q.stepReader false = some { q with reader := .closed } := by
      simp [Queue.stepReader, hr, Queue.clearCachedElements, hhead]
    exact stepReader hs ⟨[], _, by simp, rfl, rfl⟩
  | cons a H ih =>
    have hhead : q.head = .node a := h.head.1
    have hs : q.stepReader false = some (q.depart a .passed .clearFetched) := by
      simp [Queue.stepReader, hr, Queue.clearCachedElements, hhead]
    obtain ⟨H', he, h'⟩ := h.depart .passed .clearFetched (by rw [hr]; rfl) hhead rfl
      rfl rfl
    cases he
    exact stepReader hs (ih h' rfl)

/-- What is left to do after `try_pop`. -/
def AfterPop (k : Fetcher) : Prop :=
  k = .tryPop → ∀ q S R H, Control q → Holds q S R H → q.reader = .idle → q.Finishes

theorem control (hc : Control q) (hs : q.stepReader false = some q') : Control q' :=
  hc.moved (hc.step_cases (i := .stepReader false) hs)

/-- Reversing is as long as the fetched list. -/
theorem of_reverse {k : Fetcher} (hk : AfterPop k) {e : Pointer} (hc : Control q)
    (h : Holds q S R H) (hr : q.reader = .reverse k e) : q.Finishes := by
  -- by induction on what is left to reverse
  induction R generalizing q H e with
  | nil =>
    have he : e = .null := by
      have := h.rest
      rw [hr] at this
      exact this
    subst he
    cases k with
    | close =>
      have hs : q.stepReader false = some { q with reader := .clearFetched } := by
        simp [Queue.stepReader, hr, Queue.fetchedData]
      have h' : Holds { q with reader := .clearFetched } S [] H :=
        h.goes (by rw [hr]; rfl) rfl
          (by simp [QueueReader.drained]) rfl
      exact stepReader hs (of_clearFetched h' rfl)
    | tryPop =>
      -- the list is not empty, so `take_head` takes its first element
      cases H with
      | nil => exact absurd rfl (h.reversing (by rw [hr]; rfl))
      | cons a H =>
        have hhead : q.head = .node a := h.head.1
        have hs : q.stepReader false = some (q.depart a .popped .idle) := by
          simp [Queue.stepReader, hr, Queue.fetchedData, hhead]
        obtain ⟨H', -, h'⟩ := h.depart .popped .idle (by rw [hr]; rfl) hhead rfl rfl
          rfl
        exact stepReader hs (hk rfl _ _ _ _ (control hc hs) h' rfl)
  | cons a R ih =>
    have he : e = .node a := by
      have := h.rest
      rw [hr] at this
      exact this.1
    subst he
    have hs : q.stepReader false = some { q with
        next := Function.update q.next a q.head
        head := .node a
        reader := .reverse k (q.next a) } := by
      simp [Queue.stepReader, hr]
    obtain ⟨R', hR, h'⟩ := h.reverse hr
    cases hR
    exact stepReader hs (ih (control hc hs) h' rfl)

/-- Compare-and-swap succeeds if the stack is the one that was read. -/
theorem of_swap_same {k : Fetcher} (hk : AfterPop k) (hc : Control q) (h : Holds q S R H)
    (hr : q.reader = .swap k q.stack) : q.Finishes := by
  have hrest : q.reader.rest = .null := by rw [hr]; rfl
  have hidle : ∀ {p : Pointer} {replaced : Bool}, p.below = q.stack.below →
      Holds { q with stack := p, reader := .idle, replaced := replaced } S R H :=
    fun hp => h.reader hrest rfl hp (by simp [QueueReader.drained]) rfl
  -- nothing to fetch, an end marker, or elements
  by_cases he : q.stack = k.endPtr
  · cases k with
    | close => exact absurd he (hc.swap _ _ hr)
    | tryPop =>
      have hs : q.stepReader false = some { q with reader := .idle } := by
        simp [Queue.stepReader, hr, he, Queue.fetchedNothing]
      exact stepReader hs (hk rfl _ S R H (control hc hs) (hidle rfl) rfl)
  · cases hd : q.stack.isDummy with
    | true =>
      cases k with
      | close =>
        replace he : q.stack ≠ .null := he
        have hs : q.stepReader false =
            some { q with stack := .null, replaced := true, reader := .closed } := by
          simp [Queue.stepReader, hr, he, hd, Queue.fetchedNothing, Fetcher.endPtr]
        exact stepReader hs ⟨[], _, by simp, rfl, rfl⟩
      | tryPop =>
        have hs : q.stepReader false =
            some { q with stack := .stackEmptyDummy, reader := .idle } := by
          simp [Queue.stepReader, hr, hd, Queue.fetchedNothing, Fetcher.endPtr]
        have hp : Pointer.stackEmptyDummy.below = q.stack.below := by
          rw [Pointer.below, Pointer.below, hd]
          rfl
        exact stepReader hs (hk rfl _ S R H (control hc hs) (hidle hp) rfl)
    -- elements were there, so they are reversed
    | false =>
      have hs : q.stepReader false = some { q with
          stack := k.endPtr
          reader := .reverse k q.stack
          replaced := q.replaced || k = Fetcher.close } := by
        simp [Queue.stepReader, hr, he, hd]
      exact stepReader hs (of_reverse hk (control hc hs) (h.swap hr rfl hd (hc.swap _ _ hr)) rfl)

/-- From the exchange of the stack. -/
theorem of_swap {k : Fetcher} (hk : AfterPop k) {e : Pointer} (hc : Control q)
    (h : Holds q S R H) (hr : q.reader = .swap k e) : q.Finishes := by
  by_cases hs : q.stack = e
  · exact of_swap_same hk hc h (by rw [hr, hs])
  · have hrest : q.reader.rest = .null := by rw [hr]; rfl
    by_cases he : e = k.endPtr
    · cases k with
      | close => exact absurd he (hc.swap _ _ hr)
      | tryPop =>
        have hs : q.stepReader false = some { q with reader := .idle } := by
          simp [Queue.stepReader, hr, he, Queue.fetchedNothing]
        refine stepReader hs (hk rfl _ S R H (control hc hs) ?_ rfl)
        exact h.goes hrest rfl (by simp [QueueReader.drained]) rfl
    · have hstep : q.stepReader false = some { q with reader := .swap k q.stack } := by
        simp [Queue.stepReader, hr, he, hs]
      refine stepReader hstep (of_swap_same hk (control hc hstep) (S := S) (R := R) (H := H) ?_ rfl)
      exact h.goes hrest rfl
        (fun _ => h.drained (by rw [hr]; rfl)) rfl

theorem of_fetch {k : Fetcher} (hk : AfterPop k) (hc : Control q) (h : Holds q S R H)
    (hr : q.reader = .fetch k) : q.Finishes := by
  have hs : q.stepReader false = some { q with reader := .swap k q.stack } := by
    simp [Queue.stepReader, hr]
  refine stepReader hs (of_swap_same hk (control hc hs) (S := S) (R := R) (H := H) ?_ rfl)
  exact h.goes (by rw [hr]; rfl) rfl
    (fun _ => h.drained (by rw [hr]; rfl)) rfl

/-- The first loop of `close` is as long as the own list. -/
theorem of_clear (hc : Control q) (h : Holds q S R H) (hr : q.reader = .clear) : q.Finishes := by
  induction H generalizing q R with
  | nil =>
    have hhead : q.head = .null := h.head
    have hs : q.stepReader false = some { q with reader := .fetch .close } := by
      simp [Queue.stepReader, hr, Queue.clearCachedElements, hhead]
    have h' : Holds { q with reader := .fetch .close } S R [] :=
      h.goes (by rw [hr]; rfl) rfl (fun _ => rfl) rfl
    exact stepReader hs (of_fetch (by rintro ⟨⟩) (control hc hs) h' rfl)
  | cons a H ih =>
    have hhead : q.head = .node a := h.head.1
    have hs : q.stepReader false = some (q.depart a .passed .clear) := by
      simp [Queue.stepReader, hr, Queue.clearCachedElements, hhead]
    obtain ⟨H', he, h'⟩ := h.depart .passed .clear (by rw [hr]; rfl) hhead rfl rfl rfl
    cases he
    exact stepReader hs (ih (control hc hs) h' rfl)

theorem of_idle (hc : Control q) (h : Holds q S R H) (hr : q.reader = .idle) : q.Finishes := by
  have hs : q.step .close = some { q with reader := .clear } := by simp [Queue.step, hr]
  refine Finishes.step (Or.inl rfl) hs (of_clear (hc.moved (hc.step_cases hs)) (S := S) (R := R)
    (H := H) ?_ rfl)
  exact h.goes (by rw [hr]; rfl) rfl
    (by simp [QueueReader.drained]) rfl

/-- Wherever the reader is, it can finish. -/
theorem of_reachable (hq : q.Reachable) : q.Finishes := by
  obtain ⟨hc, S, R, H, h⟩ := queue_invariant hq
  have hk : ∀ k, AfterPop k := fun k _ q S R H hc h hr => of_idle hc h hr
  cases hr : q.reader with
  | idle => exact of_idle hc h hr
  | fetch k => exact of_fetch (hk k) hc h hr
  | swap k e => exact of_swap (hk k) hc h hr
  | reverse k e => exact of_reverse (hk k) hc h hr
  | clear => exact of_clear hc h hr
  | clearFetched => exact of_clearFetched h hr
  | closed => exact ⟨[], q, by simp, rfl, hr⟩

end Queue.Finishes

-- -------------------------
-- Exactly once
-- -------------------------

/-- Once `close` has returned, the queue is empty. -/
theorem Holds.empty (h : Holds q S R H) (hc : Control q) (hr : q.reader = .closed) :
    S = [] ∧ R = [] ∧ H = [] := by
  have hstack : q.stack = .null := hc.replaced.mp (by rw [hc.closing, hr]; rfl)
  have hs := h.stack
  rw [hstack] at hs
  exact ⟨hs.eq_nil, h.rest_nil (by rw [hr]; rfl), h.drained (by rw [hr]; rfl)⟩

/-- **The mailbox is correct.** In every interleaving of writers and reader:

* elements leave the queue in the order of their successful compare-and-swap, and none of
  them twice;
* when `close` has returned, every element whose `enqueue` returned `success` or
  `unblocked_reader` has left exactly once, by `try_pop` or through the function given to
  `close`; and the reader can bring `close` to its end in every state;
* a call of `enqueue` has returned `queue_closed` if and only if its last load happened
  after `close` replaced the stack. -/
theorem queue_exactly_once (h : q.Reachable) :
    q.departed.map Prod.fst <+: q.pushed ∧ (q.departed.map Prod.fst).Nodup ∧
    (∀ c, (q.calls c).accepted = true ↔ c ∈ q.pushed) ∧
    (q.reader = .closed → ∀ c, (q.calls c).accepted = true →
      (q.departed.map Prod.fst).count c = 1) ∧
    q.Finishes ∧
    ∀ c result late, q.calls c = .returned result late →
      (result = .queueClosed ↔ late = true) := by
  obtain ⟨hc, S, R, H, hh⟩ := queue_invariant h
  have hstart : q.departed.map Prod.fst <+: q.pushed := ⟨_, hh.order⟩
  refine ⟨hstart, hstart.sublist.nodup hc.nodup, fun c => (hc.pushed c).symm, fun hr c hacc => ?_,
    .of_reachable h, hc.returned⟩
  obtain ⟨rfl, rfl, rfl⟩ := hh.empty hc hr
  have hall : q.departed.map Prod.fst = q.pushed := by simpa using hh.order
  rw [hall]
  exact List.count_eq_one_of_mem hc.nodup ((hc.pushed c).mpr hacc)

/-- A writer loses the race for the stack and tries again, the reader is unblocked, one
element is popped and one passed on by `close`, and a late writer is turned away. -/
theorem queue_exactly_once_race : ∃ q : Queue, q.Reachable ∧ q.reader = .closed ∧
    q.departed = [(1, .popped), (0, .passed)] ∧ (q.calls 0).accepted = true ∧
    (q.departed.map Prod.fst).count 0 = 1 ∧ q.calls 2 = .returned .queueClosed true := by
  obtain ⟨q, hrun, hcheck⟩ := exists_run Queue.step (Queue.initial (fun _ => .null) fun _ => 0)
    [.tryBlock, .beginEnqueue 0 5, .stepEnqueue 0, .stepEnqueue 0, .beginEnqueue 1 6,
      .stepEnqueue 1, .stepEnqueue 1, .stepEnqueue 1, .stepEnqueue 0, .stepEnqueue 0,
      .stepEnqueue 0, .tryPop, .stepReader true, .stepReader true, .stepReader false,
      .stepReader false, .stepReader false, .stepReader false, .close, .stepReader false,
      .stepReader false, .stepReader false, .beginEnqueue 2 6, .stepReader false, .stepEnqueue 2,
      .stepEnqueue 2]
    (fun q => q.reader = .closed ∧ q.departed = [(1, .popped), (0, .passed)] ∧
      (q.calls 0).accepted = true ∧ q.calls 2 = .returned .queueClosed true)
    (by decide +kernel)
  rw [decide_eq_true_iff] at hcheck
  obtain ⟨hr, hd, ha, h2⟩ := hcheck
  have hreach : q.Reachable := reach_of_run (.init ⟨_, _, rfl⟩) hrun
  exact ⟨q, hreach, hr, hd, ha, (queue_exactly_once hreach).2.2.2.1 hr 0 ha, h2⟩

end BoostActor
