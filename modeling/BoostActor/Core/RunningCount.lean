import BoostActor.Core.Binary
import BoostActor.Lib.Run
import BoostActor.Lib.Threads

/-!
# Waiting for a number of running actors

The registry counts the actors that run (`actor_registry.cpp`), and the scheduler counts the
detached threads in the same way (`detached_threads.cpp`): an atomic number, and a mutex with a
condition variable for the threads that wait until the number has a certain value. The number
changes without the mutex, but nobody is notified without it.

Each access to the number and each operation on the mutex is a step of its own, and a thread may
wake up for no reason.

* `Inv.step` — what a step of one thread preserves;
* `runningCount_reach` — the number is right, and no thread misses the moment it waits for.
-/

namespace BoostActor

open Lib

-- -------------------------
-- The code
-- -------------------------

/-- Where a thread is. Threads that wait do so for a number of running actors. -/
inductive RunningThread where
  | idle
  /-- it counts as a running actor -/
  | running
  /-- in `dec_running`, about to lock the mutex -/
  | notifying
  /-- in `await_running_count_equal`, about to lock the mutex -/
  | awaiting (expected : UInt64)
  /-- with the mutex, about to read the number -/
  | testing (expected : UInt64)
  /-- with the mutex, after a look at another number -/
  | falling (expected : UInt64)
  /-- in `running_cv_.wait` -/
  | sleeping (expected : UInt64)
  /-- with the mutex, after the loop -/
  | satisfied (expected : UInt64)
deriving DecidableEq, Repr

/-- The numbers up to `bound` are notified. -/
structure RunningCount where
  bound : UInt64
  running : UInt64
  threads : List RunningThread
deriving DecidableEq, Repr

/-- The next step of thread `i`. -/
inductive RunningAction where
  | incRunning (i : Nat)
  | decRunning (i : Nat)
  | notifyAll (i : Nat)
  | await (i : Nat) (expected : UInt64)
  | lock (i : Nat)
  | test (i : Nat)
  | wait (i : Nat)
  | spuriousWakeup (i : Nat)
  | leave (i : Nat)
deriving DecidableEq, Repr

namespace RunningThread

/-- A thread that has the mutex. -/
def locks : RunningThread → Bool
  | .testing _ => true
  | .falling _ => true
  | .satisfied _ => true
  | _ => false

/-- The number that a thread waits for. -/
def awaits : RunningThread → Option UInt64
  | .awaiting expected => some expected
  | .testing expected => some expected
  | .falling expected => some expected
  | .sleeping expected => some expected
  | _ => none

/-- The number that a thread is going to sleep for, or sleeps for. -/
def misses : RunningThread → Option UInt64
  | .falling expected => some expected
  | .sleeping expected => some expected
  | _ => none

/-- `notify_all` ends the wait of a thread. -/
def wakeUp : RunningThread → RunningThread
  | .sleeping expected => .awaiting expected
  | t => t

end RunningThread

namespace RunningCount

/-- The counter of the registry. -/
def actorRegistry (threads : List RunningThread) : RunningCount := ⟨1, 0, threads⟩

/-- The counter of the detached threads (`inc_detached_threads` and so on). -/
def detachedThreads (threads : List RunningThread) : RunningCount := ⟨0, 0, threads⟩

/-- Any number of threads that can be counted. -/
def isInitial (s : RunningCount) : Prop :=
  (s = actorRegistry s.threads ∨ s = detachedThreads s.threads) ∧ (∀ t ∈ s.threads, t = .idle) ∧
    s.threads.length < 2 ^ 64

/-- Nobody has the mutex. -/
def free (s : RunningCount) : Bool := s.threads.all fun t => ! t.locks

def set (s : RunningCount) (i : Nat) (t : RunningThread) : RunningCount :=
  { s with threads := s.threads.set i t }

def exec (s : RunningCount) : RunningAction → Option (Except Fault RunningCount)
  | .incRunning i =>
    match s.threads[i]? with
    | some .idle => some (return { s with running := s.running + 1 }.set i .running)
    | _ => none
  | .decRunning i =>
    match s.threads[i]? with
    | some .running =>
      let newVal := s.running - 1
      let t := if newVal ≤ s.bound then .notifying else .idle
      some (return { s with running := newVal }.set i t)
    | _ => none
  | .notifyAll i =>
    match s.threads[i]? with
    | some .notifying =>
      if s.free then
        some (return { s with threads := (s.threads.set i .idle).map RunningThread.wakeUp })
      else none
    | _ => none
  | .await i expected =>
    match s.threads[i]? with
    | some .idle =>
      if expected ≤ s.bound then some (return s.set i (.awaiting expected))
      else some (throw (.undefined "assertion"))
    | _ => none
  | .lock i =>
    match s.threads[i]? with
    | some (.awaiting expected) =>
      if s.free then some (return s.set i (.testing expected)) else none
    | _ => none
  | .test i =>
    match s.threads[i]? with
    | some (.testing expected) =>
      let t := if s.running ≠ expected then .falling expected else .satisfied expected
      some (return s.set i t)
    | _ => none
  | .wait i =>
    match s.threads[i]? with
    | some (.falling expected) => some (return s.set i (.sleeping expected))
    | _ => none
  | .spuriousWakeup i =>
    match s.threads[i]? with
    | some (.sleeping expected) => some (return s.set i (.awaiting expected))
    | _ => none
  | .leave i =>
    match s.threads[i]? with
    | some (.satisfied _) => some (return s.set i .idle)
    | _ => none

def step (s : RunningCount) (a : RunningAction) : Option RunningCount :=
  (s.exec a).bind Except.toOption

-- -------------------------
-- What every step preserves
-- -------------------------

/-- The number of a thread that sleeps is not reached from below, which is a matter of course if
threads wait for 0 only. -/
def FromAbove (s : RunningCount) : RunningAction → Prop
  | .incRunning _ => s.bound ≠ 0 → ∀ t ∈ s.threads, t.misses ≠ some (s.running + 1)
  | _ => True

instance (s : RunningCount) : (a : RunningAction) → Decidable (s.FromAbove a)
  | .incRunning _ => inferInstanceAs (Decidable (_ ≠ _ → ∀ t ∈ s.threads, _))
  | .decRunning _ => isTrue trivial
  | .notifyAll _ => isTrue trivial
  | .await _ _ => isTrue trivial
  | .lock _ => isTrue trivial
  | .test _ => isTrue trivial
  | .wait _ => isTrue trivial
  | .spuriousWakeup _ => isTrue trivial
  | .leave _ => isTrue trivial

-- -------------------------
-- The invariant
-- -------------------------

/-- What holds between two accesses. -/
structure Inv (s : RunningCount) : Prop where
  few : s.threads.length < 2 ^ 64
  counted : s.running.toNat = s.threads.countP (· = .running)
  mutex : s.threads.countP RunningThread.locks ≤ 1
  bounded : ∀ t ∈ s.threads, ∀ e, t.awaits = some e → e ≤ s.bound
  /-- somebody is going to notify the threads whose number has come -/
  notified : ∀ t ∈ s.threads, t.misses = some s.running → .notifying ∈ s.threads

variable {s s' : RunningCount} {i : Nat} {t t' : RunningThread}

theorem awaits_of_misses {e : UInt64} (h : t.misses = some e) : t.awaits = some e := by
  cases t <;> first | exact h | cases h

/-- A thread that has not been changed. -/
theorem mem_set_of_mem {ts : List RunningThread} {x : RunningThread} (h : x ∈ ts)
    (hi : ts[i]? = some t) (hne : t ≠ x) (t' : RunningThread) : x ∈ ts.set i t' := by
  obtain ⟨k, hk⟩ := List.getElem?_of_mem h
  have hki : i ≠ k := by
    rintro rfl
    rw [hi] at hk
    exact hne (Option.some.inj hk)
  refine List.mem_of_getElem? (i := k) ?_
  rw [List.getElem?_set_ne hki, hk]

/-- A free mutex is locked by nobody. -/
theorem countP_locks_of_free (h : s.free = true) : s.threads.countP RunningThread.locks = 0 := by
  unfold free at h
  rw [List.all_eq_true] at h
  refine countP_eq_zero_of_forall fun t ht => ?_
  simpa using h t ht

/-- A step of one thread. -/
theorem Inv.set (h : Inv s) (hi : s.threads[i]? = some t) {running : UInt64}
    (hcount : running.toNat + (if t = .running then 1 else 0) =
      s.running.toNat + if t' = .running then 1 else 0)
    (hlock : t'.locks = true → t.locks = true ∨ s.free = true)
    (hbound : ∀ e, t'.awaits = some e → e ≤ s.bound)
    (hnotified : ∀ t₁ ∈ s.threads.set i t', t₁.misses = some running →
      .notifying ∈ s.threads.set i t') :
    Inv { s with running, threads := s.threads.set i t' } := by
  refine ⟨?_, ?_, ?_, fun t₁ ht₁ e he => ?_, hnotified⟩
  · rw [List.length_set]
    exact h.few
  · -- the thread that changes is counted or not, all others as before
    have hset := countP_set_add hi t' (· = RunningThread.running)
    have hall := h.counted
    simp only [decide_eq_true_eq] at hset
    dsimp only
    omega
  · -- at most one thread has the mutex
    have hset := countP_set_add hi t' RunningThread.locks
    have hall := h.mutex
    dsimp only
    by_cases ht' : t'.locks = true
    · rcases hlock ht' with ht | hfree
      · rw [if_pos ht, if_pos ht'] at hset
        omega
      · rw [countP_locks_of_free hfree, if_pos ht'] at hset
        omega
    · rw [if_neg ht'] at hset
      omega
  · rcases List.mem_or_eq_of_mem_set ht₁ with hmem | rfl
    · exact h.bounded t₁ hmem e he
    · exact hbound e he

/-- A step of a thread that does not change the number. -/
theorem Inv.setThread (h : Inv s) (hi : s.threads[i]? = some t) (ht : t ≠ .notifying)
    (hrunning : t ≠ .running) (hrunning' : t' ≠ .running)
    (hlock : t'.locks = true → t.locks = true ∨ s.free = true)
    (hbound : ∀ e, t'.awaits = some e → e ≤ s.bound)
    (hmisses : t'.misses = some s.running → t.misses = some s.running) : Inv (s.set i t') := by
  refine h.set hi (by rw [if_neg hrunning, if_neg hrunning']) hlock hbound fun t₁ ht₁ hmiss => ?_
  have hnotifying : .notifying ∈ s.threads := by
    rcases List.mem_or_eq_of_mem_set ht₁ with hmem | rfl
    · exact h.notified t₁ hmem hmiss
    · exact h.notified t (List.mem_of_getElem? hi) (hmisses hmiss)
  exact mem_set_of_mem hnotifying hi ht t'

/-- All sleeping threads are woken up, and no thread is about to sleep. -/
theorem Inv.notifyAll (h : Inv s) (hi : s.threads[i]? = some .notifying) (hfree : s.free = true) :
    Inv { s with threads := (s.threads.set i .idle).map RunningThread.wakeUp } := by
  have hcount (q : RunningThread → Bool) (hq : ∀ t, q t.wakeUp = q t) :
      (((s.threads.set i .idle).map RunningThread.wakeUp).countP q) =
        (s.threads.set i .idle).countP q := by
    rw [List.countP_map]
    exact List.countP_congr fun t _ => by rw [Function.comp_apply, hq]
  refine ⟨?_, ?_, ?_, fun t ht e he => ?_, fun t ht hmiss => ?_⟩
  · rw [List.length_map, List.length_set]
    exact h.few
  · have hset := countP_set_add hi .idle (· = RunningThread.running)
    have hall := h.counted
    dsimp only
    rw [hcount _ fun t => by cases t <;> rfl]
    simp at hset
    omega
  · have hset := countP_set_add hi .idle RunningThread.locks
    have hall := h.mutex
    dsimp only
    rw [hcount _ fun t => by cases t <;> rfl]
    simp [RunningThread.locks] at hset
    omega
  · obtain ⟨t₁, ht₁, rfl⟩ := List.mem_map.mp ht
    have hawaits : t₁.awaits = some e := by cases t₁ <;> exact he
    rcases List.mem_or_eq_of_mem_set ht₁ with hmem | rfl
    · exact h.bounded t₁ hmem e hawaits
    · cases hawaits
  · -- nobody sleeps any more, and nobody has the mutex
    obtain ⟨t₁, ht₁, rfl⟩ := List.mem_map.mp ht
    rcases List.mem_or_eq_of_mem_set ht₁ with hmem | rfl
    · have hunlocked := List.all_eq_true.mp hfree t₁ hmem
      cases t₁ <;> first | (cases hunlocked; done) | cases hmiss
    · cases hmiss

/-- An actor starts. The number does not overflow, since every thread counts once at most. -/
theorem Inv.incRunning (h : Inv s) (hi : s.threads[i]? = some .idle)
    (hfrom : s.FromAbove (.incRunning i)) :
    Inv ({ s with running := s.running + 1 }.set i .running) := by
  have hnext : (s.running + 1).toNat = s.running.toNat + 1 := by
    have hlt := countP_lt_length hi (p := (· = RunningThread.running)) (by decide)
    have hall := h.counted
    have hfew := h.few
    rw [UInt64.toNat_add, UInt64.toNat_one]
    omega
  refine h.set hi ?_ (by simp [RunningThread.locks]) (by simp [RunningThread.awaits]) ?_
  · rw [if_neg (by simp), if_pos rfl]
    exact hnext
  · intro t₁ ht₁ hmiss
    rcases List.mem_or_eq_of_mem_set ht₁ with hmem | rfl
    · by_cases hbound : s.bound = 0
      · -- who waits for 0 does not wait for a number that something was added to
        have hle := h.bounded t₁ hmem _ (awaits_of_misses hmiss)
        rw [hbound, UInt64.le_iff_toNat_le, hnext, UInt64.toNat_zero] at hle
        omega
      · exact absurd hmiss (hfrom hbound t₁ hmem)
    · cases hmiss

/-- An actor has ended. The thread notifies the others unless nobody can wait for the number. -/
theorem Inv.decRunning (h : Inv s) (hi : s.threads[i]? = some .running) :
    Inv ({ s with running := s.running - 1 }.set i
      (if s.running - 1 ≤ s.bound then .notifying else .idle)) := by
  have hcount : (s.running - 1).toNat + 1 = s.running.toNat := by
    -- at least this thread is counted
    have hpos := countP_pos hi (p := (· = RunningThread.running)) (by decide)
    rw [← h.counted] at hpos
    have hle : (1 : UInt64) ≤ s.running := by
      rw [UInt64.le_iff_toNat_le]
      exact hpos
    rw [UInt64.toNat_sub_of_le _ _ hle, UInt64.toNat_one]
    omega
  split_ifs with hbound
  · refine h.set hi ?_ (by simp [RunningThread.locks]) (by simp [RunningThread.awaits])
      fun _ _ _ => ?_
    · rw [if_pos rfl, if_neg (by simp)]
      exact hcount
    · exact List.mem_set (List.getElem?_eq_some_iff.mp hi).1 _
  · refine h.set hi ?_ (by simp [RunningThread.locks]) (by simp [RunningThread.awaits])
      fun t₁ ht₁ hmiss => ?_
    · rw [if_pos rfl, if_neg (by simp)]
      exact hcount
    · -- nobody waits for a number above the bound
      rcases List.mem_or_eq_of_mem_set ht₁ with hmem | rfl
      · exact absurd (h.bounded t₁ hmem _ (awaits_of_misses hmiss)) hbound
      · cases hmiss

theorem Inv.await (h : Inv s) (hi : s.threads[i]? = some .idle) {expected : UInt64}
    (hbound : expected ≤ s.bound) : Inv (s.set i (.awaiting expected)) := by
  refine h.setThread hi (by simp) (by simp) (by simp) (by simp [RunningThread.locks]) ?_
    (by simp [RunningThread.misses])
  rintro e ⟨⟩
  exact hbound

theorem Inv.lock (h : Inv s) {expected : UInt64} (hi : s.threads[i]? = some (.awaiting expected))
    (hfree : s.free = true) : Inv (s.set i (.testing expected)) :=
  h.setThread hi (by simp) (by simp) (by simp) (fun _ => .inr hfree)
    (fun e he => h.bounded _ (List.mem_of_getElem? hi) e he) (by simp [RunningThread.misses])

/-- A thread that has read another number is going to sleep; at this moment its own has not come. -/
theorem Inv.test (h : Inv s) {expected : UInt64} (hi : s.threads[i]? = some (.testing expected)) :
    Inv (s.set i (if s.running ≠ expected then .falling expected else .satisfied expected)) := by
  split_ifs with hne
  · refine h.setThread hi (by simp) (by simp) (by simp) (fun _ => .inl rfl)
      (fun e he => h.bounded _ (List.mem_of_getElem? hi) e he) fun hmiss => ?_
    exact absurd (Option.some.inj hmiss).symm hne
  · exact h.setThread hi (by simp) (by simp) (by simp) (fun _ => .inl rfl)
      (by simp [RunningThread.awaits]) (by simp [RunningThread.misses])

theorem Inv.wait (h : Inv s) {expected : UInt64} (hi : s.threads[i]? = some (.falling expected)) :
    Inv (s.set i (.sleeping expected)) :=
  h.setThread hi (by simp) (by simp) (by simp) (by simp [RunningThread.locks])
    (fun e he => h.bounded _ (List.mem_of_getElem? hi) e he) id

theorem Inv.spuriousWakeup (h : Inv s) {expected : UInt64}
    (hi : s.threads[i]? = some (.sleeping expected)) : Inv (s.set i (.awaiting expected)) :=
  h.setThread hi (by simp) (by simp) (by simp) (by simp [RunningThread.locks])
    (fun e he => h.bounded _ (List.mem_of_getElem? hi) e he) (by simp [RunningThread.misses])

theorem Inv.leave (h : Inv s) {expected : UInt64}
    (hi : s.threads[i]? = some (.satisfied expected)) : Inv (s.set i .idle) :=
  h.setThread hi (by simp) (by simp) (by simp) (by simp [RunningThread.locks])
    (by simp [RunningThread.awaits]) (by simp [RunningThread.misses])

/-- Every step keeps the invariant. -/
theorem Inv.step (h : Inv s) {a : RunningAction} (hfrom : s.FromAbove a)
    (hstep : s.step a = some s') : Inv s' := by
  obtain ⟨out, hexec, hout⟩ := Option.bind_eq_some_iff.mp hstep
  -- one lemma for each action of a thread
  cases a with
  | incRunning i =>
    rw [exec] at hexec
    split at hexec <;> cases hexec
    next hi =>
    cases hout
    exact h.incRunning hi hfrom
  | decRunning i =>
    rw [exec] at hexec
    split at hexec <;> cases hexec
    next hi =>
    cases hout
    exact h.decRunning hi
  | notifyAll i =>
    rw [exec] at hexec
    split at hexec <;> try cases hexec
    next hi =>
    split_ifs at hexec with hfree
    cases hexec
    cases hout
    exact h.notifyAll hi hfree
  | await i expected =>
    rw [exec] at hexec
    split at hexec <;> try cases hexec
    next hi =>
    split_ifs at hexec with hbound <;> cases hexec <;> cases hout
    exact h.await hi hbound
  | lock i =>
    rw [exec] at hexec
    split at hexec <;> try cases hexec
    next expected hi =>
    split_ifs at hexec with hfree
    cases hexec
    cases hout
    exact h.lock hi hfree
  | test i =>
    rw [exec] at hexec
    split at hexec <;> cases hexec
    next expected hi =>
    cases hout
    exact h.test hi
  | wait i =>
    rw [exec] at hexec
    split at hexec <;> cases hexec
    next expected hi =>
    cases hout
    exact h.wait hi
  | spuriousWakeup i =>
    rw [exec] at hexec
    split at hexec <;> cases hexec
    next expected hi =>
    cases hout
    exact h.spuriousWakeup hi
  | leave i =>
    rw [exec] at hexec
    split at hexec <;> cases hexec
    next expected hi =>
    cases hout
    exact h.leave hi

-- -------------------------
-- Runs
-- -------------------------

/-- What the threads can rely on. -/
structure Awaited (s : RunningCount) : Prop where
  counted : s.running.toNat = s.threads.countP (· = .running)
  mutex : s.threads.countP RunningThread.locks ≤ 1
  /-- who sleeps for the number that has come is going to be woken up, with all others -/
  notMissed : ∀ t ∈ s.threads, t.misses = some s.running → ∃ i : Nat,
    s.threads[i]? = some .notifying ∧ (s.free = true → ∃ s', s.step (.notifyAll i) = some s' ∧
      ∀ t' ∈ s'.threads, t'.misses = none)
  /-- who has the mutex does not wait for anything -/
  goesOn : s.free = false →
    ∃ i, (s.step (.test i)).isSome ∨ (s.step (.wait i)).isSome ∨ (s.step (.leave i)).isSome

/-- Nobody misses the notification that was sent. -/
theorem misses_wakeUp (hfree : s.free = true) :
    ∀ t' ∈ (s.threads.set i .idle).map RunningThread.wakeUp, t'.misses = none := by
  intro t' ht'
  obtain ⟨t, ht, rfl⟩ := List.mem_map.mp ht'
  rcases List.mem_or_eq_of_mem_set ht with hmem | rfl
  · have hunlocked := List.all_eq_true.mp hfree t hmem
    cases t <;> first | (cases hunlocked; done) | rfl
  · rfl

/-- The invariant gives what the registry promises. -/
theorem Inv.awaited (h : Inv s) : Awaited s := by
  refine ⟨h.counted, h.mutex, fun t ht hmiss => ?_, fun hlocked => ?_⟩
  · -- whoever misses a notification has a thread that is about to notify
    obtain ⟨i, hi⟩ := List.getElem?_of_mem (h.notified t ht hmiss)
    refine ⟨i, hi, fun hfree => ⟨{ s with
      threads := (s.threads.set i .idle).map RunningThread.wakeUp }, ?_, misses_wakeUp hfree⟩⟩
    rw [RunningCount.step, exec, hi]
    dsimp only
    rw [if_pos hfree]
    rfl
  · -- whoever has the mutex can take its next step
    obtain ⟨t, ht, hlock⟩ := List.all_eq_false.mp hlocked
    obtain ⟨i, hi⟩ := List.getElem?_of_mem ht
    refine ⟨i, ?_⟩
    cases t with
    | testing expected =>
      left
      rw [RunningCount.step, exec, hi]
      rfl
    | falling expected =>
      right; left
      rw [RunningCount.step, exec, hi]
      rfl
    | satisfied expected =>
      right; right
      rw [RunningCount.step, exec, hi]
      rfl
    | idle | running | notifying | awaiting expected | sleeping expected => exact absurd rfl hlock

/-- A new registry satisfies the invariant. -/
theorem Inv.init (h : s.isInitial) : Inv s := by
  obtain ⟨hwhich, hidle, hfew⟩ := h
  have hzero : s.running = 0 := by
    rcases hwhich with hs | hs
    · rw [hs]
      rfl
    · rw [hs]
      rfl
  refine ⟨hfew, ?_, ?_, fun t ht e he => ?_, fun t ht hmiss => ?_⟩
  · rw [hzero, countP_eq_zero_of_forall fun t ht => by rw [hidle t ht]; rfl]
    rfl
  · rw [countP_eq_zero_of_forall fun t ht => by rw [hidle t ht]; rfl]
    exact Nat.zero_le _
  · rw [hidle t ht] at he
    cases he
  · rw [hidle t ht] at hmiss
    cases hmiss

/-- For any number of threads: in every run of the counter of detached threads, and in every run of
that of the registry in which no actor starts that takes the number up to one that a thread sleeps
for. -/
theorem runningCount_reach (hreach : Reach isInitial step FromAbove s) : Awaited s :=
  (hreach.invariant (fun _ h => Inv.init h) fun _ _ _ h hfrom hstep => h.step hfrom hstep).awaited

/-- The number changes between the test and the wait. -/
theorem runningCount_race : ∃ s, s.running = 1 ∧ .falling 1 ∈ s.threads ∧ Awaited s :=
  ⟨_, rfl, by decide, runningCount_reach (reach_of_checked_run
    (.init ⟨.inl rfl, by decide, by decide⟩ :
      Reach isInitial step FromAbove (actorRegistry [.idle, .idle, .idle]))
    (rfl : runAll _ _ [.incRunning 0, .incRunning 1, .await 2 1, .lock 2, .test 2, .decRunning 1] =
      some ⟨1, 1, [.running, .notifying, .falling 1]⟩))⟩

end RunningCount

end BoostActor
