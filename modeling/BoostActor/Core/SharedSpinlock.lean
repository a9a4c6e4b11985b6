import BoostActor.Core.Binary
import BoostActor.Lib.ReadersWriters
import BoostActor.Lib.Run
import BoostActor.Lib.Threads
import Mathlib.Algebra.Group.Int.Defs

/-!
# The shared spinlock

`shared_spinlock` (`shared_spinlock.cpp`) is a lock for readers and writers in one atomic number:
the number of readers, or the least number of its type for a writer. Each access to that number
is a step of its own, and the compare-and-swap may fail for no reason.

Threads call the functions in any order in which they give back only what they have.

* `Moves` — what one access can do;
* `sharedSpinlock_reach` — the lock works as one for readers and writers, in all interleavings;
* `waiting_acquires` — a thread that waits for the lock gets it when nothing is in its way.
-/

namespace BoostActor

open Lib

-- -------------------------
-- The code
-- -------------------------

/-- The functions of `shared_spinlock`. -/
inductive SpinlockCall where
  | lock
  | unlock
  | tryLock
  | lockShared
  | unlockShared
  | tryLockShared
  | unlockUpgradeAndLock
  | unlockAndLockUpgrade
deriving DecidableEq, Repr

/-- `lock_upgrade` -/
def SpinlockCall.lockUpgrade : SpinlockCall := .lockShared

/-- `unlock_upgrade` -/
def SpinlockCall.unlockUpgrade : SpinlockCall := .unlockShared

/-- Where a thread is. `v` is the value of the flag that it has seen last. -/
inductive SpinlockThread where
  /-- without the lock -/
  | free
  /-- with the lock, as a reader -/
  | shared
  /-- with the lock, as the writer -/
  | exclusive
  /-- before the first access of `lock` -/
  | lock
  /-- in the loop of `lock` -/
  | lockLoop (v : Int64)
  | tryLock
  /-- before the compare-and-swap of `try_lock` -/
  | tryLockCas (v : Int64)
  | lockShared
  | lockSharedLoop (v : Int64)
  | tryLockShared
  | tryLockSharedCas (v : Int64)
deriving DecidableEq, Repr

/-- `cas_weak`, and where the thread is when it has succeeded or failed. -/
def casWeak (flag v desired : Int64) (spurious : Bool) (succeeded failed : SpinlockThread) :
    Int64 × SpinlockThread :=
  if flag = v ∧ spurious = false then (desired, succeeded) else (flag, failed)

namespace SpinlockThread

/-- `v + 1`, which must not overflow. -/
def increment (v : Int64) : Except Fault Int64 :=
  if v = Int64.maxValue then throw (.undefined "signed overflow") else return v + 1

/-- The next access to the flag in a function that has not returned yet. -/
def run (flag : Int64) (spurious : Bool) : SpinlockThread → Except Fault (Int64 × SpinlockThread)
  | .lock => return (flag, .lockLoop flag)
  | .lockLoop v =>
    if v ≠ 0 then return (flag, .lockLoop flag)
    else return casWeak flag v Int64.minValue spurious .exclusive (.lockLoop flag)
  | .tryLock => return (flag, if flag = 0 then .tryLockCas flag else .free)
  | .tryLockCas v => return casWeak flag v Int64.minValue spurious .exclusive .free
  | .lockShared => return (flag, .lockSharedLoop flag)
  | .lockSharedLoop v => do
    if v < 0 then return (flag, .lockSharedLoop flag)
    return casWeak flag v (← increment v) spurious .shared (.lockSharedLoop flag)
  | .tryLockShared => return (flag, if 0 ≤ flag then .tryLockSharedCas flag else .free)
  | .tryLockSharedCas v => return casWeak flag v (← increment v) spurious .shared .free
  -- no function is running
  | t => return (flag, t)

theorem run_lockLoop (flag v : Int64) (spurious : Bool) :
    run flag spurious (.lockLoop v) = if v ≠ 0 then return (flag, .lockLoop flag)
      else return casWeak flag v Int64.minValue spurious .exclusive (.lockLoop flag) :=
  rfl

theorem run_lockSharedLoop (flag v : Int64) (spurious : Bool) :
    run flag spurious (.lockSharedLoop v) = if v < 0 then return (flag, .lockSharedLoop flag)
      else do return casWeak flag v (← increment v) spurious .shared (.lockSharedLoop flag) :=
  rfl

theorem run_tryLockSharedCas (flag v : Int64) (spurious : Bool) :
    run flag spurious (.tryLockSharedCas v) = do
      return casWeak flag v (← increment v) spurious .shared .free :=
  rfl

/-- A call of a function, with its first access if that is the only one. A thread gives back
only what it has. -/
def call (flag : Int64) : SpinlockThread → SpinlockCall → Option (Int64 × SpinlockThread)
  | .free, .lock => some (flag, .lock)
  | .free, .tryLock => some (flag, .tryLock)
  | .free, .lockShared => some (flag, .lockShared)
  | .free, .tryLockShared => some (flag, .tryLockShared)
  | .exclusive, .unlock => some (0, .free)
  | .exclusive, .unlockAndLockUpgrade => some (0, .lockShared)
  | .shared, .unlockShared => some (flag - 1, .free)
  | .shared, .unlockUpgradeAndLock => some (flag - 1, .lock)
  | _, _ => none

/-- How a thread holds the lock. -/
def holding : SpinlockThread → Holding
  | .shared => .shared
  | .exclusive => .exclusive
  | _ => .none

/-- What a thread waits for in `lock` and `lock_shared`. -/
def wants : SpinlockThread → Option Holding
  | .lock => some .exclusive
  | .lockLoop _ => some .exclusive
  | .lockShared => some .shared
  | .lockSharedLoop _ => some .shared
  | _ => none

/-- The value that the thread has seen. -/
def seen? : SpinlockThread → Option Int64
  | .lockLoop v => some v
  | .tryLockCas v => some v
  | .lockSharedLoop v => some v
  | .tryLockSharedCas v => some v
  | _ => none

end SpinlockThread

structure SharedSpinlock where
  flag : Int64
  threads : List SpinlockThread
deriving DecidableEq, Repr

/-- What happens next: thread `i` calls a function, or goes on with the one it is in. -/
inductive SpinlockAction where
  | call (i : Nat) (function : SpinlockCall)
  | run (i : Nat) (spurious : Bool)
deriving DecidableEq, Repr

namespace SharedSpinlock

/-- Any number of threads that a flag can count. -/
def isInitial (s : SharedSpinlock) : Prop :=
  s.flag = 0 ∧ (∀ t ∈ s.threads, t = .free) ∧ s.threads.length < 2 ^ 63

def step (s : SharedSpinlock) : SpinlockAction → Option SharedSpinlock
  | .call i function => do
    let t ← s.threads[i]?
    let (flag, t) ← t.call s.flag function
    return ⟨flag, s.threads.set i t⟩
  | .run i spurious => do
    let t ← s.threads[i]?
    let (flag, t) ← (t.run s.flag spurious).toOption
    return ⟨flag, s.threads.set i t⟩

/-- How each thread holds the lock. -/
def holding (s : SharedSpinlock) (i : Nat) : Holding :=
  (s.threads[i]?).elim .none SpinlockThread.holding

/-- How many threads hold it in some way. -/
def holders (s : SharedSpinlock) (h : Holding) : Nat :=
  s.threads.countP fun t => t.holding = h

-- -------------------------
-- What one access can do
-- -------------------------

/-- The effect of an access on the flag and on what the thread holds. -/
inductive Moves (flag : Int64) : Holding → Int64 → Holding → Prop where
  | stay (h : Holding) : Moves flag h flag h
  | lock : flag = 0 → Moves flag .none Int64.minValue .exclusive
  | lockShared : 0 ≤ flag → Moves flag .none (flag + 1) .shared
  | unlock : Moves flag .exclusive 0 .none
  | unlockShared : Moves flag .shared (flag - 1) .none

variable {s s' : SharedSpinlock} {flag flag' v : Int64} {t t' : SpinlockThread} {spurious : Bool}

/-- The increment adds one or overflows. -/
theorem increment_ok {desired : Int64} (h : SpinlockThread.increment v = .ok desired) :
    desired = v + 1 := by
  unfold SpinlockThread.increment at h
  split_ifs at h
  cases h
  rfl

/-- A thread that does not have the lock tries to get it. -/
theorem moves_cas {desired : Int64} {succeeded failed : SpinlockThread}
    (hsucceeded : v = flag → Moves flag .none desired succeeded.holding)
    (hfailed : failed.holding = .none)
    (hrun : casWeak flag v desired spurious succeeded failed = (flag', t')) :
    Moves flag .none flag' t'.holding := by
  unfold casWeak at hrun
  split_ifs at hrun with heq
  · cases hrun
    exact hsucceeded heq.1.symm
  · cases hrun
    rw [hfailed]
    exact .stay _

/-- The same for a reader, whose number is computed first. -/
theorem moves_cas_shared {failed : SpinlockThread} (hv : 0 ≤ v) (hfailed : failed.holding = .none)
    (hrun : (do return casWeak flag v (← SpinlockThread.increment v) spurious .shared failed) =
      Except.ok (flag', t')) : Moves flag .none flag' t'.holding := by
  cases hinc : SpinlockThread.increment v with
  | error e =>
    rw [hinc] at hrun
    cases hrun
  | ok desired =>
    rw [hinc] at hrun
    refine moves_cas (fun heq => ?_) hfailed (Except.ok.inj hrun)
    rw [increment_ok hinc, heq]
    exact .lockShared (heq ▸ hv)

/-- What the thread has seen makes the compare-and-swap worth a try. -/
def Tries (t : SpinlockThread) : Prop :=
  (∀ v, t = .tryLockCas v → v = 0) ∧ ∀ v, t = .tryLockSharedCas v → 0 ≤ v

/-- An access of a function that has not returned yet. -/
theorem run_moves (htries : Tries t) (hrun : t.run flag spurious = .ok (flag', t')) :
    Moves flag t.holding flag' t'.holding := by
  -- only a compare and swap that succeeds takes the lock
  cases t with
  | free | shared | exclusive | lock | lockShared =>
    cases hrun
    exact .stay _
  | lockLoop v =>
    rw [SpinlockThread.run_lockLoop] at hrun
    by_cases hv : v ≠ 0
    · rw [if_pos hv] at hrun
      cases hrun
      exact .stay _
    · rw [if_neg hv] at hrun
      refine moves_cas (fun heq => ?_) rfl (Except.ok.inj hrun)
      exact .lock (heq ▸ not_not.mp hv)
  | tryLock =>
    cases hrun
    by_cases hflag : flag = 0
    · rw [if_pos hflag]
      exact .stay _
    · rw [if_neg hflag]
      exact .stay _
  | tryLockCas v =>
    refine moves_cas (fun heq => ?_) rfl (Except.ok.inj hrun)
    exact .lock (heq ▸ htries.1 v rfl)
  | lockSharedLoop v =>
    rw [SpinlockThread.run_lockSharedLoop] at hrun
    by_cases hv : v < 0
    · rw [if_pos hv] at hrun
      cases hrun
      exact .stay _
    · rw [if_neg hv] at hrun
      exact moves_cas_shared (Int64.not_lt.mp hv) rfl hrun
  | tryLockShared =>
    cases hrun
    by_cases hflag : 0 ≤ flag
    · rw [if_pos hflag]
      exact .stay _
    · rw [if_neg hflag]
      exact .stay _
  | tryLockSharedCas v => exact moves_cas_shared (htries.2 v rfl) rfl hrun

/-- The access of a call. -/
theorem call_moves {function : SpinlockCall} (hcall : t.call flag function = some (flag', t')) :
    Moves flag t.holding flag' t'.holding := by
  cases t <;> cases function <;> cases hcall
  all_goals first
    | exact .stay _
    | exact .unlock
    | exact .unlockShared

-- -------------------------
-- The number of readers and writers
-- -------------------------

/-- The flag is the number of readers, or stands for one writer. -/
def Counted (s : SharedSpinlock) : Prop :=
  s.holders .exclusive = 0 ∧ s.flag.toInt = s.holders .shared ∨
    s.holders .exclusive = 1 ∧ s.holders .shared = 0 ∧ s.flag = Int64.minValue

/-- What holds between two accesses. -/
structure Inv (s : SharedSpinlock) : Prop where
  few : s.threads.length < 2 ^ 63
  counted : Counted s
  tries : ∀ t ∈ s.threads, Tries t
  /-- no thread has seen itself as a reader -/
  seen : ∀ t ∈ s.threads, ∀ v, t.seen? = some v → v.toInt < s.threads.length

variable {i : Nat}

/-- A thread that does not read leaves room for a reader. -/
theorem holders_lt_length (hi : s.threads[i]? = some t) (h : t.holding ≠ .shared) :
    s.holders .shared < s.threads.length :=
  countP_lt_length hi (decide_eq_false h)

/-- One reader more. -/
theorem toInt_add_one {a : Int64} (h : a.toInt + 1 < 2 ^ 63) : (a + 1).toInt = a.toInt + 1 := by
  have hle := Int64.le_toInt a
  rw [Int64.toInt_add, Int64.toInt_one]
  exact Int.bmod_eq_of_le (by omega) (by omega)

/-- One reader less. -/
theorem toInt_sub_one {a : Int64} (h : 0 ≤ a.toInt) : (a - 1).toInt = a.toInt - 1 := by
  have hlt := Int64.toInt_lt a
  rw [Int64.toInt_sub, Int64.toInt_one]
  exact Int.bmod_eq_of_le (by omega) (by omega)

/-- A move keeps the flag and the holders in step. -/
theorem Counted.moves (hc : Counted s) (hfew : s.threads.length < 2 ^ 63)
    (hi : s.threads[i]? = some t) (hm : Moves s.flag t.holding flag' t'.holding) :
    Counted ⟨flag', s.threads.set i t'⟩ := by
  have hexclusive := countP_set_add hi t' fun t => t.holding = .exclusive
  have hshared := countP_set_add hi t' fun t => t.holding = .shared
  have hroom := holders_lt_length (s := s) hi
  unfold Counted holders at hc ⊢
  unfold holders at hroom
  dsimp only
  generalize t.holding = h at hm hexclusive hshared hroom
  generalize t'.holding = h' at hm hexclusive hshared
  cases hm with
  | stay h =>
    have hexclusive' := Nat.add_right_cancel hexclusive
    have hshared' := Nat.add_right_cancel hshared
    rw [hexclusive', hshared']
    exact hc
  | lock hzero =>
    -- nobody reads or writes
    have hmin : Int64.minValue ≠ 0 := by decide
    rw [hzero] at hc
    rcases hc with ⟨hnone, hcount⟩ | ⟨-, -, hflag⟩
    · right
      rw [Int64.toInt_zero] at hcount
      simp at hexclusive hshared
      exact ⟨by omega, by omega, rfl⟩
    · exact absurd hflag.symm hmin
  | lockShared hnonneg =>
    rw [Int64.le_iff_toInt_le, Int64.toInt_zero] at hnonneg
    rcases hc with ⟨hnone, hcount⟩ | ⟨-, -, hflag⟩
    · left
      have hlt := hroom nofun
      simp at hexclusive hshared
      rw [toInt_add_one (by omega)]
      omega
    · rw [hflag] at hnonneg
      exact absurd hnonneg (by decide)
  -- the writer leaves, nobody else has the lock
  | unlock =>
    left
    simp at hexclusive hshared
    rw [Int64.toInt_zero]
    omega
  -- a reader leaves, at least this one was counted
  | unlockShared =>
    simp at hexclusive hshared
    rcases hc with ⟨hnone, hcount⟩ | ⟨-, hnone, -⟩
    · left
      rw [toInt_sub_one (by omega)]
      omega
    · omega

-- -------------------------
-- Runs
-- -------------------------

/-- A step is one access of one thread. -/
theorem step_cases {a : SpinlockAction} (h : s.step a = some s') :
    ∃ i t flag' t', s.threads[i]? = some t ∧ s' = ⟨flag', s.threads.set i t'⟩ ∧
      ((∃ function, t.call s.flag function = some (flag', t')) ∨
        ∃ spurious, t.run s.flag spurious = .ok (flag', t')) := by
  cases a with
  | call i function =>
    simp only [step, Option.bind_eq_bind, Option.bind_eq_some_iff] at h
    obtain ⟨t, hi, ⟨flag', t'⟩, hcall, h⟩ := h
    cases h
    exact ⟨i, t, flag', t', hi, rfl, .inl ⟨function, hcall⟩⟩
  | run i spurious =>
    simp only [step, Option.bind_eq_bind, Option.bind_eq_some_iff] at h
    obtain ⟨t, hi, ⟨flag', t'⟩, hrun, h⟩ := h
    cases h
    refine ⟨i, t, flag', t', hi, rfl, .inr ⟨spurious, ?_⟩⟩
    cases hok : t.run s.flag spurious with
    | error e =>
      rw [hok] at hrun
      cases hrun
    | ok result =>
      rw [hok] at hrun
      cases hrun
      rfl

-- -------------------------
-- What a thread has seen
-- -------------------------

/-- Where a thread is after an access: what it has seen is the flag, it does not have the lock
while it tries to get it, and tries only what may succeed. -/
def Sees (flag : Int64) (t t' : SpinlockThread) : Prop :=
  (∀ v, t'.seen? = some v → v = flag ∧ t.holding = .none) ∧ Tries t'

/-- A thread that remembers no value. -/
theorem Sees.of_none (hnone : t'.seen? = none) : Sees flag t t' := by
  refine ⟨fun v hv => ?_, fun v hv => ?_, fun v hv => ?_⟩
  · rw [hnone] at hv
    cases hv
  · rw [hv] at hnone
    cases hnone
  · rw [hv] at hnone
    cases hnone

/-- A compare and swap that fails has seen the flag. -/
theorem sees_cas {desired : Int64} {succeeded failed : SpinlockThread}
    (hsucceeded : succeeded.seen? = none) (hfailed : Sees flag t failed)
    (hrun : casWeak flag v desired spurious succeeded failed = (flag', t')) : Sees flag t t' := by
  unfold casWeak at hrun
  split_ifs at hrun
  · cases hrun
    exact .of_none hsucceeded
  · cases hrun
    exact hfailed

/-- The same for a reader. -/
theorem sees_cas_shared {failed : SpinlockThread} (hfailed : Sees flag t failed)
    (hrun : (do return casWeak flag v (← SpinlockThread.increment v) spurious .shared failed) =
      Except.ok (flag', t')) : Sees flag t t' := by
  cases hinc : SpinlockThread.increment v with
  | error e =>
    rw [hinc] at hrun
    cases hrun
  | ok desired =>
    rw [hinc] at hrun
    exact sees_cas rfl hfailed (Except.ok.inj hrun)

theorem sees_loop (hnone : t.holding = .none) : Sees flag t (.lockLoop flag) :=
  ⟨fun _ hv => ⟨(Option.some.inj hv).symm, hnone⟩, nofun, nofun⟩

theorem sees_loop_shared (hnone : t.holding = .none) : Sees flag t (.lockSharedLoop flag) :=
  ⟨fun _ hv => ⟨(Option.some.inj hv).symm, hnone⟩, nofun, nofun⟩

/-- What a thread remembers it has seen. -/
theorem run_sees (hrun : t.run flag spurious = .ok (flag', t')) : Sees flag t t' := by
  -- the loops load the flag, the others remember what they tested
  cases t with
  | free | shared | exclusive =>
    cases hrun
    exact .of_none rfl
  | lock =>
    cases hrun
    exact sees_loop rfl
  | lockLoop v =>
    rw [SpinlockThread.run_lockLoop] at hrun
    by_cases hv : v ≠ 0
    · rw [if_pos hv] at hrun
      cases hrun
      exact sees_loop rfl
    · rw [if_neg hv] at hrun
      exact sees_cas rfl (sees_loop rfl) (Except.ok.inj hrun)
  | tryLock =>
    cases hrun
    by_cases hflag : flag = 0
    · rw [if_pos hflag]
      refine ⟨fun _ hv => ⟨(Option.some.inj hv).symm, rfl⟩, fun v hv => ?_, nofun⟩
      cases hv
      exact hflag
    · rw [if_neg hflag]
      exact .of_none rfl
  | tryLockCas v => exact sees_cas rfl (.of_none rfl) (Except.ok.inj hrun)
  | lockShared =>
    cases hrun
    exact sees_loop_shared rfl
  | lockSharedLoop v =>
    rw [SpinlockThread.run_lockSharedLoop] at hrun
    by_cases hv : v < 0
    · rw [if_pos hv] at hrun
      cases hrun
      exact sees_loop_shared rfl
    · rw [if_neg hv] at hrun
      exact sees_cas_shared (sees_loop_shared rfl) hrun
  | tryLockShared =>
    cases hrun
    by_cases hflag : 0 ≤ flag
    · rw [if_pos hflag]
      refine ⟨fun _ hv => ⟨(Option.some.inj hv).symm, rfl⟩, nofun, fun v hv => ?_⟩
      cases hv
      exact hflag
    · rw [if_neg hflag]
      exact .of_none rfl
  | tryLockSharedCas v => exact sees_cas_shared (.of_none rfl) hrun

theorem call_sees {function : SpinlockCall} (hcall : t.call flag function = some (flag', t')) :
    Sees flag t t' := by
  cases t <;> cases function <;> cases hcall <;> exact .of_none rfl

/-- One access keeps the invariant. -/
theorem Inv.access (h : Inv s) (hi : s.threads[i]? = some t)
    (hm : Moves s.flag t.holding flag' t'.holding) (hsees : Sees s.flag t t') :
    Inv ⟨flag', s.threads.set i t'⟩ := by
  refine ⟨?_, h.counted.moves h.few hi hm, ?_, ?_⟩
  · rw [List.length_set]
    exact h.few
  · intro t₁ ht₁
    rcases List.mem_or_eq_of_mem_set ht₁ with ht₁ | rfl
    · exact h.tries t₁ ht₁
    · exact hsees.2
  · intro t₁ ht₁ v hv
    rw [List.length_set]
    rcases List.mem_or_eq_of_mem_set ht₁ with ht₁ | rfl
    · exact h.seen t₁ ht₁ v hv
    · obtain ⟨rfl, hnone⟩ := hsees.1 v hv
      have hlt := holders_lt_length hi (by rw [hnone]; nofun)
      have hle := Int64.le_toInt s.flag
      rcases h.counted with ⟨-, hcount⟩ | ⟨-, -, hflag⟩
      · omega
      · rw [hflag, Int64.toInt_minValue]
        omega

/-- Every step keeps the invariant. -/
theorem Inv.step (h : Inv s) {a : SpinlockAction} (hs : s.step a = some s') : Inv s' := by
  obtain ⟨i, t, flag', t', hi, rfl, haccess⟩ := step_cases hs
  have htries := h.tries t (List.mem_of_getElem? hi)
  rcases haccess with ⟨function, hcall⟩ | ⟨spurious, hrun⟩
  · exact h.access hi (call_moves hcall) (call_sees hcall)
  · exact h.access hi (run_moves htries hrun) (run_sees hrun)

/-- An unlocked lock satisfies the invariant. -/
theorem Inv.initial (h : isInitial s) : Inv s := by
  obtain ⟨hflag, hfree, hfew⟩ := h
  have hnone : ∀ holding : Holding, holding ≠ .none → s.holders holding = 0 := by
    intro holding hne
    refine countP_eq_zero_of_forall fun t ht => decide_eq_false ?_
    rw [hfree t ht]
    exact fun heq => hne heq.symm
  refine ⟨hfew, .inl ⟨hnone .exclusive nofun, ?_⟩, ?_, ?_⟩
  · rw [hflag, hnone .shared nofun]
    rfl
  · intro t ht
    rw [hfree t ht]
    exact ⟨nofun, nofun⟩
  · intro t ht v hv
    rw [hfree t ht] at hv
    cases hv

-- -------------------------
-- Readers and writers
-- -------------------------

theorem holding_eq (hi : s.threads[i]? = some t) : s.holding i = t.holding := by
  unfold holding
  rw [hi]
  rfl

/-- Nobody holds the lock in a way that is not counted. -/
theorem holding_ne {h : Holding} (hzero : s.holders h = 0) (hne : h ≠ .none) (j : Nat) :
    s.holding j ≠ h := by
  intro hj
  cases ht : s.threads[j]? with
  | none =>
    unfold holding at hj
    rw [ht] at hj
    exact hne hj.symm
  | some t =>
    rw [holding_eq ht] at hj
    have hpos : 0 < s.holders h := countP_pos ht (decide_eq_true hj)
    omega

theorem holders_eq_zero {h : Holding} (hne : ∀ j, s.holding j ≠ h) : s.holders h = 0 := by
  refine countP_eq_zero_of_forall fun t ht => decide_eq_false fun heq => ?_
  obtain ⟨j, hj⟩ := List.mem_iff_getElem?.mp ht
  exact hne j ((holding_eq hj).trans heq)

-- -------------------------
-- Exclusion
-- -------------------------

/-- One access is a step of a lock for readers and writers. -/
theorem Inv.lockStep (h : Inv s) (hsafe : LockSafe s.holding) {a : SpinlockAction}
    (hs : s.step a = some s') : LockStep s.holding s'.holding := by
  obtain ⟨i, t, flag', t', hi, rfl, haccess⟩ := step_cases hs
  have hm : Moves s.flag t.holding flag' t'.holding := by
    rcases haccess with ⟨function, hcall⟩ | ⟨spurious, hrun⟩
    · exact call_moves hcall
    · exact run_moves (h.tries t (List.mem_of_getElem? hi)) hrun
  have hupdate : holding ⟨flag', s.threads.set i t'⟩ = Function.update s.holding i t'.holding := by
    funext j
    have hlt := (List.getElem?_eq_some_iff.mp hi).1
    by_cases hj : j = i
    · subst hj
      rw [Function.update_self]
      exact holding_eq (List.getElem?_set_self hlt)
    · rw [Function.update_of_ne hj]
      unfold holding
      rw [List.getElem?_set_ne (Ne.symm hj)]
  rw [hupdate]
  refine .change i t'.holding fun j hj => ?_
  have hstay := hsafe i j hj.symm
  rw [holding_eq hi] at hstay
  have hcounted := h.counted
  generalize t.holding = held at hm hstay
  generalize t'.holding = holds at hm
  cases hm with
  | stay => exact hstay
  | lock hflag =>
    -- the flag says that nobody has the lock
    rcases hcounted with ⟨hwriters, hreaders⟩ | ⟨-, -, hmin⟩
    · rw [hflag, Int64.toInt_zero] at hreaders
      have hwriter := holding_ne hwriters nofun j
      have hreader := holding_ne (by omega : s.holders .shared = 0) nofun j
      cases hj' : s.holding j with
      | none => exact .inr (.inl rfl)
      | shared => exact absurd hj' hreader
      | exclusive => exact absurd hj' hwriter
    · rw [hflag] at hmin
      exact absurd hmin (by decide)
  | lockShared hflag =>
    -- the flag says that there is no writer
    rcases hcounted with ⟨hwriters, -⟩ | ⟨-, -, hmin⟩
    · have hwriter := holding_ne hwriters nofun j
      cases hj' : s.holding j with
      | none => exact .inr (.inl rfl)
      | shared => exact .inr (.inr ⟨rfl, rfl⟩)
      | exclusive => exact absurd hj' hwriter
    · rw [hmin] at hflag
      exact absurd hflag (by decide)
  | unlock => exact .inl rfl
  | unlockShared => exact .inl rfl

/-- In every run the invariant holds and the lock is safe. -/
theorem inv_of_reach (h : Reach isInitial SharedSpinlock.step anyStep s) :
    Inv s ∧ LockSafe s.holding := by
  refine h.invariant (I := fun s => Inv s ∧ LockSafe s.holding)
    (fun s hs => ⟨.initial hs, fun i j _ => ?_⟩) fun s a s' hinv _ hs =>
      ⟨hinv.1.step hs, (hinv.1.lockStep hinv.2 hs).safe hinv.2⟩
  obtain ⟨-, hfree, -⟩ := hs
  cases hi : s.threads[i]? with
  | none =>
    unfold holding
    rw [hi]
    exact .inl rfl
  | some t =>
    rw [holding_eq hi, hfree t (List.mem_of_getElem? hi)]
    exact .inl rfl

/-- No access overflows. -/
theorem Inv.run_ok (h : Inv s) (ht : t ∈ s.threads) (spurious : Bool) :
    ∃ result, t.run s.flag spurious = .ok result := by
  have hinc : ∀ v, t.seen? = some v → SpinlockThread.increment v = .ok (v + 1) := by
    -- the increment cannot overflow: the value seen is at most the number of threads
    intro v hv
    refine if_neg fun hmax => ?_
    have hseen := h.seen t ht v hv
    have hfew := h.few
    rw [hmax, Int64.toInt_maxValue] at hseen
    omega
  cases t with
  | lockLoop v =>
    rw [SpinlockThread.run_lockLoop]
    by_cases hv : v ≠ 0
    · exact ⟨_, if_pos hv⟩
    · exact ⟨_, if_neg hv⟩
  | lockSharedLoop v =>
    rw [SpinlockThread.run_lockSharedLoop]
    by_cases hv : v < 0
    · exact ⟨_, if_pos hv⟩
    · rw [if_neg hv, hinc v rfl]
      exact ⟨_, rfl⟩
  | tryLockSharedCas v =>
    rw [SpinlockThread.run_tryLockSharedCas, hinc v rfl]
    exact ⟨_, rfl⟩
  | _ => exact ⟨_, rfl⟩

/-- The lock is one for readers and writers. -/
structure GuardsReadersWriters (s : SharedSpinlock) : Prop where
  /-- a writer is alone -/
  safe : LockSafe s.holding
  readers : (∀ i, s.holding i ≠ .exclusive) → s.flag.toInt = s.holders .shared
  writer : (∃ i, s.holding i = .exclusive) → s.flag = Int64.minValue
  /-- every access of a thread is a step of such a lock -/
  refines : ∀ a s', s.step a = some s' → LockStep s.holding s'.holding
  /-- no number overflows -/
  noFault : ∀ t ∈ s.threads, ∀ spurious, ∃ result, t.run s.flag spurious = .ok result

/-- **The lock in all interleavings.** For any threads, as long as the number of them fits into
the flag, and any order of their accesses. -/
theorem sharedSpinlock_reach (h : Reach isInitial SharedSpinlock.step anyStep s) :
    GuardsReadersWriters s := by
  obtain ⟨hinv, hsafe⟩ := inv_of_reach h
  refine ⟨hsafe, fun hwriters => ?_, fun hwriter => ?_, fun a s' => hinv.lockStep hsafe,
    fun t ht spurious => ?_⟩
  · rcases hinv.counted with ⟨-, hreaders⟩ | ⟨hone, -, -⟩
    · exact hreaders
    · rw [holders_eq_zero hwriters] at hone
      cases hone
  · obtain ⟨i, hi⟩ := hwriter
    rcases hinv.counted with ⟨hnone, -⟩ | ⟨-, -, hflag⟩
    · exact absurd hi (holding_ne hnone nofun i)
    · exact hflag
  · exact hinv.run_ok ht spurious

/-- A reader, a writer that fails to get the lock and then waits for it, and the reader again. -/
theorem sharedSpinlock_two_threads :
    GuardsReadersWriters ⟨Int64.minValue, [.lockSharedLoop Int64.minValue, .exclusive]⟩ := by
  have hinit : Reach isInitial SharedSpinlock.step anyStep ⟨0, [.free, .free]⟩ :=
    .init ⟨rfl, by decide, by decide⟩
  have hlast := reach_of_run hinit (rfl : runAll SharedSpinlock.step _
    [.call 0 .lockShared, .run 0 false, .run 0 true, .run 0 false, .call 1 .tryLock, .run 1 false,
      .call 1 .lock, .run 1 false, .run 1 false, .call 0 .unlockShared, .run 1 false, .run 1 false,
      .call 0 .lockUpgrade, .run 0 false, .run 0 false] = some _)
  exact sharedSpinlock_reach hlast

-- -------------------------
-- Progress
-- -------------------------

/-- The flag when nothing is in the way of a thread. -/
def Grants (flag : Int64) (w : Holding) : Prop :=
  w = .exclusive ∧ flag = 0 ∨ w = .shared ∧ 0 ≤ flag ∧ flag ≠ Int64.maxValue

/-- The loop in which a thread waits. -/
def loop (w : Holding) (v : Int64) : SpinlockThread :=
  if w = .exclusive then .lockLoop v else .lockSharedLoop v

/-- The flag with one holder more. -/
def taken (flag : Int64) (w : Holding) : Int64 × SpinlockThread :=
  if w = .exclusive then (Int64.minValue, .exclusive) else (flag + 1, .shared)

theorem casWeak_self (flag desired : Int64) (succeeded failed : SpinlockThread) :
    casWeak flag flag desired false succeeded failed = (desired, succeeded) :=
  if_pos ⟨rfl, rfl⟩

/-- A thread that has seen the flag gets the lock. -/
theorem loop_run {w : Holding} (hgrants : Grants flag w) :
    (loop w flag).run flag false = .ok (taken flag w) := by
  rcases hgrants with ⟨rfl, rfl⟩ | ⟨rfl, hnonneg, hmax⟩
  · rfl
  · show SpinlockThread.run flag false (.lockSharedLoop flag) = _
    have hinc : SpinlockThread.increment flag = .ok (flag + 1) := if_neg hmax
    rw [SpinlockThread.run_lockSharedLoop, if_neg (Int64.not_lt.mpr hnonneg), hinc]
    exact congrArg Except.ok (casWeak_self flag (flag + 1) _ _)

/-- A thread that waits gets the lock, or sees the flag. -/
theorem wants_run {w : Holding} (hwants : t.wants = some w) (hgrants : Grants flag w)
    (hok : ∃ result, t.run flag false = .ok result) :
    t.run flag false = .ok (taken flag w) ∨ t.run flag false = .ok (flag, loop w flag) := by
  obtain ⟨result, hok⟩ := hok
  -- a thread in a loop takes the lock if it remembers the flag, else it loads it
  cases t with
  | lock =>
    cases hwants
    exact .inr rfl
  | lockLoop v =>
    cases hwants
    rw [SpinlockThread.run_lockLoop]
    by_cases hv : v ≠ 0
    · exact .inr (if_pos hv)
    · obtain rfl := not_not.mp hv
      rcases hgrants with ⟨-, rfl⟩ | ⟨hw, -⟩
      · exact .inl rfl
      · cases hw
  | lockShared =>
    cases hwants
    exact .inr rfl
  | lockSharedLoop v =>
    cases hwants
    by_cases hseen : v = flag
    · -- the thread has seen the flag before
      subst hseen
      exact .inl (loop_run (w := .shared) hgrants)
    · right
      rw [SpinlockThread.run_lockSharedLoop] at hok ⊢
      by_cases hv : v < 0
      · exact if_pos hv
      · rw [if_neg hv] at hok ⊢
        cases hinc : SpinlockThread.increment v with
        | error e =>
          rw [hinc] at hok
          cases hok
        | ok desired =>
          refine congrArg Except.ok (if_neg fun heq => hseen ?_)
          exact heq.1.symm
  | _ => cases hwants

/-- The flag grants what is compatible with what the others hold. -/
theorem Inv.grants (h : Inv s) (hi : s.threads[i]? = some t) {w : Holding}
    (hwants : t.wants = some w) (hothers : ∀ j, j ≠ i → w.Compatible (s.holding j)) :
    Grants s.flag w := by
  have hnone : t.holding = .none := by
    cases t with
    | shared => cases hwants
    | exclusive => cases hwants
    | _ => rfl
  have hw : w = .exclusive ∨ w = .shared := by
    cases t <;> cases hwants
    · exact .inl rfl
    · exact .inl rfl
    · exact .inr rfl
    · exact .inr rfl
  have hself : s.holding i = .none := (holding_eq hi).trans hnone
  -- there is no writer
  have hwriters : s.holders .exclusive = 0 := by
    refine holders_eq_zero fun j hj => ?_
    by_cases hji : j = i
    · rw [hji, hself] at hj
      cases hj
    · have hcompat := hothers j hji
      rw [hj] at hcompat
      rcases hcompat with heq | heq | ⟨-, heq⟩
      · rcases hw with rfl | rfl <;> cases heq
      · cases heq
      · cases heq
  have hflag : s.flag.toInt = s.holders .shared := by
    rcases h.counted with ⟨-, hreaders⟩ | ⟨hone, -, -⟩
    · exact hreaders
    · omega
  rcases hw with rfl | rfl
  · -- nor a reader
    have hreaders : s.holders .shared = 0 := by
      refine holders_eq_zero fun j hj => ?_
      by_cases hji : j = i
      · rw [hji, hself] at hj
        cases hj
      · have hcompat := hothers j hji
        rw [hj] at hcompat
        rcases hcompat with heq | heq | ⟨heq, -⟩
        · cases heq
        · cases heq
        · cases heq
    refine .inl ⟨rfl, Int64.toInt_inj.mp ?_⟩
    rw [hflag, hreaders]
    rfl
  · refine .inr ⟨rfl, ?_, fun hmax => ?_⟩
    · rw [Int64.le_iff_toInt_le, hflag, Int64.toInt_zero]
      omega
    · have hlt := holders_lt_length hi (by rw [hnone]; nofun)
      have hfew := h.few
      rw [hmax, Int64.toInt_maxValue] at hflag
      omega

/-- A step of one thread. -/
theorem run_step {result : Int64 × SpinlockThread} (hi : s.threads[i]? = some t)
    (hrun : t.run s.flag false = .ok result) :
    s.step (.run i false) = some ⟨result.1, s.threads.set i result.2⟩ := by
  show (do
    let t ← s.threads[i]?
    let (flag, t) ← (t.run s.flag false).toOption
    return ⟨flag, s.threads.set i t⟩ : Option SharedSpinlock) = _
  rw [hi]
  show (do
    let (flag, t) ← (t.run s.flag false).toOption
    return ⟨flag, s.threads.set i t⟩ : Option SharedSpinlock) = _
  rw [hrun]
  rfl

/-- **Progress.** A thread that waits for the lock, when all others hold only what is compatible
with it, gets it with at most two accesses of its own that do not fail for no reason, whatever it
has seen before. -/
theorem waiting_acquires (h : Reach isInitial SharedSpinlock.step anyStep s)
    (hi : s.threads[i]? = some t) {w : Holding} (hwants : t.wants = some w)
    (hothers : ∀ j, j ≠ i → w.Compatible (s.holding j)) : ∃ n ≤ 2, ∃ s',
      runAll SharedSpinlock.step s (List.replicate n (.run i false)) = some s' ∧
        s'.holding i = w := by
  have hinv := (inv_of_reach h).1
  have hgrants := hinv.grants hi hwants hothers
  have hlt := (List.getElem?_eq_some_iff.mp hi).1
  have htaken : (taken s.flag w).2.holding = w := by
    rcases hgrants with ⟨rfl, -⟩ | ⟨rfl, -⟩
    · rfl
    · rfl
  rcases wants_run hwants hgrants (hinv.run_ok (List.mem_of_getElem? hi) false) with hgot | hsaw
  · refine ⟨1, by omega, ⟨(taken s.flag w).1, s.threads.set i (taken s.flag w).2⟩, ?_, ?_⟩
    · show (s.step (.run i false)).bind _ = _
      rw [run_step hi hgot]
      rfl
    · rw [holding_eq (List.getElem?_set_self hlt)]
      exact htaken
  · -- one more access
    have hsecond :
        (⟨s.flag, s.threads.set i (loop w s.flag)⟩ : SharedSpinlock).step (.run i false) =
          some ⟨(taken s.flag w).1, s.threads.set i (taken s.flag w).2⟩ := by
      have hi' : (s.threads.set i (loop w s.flag))[i]? = some (loop w s.flag) :=
        List.getElem?_set_self hlt
      rw [run_step (s := ⟨s.flag, _⟩) hi' (loop_run hgrants), List.set_set]
    refine ⟨2, by omega, ⟨(taken s.flag w).1, s.threads.set i (taken s.flag w).2⟩, ?_, ?_⟩
    · show (s.step (.run i false)).bind _ = _
      rw [run_step hi hsaw]
      show (SharedSpinlock.step _ (.run i false)).bind _ = _
      rw [hsecond]
      rfl
    · rw [holding_eq (List.getElem?_set_self hlt)]
      exact htaken

/-- A writer that has seen another one gets the lock when that one has given it back. -/
theorem waiting_acquires_writer : ∃ n ≤ 2, ∃ s',
    runAll SharedSpinlock.step ⟨0, [.lockLoop Int64.minValue, .free]⟩
      (List.replicate n (.run 0 false)) = some s' ∧ s'.holding 0 = .exclusive := by
  have hinit : Reach isInitial SharedSpinlock.step anyStep ⟨0, [.free, .free]⟩ :=
    .init ⟨rfl, by decide, by decide⟩
  have hlast := reach_of_run hinit (rfl : runAll SharedSpinlock.step _
    [.call 1 .lock, .run 1 false, .run 1 false, .call 0 .lock, .run 0 false, .call 1 .unlock] =
      some _)
  refine waiting_acquires hlast rfl rfl fun j hj => .inr (.inl ?_)
  cases j with
  | zero => exact absurd rfl hj
  | succ j =>
    cases j with
    | zero => rfl
    | succ j => rfl

end SharedSpinlock

end BoostActor
