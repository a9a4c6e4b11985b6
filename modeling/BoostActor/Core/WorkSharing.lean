import BoostActor.Core.SchedulerRuns

/-!
# Work sharing

The policy `work_sharing` (`work_sharing.hpp`): all workers share one queue with a mutex, and wait
for jobs on a condition variable, which every enqueue operation notifies once.

What a thread does while it holds the mutex is one step, but for `foreach_resumable`, which holds it
during its whole loop. The condition variable counts the threads that sleep and those that have been
released but have not gone on yet; a thread may also wake up for no reason.

* `workSharing_lawful` — the policy keeps its promises;
* `workSharing_reach` — no job is lost or invented, and nothing goes wrong;
* `workSharing_awake` — no worker sleeps while there is a job that no worker has been released for.
-/

namespace BoostActor

open Lib

variable {R : Type}

-- -------------------------
-- The code
-- -------------------------

/-- `coordinator_data`; workers have no data of their own. -/
structure SharingData (R : Type) where
  queue : List R
  /-- `foreach_resumable` holds the mutex -/
  locked : Bool
  /-- how many threads sleep in `cv.wait` -/
  waiting : Nat
  /-- how many of them have been released -/
  notified : Nat
deriving DecidableEq, Repr

/-- Where a worker is in `dequeue`. -/
inductive SharingDequeue where
  /-- about to lock the mutex -/
  | entry
  /-- in `cv.wait` -/
  | wait
deriving DecidableEq, Repr

/-- Where a call that stores a job is. -/
inductive SharingEnqueue (R : Type) where
  | pushBack (job : R)
  | pushFront (job : R)
deriving DecidableEq, Repr

/-- Where `foreach_resumable` of worker `w` is. -/
inductive SharingForeach where
  | entry (w : Nat)
  /-- in the loop -/
  | next (w : Nat)
deriving DecidableEq, Repr

namespace SharingData

/-- `cv.notify_one` -/
def notifyOne (d : SharingData R) : SharingData R :=
  if d.waiting = 0 then d else { d with waiting := d.waiting - 1, notified := d.notified + 1 }

/-- A thread in `cv.wait` goes on, because it has been released or not. -/
def wake (d : SharingData R) (spurious : Bool) : Option (SharingData R) :=
  if spurious then
    if d.waiting = 0 then none else some { d with waiting := d.waiting - 1 }
  else
    if d.notified = 0 then none else some { d with notified := d.notified - 1 }

/-- The loop of `dequeue`, up to the next `cv.wait`. -/
def take (d : SharingData R) : SharingData R × (SharingDequeue ⊕ Option R) :=
  match d.queue with
  | [] => ({ d with waiting := d.waiting + 1 }, .inl .wait)
  | job :: queue => ({ d with queue }, .inr (some job))

def dequeueStep (d : SharingData R) (spurious : Bool) :
    SharingDequeue → Option (Except Fault (SharingData R × (SharingDequeue ⊕ Option R)))
  | .entry => if d.locked then none else some (return d.take)
  | .wait => if d.locked then none else (d.wake spurious).map fun d => return d.take

def enqueueStep (d : SharingData R) :
    SharingEnqueue R → Option (Except Fault (SharingData R × Option (SharingEnqueue R)))
  | .pushBack job =>
    if d.locked then none
    else some (return ({ d with queue := d.queue ++ [job] }.notifyOne, none))
  | .pushFront job =>
    if d.locked then none
    else some (return ({ d with queue := job :: d.queue }.notifyOne, none))

def foreachStep (d : SharingData R) :
    SharingForeach → Option (Except Fault (SharingData R × Option R × Option SharingForeach))
  | .entry w =>
    if d.locked then none else some (return ({ d with locked := true }, none, some (.next w)))
  | .next w =>
    match d.queue with
    | [] => some (return ({ d with locked := false }, none, none))
    | job :: queue => some (return ({ d with queue }, some job, some (.next w)))

end SharingData

/-- The policy for a number of workers. -/
def workSharing (R : Type) (numWorkers : Nat) : SchedulerPolicy R where
  Data := SharingData R
  Choice := Bool
  Dequeue := SharingDequeue
  Enqueue := SharingEnqueue R
  Foreach := SharingForeach
  numWorkers
  isInitial d := d = ⟨[], false, 0, 0⟩
  dequeue _ := .entry
  centralEnqueue job := .pushBack job
  externalEnqueue _ job := .pushBack job
  internalEnqueue _ job := .pushFront job
  resumeJobLater _ job := .pushBack job
  foreachResumable w := .entry w
  dequeueStep d l spurious := d.dequeueStep spurious l
  enqueueStep d l _ := d.enqueueStep l
  foreachStep d l _ := d.foreachStep l

-- -------------------------
-- The promises of the policy
-- -------------------------

namespace SharingData

variable {d d' : SharingData R} {jobs : List R}

def Stores (d : SharingData R) (jobs : List R) : Prop := jobs.Perm d.queue

theorem notifyOne_queue (d : SharingData R) : d.notifyOne.queue = d.queue := by
  unfold notifyOne
  split_ifs <;> rfl

theorem wake_queue {spurious : Bool} (h : d.wake spurious = some d') : d'.queue = d.queue := by
  unfold wake at h
  split_ifs at h <;> cases h <;> rfl

/-- Taking either waits or takes one of the jobs. -/
theorem take_spec (h : d.Stores jobs) :
    (∃ d' l', d.take = (d', .inl l') ∧ d'.Stores jobs) ∨
      ∃ d' r jobs', d.take = (d', .inr (some r)) ∧ d'.Stores jobs' ∧ jobs.Perm (r :: jobs') := by
  unfold Stores at h
  unfold take
  cases hq : d.queue with
  | nil =>
    rw [hq] at h
    exact .inl ⟨_, _, rfl, h⟩
  | cons job queue =>
    rw [hq] at h
    exact .inr ⟨_, job, queue, rfl, .refl _, h⟩

/-- A step of `dequeue` keeps the jobs or takes one of them. -/
theorem dequeueStep_spec {l : SharingDequeue} {spurious : Bool} {out} (h : d.Stores jobs)
    (hstep : d.dequeueStep spurious l = some out) :
    (∃ d' l', out = .ok (d', .inl l') ∧ True ∧ d'.Stores jobs) ∨
      ∃ d' r jobs', out = .ok (d', .inr (some r)) ∧ d'.Stores jobs' ∧ jobs.Perm (r :: jobs') := by
  obtain ⟨d₁, hstores, rfl⟩ : ∃ d₁ : SharingData R, d₁.Stores jobs ∧ out = .ok d₁.take := by
    cases l with
    | entry =>
      rw [dequeueStep] at hstep
      split_ifs at hstep
      cases hstep
      exact ⟨d, h, rfl⟩
    | wait =>
      rw [dequeueStep] at hstep
      split_ifs at hstep
      obtain ⟨d₁, hwake, rfl⟩ := Option.map_eq_some_iff.mp hstep
      refine ⟨d₁, ?_, rfl⟩
      rw [Stores, wake_queue hwake]
      exact h
  rcases take_spec hstores with ⟨d', l', htake, h'⟩ | ⟨d', r, jobs', htake, h', hperm⟩
  · exact .inl ⟨d', l', by rw [htake], trivial, h'⟩
  · exact .inr ⟨d', r, jobs', by rw [htake], h', hperm⟩

end SharingData

-- -------------------------
-- Jobs are kept
-- -------------------------

/-- The job that is not in the queue yet. -/
def SharingEnqueue.held : SharingEnqueue R → List R
  | .pushBack job => [job]
  | .pushFront job => [job]

def SharingForeach.target : SharingForeach → Nat
  | .entry w => w
  | .next w => w

namespace SharingData

variable {d d' : SharingData R} {jobs : List R}

/-- A step of `enqueue` moves its job into the queue. -/
theorem enqueueStep_spec {l : SharingEnqueue R} {out} (h : d.Stores jobs)
    (hstep : d.enqueueStep l = some out) :
    ∃ d' l' jobs', out = .ok (d', l') ∧ (∀ l₁ ∈ l', True) ∧ d'.Stores jobs' ∧
      (jobs' ++ l'.elim [] SharingEnqueue.held).Perm (jobs ++ l.held) := by
  cases l with
  | pushBack job =>
    rw [enqueueStep] at hstep
    split_ifs at hstep
    cases hstep
    refine ⟨_, none, jobs ++ [job], rfl, by simp, ?_, by simp [SharingEnqueue.held]⟩
    rw [Stores, notifyOne_queue]
    exact h.append_right [job]
  | pushFront job =>
    rw [enqueueStep] at hstep
    split_ifs at hstep
    cases hstep
    refine ⟨_, none, job :: jobs, rfl, by simp, ?_, ?_⟩
    · rw [Stores, notifyOne_queue]
      exact h.cons job
    · rw [Option.elim_none, List.append_nil]
      exact (List.perm_append_singleton job jobs).symm

/-- A step of `foreach` keeps the jobs or hands out one of them. -/
theorem foreachStep_spec {l : SharingForeach} {out} (h : d.Stores jobs)
    (hstep : d.foreachStep l = some out) :
    ∃ d' r l', ∃ jobs' : List R, out = .ok (d', r, l') ∧ d'.Stores jobs' ∧
      jobs.Perm (r.toList ++ jobs') ∧ (∀ l₁ ∈ l', True ∧ SharingForeach.target l₁ = l.target) ∧
      (l' = none → d'.queue = []) ∧ ∀ _ : Nat, d.queue = [] → d'.queue = [] := by
  cases l with
  | entry w =>
    rw [foreachStep] at hstep
    split_ifs at hstep
    cases hstep
    refine ⟨_, none, some (.next w), jobs, rfl, h, .refl _, ?_, by simp, fun _ hempty => hempty⟩
    rintro _ ⟨⟩
    exact ⟨trivial, rfl⟩
  | next w =>
    unfold foreachStep at hstep
    unfold Stores at h
    dsimp only at hstep
    split at hstep
    · next hq =>
      cases hstep
      exact ⟨_, none, none, jobs, rfl, h, .refl _, by simp, fun _ => hq, fun _ _ => hq⟩
    · next job queue hq =>
      cases hstep
      rw [hq] at h
      refine ⟨_, some job, some (.next w), queue, rfl, .refl _, h, ?_, by simp, ?_⟩
      · rintro _ ⟨⟩
        exact ⟨trivial, rfl⟩
      · intro _ hempty
        rw [hq] at hempty
        cases hempty

end SharingData

/-- The policy keeps its promises. -/
def workSharing_lawful (R : Type) {n : Nat} (hn : 0 < n) : LawfulPolicy (workSharing R n) where
  workers_pos := hn
  Stores := SharingData.Stores
  DequeueOk _ := True
  EnqueueOk _ := True
  ForeachOk _ := True
  held := SharingEnqueue.held
  target := SharingForeach.target
  Cleared (d : SharingData R) _ := d.queue = []
  initial := by
    rintro d rfl
    exact .refl _
  dequeue_ok _ := trivial
  central_ok _ := ⟨trivial, rfl⟩
  external_ok _ _ := ⟨trivial, rfl⟩
  internal_ok _ _ := ⟨trivial, rfl⟩
  later_ok _ _ := ⟨trivial, rfl⟩
  foreach_ok _ := ⟨trivial, rfl⟩
  dequeue_spec h _ hstep := SharingData.dequeueStep_spec h hstep
  enqueue_spec h _ hstep := SharingData.enqueueStep_spec h hstep
  foreach_spec h _ hstep := SharingData.foreachStep_spec h hstep
  cleared {d jobs} (hstores : jobs.Perm d.queue) hcleared := by
    have hempty : SharingData.queue d = [] := hcleared 0 hn
    rw [hempty] at hstores
    exact hstores.eq_nil

-- -------------------------
-- Sleeping workers
-- -------------------------

def SharingDequeue.isWait : SharingDequeue → Bool
  | .wait => true
  | .entry => false

/-- The call sleeps now. -/
def fallsAsleep (out : SharingDequeue ⊕ Option R) : Bool :=
  out.elim SharingDequeue.isWait fun _ => false

namespace SharingData

variable {d d' : SharingData R}

/-- As many threads have been released as there are jobs, unless no thread sleeps any more. -/
def Released (d : SharingData R) : Prop := 0 < d.waiting → d.queue.length ≤ d.notified

/-- Threads in `cv.wait`. -/
def sleepers (d : SharingData R) : Nat := d.waiting + d.notified

/-- Adding a job and notifying a worker releases a sleeper for it. -/
theorem Released.notifyOne {queue : List R} (h : d.Released)
    (hlength : queue.length = d.queue.length + 1) :
    ({ d with queue }.notifyOne).Released ∧ ({ d with queue }.notifyOne).sleepers = d.sleepers := by
  unfold Released at h
  unfold SharingData.notifyOne Released sleepers
  split_ifs with hwaiting
  · exact ⟨fun hpos => absurd hwaiting (Nat.pos_iff_ne_zero.mp hpos), rfl⟩
  · dsimp only at hwaiting ⊢
    rw [hlength]
    have hlast := h (Nat.pos_iff_ne_zero.mpr hwaiting)
    omega

/-- A thread that looks into the queue, and may have been released for that. -/
theorem Released.take (h : 0 < d.waiting → d.queue.length ≤ d.notified + 1) :
    d.take.1.Released ∧
      d.take.1.sleepers = d.sleepers + if fallsAsleep d.take.2 then 1 else 0 := by
  unfold SharingData.take
  cases hq : d.queue with
  | nil =>
    exact ⟨fun _ => Nat.zero_le _, Nat.add_right_comm _ _ _⟩
  | cons job queue =>
    rw [hq, List.length_cons] at h
    exact ⟨fun hpos => Nat.le_of_succ_le_succ (h hpos), rfl⟩

/-- A step of `dequeue` keeps the balance; the worker counts as a sleeper while it waits. -/
theorem Released.dequeueStep {l : SharingDequeue} {spurious : Bool} {out} (h : d.Released)
    (hstep : d.dequeueStep spurious l = some (.ok (d', out))) :
    d'.Released ∧ d'.sleepers + (if l.isWait then 1 else 0) =
      d.sleepers + if fallsAsleep out then 1 else 0 := by
  cases l with
  | entry =>
    rw [SharingData.dequeueStep] at hstep
    split_ifs at hstep
    have htake : d.take = (d', out) := Except.ok.inj (Option.some.inj hstep)
    have hone := Released.take (d := d) fun hpos => Nat.le_trans (h hpos) (Nat.le_succ _)
    rw [htake] at hone
    exact hone
  | wait =>
    rw [SharingData.dequeueStep] at hstep
    split_ifs at hstep
    -- the worker wakes up by a notification or on its own; in both cases it then takes
    obtain ⟨d₁, hwake, hok⟩ := Option.map_eq_some_iff.mp hstep
    have htake : d₁.take = (d', out) := Except.ok.inj hok
    unfold wake at hwake
    unfold Released at h
    have hone : (0 < d₁.waiting → d₁.queue.length ≤ d₁.notified + 1) ∧
        d₁.sleepers + 1 = d.sleepers := by
      unfold sleepers
      split_ifs at hwake <;> cases hwake <;> dsimp only <;> omega
    obtain ⟨hreleased, hsleepers⟩ := Released.take hone.1
    rw [htake] at hreleased hsleepers
    dsimp only at hsleepers
    refine ⟨hreleased, ?_⟩
    show _ + 1 = _
    omega

/-- A step of `enqueue` keeps the balance and the sleepers. -/
theorem Released.enqueueStep {l : SharingEnqueue R} {l'} (h : d.Released)
    (hstep : d.enqueueStep l = some (.ok (d', l'))) :
    d'.Released ∧ d'.sleepers = d.sleepers := by
  cases l with
  | pushBack job =>
    rw [SharingData.enqueueStep] at hstep
    split_ifs at hstep
    cases hstep
    exact h.notifyOne (by simp)
  | pushFront job =>
    rw [SharingData.enqueueStep] at hstep
    split_ifs at hstep
    cases hstep
    exact h.notifyOne (by simp)

/-- A step of `foreach` keeps the balance and the sleepers. -/
theorem Released.foreachStep {l : SharingForeach} {r l'} (h : d.Released)
    (hstep : d.foreachStep l = some (.ok (d', r, l'))) :
    d'.Released ∧ d'.sleepers = d.sleepers := by
  cases l with
  | entry w =>
    rw [SharingData.foreachStep] at hstep
    split_ifs at hstep
    cases hstep
    exact ⟨h, rfl⟩
  | next w =>
    unfold SharingData.foreachStep at hstep
    dsimp only at hstep
    split at hstep
    · cases hstep
      exact ⟨h, rfl⟩
    · next job queue hq =>
      cases hstep
      refine ⟨fun hpos => ?_, rfl⟩
      have hlast := h hpos
      rw [hq, List.length_cons] at hlast
      exact Nat.le_trans (Nat.le_succ _) hlast

end SharingData

namespace Coordinator

variable {J : Type} {n : Nat} {s s' : Coordinator (workSharing (Resumable J) n)}

/-- A worker in `cv.wait`. -/
def sleeps : SchedulerWorker (workSharing (Resumable J) n) → Bool
  | .dequeuing l => SharingDequeue.isWait l
  | _ => false

/-- The condition variable knows the workers that sleep, and no wakeup is lost. -/
structure Awake (s : Coordinator (workSharing (Resumable J) n)) : Prop where
  sleepers : s.workers.countP sleeps = s.data.waiting + s.data.notified
  released : 0 < s.data.waiting → s.data.queue.length ≤ s.data.notified

/-- At the start no worker sleeps and no job is there. -/
theorem Awake.init (h : s.isInitial) : s.Awake := by
  obtain ⟨data, rfl, rfl⟩ := h
  refine ⟨?_, fun _ => Nat.zero_le _⟩
  refine countP_eq_zero_of_forall ?_
  intro w hw
  obtain ⟨i, -, rfl⟩ := List.mem_map.mp hw
  rfl

/-- Two workers that share an empty queue. -/
def twoSharing : Coordinator (workSharing (Resumable Nat) 2) :=
  ⟨⟨[], false, 0, 0⟩, [.dequeuing .entry, .dequeuing .entry], [], .running, none, [], [], []⟩

theorem twoSharing_initial : twoSharing.isInitial := ⟨_, rfl, rfl⟩

/-- A step of a worker that does not look into the queue. -/
theorem Awake.setWorker (h : s.Awake) {i : Nat}
    {w w' : SchedulerWorker (workSharing (Resumable J) n)}
    (hi : s.workers[i]? = some w) (hw : sleeps w = false) (hw' : sleeps w' = false) :
    (s.workers.set i w').countP sleeps = s.data.waiting + s.data.notified := by
  have hset := countP_set_add hi w' sleeps
  rw [hw, hw'] at hset
  rw [← h.sleepers]
  simpa using hset

/-- A step of a worker keeps the balance; the worker counts while its call of `dequeue` waits. -/
theorem policyStep_awake {d d' : SharingData (Resumable J)} {i : Nat} {spurious : Bool}
    {w w' : SchedulerWorker (workSharing (Resumable J) n)} (h : d.Released)
    (hstep : w.policyStep d i spurious = some (.ok (d', w'))) :
    d'.Released ∧ d'.sleepers + (if sleeps w then 1 else 0) =
      d.sleepers + if sleeps w' then 1 else 0 := by
  cases w with
  | dequeuing l =>
    obtain ⟨res, hres, hout⟩ := Option.map_eq_some_iff.mp hstep
    match res, hout with
    | .ok (_, .inl l'), rfl => exact h.dequeueStep hres
    | .ok (_, .inr (some r)), rfl => exact h.dequeueStep hres
  | execLater r l =>
    obtain ⟨res, hres, hout⟩ := Option.map_eq_some_iff.mp hstep
    match res, hout with
    | .ok (_, some l'), rfl => exact h.enqueueStep hres
    | .ok (_, none), rfl => exact h.enqueueStep hres
  | resumeLater l =>
    obtain ⟨res, hres, hout⟩ := Option.map_eq_some_iff.mp hstep
    match res, hout with
    | .ok (_, some l'), rfl => exact h.enqueueStep hres
    | .ok (_, none), rfl => exact h.enqueueStep hres
  | resuming r => cases hstep
  | blocked => cases hstep
  | ended => cases hstep

/-- Every action keeps the sleepers of the queue those of the workers, and the balance. -/
theorem Awake.step (h : s.Awake) {a : CoordinatorAction (workSharing (Resumable J) n)}
    (hstep : s.step a = some s') : s'.Awake := by
  obtain ⟨out, hexec, hout⟩ := Option.bind_eq_some_iff.mp hstep
  have hreleased : SharingData.Released s.data := h.released
  cases a with
  -- a worker runs the policy: what the queue counts changes as the worker does
  | policy i c =>
    obtain ⟨w, hi, hexec⟩ := Option.bind_eq_some_iff.mp hexec
    obtain ⟨res, hres, rfl⟩ := Option.map_eq_some_iff.mp hexec
    match res, hout with
    | .ok (d', w'), rfl =>
      obtain ⟨hreleased', hsleepers⟩ := policyStep_awake hreleased hres
      refine ⟨?_, hreleased'⟩
      have hset := countP_set_add hi w' sleeps
      have hall := h.sleepers
      unfold SharingData.sleepers at hsleepers
      dsimp only
      omega
  -- a worker that leaves `resume`, its loop or `exec_later` was awake and stays awake
  | resumed i result =>
    obtain ⟨s₁, hres, rfl⟩ := Option.map_eq_some_iff.mp hexec
    cases hout
    unfold resumedStep at hres
    split at hres
    · next hi =>
      cases hres
      exact ⟨h.setWorker hi rfl rfl, h.released⟩
    · next j hi =>
      cases result <;> cases hres <;> exact ⟨h.setWorker hi rfl rfl, h.released⟩
    · cases hres
  | returned i =>
    obtain ⟨s₁, hres, rfl⟩ := Option.map_eq_some_iff.mp hexec
    cases hout
    unfold returnedStep at hres
    split at hres
    · next hi =>
      cases hres
      exact ⟨h.setWorker hi rfl rfl, h.released⟩
    · cases hres
  | execLater i j =>
    obtain ⟨s₁, hres, rfl⟩ := Option.map_eq_some_iff.mp hexec
    cases hout
    unfold execLaterStep at hres
    split at hres
    · next hi =>
      cases hres
      exact ⟨h.setWorker hi rfl rfl, h.released⟩
    · cases hres
  -- a call of `enqueue` begins
  | enqueue j =>
    cases hexec
    cases hout
    exact ⟨h.sleepers, h.released⟩
  -- a caller runs the policy, which counts no sleepers of its own
  | caller k c =>
    obtain ⟨l, hk, hexec⟩ := Option.bind_eq_some_iff.mp hexec
    obtain ⟨res, hres, rfl⟩ := Option.map_eq_some_iff.mp hexec
    match res, hout with
    | .ok (d', l'), rfl =>
      obtain ⟨hreleased', hsleepers⟩ := hreleased.enqueueStep hres
      exact ⟨h.sleepers.trans hsleepers.symm, hreleased'⟩
  -- the thread that stops the coordinator enqueues helpers and then clears the queue
  | stop =>
    obtain ⟨_, -, rfl⟩ := Option.map_eq_some_iff.mp hexec
    cases hout
    exact ⟨h.sleepers, h.released⟩
  | select w =>
    obtain ⟨_, -, rfl⟩ := Option.map_eq_some_iff.mp hexec
    cases hout
    exact ⟨h.sleepers, h.released⟩
  | stopPolicy c =>
    obtain ⟨res, hres, rfl⟩ := Option.map_eq_some_iff.mp hexec
    unfold StopState.policyStep at hres
    split at hres
    · obtain ⟨res, hres', rfl⟩ := Option.map_eq_some_iff.mp hres
      match res, hout with
      | .ok (d', some l'), rfl =>
        obtain ⟨hreleased', hsleepers⟩ := hreleased.enqueueStep hres'
        exact ⟨h.sleepers.trans hsleepers.symm, hreleased'⟩
      | .ok (d', none), rfl =>
        obtain ⟨hreleased', hsleepers⟩ := hreleased.enqueueStep hres'
        exact ⟨h.sleepers.trans hsleepers.symm, hreleased'⟩
    · -- `foreach_resumable`, which drops what is left
      obtain ⟨res, hres', rfl⟩ := Option.map_eq_some_iff.mp hres
      match res, hout with
      | .ok (d', r, some l'), rfl =>
        obtain ⟨hreleased', hsleepers⟩ := hreleased.foreachStep hres'
        exact ⟨h.sleepers.trans hsleepers.symm, hreleased'⟩
      | .ok (d', r, none), rfl =>
        obtain ⟨hreleased', hsleepers⟩ := hreleased.foreachStep hres'
        exact ⟨h.sleepers.trans hsleepers.symm, hreleased'⟩
    · cases hres

/-- In every run, for every number of workers: if a worker sleeps and has not been released, there
are not more jobs in the queue than workers that have been released for them. -/
theorem workSharing_awake (hreach : Reach isInitial step anyStep s) : s.Awake :=
  hreach.invariant (fun _ h => Awake.init h) fun _ _ _ h _ hstep => h.step hstep

/-- Both workers sleep, and one of them is released for a job. -/
theorem workSharing_awake_run : ∃ s : Coordinator (workSharing (Resumable Nat) 2),
    s.data = ⟨[.job 7], false, 1, 1⟩ ∧ s.Awake :=
  ⟨_, rfl, workSharing_awake (reach_of_run (.init twoSharing_initial)
    (rfl : runAll step twoSharing [.policy 0 false, .policy 1 false, .enqueue 7,
      .caller 0 false] = some _))⟩

section

variable [DecidableEq J]

/-- The jobs of the work-sharing scheduler, for every number of workers and every sequence of steps
of all threads. -/
theorem workSharing_reach (hn : 0 < n) (hreach : Reach isInitial step anyStep s) :
    s.Schedules (workSharing_lawful _ hn) :=
  (reach_inv _ hreach).schedules

/-- A worker wakes up for no reason, finds nothing, and is the one that takes the job later. -/
theorem workSharing_reach_run : ∃ s : Coordinator (workSharing (Resumable Nat) 2),
    s.workers[0]? = some (.resuming (.job 7)) ∧ s.Schedules (workSharing_lawful _ (by decide)) :=
  ⟨_, rfl, workSharing_reach (by decide) (reach_of_run (.init twoSharing_initial)
    (rfl : runAll step twoSharing [.policy 0 false, .policy 0 true, .policy 1 false, .enqueue 7,
      .caller 0 false, .policy 0 false] = some _))⟩

end

end Coordinator

end BoostActor
