import BoostActor.Core.SchedulerRuns
import BoostActor.Core.Wakeup

/-!
# Cooperatively scheduled actors

All event-based actors of a program share one scheduler. A sender that finds an actor asleep
schedules it, on the worker that runs the sender or from outside (`local_actor::enqueue`, `launch`),
and a worker that takes an actor from the policy calls its `resume` and acts on the result
(`worker.hpp`).

The model puts together the actors of `Scheduling` and the coordinator of `Coordinator`: whenever
one of them does something that concerns the other one, both take their steps. `stop` is not called.

* `Linked` — what an actor and the scheduler know about each other;
* `cooperativeActors_reach` — no actor is scheduled twice or resumed by two workers, nobody waits
  for what the other one does not do, and a message that has not been read is never forgotten.
-/

namespace BoostActor

open Lib

variable {α : Type} {P : SchedulerPolicy (Resumable Nat)}

-- -------------------------
-- The code
-- -------------------------

/-- All actors and the scheduler. -/
structure CooperativeActors (α : Type) (P : SchedulerPolicy (Resumable Nat)) where
  actors : Nat → Schedule α
  coordinator : Coordinator P

/-- What happens next. `host` is the worker that runs the sender, if there is one. -/
inductive CooperativeAction (α : Type) (P : SchedulerPolicy (Resumable Nat)) where
  /-- call `c` of `enqueue` of actor `a` -/
  | enqueue (a c : Nat) (x : α)
  /-- the call schedules the actor -/
  | wake (a c : Nat) (host : Option Nat)
  | launch (a : Nat) (lazyInit : Bool) (host : Option Nat)
  /-- in `resume` of actor `a`, which worker `w` has called -/
  | work (a w : Nat) (ch : Choice)
  /-- of worker `i`, in a function of the policy -/
  | policy (i : Nat) (c : P.Choice)
  /-- of a call of `enqueue` of the coordinator -/
  | caller (k : Nat) (c : P.Choice)

/-- What a worker is doing. -/
inductive HostStatus where
  | runs (a : Nat)
  /-- it is about to learn that its actor waits for a message -/
  | waits
  | free
deriving DecidableEq, Repr

def SchedulerWorker.status : SchedulerWorker P → HostStatus
  | .resuming (.job a) => .runs a
  | .execLater (.job a) _ => .runs a
  | .blocked => .waits
  | _ => .free

/-- A worker takes an actor. -/
def SchedulerWorker.takes : SchedulerWorker P → SchedulerWorker P → Option Nat
  | .dequeuing _, .resuming (.job a) => some a
  | _, _ => none

/-- The worker is in `resume`, and not in `exec_later`. -/
def SchedulerWorker.isResuming (a : Nat) : SchedulerWorker P → Bool
  | .resuming r => r = .job a
  | _ => false

/-- `exec_later` of the host, or `enqueue` of the coordinator. -/
def scheduleAction (a : Nat) : Option Nat → CoordinatorAction P
  | some i => .execLater i a
  | none => .enqueue a

namespace Coordinator

/-- What worker `w` does after a step of `resume` of actor `a`: nothing, unless `resume` has come to
a result or returns. -/
def follow (s : Coordinator P) (a w : Nat) : Worker α → Worker α → Option (Coordinator P)
  | .returned .awaitingMessage, _ => s.step (.returned w)
  | .returned r, _ => s.step (.resumed w r)
  | _, .returned .awaitingMessage => s.step (.resumed w .awaitingMessage)
  | _, _ => if s.workers[w]?.any (SchedulerWorker.isResuming a) then some s else none

end Coordinator

namespace CooperativeActors

def setActor (s : CooperativeActors α P) (a : Nat) (actor : Schedule α)
    (coordinator : Coordinator P) : CooperativeActors α P :=
  ⟨Function.update s.actors a actor, coordinator⟩

/-- Worker `i` calls `resume` of the actor that it has taken. -/
def resume (s : CooperativeActors α P) (i : Nat) (coordinator : Coordinator P) :
    Option (CooperativeActors α P) :=
  match s.coordinator.workers[i]?, coordinator.workers[i]? with
  | some before, some after =>
    match before.takes after with
    | some a => ((s.actors a).dequeue i).map fun actor => s.setActor a actor coordinator
    | none => some { s with coordinator }
  | _, _ => none

def step (cfg : Settings α) (s : CooperativeActors α P) :
    CooperativeAction α P → Option (CooperativeActors α P)
  | .enqueue a c x => ((s.actors a).enqueue c x).map fun actor => s.setActor a actor s.coordinator
  | .wake a c host => ((s.actors a).wake c).bind fun actor =>
    (s.coordinator.step (scheduleAction a host)).map (s.setActor a actor)
  | .launch a lazyInit host => ((s.actors a).doLaunch lazyInit).bind fun actor =>
    (if (s.actors a).launch = .waking then s.coordinator.step (scheduleAction a host)
      else some s.coordinator).map (s.setActor a actor)
  | .work a w ch => ((s.actors a).work cfg w ch).bind fun actor =>
    (s.coordinator.follow a w ((s.actors a).workers w) (actor.workers w)).map (s.setActor a actor)
  | .policy i c => (s.coordinator.step (.policy i c)).bind fun coordinator =>
    s.resume i coordinator
  | .caller k c => (s.coordinator.step (.caller k c)).map fun coordinator =>
    { s with coordinator }

/-- No actor has been launched. -/
def isInitial (s : CooperativeActors α P) : Prop :=
  s.actors = (fun _ => .initial) ∧ s.coordinator.isInitial

end CooperativeActors

-- -------------------------
-- The steps of an actor
-- -------------------------

namespace Schedule

variable {cfg : Settings α} {s s' : Schedule α} {w c : Nat}

/-- The actor is in the scheduler. -/
def occupied (s : Schedule α) : Prop := 0 < s.jobs ∨ ∃ w, s.runs w

/-- What occupied means for the phases of the scheduling protocol. -/
theorem occupied_iff {p : Phase} (h : InPhase cfg s p) :
    s.occupied ↔ p = .scheduled ∨ ∃ w, p = .running w := by
  have hjobs : 0 < s.jobs ↔ p = .scheduled := by
    rw [h.jobs]
    split_ifs with hp <;> simp [hp]
  rw [occupied, hjobs]
  exact or_congr_right (exists_congr fun w => h.running w)

theorem occupied_congr (hj : s'.jobs = s.jobs) (hw : s'.workers = s.workers) :
    s'.occupied ↔ s.occupied := by
  unfold occupied runs
  rw [hj, hw]

/-- A worker neither begins nor stops to run the actor. -/
theorem occupied_update (hj : s'.jobs = s.jobs)
    (hw : s'.workers = Function.update s.workers w (s'.workers w))
    (hruns : s'.runs w ↔ s.runs w) : s'.occupied ↔ s.occupied := by
  unfold occupied
  rw [hj]
  refine or_congr_right (exists_congr fun w' => ?_)
  by_cases hww : w' = w
  · rw [hww]
    exact hruns
  · rw [runs, hw, Function.update_of_ne hww]
    rfl

/-- The worker that has run an actor gives it away. -/
theorem not_occupied_update (h : Orderly cfg s) (hruns : s.runs w) (hj : s'.jobs = s.jobs)
    (hw : s'.workers = Function.update s.workers w (s'.workers w)) (hpc : ¬ s'.runs w) :
    ¬ s'.occupied := by
  obtain ⟨⟨p, hp⟩, -⟩ := h
  obtain rfl := (hp.running w).mp hruns
  rintro (hjobs | ⟨w', hw'⟩)
  · rw [hj, hp.jobs] at hjobs
    cases hjobs
  · by_cases hww : w' = w
    · exact hpc (hww ▸ hw')
    · rw [runs, hw, Function.update_of_ne hww] at hw'
      exact hww (Phase.running.inj ((hp.running w').mp hw')).symm

/-- An actor that is not waked gets no job. -/
theorem enqueue_spec {x : α} (hs : s.enqueue c x = some s') :
    s'.jobs = s.jobs ∧ s'.workers = s.workers := by
  unfold enqueue at hs
  split_ifs at hs
  cases hs
  exact ⟨rfl, rfl⟩

/-- Who wakes up an actor is the only one to do so. -/
theorem wake_spec (h : Orderly cfg s) (hs : s.wake c = some s') :
    ¬ s.occupied ∧ s'.occupied ∧ s'.workers = s.workers := by
  obtain ⟨⟨p, hp⟩, -⟩ := h
  unfold wake at hs
  split_ifs at hs with hc
  cases hs
  obtain rfl := (hp.waking c).mp hc
  refine ⟨?_, .inl (Nat.succ_pos _), rfl⟩
  rw [occupied_iff hp]
  simp

/-- The launch of an actor schedules it, or leaves its jobs alone. -/
theorem launch_spec (h : Orderly cfg s) {lazyInit : Bool} (hs : s.doLaunch lazyInit = some s') :
    s'.workers = s.workers ∧ (s.launch = .waking → ¬ s.occupied ∧ s'.occupied) ∧
      (s.launch ≠ .waking → s'.jobs = s.jobs) := by
  obtain ⟨⟨p, hp⟩, -⟩ := h
  unfold doLaunch at hs
  split at hs
  · next hl =>
    have hne : s.launch ≠ .waking := by rw [hl]; exact Launch.noConfusion
    split at hs
    · split at hs <;> cases hs <;> exact ⟨rfl, fun hw => absurd hw hne, fun _ => rfl⟩
    · cases hs
      exact ⟨rfl, fun hw => absurd hw hne, fun _ => rfl⟩
  · next hl =>
    cases hs
    obtain rfl := hp.launching.mp (by rw [hl]; exact Launch.noConfusion)
    refine ⟨rfl, fun _ => ⟨?_, .inl (Nat.succ_pos _)⟩, fun hne => absurd hl hne⟩
    rw [occupied_iff hp]
    simp
  · cases hs

/-- A worker takes the job. -/
theorem dequeue_spec (hs : s.dequeue w = some s') :
    0 < s.jobs ∧ s.workers w = .idle ∧ s'.workers = Function.update s.workers w .entry := by
  unfold dequeue at hs
  split at hs
  · next hw =>
    split_ifs at hs with hj
    cases hs
    exact ⟨hj, hw, rfl⟩
  · cases hs

/-- What a worker does with an actor. -/
structure WorkStep (s s' : Schedule α) (w : Nat) : Prop where
  workers : s'.workers = Function.update s.workers w (s'.workers w)
  returned : ∀ r, s.workers w = .returned r →
    s'.workers w = .idle ∧ s'.jobs = s.jobs + if r = .resumeLater then 1 else 0
  busy : (∀ r, s.workers w ≠ .returned r) → s.runs w ∧ s'.jobs = s.jobs ∧
    (s'.runs w ∨ s'.workers w = .returned .awaitingMessage)

/-- The worker is somewhere else in `resume`, or about to return because the mailbox is blocked. -/
def Goes (s s' : Schedule α) (w : Nat) : Prop :=
  ∃ pc, s'.workers = Function.update s.workers w pc ∧ s'.jobs = s.jobs ∧
    (pc.active = true ∨ pc = .returned .awaitingMessage)

theorem goes_goto {pc : Worker α} (hpc : pc.active = true) : Goes s (s.goto w pc) w :=
  ⟨pc, rfl, rfl, .inl hpc⟩

/-- The first message is taken, or the cache is filled. -/
theorem goes_takeFirst (i : Nat) : Goes s (s.takeFirst w i) w := by
  unfold takeFirst
  split <;> exact ⟨_, rfl, rfl, .inl rfl⟩

/-- The same for the next message. -/
theorem goes_nextMessage (i : Nat) : Goes s (s.nextMessage cfg w i) w := by
  unfold nextMessage
  split
  · split
    · split
      · exact goes_takeFirst i
      · exact goes_goto rfl
    · exact goes_goto rfl
  · split <;> exact ⟨_, rfl, rfl, .inl rfl⟩

/-- The same after the cache was filled. -/
theorem goes_fill {i : Nat} (hw : s.workers w = .fill i) : Goes s (s.fill cfg w i) w := by
  unfold fill
  split
  · refine ⟨.fill i, ?_, rfl, .inl rfl⟩
    rw [← hw, Function.update_eq_self]
  · next mailbox _ =>
    obtain ⟨pc, hupdate, hj, hpc⟩ := goes_takeFirst (s := { s with mailbox }) (w := w) i
    exact ⟨pc, hupdate, hj, hpc⟩

/-- Whether the mailbox can be blocked decides whether the worker returns. -/
theorem goes_tryBlock {otherwise : Worker α} (hpc : otherwise.active = true) :
    Goes s (s.tryBlock w otherwise) w := by
  unfold tryBlock
  split
  · exact ⟨_, rfl, rfl, .inr rfl⟩
  · exact ⟨_, rfl, rfl, .inl hpc⟩

/-- After a message, the actor goes on or has terminated. -/
theorem goes_afterInvoke {ch : Choice} {next : Worker α} (hpc : next.active = true) :
    Goes s (s.afterInvoke w ch next) w := by
  unfold afterInvoke
  split
  · exact goes_goto rfl
  · exact goes_goto hpc

/-- What happens after a handler has been called. -/
theorem Goes.congr {s₁ : Schedule α} (h : Goes s₁ s' w) (hw : s₁.workers = s.workers)
    (hj : s₁.jobs = s.jobs) : Goes s s' w := by
  obtain ⟨pc, hupdate, hjobs, hpc⟩ := h
  exact ⟨pc, by rw [hupdate, hw], hjobs.trans hj, hpc⟩

/-- A worker that goes on. -/
theorem WorkStep.of_goes {pc : Worker α} (hw : s.workers w = pc) (hpc : pc.active = true)
    (hne : ∀ r, pc ≠ .returned r) (hgoes : Goes s s' w) : WorkStep s s' w := by
  obtain ⟨pc', hupdate, hj, hpc'⟩ := hgoes
  have hself : s'.workers w = pc' := by rw [hupdate, Function.update_self]
  refine ⟨by rw [hself, hupdate], fun r hr => absurd (hw.symm.trans hr) (hne r), fun _ => ?_⟩
  unfold runs
  rw [hself, hw]
  exact ⟨hpc, hj, hpc'⟩

/-- A worker that returns gives up the actor, or puts it into the queue again. -/
theorem WorkStep.of_returned {r : ResumeResult} (hw : s.workers w = .returned r)
    (hupdate : s'.workers = Function.update s.workers w .idle)
    (hj : s'.jobs = s.jobs + if r = .resumeLater then 1 else 0) : WorkStep s s' w := by
  have hself : s'.workers w = .idle := by rw [hupdate, Function.update_self]
  refine ⟨by rw [hself, hupdate], fun r' hr' => ?_, fun hne => absurd hw (hne r)⟩
  obtain rfl := Worker.returned.inj (hw.symm.trans hr')
  exact ⟨hself, hj⟩

/-- What a step of a worker does to the jobs of an actor. -/
theorem work_spec {ch : Choice} (hs : s.work cfg w ch = some s') : WorkStep s s' w := by
  unfold work at hs
  -- a worker that is idle does nothing
  split at hs
  · cases hs
  · -- at the beginning of `resume`
    next hw =>
    refine .of_goes hw rfl nofun ?_
    split_ifs at hs <;> cases hs
    · exact goes_goto rfl
    · exact .congr (goes_goto rfl) rfl rfl
    · exact .congr (goes_afterInvoke rfl) rfl rfl
  · -- the next message is asked for
    next i hw =>
    refine .of_goes hw rfl nofun ?_
    split_ifs at hs <;> cases hs
    · exact goes_nextMessage i
    · exact goes_goto rfl
  · next i hw =>
    cases hs
    exact .of_goes hw rfl nofun (goes_fill hw)
  · -- a message was taken from the cache, or from the mailbox
    next hw =>
    refine .of_goes hw rfl nofun ?_
    split at hs <;> cases hs
    · exact goes_afterInvoke rfl
    · exact goes_goto rfl
    · exact goes_goto rfl
    · exact goes_goto rfl
  · next hw =>
    refine .of_goes hw rfl nofun ?_
    split at hs <;> cases hs
    · exact goes_afterInvoke rfl
    · exact goes_goto rfl
    · exact goes_goto rfl
    · exact goes_goto rfl
  · next hw =>
    cases hs
    exact .of_goes hw rfl nofun (goes_tryBlock rfl)
  · next hw =>
    cases hs
    refine .of_goes hw rfl nofun (goes_goto ?_)
    split <;> rfl
  · next hw =>
    cases hs
    exact .of_goes hw rfl nofun (goes_tryBlock rfl)
  · next hw =>
    refine .of_goes hw rfl nofun ?_
    split_ifs at hs <;> cases hs
    · exact goes_goto rfl
    · exact .congr (goes_goto rfl) rfl rfl
  · -- the worker gives the actor up from here on
    next hw =>
    cases hs
    exact .of_goes hw rfl nofun (.congr (goes_goto rfl) rfl rfl)
  · next hw =>
    refine .of_goes hw rfl nofun ?_
    split_ifs at hs <;> cases hs <;> exact goes_goto rfl
  · next hw =>
    cases hs
    refine .of_goes hw rfl nofun (goes_goto ?_)
    split <;> rfl
  · -- `resume` has returned
    next r hw =>
    cases hs
    refine .of_returned hw ?_ ?_
    · split <;> rfl
    · split <;> rfl

end Schedule

-- -------------------------
-- The steps of the scheduler
-- -------------------------

namespace Coordinator

variable {s s' : Coordinator P} {a i w : Nat}

def statusAt (workers : List (SchedulerWorker P)) (w : Nat) : HostStatus :=
  (workers[w]?.map SchedulerWorker.status).getD .free

theorem statusAt_of {workers : List (SchedulerWorker P)} {x : SchedulerWorker P}
    (hi : workers[i]? = some x) : statusAt workers i = x.status := by
  rw [statusAt, hi]
  rfl

/-- The status of the workers after one of them went on. -/
theorem statusAt_set {workers : List (SchedulerWorker P)} {x : SchedulerWorker P}
    (hi : workers[i]? = some x) (x' : SchedulerWorker P) (w : Nat) :
    statusAt (workers.set i x') w = if w = i then x'.status else statusAt workers w := by
  have hlt : i < workers.length := (List.getElem?_eq_some_iff.mp hi).1
  by_cases hw : w = i
  · rw [if_pos hw, hw, statusAt, List.getElem?_set_self hlt]
    rfl
  · rw [if_neg hw, statusAt, List.getElem?_set_ne (Ne.symm hw)]
    rfl

-- -------------------------
-- Steps of the scheduler
-- -------------------------

/-- What has been scheduled, waits and has been detached is the same. -/
def SameJobs (s s' : Coordinator P) : Prop :=
  s'.enqueued = s.enqueued ∧ s'.awaiting = s.awaiting ∧ s'.detached = s.detached

/-- What is scheduled is enqueued, and the workers go on as before. -/
theorem schedule_spec {host : Option Nat} (hs : s.step (scheduleAction a host) = some s') :
    s'.enqueued = a :: s.enqueued ∧ s'.awaiting = s.awaiting ∧ s'.detached = s.detached ∧
      ∀ w, statusAt s'.workers w = statusAt s.workers w := by
  obtain ⟨out, hexec, hout⟩ := Option.bind_eq_some_iff.mp hs
  cases host with
  | none =>
    cases hexec
    cases hout
    exact ⟨rfl, rfl, rfl, fun _ => rfl⟩
  | some i =>
    obtain ⟨s₁, hres, rfl⟩ := Option.map_eq_some_iff.mp hexec
    cases hout
    unfold execLaterStep at hres
    split at hres
    · next j hi =>
      cases hres
      refine ⟨rfl, rfl, rfl, fun w => ?_⟩
      rw [statusAt_set hi]
      split_ifs with hw
      · rw [hw, statusAt_of hi]
        rfl
      · rfl
    · cases hres

/-- A caller's step moves no worker. -/
theorem caller_spec {k : Nat} {c : P.Choice} (hs : s.step (.caller k c) = some s') :
    SameJobs s s' ∧ s'.workers = s.workers := by
  obtain ⟨out, hexec, hout⟩ := Option.bind_eq_some_iff.mp hs
  obtain ⟨l, -, hexec⟩ := Option.bind_eq_some_iff.mp hexec
  obtain ⟨res, -, rfl⟩ := Option.map_eq_some_iff.mp hexec
  cases res with
  | error => cases hout
  | ok res =>
    cases hout
    exact ⟨⟨rfl, rfl, rfl⟩, rfl⟩

/-- A function of the policy changes the status of a worker when it takes an actor. -/
theorem policyStep_status {data data' : P.Data} {c : P.Choice} {x x' : SchedulerWorker P}
    {out : Except Fault (P.Data × SchedulerWorker P)} (hs : x.policyStep data i c = some out)
    (hout : out = .ok (data', x')) :
    (x.takes x' = none → x'.status = x.status) ∧
      ∀ a, x.takes x' = some a → x.status = .free ∧ x'.status = .runs a := by
  unfold SchedulerWorker.policyStep at hs
  split at hs
  · obtain ⟨res, -, rfl⟩ := Option.map_eq_some_iff.mp hs
    match res, hout with
    | .ok (_, .inl _), rfl => exact ⟨fun _ => rfl, nofun⟩
    | .ok (_, .inr (some (.job a))), rfl =>
      refine ⟨nofun, fun a' ha => ?_⟩
      cases ha
      exact ⟨rfl, rfl⟩
    | .ok (_, .inr (some .shutdownHelper)), rfl => exact ⟨fun _ => rfl, nofun⟩
  · next r l =>
    obtain ⟨res, -, rfl⟩ := Option.map_eq_some_iff.mp hs
    match res, hout with
    | .ok (_, some _), rfl => exact ⟨fun _ => by cases r <;> rfl, nofun⟩
    | .ok (_, none), rfl => exact ⟨fun _ => by cases r <;> rfl, nofun⟩
  · obtain ⟨res, -, rfl⟩ := Option.map_eq_some_iff.mp hs
    match res, hout with
    | .ok (_, some _), rfl => exact ⟨fun _ => rfl, nofun⟩
    | .ok (_, none), rfl => exact ⟨fun _ => rfl, nofun⟩
  · cases hs

/-- A worker takes a step in a function of the policy, at the end of which it may have taken
a job. -/
theorem policy_spec {c : P.Choice} (hs : s.step (.policy i c) = some s') : SameJobs s s' ∧
    ∃ x x', s.workers[i]? = some x ∧ s'.workers = s.workers.set i x' ∧
      (x.takes x' = none → x'.status = x.status) ∧
      ∀ a, x.takes x' = some a → x.status = .free ∧ x'.status = .runs a := by
  obtain ⟨out, hexec, hout⟩ := Option.bind_eq_some_iff.mp hs
  obtain ⟨x, hi, hexec⟩ := Option.bind_eq_some_iff.mp hexec
  obtain ⟨res, hres, rfl⟩ := Option.map_eq_some_iff.mp hexec
  cases res with
  | error => cases hout
  | ok res =>
    cases hout
    exact ⟨⟨rfl, rfl, rfl⟩, x, res.2, hi, rfl, policyStep_status hres rfl⟩

/-- `resume` has come to a result. -/
theorem resumed_spec {r : ResumeResult} (hs : s.step (.resumed w r) = some s')
    (hw : statusAt s.workers w = .runs a) :
    ∃ x x', s.workers[w]? = some x ∧ s'.workers = s.workers.set w x' ∧
      x'.status = (if r = .awaitingMessage then .waits else .free) ∧ s'.enqueued = s.enqueued ∧
      s'.awaiting = (if r = .awaitingMessage then [a] else []) ++ s.awaiting ∧
      s'.detached = (if r = .done then [a] else []) ++ s.detached := by
  obtain ⟨out, hexec, hout⟩ := Option.bind_eq_some_iff.mp hs
  obtain ⟨s₁, hres, rfl⟩ := Option.map_eq_some_iff.mp hexec
  cases hout
  unfold resumedStep at hres
  split at hres
  · next hi =>
    rw [statusAt_of hi] at hw
    cases hw
  · next j hi =>
    rw [statusAt_of hi] at hw
    cases hw
    cases r <;> cases hres <;> exact ⟨_, _, hi, rfl, rfl, rfl, rfl, rfl⟩
  · cases hres

/-- A worker whose actor is blocked goes on. -/
theorem returned_spec (hs : s.step (.returned w) = some s') : SameJobs s s' ∧
    ∃ x x', s.workers[w]? = some x ∧ x.status = .waits ∧ s'.workers = s.workers.set w x' ∧
      x'.status = .free := by
  obtain ⟨out, hexec, hout⟩ := Option.bind_eq_some_iff.mp hs
  obtain ⟨s₁, hres, rfl⟩ := Option.map_eq_some_iff.mp hexec
  cases hout
  unfold returnedStep at hres
  split at hres
  · next hi =>
    cases hres
    exact ⟨⟨rfl, rfl, rfl⟩, _, _, hi, rfl, rfl, rfl⟩
  · cases hres

/-- Actor `a` is in the scheduler `n` times. -/
def Holds (s : Coordinator P) (a n : Nat) : Prop :=
  s.enqueued.count a = s.awaiting.count a + s.detached.count a + n

theorem SameJobs.holds (h : SameJobs s s') {n : Nat} : s'.Holds a n ↔ s.Holds a n := by
  obtain ⟨henq, haw, hdet⟩ := h
  unfold Holds
  rw [henq, haw, hdet]

/-- There is a worker with this status. -/
theorem exists_of_statusAt {workers : List (SchedulerWorker P)}
    (h : statusAt workers w = .runs a) :
    ∃ x, workers[w]? = some x ∧ x.status = .runs a := by
  unfold statusAt at h
  cases hx : workers[w]? with
  | none =>
    rw [hx] at h
    cases h
  | some x =>
    rw [hx] at h
    exact ⟨x, rfl, h⟩

variable {L : LawfulPolicy P}

/-- A worker holds the actor that it resumes. -/
theorem mem_held {x : SchedulerWorker P} (h : x.status = .runs a) : .job a ∈ x.held L := by
  cases x with
  | resuming r =>
    cases r with
    | job j =>
      cases h
      exact List.mem_singleton_self _
    | shutdownHelper => cases h
  | execLater r l =>
    cases r with
    | job j =>
      cases h
      exact List.mem_cons_self
    | shutdownHelper => cases h
  | _ => cases h

/-- An actor is stored or in the hands of a thread as often as the scheduler has it. -/
theorem Conserved.holds {jobs : List (Resumable Nat)} (h : s.Conserved L jobs) {n : Nat}
    (hn : s.Holds a n) : jobs.count (.job a) + (s.inHand L).count (.job a) = n := by
  have hall := (List.perm_iff_count.mp h.perm) a
  rw [List.count_append, List.count_append, List.count_append, count_jobsOf, count_jobsOf] at hall
  unfold Holds at hn
  omega

theorem count_inHand_workers (s : Coordinator P) (r : Resumable Nat) :
    (s.workers.flatMap (SchedulerWorker.held L)).count r ≤ (s.inHand L).count r := by
  rw [inHand, List.count_append, List.count_append]
  omega

end Coordinator

-- -------------------------
-- Actors and scheduler
-- -------------------------

namespace CooperativeActors

open Coordinator

variable {cfg : Settings α} {s s' : CooperativeActors α P} {a b w i : Nat}
  {actor : Schedule α} {coordinator : Coordinator P}

/-- What actors and workers know about each other. -/
structure Linked (s : CooperativeActors α P) : Prop where
  /-- a worker runs an actor if and only if both say so -/
  runs : ∀ a w, (s.actors a).runs w ↔ statusAt s.coordinator.workers w = .runs a
  waits : ∀ a w, (s.actors a).workers w = .returned .awaitingMessage →
    statusAt s.coordinator.workers w = .waits
  single : ∀ a b w, (s.actors a).workers w = .returned .awaitingMessage →
    (s.actors b).workers w = .returned .awaitingMessage → a = b
  /-- the scheduler has an actor once if it is occupied, and otherwise not at all -/
  inside : ∀ a, (s.actors a).occupied → s.coordinator.Holds a 1
  outside : ∀ a, ¬ (s.actors a).occupied → s.coordinator.Holds a 0

theorem setActor_self : (s.setActor a actor coordinator).actors a = actor :=
  Function.update_self ..

theorem setActor_of_ne (h : b ≠ a) : (s.setActor a actor coordinator).actors b = s.actors b :=
  Function.update_of_ne h ..

/-- An actor goes on without the scheduler. -/
theorem Linked.alone (h : Linked s) (hj : actor.jobs = (s.actors a).jobs)
    (hw : actor.workers = (s.actors a).workers) :
    Linked (s.setActor a actor s.coordinator) := by
  have hworkers (b : Nat) :
      ((s.setActor a actor s.coordinator).actors b).workers = (s.actors b).workers := by
    by_cases hb : b = a
    · rw [hb, setActor_self, hw]
    · rw [setActor_of_ne hb]
  have hoccupied (b : Nat) :
      ((s.setActor a actor s.coordinator).actors b).occupied ↔ (s.actors b).occupied := by
    by_cases hb : b = a
    · rw [hb, setActor_self]
      exact Schedule.occupied_congr hj hw
    · rw [setActor_of_ne hb]
  -- so nothing that a field of `Linked` speaks of has changed
  refine ⟨fun b w => ?_, fun b w hb => ?_, fun b c w hb hc => ?_, fun b hb => ?_, fun b hb => ?_⟩
  · unfold Schedule.runs
    rw [hworkers]
    exact h.runs b w
  · rw [hworkers] at hb
    exact h.waits b w hb
  · rw [hworkers] at hb hc
    exact h.single b c w hb hc
  · exact h.inside b ((hoccupied b).mp hb)
  · exact h.outside b fun hocc => hb ((hoccupied b).mpr hocc)

/-- An actor that is not in the scheduler is scheduled. -/
theorem Linked.schedule (h : Linked s) {host : Option Nat}
    (hs : s.coordinator.step (scheduleAction a host) = some coordinator)
    (hbefore : ¬ (s.actors a).occupied) (hafter : actor.occupied)
    (hw : actor.workers = (s.actors a).workers) : Linked (s.setActor a actor coordinator) := by
  obtain ⟨henq, haw, hdet, hstatus⟩ := schedule_spec hs
  have hworkers (b : Nat) :
      ((s.setActor a actor coordinator).actors b).workers = (s.actors b).workers := by
    by_cases hb : b = a
    · rw [hb, setActor_self, hw]
    · rw [setActor_of_ne hb]
  have hothers {b : Nat} (hb : b ≠ a) (n : Nat) (hn : s.coordinator.Holds b n) :
      coordinator.Holds b n := by
    unfold Coordinator.Holds at hn ⊢
    rw [henq, haw, hdet, List.count_cons_of_ne (by simpa using Ne.symm hb)]
    exact hn
  refine ⟨fun b w => ?_, fun b w hb => ?_, fun b c w hb hc => ?_, fun b hb => ?_, fun b hb => ?_⟩
  · unfold Schedule.runs
    rw [hworkers]
    exact (h.runs b w).trans (by rw [← hstatus w]; rfl)
  · rw [hworkers] at hb
    exact (hstatus w).trans (h.waits b w hb)
  · rw [hworkers] at hb hc
    exact h.single b c w hb hc
  · -- the actor was not in the scheduler, and now is there once
    by_cases hba : b = a
    · subst hba
      have hzero := h.outside b hbefore
      show coordinator.Holds b 1
      unfold Coordinator.Holds at hzero ⊢
      rw [henq, haw, hdet, List.count_cons_self, hzero]
    · rw [setActor_of_ne hba] at hb
      exact hothers hba 1 (h.inside b hb)
  · -- it is occupied now
    by_cases hba : b = a
    · subst hba
      rw [setActor_self] at hb
      exact absurd hafter hb
    · rw [setActor_of_ne hba] at hb
      exact hothers hba 0 (h.outside b hb)

/-- Worker `w` does something with actor `a`, and no other actor has to do with that worker. -/
theorem Linked.move (h : Linked s)
    (hworkers : actor.workers = Function.update (s.actors a).workers w (actor.workers w))
    (hstatus : ∀ w', w' ≠ w →
      statusAt coordinator.workers w' = statusAt s.coordinator.workers w')
    (hothers : ∀ b, b ≠ a → ¬ (s.actors b).runs w ∧
      (s.actors b).workers w ≠ .returned .awaitingMessage)
    (hruns : actor.runs w ∧ statusAt coordinator.workers w = .runs a ∨
      ¬ actor.runs w ∧ ∀ b, statusAt coordinator.workers w ≠ .runs b)
    (hwaits : actor.workers w = .returned .awaitingMessage →
      statusAt coordinator.workers w = .waits)
    (hholds : ∀ b n, b ≠ a → s.coordinator.Holds b n → coordinator.Holds b n)
    (hinside : actor.occupied → coordinator.Holds a 1)
    (houtside : ¬ actor.occupied → coordinator.Holds a 0) :
    Linked (s.setActor a actor coordinator) := by
  have hat (w' : Nat) (hne : w' ≠ w) : actor.workers w' = (s.actors a).workers w' := by
    rw [hworkers, Function.update_of_ne hne]
  refine ⟨fun b w' => ?_, fun b w' hb => ?_, fun b c w' hb hc => ?_, fun b hb => ?_,
    fun b hb => ?_⟩
  · -- which worker runs which actor: `w` either runs `a` now, or nobody
    show _ ↔ statusAt coordinator.workers w' = _
    by_cases hw : w' = w
    · subst hw
      by_cases hba : b = a
      · subst hba
        rw [setActor_self]
        rcases hruns with ⟨hyes, heq⟩ | ⟨hno, hnone⟩
        · exact iff_of_true hyes heq
        · exact iff_of_false hno (hnone b)
      · -- another actor is not run by this worker
        rw [setActor_of_ne hba]
        refine iff_of_false (hothers b hba).1 fun heq => ?_
        rcases hruns with ⟨-, heq'⟩ | ⟨-, hnone⟩
        · rw [heq] at heq'
          exact hba (HostStatus.runs.inj heq')
        · exact hnone b heq
    · -- the other workers go on with what they had
      rw [hstatus w' hw, ← h.runs b w']
      by_cases hba : b = a
      · subst hba
        rw [setActor_self, Schedule.runs, hat w' hw]
        rfl
      · rw [setActor_of_ne hba]
  · -- a worker waits if its actor is about to be blocked: again, only `w` may have changed that
    show statusAt coordinator.workers w' = _
    by_cases hw : w' = w
    · subst hw
      by_cases hba : b = a
      · subst hba
        rw [setActor_self] at hb
        exact hwaits hb
      · rw [setActor_of_ne hba] at hb
        exact absurd hb (hothers b hba).2
    · rw [hstatus w' hw]
      by_cases hba : b = a
      · subst hba
        rw [setActor_self, hat w' hw] at hb
        exact h.waits b w' hb
      · rw [setActor_of_ne hba] at hb
        exact h.waits b w' hb
  · -- at the other workers nothing has been returned in this step
    have hold (d : Nat) (hw : w' ≠ w) (hd : ((s.setActor a actor coordinator).actors d).workers w' =
        .returned .awaitingMessage) : (s.actors d).workers w' = .returned .awaitingMessage := by
      by_cases hda : d = a
      · subst hda
        rw [setActor_self, hat w' hw] at hd
        exact hd
      · rw [setActor_of_ne hda] at hd
        exact hd
    by_cases hw : w' = w
    · subst hw
      -- at `w`, only `a` can have returned
      have hself (d : Nat) (hd : ((s.setActor a actor coordinator).actors d).workers w' =
          .returned .awaitingMessage) : d = a := by
        by_contra hda
        rw [setActor_of_ne hda] at hd
        exact (hothers d hda).2 hd
      rw [hself b hb, hself c hc]
    · exact h.single b c w' (hold b hw hb) (hold c hw hc)
  · -- what is occupied is in the scheduler, which is a hypothesis for `a`
    by_cases hba : b = a
    · subst hba
      rw [setActor_self] at hb
      exact hinside hb
    · rw [setActor_of_ne hba] at hb
      exact hholds b 1 hba (h.inside b hb)
  · -- the same for what is not
    by_cases hba : b = a
    · subst hba
      rw [setActor_self] at hb
      exact houtside hb
    · rw [setActor_of_ne hba] at hb
      exact hholds b 0 hba (h.outside b hb)

/-- The other actors have nothing to do with a worker that is free. -/
theorem Linked.others_of_free (h : Linked s) (hfree : statusAt s.coordinator.workers w = .free)
    (b : Nat) : ¬ (s.actors b).runs w ∧ (s.actors b).workers w ≠ .returned .awaitingMessage := by
  refine ⟨fun hb => ?_, fun hb => ?_⟩
  · rw [h.runs, hfree] at hb
    cases hb
  · have hwaits := h.waits b w hb
    rw [hfree] at hwaits
    cases hwaits

/-- A worker that runs an actor runs no other, and waits for none. -/
theorem Linked.others_of_runs (h : Linked s) (hruns : (s.actors a).runs w) (hba : b ≠ a) :
    ¬ (s.actors b).runs w ∧ (s.actors b).workers w ≠ .returned .awaitingMessage := by
  have hstatus := (h.runs a w).mp hruns
  refine ⟨fun hb => ?_, fun hb => ?_⟩
  · rw [h.runs, hstatus] at hb
    exact hba (HostStatus.runs.inj hb).symm
  · have hwaits := h.waits b w hb
    rw [hstatus] at hwaits
    cases hwaits

/-- A worker that waits for an actor runs none. -/
theorem Linked.others_of_waits (h : Linked s)
    (hw : (s.actors a).workers w = .returned .awaitingMessage) (hba : b ≠ a) :
    ¬ (s.actors b).runs w ∧ (s.actors b).workers w ≠ .returned .awaitingMessage := by
  refine ⟨fun hb => ?_, fun hb => hba (h.single b a w hb hw)⟩
  rw [h.runs, h.waits a w hw] at hb
  cases hb

/-- The scheduler goes on without the actors. -/
theorem Linked.scheduler (h : Linked s) (hjobs : SameJobs s.coordinator coordinator)
    (hstatus : ∀ w, statusAt coordinator.workers w = statusAt s.coordinator.workers w) :
    Linked { s with coordinator } := by
  refine ⟨fun b w => ?_, fun b w hb => (hstatus w).trans (h.waits b w hb), h.single,
    fun b hb => hjobs.holds.mpr (h.inside b hb), fun b hb => hjobs.holds.mpr (h.outside b hb)⟩
  show _ ↔ statusAt coordinator.workers w = _
  rw [hstatus]
  exact h.runs b w

-- -------------------------
-- Steps that concern both
-- -------------------------

/-- A worker takes an actor, or does something else in a function of the policy. -/
theorem Linked.policy (h : Linked s) {c : P.Choice}
    (hs : s.coordinator.step (.policy i c) = some coordinator)
    (hresume : s.resume i coordinator = some s') : Linked s' := by
  obtain ⟨hjobs, x, x', hi, hworkers, hnone, hsome⟩ := policy_spec hs
  have hlt : i < s.coordinator.workers.length := (List.getElem?_eq_some_iff.mp hi).1
  have hi' : coordinator.workers[i]? = some x' := by rw [hworkers, List.getElem?_set_self hlt]
  have hstatus (w : Nat) : statusAt coordinator.workers w =
      if w = i then x'.status else statusAt s.coordinator.workers w := by
    rw [hworkers, statusAt_set hi]
  rw [resume, hi, hi'] at hresume
  dsimp only at hresume
  split at hresume
  · -- the worker has taken the job `a`, and with it the actor
    next a ha =>
    obtain ⟨actor, hdequeue, rfl⟩ := Option.map_eq_some_iff.mp hresume
    obtain ⟨hpos, hidle, hupdate⟩ := Schedule.dequeue_spec hdequeue
    obtain ⟨hfree, hruns⟩ := hsome a ha
    have hentry : actor.workers i = .entry := by rw [hupdate, Function.update_self]
    have hself : statusAt coordinator.workers i = .runs a := by rw [hstatus, if_pos rfl, hruns]
    have hruns' : actor.runs i := by rw [Schedule.runs, hentry]; rfl
    refine h.move (by rw [hentry, hupdate]) (fun w hw => by rw [hstatus, if_neg hw])
      (fun b _ => h.others_of_free (by rw [statusAt_of hi, hfree]) b) (.inl ⟨hruns', hself⟩)
      (fun hw => ?_) (fun b n _ hn => hjobs.holds.mpr hn)
      (fun _ => hjobs.holds.mpr (h.inside a (.inl hpos))) fun hout => absurd (.inr ⟨i, hruns'⟩) hout
    rw [hentry] at hw
    cases hw
  · -- it is still in a function of the policy
    next ha =>
    cases hresume
    refine h.scheduler hjobs fun w => ?_
    rw [hstatus]
    split_ifs with hw
    · rw [hw, statusAt_of hi, hnone ha]
    · rfl

/-- `resume` has come to a result, and the actor stays in the scheduler or leaves it. -/
theorem Linked.resumed (h : Linked s) {r : ResumeResult} (hruns : (s.actors a).runs w)
    (hs : s.coordinator.step (.resumed w r) = some coordinator)
    (hworkers : actor.workers = Function.update (s.actors a).workers w (actor.workers w))
    (hnot : ¬ actor.runs w)
    (hwaits : actor.workers w = .returned .awaitingMessage → r = .awaitingMessage)
    (hoccupied : actor.occupied ↔ r = .resumeLater) :
    Linked (s.setActor a actor coordinator) := by
  obtain ⟨x, x', hi, hset, hx', henq, haw, hdet⟩ := resumed_spec hs ((h.runs a w).mp hruns)
  have hstatus (w' : Nat) := statusAt_set hi x' w'
  rw [← hset] at hstatus
  have hself : statusAt coordinator.workers w =
      if r = .awaitingMessage then .waits else .free := by rw [hstatus, if_pos rfl, hx']
  have hone := h.inside a (.inr ⟨w, hruns⟩)
  unfold Coordinator.Holds at hone
  refine h.move hworkers (fun w' hne => by rw [hstatus, if_neg hne])
    (fun b hba => h.others_of_runs hruns hba) (.inr ⟨hnot, fun b hb => ?_⟩) (fun hret => ?_)
    (fun b n hba hn => ?_) (fun hocc => ?_) fun hocc => ?_
  · -- the worker is free now, or waits
    rw [hself] at hb
    split_ifs at hb
  · rw [hself, if_pos (hwaits hret)]
  · -- the histories grow by `a` only
    have hcount (q : Prop) [Decidable q] : (if q then [a] else []).count b = 0 := by
      split_ifs
      · rw [List.count_singleton, if_neg (by simpa using Ne.symm hba)]
      · rfl
    unfold Coordinator.Holds at hn ⊢
    rw [henq, haw, hdet, List.count_append, List.count_append, hcount, hcount]
    omega
  · -- the job is put back, so its history stays
    obtain rfl := hoccupied.mp hocc
    unfold Coordinator.Holds
    rw [henq, haw, hdet, if_neg nofun, if_neg nofun]
    exact hone
  · -- the history of awaiting or detached jobs grows by `a`
    have hne : r ≠ .resumeLater := fun hr => hocc (hoccupied.mpr hr)
    unfold Coordinator.Holds
    rw [henq, haw, hdet]
    cases r with
    | resumeLater => exact absurd rfl hne
    | done =>
      rw [if_neg nofun, if_pos rfl, List.nil_append, List.singleton_append, List.count_cons_self]
      omega
    | awaitingMessage =>
      rw [if_pos rfl, if_neg nofun, List.nil_append, List.singleton_append, List.count_cons_self]
      omega

/-- A worker takes a step in `resume`. -/
theorem Linked.work (h : Linked s) (hord : Orderly cfg (s.actors a)) {ch : Choice}
    (hs : (s.actors a).work cfg w ch = some actor)
    (hfollow : s.coordinator.follow a w ((s.actors a).workers w) (actor.workers w) =
      some coordinator) : Linked (s.setActor a actor coordinator) := by
  have hstep := Schedule.work_spec hs
  unfold follow at hfollow
  split at hfollow
  · next hw =>
    -- `resume` returns, and the worker goes on
    obtain ⟨hjobs, x, x', hi, hx, hworkers, hx'⟩ := returned_spec hfollow
    obtain ⟨hidle, hj⟩ := hstep.returned _ hw
    have hstatus (w' : Nat) := statusAt_set hi x' w'
    rw [← hworkers] at hstatus
    have hnot : ¬ actor.runs w := by rw [Schedule.runs, hidle]; exact Bool.false_ne_true
    have hoccupied : actor.occupied ↔ (s.actors a).occupied := by
      refine Schedule.occupied_update (by simpa using hj) hstep.workers (iff_of_false hnot ?_)
      rw [Schedule.runs, hw]
      exact Bool.false_ne_true
    refine h.move hstep.workers (fun w' hne => by rw [hstatus, if_neg hne])
      (fun b hba => h.others_of_waits hw hba) (.inr ⟨hnot, fun b hb => ?_⟩) (fun hret => ?_)
      (fun b n _ hn => hjobs.holds.mpr hn) (fun hocc => ?_) fun hocc => ?_
    · rw [hstatus, if_pos rfl, hx'] at hb
      cases hb
    · rw [hidle] at hret
      cases hret
    · exact hjobs.holds.mpr (h.inside a (hoccupied.mp hocc))
    · exact hjobs.holds.mpr (h.outside a fun hocc' => hocc (hoccupied.mpr hocc'))
  · next r hne hw =>
    -- `resume` returns with a result
    have hruns : (s.actors a).runs w := by
      rw [Schedule.runs, hw]
      cases r with
      | awaitingMessage => exact absurd rfl hne
      | _ => rfl
    obtain ⟨hidle, hj⟩ := hstep.returned _ hw
    have hnot : ¬ actor.runs w := by rw [Schedule.runs, hidle]; exact Bool.false_ne_true
    refine h.resumed hruns hfollow hstep.workers hnot (fun hret => ?_) ?_
    · rw [hidle] at hret
      cases hret
    · by_cases hr : r = .resumeLater
      · rw [if_pos hr] at hj
        exact iff_of_true (.inl (by omega)) hr
      · rw [if_neg hr] at hj
        exact iff_of_false (Schedule.not_occupied_update hord hruns hj hstep.workers hnot) hr
  · next hret _ hbusy =>
    -- the mailbox has been blocked
    obtain ⟨hruns, hj, -⟩ := hstep.busy hbusy
    have hnot : ¬ actor.runs w := by rw [Schedule.runs, hret]; exact Bool.false_ne_true
    exact h.resumed hruns hfollow hstep.workers hnot (fun _ => rfl)
      (iff_of_false (Schedule.not_occupied_update hord hruns hj hstep.workers hnot)
        fun heq => by cases heq)
  · next hbusy hnot =>
    split_ifs at hfollow
    cases hfollow
    obtain ⟨hruns, hj, hgoes⟩ := hstep.busy hbusy
    have hruns' : actor.runs w := hgoes.resolve_right hnot
    exact h.move hstep.workers (fun _ _ => rfl) (fun b hba => h.others_of_runs hruns hba)
      (.inl ⟨hruns', (h.runs a w).mp hruns⟩) (fun hret => absurd hret hnot)
      (fun _ _ _ hn => hn) (fun _ => h.inside a (.inr ⟨w, hruns⟩))
      fun hocc => absurd (.inr ⟨w, hruns'⟩) hocc

-- -------------------------
-- Runs
-- -------------------------

/-- What holds between two steps. -/
structure Inv (cfg : Settings α) (L : LawfulPolicy P) (s : CooperativeActors α P) : Prop where
  linked : Linked s
  orderly : ∀ a, Orderly cfg (s.actors a)
  scheduler : Coordinator.Inv L s.coordinator

variable {L : LawfulPolicy P}

/-- Every step of the scheduler keeps its invariant. -/
theorem scheduler_step {c c' : Coordinator P} (h : Coordinator.Inv L c) {act : CoordinatorAction P}
    (hs : c.step act = some c') : Coordinator.Inv L c' := by
  obtain ⟨out, hexec, hout⟩ := Option.bind_eq_some_iff.mp hs
  obtain ⟨c₁, rfl, hinv⟩ := h.exec hexec
  cases hout
  exact hinv

/-- A step of one actor leaves all of them orderly. -/
theorem Inv.orderly_setActor (h : Inv cfg L s) (input : Schedule.Input α)
    (hs : (s.actors a).step cfg input = some actor) (coordinator : Coordinator P) (b : Nat) :
    Orderly cfg ((s.setActor a actor coordinator).actors b) := by
  by_cases hba : b = a
  · rw [hba, setActor_self]
    exact (h.orderly a).step hs
  · rw [setActor_of_ne hba]
    exact h.orderly b

/-- What a step of a worker means for the scheduler. -/
theorem Inv.follow (h : Inv cfg L s) {pc pc' : Worker α}
    (hs : s.coordinator.follow a w pc pc' = some coordinator) :
    Coordinator.Inv L coordinator := by
  unfold Coordinator.follow at hs
  split at hs
  · exact scheduler_step h.scheduler hs
  · exact scheduler_step h.scheduler hs
  · exact scheduler_step h.scheduler hs
  · split_ifs at hs
    cases hs
    exact h.scheduler

/-- Every step of the system keeps the invariant. -/
theorem Inv.step (h : Inv cfg L s) {act : CooperativeAction α P} (hs : s.step cfg act = some s') :
    Inv cfg L s' := by
  cases act with
  | enqueue a c x =>
    obtain ⟨actor, hactor, rfl⟩ := Option.map_eq_some_iff.mp hs
    obtain ⟨hj, hw⟩ := Schedule.enqueue_spec hactor
    exact ⟨h.linked.alone hj hw, h.orderly_setActor (.enqueue c x) hactor _, h.scheduler⟩
  | wake a c host =>
    obtain ⟨actor, hactor, hs⟩ := Option.bind_eq_some_iff.mp hs
    obtain ⟨coordinator, hcoord, rfl⟩ := Option.map_eq_some_iff.mp hs
    obtain ⟨hbefore, hafter, hw⟩ := Schedule.wake_spec (h.orderly a) hactor
    exact ⟨h.linked.schedule hcoord hbefore hafter hw, h.orderly_setActor (.wake c) hactor _,
      scheduler_step h.scheduler hcoord⟩
  | launch a lazyInit host =>
    obtain ⟨actor, hactor, hs⟩ := Option.bind_eq_some_iff.mp hs
    obtain ⟨coordinator, hcoord, rfl⟩ := Option.map_eq_some_iff.mp hs
    obtain ⟨hw, hwaking, hstarting⟩ := Schedule.launch_spec (h.orderly a) hactor
    have hord := h.orderly_setActor (.launch lazyInit) hactor coordinator
    split_ifs at hcoord with hl
    · obtain ⟨hbefore, hafter⟩ := hwaking hl
      exact ⟨h.linked.schedule hcoord hbefore hafter hw, hord, scheduler_step h.scheduler hcoord⟩
    · cases hcoord
      exact ⟨h.linked.alone (hstarting hl) hw, hord, h.scheduler⟩
  | work a w ch =>
    obtain ⟨actor, hactor, hs⟩ := Option.bind_eq_some_iff.mp hs
    obtain ⟨coordinator, hcoord, rfl⟩ := Option.map_eq_some_iff.mp hs
    exact ⟨h.linked.work (h.orderly a) hactor hcoord,
      h.orderly_setActor (.work w ch) hactor _, h.follow hcoord⟩
  | policy i c =>
    obtain ⟨coordinator, hcoord, hs⟩ := Option.bind_eq_some_iff.mp hs
    have hlinked := h.linked.policy hcoord hs
    have hinv := scheduler_step h.scheduler hcoord
    unfold resume at hs
    -- if a job was taken, the actor is taken as well
    split at hs
    · split at hs
      · obtain ⟨actor, hactor, rfl⟩ := Option.map_eq_some_iff.mp hs
        exact ⟨hlinked, h.orderly_setActor (.dequeue i) hactor _, hinv⟩
      · cases hs
        exact ⟨hlinked, h.orderly, hinv⟩
    · cases hs
  | caller k c =>
    obtain ⟨coordinator, hcoord, rfl⟩ := Option.map_eq_some_iff.mp hs
    obtain ⟨hjobs, hworkers⟩ := Coordinator.caller_spec hcoord
    exact ⟨h.linked.scheduler hjobs fun w => by rw [hworkers], h.orderly,
      scheduler_step h.scheduler hcoord⟩

/-- The invariant holds in the beginning. -/
theorem Inv.init (h : s.isInitial) : Inv cfg L s := by
  obtain ⟨hactors, hcoord⟩ := h
  have hinv : Coordinator.Inv L s.coordinator := .init hcoord
  obtain ⟨data, -, hcoord⟩ := hcoord
  have hfree (w : Nat) : statusAt s.coordinator.workers w = .free := by
    rw [hcoord, statusAt, List.getElem?_map, Option.map_map]
    cases (List.range P.numWorkers)[w]? <;> rfl
  have hactor (a : Nat) : s.actors a = .initial := by rw [hactors]
  -- nothing has been enqueued yet
  have hnot (a : Nat) : ¬ (s.actors a).occupied := by
    rw [hactor]
    rintro (hj | ⟨w, hw⟩)
    · cases hj
    · cases hw
  refine ⟨⟨fun a w => ?_, fun a w hw => ?_, fun a b w hw => ?_, fun a hocc => absurd hocc (hnot a),
    fun a _ => ?_⟩, fun a => ?_, hinv⟩
  · rw [hfree, hactor]
    exact iff_of_false Bool.false_ne_true nofun
  · rw [hactor] at hw
    cases hw
  · rw [hactor] at hw
    cases hw
  · rw [hcoord]
    rfl
  · rw [hactor]
    exact orderly_of_reachable (.init rfl)

/-- A worker that has nothing to do with an actor has been idle. -/
theorem Linked.idle (h : Linked s) (hfree : statusAt s.coordinator.workers w = .free) :
    (s.actors a).workers w = .idle := by
  obtain ⟨hnot, hwaits⟩ := h.others_of_free hfree a
  unfold Schedule.runs at hnot
  cases hpc : (s.actors a).workers w with
  | idle => rfl
  | returned r =>
    rw [hpc] at hnot hwaits
    cases r with
    | awaitingMessage => exact absurd rfl hwaits
    | _ => exact absurd rfl hnot
  | _ =>
    rw [hpc] at hnot
    exact absurd rfl hnot

/-- An actor that a worker has taken is ready to be resumed. -/
theorem Inv.resume (h : Inv cfg L s) {c : P.Choice}
    (hs : s.coordinator.step (.policy i c) = some coordinator) :
    (s.resume i coordinator).isSome = true := by
  obtain ⟨hjobs, x, x', hi, hworkers, -, hsome⟩ := policy_spec hs
  have hlt : i < s.coordinator.workers.length := (List.getElem?_eq_some_iff.mp hi).1
  have hi' : coordinator.workers[i]? = some x' := by rw [hworkers, List.getElem?_set_self hlt]
  rw [CooperativeActors.resume, hi, hi']
  dsimp only
  split
  · next a ha =>
    obtain ⟨hfree, hruns⟩ := hsome a ha
    have hfreeAt : statusAt s.coordinator.workers i = .free := by rw [statusAt_of hi, hfree]
    obtain ⟨stored, hc⟩ := (scheduler_step h.scheduler hs).conserved
    -- the worker has this job in hand, so that it is not lost
    have hle := count_inHand_workers (L := L) coordinator (.job a)
    have hpos := count_flatMap_pos hi' (mem_held (L := L) hruns)
    have hoccupied : (s.actors a).occupied := by
      by_contra hout
      have hcount := hc.holds (hjobs.holds.mpr (h.linked.outside a hout))
      omega
    have hcount := hc.holds (hjobs.holds.mpr (h.linked.inside a hoccupied))
    have hpending : 0 < (s.actors a).jobs := by
      rcases hoccupied with hj | ⟨w, hw⟩
      · exact hj
      · -- the actor would be in the hands of two workers
        have hstatus := (h.linked.runs a w).mp hw
        have hwi : i ≠ w := by
          rintro rfl
          rw [hfreeAt] at hstatus
          cases hstatus
        obtain ⟨y, hy, hyruns⟩ := exists_of_statusAt hstatus
        have hy' : coordinator.workers[w]? = some y := by
          rw [hworkers, List.getElem?_set_ne hwi, hy]
        have htwo := two_le_count_flatMap hwi hi' hy' (mem_held (L := L) hruns)
          (mem_held (L := L) hyruns)
        omega
    rw [Option.isSome_map, Schedule.dequeue, h.linked.idle hfreeAt]
    dsimp only
    rw [if_pos hpending]
    rfl
  · rfl

/-- A worker that is in `resume` goes on, and one that has left it as well. -/
theorem Inv.work_isSome (h : Inv cfg L s) {ch : Choice}
    (hs : ((s.actors a).work cfg w ch).isSome = true)
    (hw : s.coordinator.workers[w]?.any (SchedulerWorker.isResuming a) = true ∨
      (s.actors a).workers w = .returned .awaitingMessage) :
    (s.step cfg (.work a w ch)).isSome = true := by
  obtain ⟨actor, hactor⟩ := Option.isSome_iff_exists.mp hs
  -- the scheduler is ready for a worker that returns from a job
  have hresumed (hne : (s.actors a).workers w ≠ .returned .awaitingMessage) (r : ResumeResult) :
      (s.coordinator.step (.resumed w r)).isSome = true := by
    obtain ⟨x, hx, hres⟩ := (Option.any_eq_true _ _).mp (hw.resolve_right hne)
    cases x with
    | resuming r' =>
      obtain rfl : r' = .job a := of_decide_eq_true hres
      have hstep : s.coordinator.resumedStep w r ≠ none := by
        rw [Coordinator.resumedStep, hx]
        cases r <;> exact nofun
      obtain ⟨c', hc'⟩ := Option.ne_none_iff_exists'.mp hstep
      rw [Coordinator.step, Coordinator.exec, hc']
      rfl
    | _ => cases hres
  rw [CooperativeActors.step, hactor, Option.bind_some, Option.isSome_map]
  unfold Coordinator.follow
  split
  · -- the actor was blocked, so that its worker waits
    next hpc =>
    have hstatus := h.linked.waits a w hpc
    unfold statusAt at hstatus
    cases hx : s.coordinator.workers[w]? with
    | none =>
      rw [hx] at hstatus
      cases hstatus
    | some x =>
      rw [hx] at hstatus
      rw [Coordinator.step, Coordinator.exec, Coordinator.returnedStep, hx]
      cases x with
      | blocked => rfl
      | resuming r => cases r <;> cases hstatus
      | execLater r l => cases r <;> cases hstatus
      | _ => cases hstatus
  · next r hne hpc => exact hresumed (by rw [hpc]; exact fun heq => hne (Worker.returned.inj heq)) r
  · next hne _ => exact hresumed hne _
  · next hne _ _ =>
    rw [if_pos (hw.resolve_right hne)]
    rfl

/-- What actors, senders and workers can rely on. -/
structure Cooperative (cfg : Settings α) (L : LawfulPolicy P) (s : CooperativeActors α P) :
    Prop where
  /-- an actor that has been scheduled is in one place: stored, or in the hands of one thread -/
  once : ∃ stored, L.Stores s.coordinator.data stored ∧ ∀ a,
    stored.count (.job a) + (s.coordinator.inHand L).count (.job a) ≤ 1 ∧
    ((s.actors a).occupied ↔
      stored.count (.job a) + (s.coordinator.inHand L).count (.job a) = 1)
  /-- no two workers run the same actor, and no worker runs two -/
  exclusive : ∀ a b w w', (s.actors a).runs w → (s.actors b).runs w' → (a = b ↔ w = w')
  /-- an actor with a message that has not been read is in the scheduler, or somebody is about to
  schedule it -/
  awake : ∀ a, (s.actors a).unread ≠ [] → (s.actors a).occupied ∨
    (∃ c, (s.actors a).senders c = .waking) ∨ (s.actors a).launch ≠ .launched
  /-- a worker never takes an actor that cannot be resumed -/
  ready : ∀ i c, (s.coordinator.step (.policy i c)).isSome = true →
    (s.step cfg (.policy i c)).isSome = true
  /-- and it can act on every result, also when the actor has been scheduled again already -/
  goesOn : ∀ a w ch, ((s.actors a).work cfg w ch).isSome = true →
    s.coordinator.workers[w]?.any (SchedulerWorker.isResuming a) = true ∨
      (s.actors a).workers w = .returned .awaitingMessage →
    (s.step cfg (.work a w ch)).isSome = true
  /-- nothing goes wrong in the scheduler -/
  faultless : ∀ act f, s.coordinator.exec act ≠ some (.error f)

/-- What the invariant says about the system. -/
theorem Inv.cooperative (h : Inv cfg L s) : Cooperative cfg L s := by
  obtain ⟨stored, hc⟩ := h.scheduler.conserved
  refine ⟨⟨stored, hc.stores, fun a => ?_⟩, fun a b w w' ha hb => ?_, fun a hne => ?_,
    fun i c hs => ?_, fun a w ch hs hw => h.work_isSome hs hw, fun act f hexec => ?_⟩
  · by_cases hocc : (s.actors a).occupied
    · have hcount := hc.holds (h.linked.inside a hocc)
      exact ⟨Nat.le_of_eq hcount, iff_of_true hocc hcount⟩
    · have hcount := hc.holds (h.linked.outside a hocc)
      exact ⟨by omega, iff_of_false hocc (by omega)⟩
  · -- the worker of an actor is unique, and so is the actor of a worker
    have hstatus := (h.linked.runs a w).mp ha
    have hstatus' := (h.linked.runs b w').mp hb
    constructor
    · rintro rfl
      obtain ⟨⟨p, hp⟩, -⟩ := h.orderly a
      have hpw := (hp.running w).mp ha
      rw [(hp.running w').mp hb] at hpw
      exact (Phase.running.inj hpw).symm
    · rintro rfl
      rw [hstatus] at hstatus'
      exact HostStatus.runs.inj hstatus'
  · -- an actor with unread messages is occupied, or about to be scheduled
    obtain ⟨⟨p, hp⟩, -⟩ := h.orderly a
    rw [Schedule.occupied_iff hp]
    cases p with
    | launching => exact .inr (.inr (hp.launching.mpr rfl))
    | scheduled => exact .inl (.inl rfl)
    | running w => exact .inl (.inr ⟨w, rfl⟩)
    | waking c => exact .inr (.inl ⟨c, (hp.waking c).mpr rfl⟩)
    | asleep =>
      obtain ⟨hf, hh⟩ := hp.resting rfl
      exact absurd (by simp [Schedule.unread, Mailbox.unread, hf, hh, hp.asleep.mpr rfl]) hne
    | terminated =>
      obtain ⟨hf, hh, -⟩ := hp.closed (hp.terminated rfl)
      exact absurd (by simp [Schedule.unread, Mailbox.unread, hf, hh, hp.terminated rfl]) hne
  · obtain ⟨coordinator, hcoord⟩ := Option.isSome_iff_exists.mp hs
    rw [CooperativeActors.step, hcoord, Option.bind_some]
    exact h.resume hcoord
  · obtain ⟨s', hok, -⟩ := h.scheduler.exec hexec
    cases hok

/-- For any number of actors, senders and workers, any handlers and any policy that keeps its
promises, as long as the scheduler has not been told to stop. -/
theorem cooperativeActors_reach (L : LawfulPolicy P)
    (hreach : Reach isInitial (step cfg) anyStep s) : Cooperative cfg L s :=
  (hreach.invariant (I := Inv cfg L) (fun _ hs => .init hs) fun _ _ _ h _ hs =>
    h.step hs).cooperative

/-- An actor is launched, stolen by worker 1 and put to sleep, and woken up before the worker has
returned from it. -/
theorem cooperativeActors_woken : ∃ s : CooperativeActors Nat (workStealing (Resumable Nat) 2),
    s.coordinator.enqueued = [0, 0] ∧ (s.actors 0).jobs = 1 ∧
      Cooperative ⟨false, 5, fun _ => false⟩ (workStealing_lawful _ (by decide)) s :=
  ⟨_, rfl, rfl, cooperativeActors_reach _ (reach_of_run
    (.init (s := ⟨fun _ => .initial, Coordinator.twoWorkers⟩)
      ⟨rfl, Coordinator.twoWorkers_initial⟩)
    (rfl : runAll (step ⟨false, 5, fun _ => false⟩) _ [.launch 0 false none, .launch 0 false none,
      .caller 0 (0 : Nat), .caller 0 (1 : Nat), .caller 0 (0 : Nat), .policy 1 (0 : Nat),
      .policy 1 (0 : Nat), .policy 1 (0 : Nat), .work 0 1 ⟨.success, false⟩,
      .work 0 1 ⟨.success, false⟩, .work 0 1 ⟨.success, false⟩, .enqueue 0 3 70, .wake 0 3 none,
      .work 0 1 ⟨.success, false⟩] = some _))⟩

end CooperativeActors

end BoostActor
