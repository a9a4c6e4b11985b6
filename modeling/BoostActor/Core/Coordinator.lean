import BoostActor.Core.SchedulerPolicy
import BoostActor.Core.Scheduling
import BoostActor.Lib.Run
import BoostActor.Lib.Threads

/-!
# The coordinator and its workers

The coordinator (`coordinator.hpp`) starts a number of workers (`worker.hpp`), each of which takes
jobs from the policy and resumes them. Its `stop` passes a helper to one worker after the other,
where each resumption of the helper shuts down the worker that is about it; since jobs can be
stolen, this may be another worker than the one it was meant for. A worker that has resumed the
helper counts as ended: what is left of its thread is to return from `run`.

All threads interleave in single steps of the policy. What the jobs do is arbitrary: a job that is
resumed may schedule others and returns any result, and other threads schedule jobs at any time.

* `Conserved` — every job is stored, in the hands of a thread, or has left the scheduler;
* `Inv.exec` — what every step preserves, for every policy that keeps its promises.
-/

namespace BoostActor

open Lib

-- -------------------------
-- The code
-- -------------------------

/-- What the workers resume: an actor, or the `shutdown_helper` of `stop`. -/
inductive Resumable (J : Type) where
  | job (j : J)
  | shutdownHelper
deriving DecidableEq, Repr

variable {J : Type}

/-- Where a worker is in `run`. -/
inductive SchedulerWorker (P : SchedulerPolicy (Resumable J)) where
  | dequeuing (l : P.Dequeue)
  /-- in `resume` of `r` -/
  | resuming (r : Resumable J)
  /-- in `exec_later`, which `r` has called -/
  | execLater (r : Resumable J) (l : P.Enqueue)
  /-- about to return `awaiting_message`; others may schedule the job again -/
  | blocked
  | resumeLater (l : P.Enqueue)
  /-- has resumed the helper and takes no further job; its thread returns from `run` -/
  | ended

/-- Where the thread that calls `stop` is. `alive` are the `alive_workers`. -/
inductive StopState (P : SchedulerPolicy (Resumable J)) where
  /-- `stop` has not been called -/
  | running
  /-- at the beginning of the loop -/
  | selecting (alive : List Nat)
  /-- about to enqueue the helper -/
  | enqueuing (alive : List Nat) (l : P.Enqueue)
  /-- until `last_worker` is set -/
  | waiting (alive : List Nat)
  /-- about to erase `last_worker` -/
  | erasing (alive : List Nat)
  /-- about to reset `last_worker` -/
  | clearing (alive : List Nat)
  /-- about to join the thread of worker `k` -/
  | joining (k : Nat)
  /-- in `foreach_resumable` of worker `k` -/
  | detaching (k : Nat) (l : P.Foreach)
  | stopped

/-- The coordinator with all threads, and what has happened to jobs so far. -/
structure Coordinator (P : SchedulerPolicy (Resumable J)) where
  data : P.Data
  workers : List (SchedulerWorker P)
  /-- calls of `enqueue` by other threads, which return at some point -/
  callers : List (Option P.Enqueue)
  stop : StopState P
  lastWorker : Option Nat
  /-- each time that a job was scheduled -/
  enqueued : List J
  /-- each time that a job began to wait for a message -/
  awaiting : List J
  /-- each call of `detach_from_scheduler` -/
  detached : List J

/-- The next step of one of the threads. -/
inductive CoordinatorAction (P : SchedulerPolicy (Resumable J)) where
  /-- of worker `i`, in a function of the policy -/
  | policy (i : Nat) (c : P.Choice)
  /-- the job that worker `i` resumes has come to its result, or the helper has been resumed -/
  | resumed (i : Nat) (result : ResumeResult)
  /-- `resume` returns `awaiting_message` -/
  | returned (i : Nat)
  /-- the job that worker `i` resumes calls `exec_later` -/
  | execLater (i : Nat) (j : J)
  /-- another thread calls `enqueue` -/
  | enqueue (j : J)
  /-- of a call of `enqueue` -/
  | caller (k : Nat) (c : P.Choice)
  /-- of `stop`, outside of the policy -/
  | stop
  /-- of `stop`, which enqueues the helper at worker `w` -/
  | select (w : Nat)
  /-- of `stop`, in a function of the policy -/
  | stopPolicy (c : P.Choice)

/-- The next step of worker `i` in a function of the policy. -/
def SchedulerWorker.policyStep {P : SchedulerPolicy (Resumable J)} (data : P.Data) (i : Nat)
    (c : P.Choice) : SchedulerWorker P → Option (Except Fault (P.Data × SchedulerWorker P))
  | .dequeuing l => (P.dequeueStep data l c).map fun out => do
    match ← out with
    | (data, .inl l) => return (data, .dequeuing l)
    | (data, .inr (some r)) => return (data, .resuming r)
    | (_, .inr none) => throw (.undefined "assertion")
  | .execLater r l => (P.enqueueStep data l c).map fun out => do
    match ← out with
    | (data, some l) => return (data, .execLater r l)
    | (data, none) => return (data, .resuming r)
  | .resumeLater l => (P.enqueueStep data l c).map fun out => do
    match ← out with
    | (data, some l) => return (data, .resumeLater l)
    | (data, none) => return (data, .dequeuing (P.dequeue i))
  | _ => none

/-- The calls of `detach_from_scheduler` that are not without effect, as that of the helper. -/
def detachFromScheduler : Option (Resumable J) → List J
  | some (.job j) => [j]
  | _ => []

/-- The next step of `stop` in a function of the policy, with the jobs it detaches. -/
def StopState.policyStep {P : SchedulerPolicy (Resumable J)} (data : P.Data) (c : P.Choice) :
    StopState P → Option (Except Fault (P.Data × StopState P × List J))
  | .enqueuing alive l => (P.enqueueStep data l c).map fun out => do
    match ← out with
    | (data, some l) => return (data, .enqueuing alive l, [])
    | (data, none) => return (data, .waiting alive, [])
  | .detaching k l => (P.foreachStep data l c).map fun out => do
    match ← out with
    | (data, r, some l) => return (data, .detaching k l, detachFromScheduler r)
    | (data, r, none) =>
      let stop : StopState P := if k + 1 < P.numWorkers then
        .detaching (k + 1) (P.foreachResumable (k + 1)) else .stopped
      return (data, stop, detachFromScheduler r)
  | _ => none

/-- The next step of `stop` outside of the functions of the policy. -/
def StopState.next {P : SchedulerPolicy (Resumable J)} (workers : List (SchedulerWorker P))
    (lastWorker : Option Nat) : StopState P → Option (StopState P × Option Nat)
  | .running => some (.selecting (List.range P.numWorkers), lastWorker)
  | .selecting [] => some (.joining 0, lastWorker)
  | .waiting alive => if lastWorker = none then none else some (.erasing alive, lastWorker)
  | .erasing alive => some (.clearing (alive.filter fun w => lastWorker ≠ some w), lastWorker)
  | .clearing alive => some (.selecting alive, none)
  | .joining k =>
    match workers[k]? with
    | some .ended => some (.joining (k + 1), lastWorker)
    | some _ => none
    | none => some (.detaching 0 (P.foreachResumable 0), lastWorker)
  | _ => none

/-- The helper is enqueued at one of the workers that are alive. -/
def StopState.select {P : SchedulerPolicy (Resumable J)} (w : Nat) :
    StopState P → Option (StopState P)
  | .selecting alive =>
    if w ∈ alive then some (.enqueuing alive (P.externalEnqueue w .shutdownHelper)) else none
  | _ => none

namespace Coordinator

variable {P : SchedulerPolicy (Resumable J)}

-- -------------------------
-- The coordinator
-- -------------------------

/-- `initialize` -/
def isInitial (s : Coordinator P) : Prop :=
  ∃ data, P.isInitial data ∧ s = ⟨data,
    (List.range P.numWorkers).map fun i => .dequeuing (P.dequeue i), [], .running, none, [], [], []⟩

/-- The result of `resume`. The helper sets `last_worker`, and the worker leaves its loop. -/
def resumedStep (s : Coordinator P) (i : Nat) (result : ResumeResult) : Option (Coordinator P) :=
  match s.workers[i]? with
  | some (.resuming .shutdownHelper) =>
    some { s with lastWorker := some i, workers := s.workers.set i .ended }
  | some (.resuming (.job j)) =>
    match result with
    | .resumeLater =>
      some { s with workers := s.workers.set i (.resumeLater (P.resumeJobLater i (.job j))) }
    | .done => some { s with
        workers := s.workers.set i (.dequeuing (P.dequeue i))
        detached := j :: s.detached }
    | .awaitingMessage => some { s with
        workers := s.workers.set i .blocked
        awaiting := j :: s.awaiting }
  | _ => none

def returnedStep (s : Coordinator P) (i : Nat) : Option (Coordinator P) :=
  match s.workers[i]? with
  | some .blocked => some { s with workers := s.workers.set i (.dequeuing (P.dequeue i)) }
  | _ => none

def execLaterStep (s : Coordinator P) (i : Nat) (j : J) : Option (Coordinator P) :=
  match s.workers[i]? with
  | some (.resuming (.job j')) => some { s with
      workers := s.workers.set i (.execLater (.job j') (P.internalEnqueue i (.job j)))
      enqueued := j :: s.enqueued }
  | _ => none

def exec (s : Coordinator P) : CoordinatorAction P → Option (Except Fault (Coordinator P))
  | .policy i c => s.workers[i]?.bind fun w => (w.policyStep s.data i c).map fun out => do
    let (data, w) ← out
    return { s with data, workers := s.workers.set i w }
  | .resumed i result => (s.resumedStep i result).map .ok
  | .returned i => (s.returnedStep i).map .ok
  | .execLater i j => (s.execLaterStep i j).map .ok
  | .enqueue j => some (.ok { s with
      callers := s.callers ++ [some (P.centralEnqueue (.job j))]
      enqueued := j :: s.enqueued })
  | .caller k c => s.callers[k]?.join.bind fun l => (P.enqueueStep s.data l c).map fun out => do
    let (data, l) ← out
    return { s with data, callers := s.callers.set k l }
  | .stop => (s.stop.next s.workers s.lastWorker).map fun (stop, lastWorker) =>
    .ok { s with stop, lastWorker }
  | .select w => (s.stop.select w).map fun stop => .ok { s with stop }
  | .stopPolicy c => (s.stop.policyStep s.data c).map fun out => do
    let (data, stop, detached) ← out
    return { s with data, stop, detached := detached ++ s.detached }

def step (s : Coordinator P) (a : CoordinatorAction P) : Option (Coordinator P) :=
  (s.exec a).bind Except.toOption

end Coordinator

-- -------------------------
-- Where the jobs are
-- -------------------------

section

variable {P : SchedulerPolicy (Resumable J)} (L : LawfulPolicy P)

/-- What a worker has taken, or not stored yet. -/
def SchedulerWorker.held : SchedulerWorker P → List (Resumable J)
  | .dequeuing _ => []
  | .resuming r => [r]
  | .execLater r l => r :: L.held l
  | .blocked => []
  | .resumeLater l => L.held l
  | .ended => []

def SchedulerWorker.Ok : SchedulerWorker P → Prop
  | .dequeuing l => L.DequeueOk l
  | .resuming _ => True
  | .execLater _ l => L.EnqueueOk l
  | .blocked => True
  | .resumeLater l => L.EnqueueOk l
  | .ended => True

namespace StopState

def held : StopState P → List (Resumable J)
  | .enqueuing _ l => L.held l
  | _ => []

/-- What holds where `stop` is: which workers are alive, and whether `last_worker` is set. -/
def Valid (lastWorker : Option Nat) : StopState P → Prop
  | .running => lastWorker = none
  | .selecting alive => lastWorker = none ∧ ∀ i ∈ alive, i < P.numWorkers
  | .enqueuing alive l => (∀ i ∈ lastWorker, i ∈ alive) ∧ alive ≠ [] ∧
    (∀ i ∈ alive, i < P.numWorkers) ∧ L.EnqueueOk l
  | .waiting alive =>
    (∀ i ∈ lastWorker, i ∈ alive) ∧ alive ≠ [] ∧ ∀ i ∈ alive, i < P.numWorkers
  | .erasing alive => (∃ i ∈ alive, lastWorker = some i) ∧ ∀ i ∈ alive, i < P.numWorkers
  | .clearing alive => ∀ i ∈ alive, i < P.numWorkers
  | .joining _ => lastWorker = none
  | .detaching k l => lastWorker = none ∧ k < P.numWorkers ∧ L.ForeachOk l ∧ L.target l = k
  | .stopped => lastWorker = none

/-- The workers that have not been shut down as far as `stop` knows. -/
def alive : StopState P → List Nat
  | .running => List.range P.numWorkers
  | .selecting alive => alive
  | .enqueuing alive _ => alive
  | .waiting alive => alive
  | .erasing alive => alive
  | .clearing alive => alive
  | _ => []

/-- `stop` has begun to pass the helper to a worker and has not seen yet that one has resumed it. -/
def inCall : StopState P → Bool
  | .enqueuing _ _ => true
  | .waiting _ => true
  | _ => false

/-- The loop of `stop` has ended. -/
def leftLoop : StopState P → Bool
  | .joining _ => true
  | .detaching _ _ => true
  | .stopped => true
  | _ => false

/-- The helper, from the moment that `stop` passes it on until a worker resumes it. -/
def circulating (stop : StopState P) (lastWorker : Option Nat) : List (Resumable J) :=
  if stop.inCall ∧ lastWorker = none then [.shutdownHelper] else []

/-- The worker that has resumed the helper and that `stop` has not erased yet. -/
def pending (lastWorker : Option Nat) : StopState P → Option Nat
  | .enqueuing _ _ => lastWorker
  | .waiting _ => lastWorker
  | .erasing _ => lastWorker
  | _ => none

end StopState

end

namespace Coordinator

variable {P : SchedulerPolicy (Resumable J)} (L : LawfulPolicy P)

/-- What the threads have taken, or not stored yet. -/
def inHand (s : Coordinator P) : List (Resumable J) :=
  s.workers.flatMap (SchedulerWorker.held L) ++ s.callers.flatMap (fun l => l.elim [] L.held) ++
    s.stop.held L

-- -------------------------
-- What every step preserves
-- -------------------------

variable [DecidableEq J]

/-- Every job is stored, in the hands of a thread, or has left the scheduler. -/
structure Conserved (s : Coordinator P) (jobs : List (Resumable J)) : Prop where
  stores : L.Stores s.data jobs
  count : ∀ r, (s.enqueued.map Resumable.job).count r + (s.stop.circulating s.lastWorker).count r =
    jobs.count r + (s.inHand L).count r +
      ((s.awaiting.map Resumable.job).count r + (s.detached.map Resumable.job).count r)

structure Inv (s : Coordinator P) : Prop where
  conserved : ∃ jobs, s.Conserved L jobs
  length : s.workers.length = P.numWorkers
  workers : ∀ w ∈ s.workers, w.Ok L
  callers : ∀ l, some l ∈ s.callers → L.EnqueueOk l
  stop : s.stop.Valid L s.lastWorker
  /-- `alive_workers` are those that have not ended, but for the last one -/
  ended : ∀ i, i < P.numWorkers →
    (s.workers[i]? = some .ended ↔ i ∉ s.stop.alive ∨ s.stop.pending s.lastWorker = some i)

variable {L} {s : Coordinator P} {jobs jobs' : List (Resumable J)}

/-- The invariant holds in the beginning. -/
theorem Inv.init (h : s.isInitial) : Inv L s := by
  obtain ⟨data, hdata, rfl⟩ := h
  refine ⟨⟨[], L.initial hdata, fun r => ?_⟩, ?_, ?_, ?_, rfl, ?_⟩
  · -- no worker holds anything
    have hworkers : ((List.range P.numWorkers).map fun i =>
        (.dequeuing (P.dequeue i) : SchedulerWorker P)).flatMap (SchedulerWorker.held L) = [] := by
      rw [List.flatMap_eq_nil_iff]
      intro w hw
      obtain ⟨i, -, rfl⟩ := List.mem_map.mp hw
      rfl
    simp [inHand, StopState.circulating, StopState.inCall, StopState.held, hworkers]
  · simp
  · intro w hw
    obtain ⟨i, hi, rfl⟩ := List.mem_map.mp hw
    exact L.dequeue_ok (List.mem_range.mp hi)
  · simp
  · intro i hi
    simp [StopState.alive, StopState.pending, hi]

theorem Inv.lt (h : Inv L s) {i : Nat} {w : SchedulerWorker P} (hi : s.workers[i]? = some w) :
    i < P.numWorkers := by
  rw [← h.length]
  exact (List.getElem?_eq_some_iff.mp hi).1

-- -------------------------
-- Steps of the workers
-- -------------------------

/-- A step of a worker that neither ends it nor begins with a worker that has ended. -/
theorem Inv.setWorker (h : Inv L s) (hc : s.Conserved L jobs) {i : Nat} {w : SchedulerWorker P}
    (hi : s.workers[i]? = some w) (hw : w ≠ .ended) (w' : SchedulerWorker P) (hw' : w' ≠ .ended)
    (hok : w'.Ok L) {data : P.Data} (hstores : L.Stores data jobs')
    {enqueued awaiting detached : List J}
    (hcount : ∀ r, (enqueued.map Resumable.job).count r + jobs.count r + (w.held L).count r +
        ((s.awaiting.map Resumable.job).count r + (s.detached.map Resumable.job).count r) =
      (s.enqueued.map Resumable.job).count r + jobs'.count r + (w'.held L).count r +
        ((awaiting.map Resumable.job).count r + (detached.map Resumable.job).count r)) :
    Inv L { s with data, workers := s.workers.set i w', enqueued, awaiting, detached } := by
  refine ⟨⟨jobs', hstores, fun r => ?_⟩, ?_, ?_, h.callers, h.stop, ?_⟩
  · have hall := hc.count r
    have hthis := hcount r
    have hset := count_flatMap_set_add hi w' (SchedulerWorker.held L) r
    unfold inHand at hall ⊢
    simp only [List.count_append] at hall ⊢
    omega
  · rw [List.length_set]
    exact h.length
  · intro w₁ hw₁
    rcases List.mem_or_eq_of_mem_set hw₁ with hmem | rfl
    · exact h.workers w₁ hmem
    · exact hok
  · intro k hk
    refine Iff.trans ?_ (h.ended k hk)
    by_cases hki : i = k
    · subst hki
      rw [List.getElem?_set_self (List.getElem?_eq_some_iff.mp hi).1, hi]
      simp [hw, hw']
    · rw [List.getElem?_set_ne hki]

/-- A step of a thread that stores a job. -/
theorem Inv.setCaller (h : Inv L s) (hc : s.Conserved L jobs) {k : Nat} {l : P.Enqueue}
    {l' : Option P.Enqueue} (hk : s.callers[k]? = some (some l))
    (hok : ∀ l₁ ∈ l', L.EnqueueOk l₁) {data : P.Data} (hstores : L.Stores data jobs')
    (hcount : ∀ r, jobs.count r + (L.held l).count r =
      jobs'.count r + (l'.elim [] L.held).count r) :
    Inv L { s with data, callers := s.callers.set k l' } := by
  refine ⟨⟨jobs', hstores, fun r => ?_⟩, h.length, h.workers, ?_, h.stop, h.ended⟩
  · have hall := hc.count r
    have hthis := hcount r
    have hset := count_flatMap_set_add hk l' (fun l => l.elim [] L.held) r
    unfold inHand at hall ⊢
    simp only [List.count_append] at hall ⊢
    dsimp only [Option.elim_some] at hall hset ⊢
    omega
  · intro l₁ hl₁
    rcases List.mem_or_eq_of_mem_set hl₁ with hmem | heq
    · exact h.callers l₁ hmem
    · exact hok l₁ heq.symm

/-- The job that a call stores, in numbers. -/
theorem enqueue_count {d : P.Data} {l : P.Enqueue} {c : P.Choice}
    {out : Except Fault (P.Data × Option P.Enqueue)} (hstores : L.Stores d jobs)
    (hok : L.EnqueueOk l) (hstep : P.enqueueStep d l c = some out) :
    ∃ d' l' jobs', out = .ok (d', l') ∧ (∀ l₁ ∈ l', L.EnqueueOk l₁) ∧ L.Stores d' jobs' ∧
      ∀ r, jobs.count r + (L.held l).count r = jobs'.count r + (l'.elim [] L.held).count r := by
  obtain ⟨d', l', jobs', hout, hok', hstores', hperm⟩ := L.enqueue_spec hstores hok hstep
  refine ⟨d', l', jobs', hout, hok', hstores', fun r => ?_⟩
  have hr := hperm.count_eq r
  rw [List.count_append, List.count_append] at hr
  omega

/-- A worker in a function of the policy. -/
theorem policyStep_spec {d : P.Data} {i : Nat} {c : P.Choice} {w : SchedulerWorker P}
    {out : Except Fault (P.Data × SchedulerWorker P)} (hstores : L.Stores d jobs)
    (hi : i < P.numWorkers) (hok : w.Ok L) (hstep : w.policyStep d i c = some out) :
    w ≠ .ended ∧ ∃ d' w' jobs', out = .ok (d', w') ∧ w' ≠ .ended ∧ w'.Ok L ∧ L.Stores d' jobs' ∧
      ∀ r, jobs.count r + (w.held L).count r = jobs'.count r + (w'.held L).count r := by
  cases w with
  -- a worker looks for a job
  | dequeuing l =>
    refine ⟨by simp, ?_⟩
    obtain ⟨res, hres, rfl⟩ := Option.map_eq_some_iff.mp hstep
    rcases L.dequeue_spec hstores hok hres with
      ⟨d', l', rfl, hok', hstores'⟩ | ⟨d', r, jobs', rfl, hstores', hperm⟩
    · exact ⟨d', .dequeuing l', jobs, rfl, by simp, hok', hstores', fun r => rfl⟩
    · refine ⟨d', .resuming r, jobs', rfl, by simp, trivial, hstores', fun x => ?_⟩
      have hx := hperm.count_eq x
      rw [List.count_cons] at hx
      simp only [SchedulerWorker.held, List.count_nil, List.count_cons]
      omega
  -- a worker puts a job of its own into its queue
  | execLater r l =>
    refine ⟨by simp, ?_⟩
    obtain ⟨res, hres, rfl⟩ := Option.map_eq_some_iff.mp hstep
    obtain ⟨d', l', jobs', rfl, hok', hstores', hcount⟩ := enqueue_count hstores hok hres
    cases l' with
    | some l' =>
      refine ⟨d', .execLater r l', jobs', rfl, by simp, hok' l' rfl, hstores', fun x => ?_⟩
      have hx := hcount x
      simp only [SchedulerWorker.held, List.count_cons, Option.elim_some] at hx ⊢
      omega
    | none =>
      refine ⟨d', .resuming r, jobs', rfl, by simp, trivial, hstores', fun x => ?_⟩
      have hx := hcount x
      simp only [SchedulerWorker.held, List.count_cons, List.count_nil, Option.elim_none] at hx ⊢
      omega
  -- a worker puts back what it has resumed
  | resumeLater l =>
    refine ⟨by simp, ?_⟩
    obtain ⟨res, hres, rfl⟩ := Option.map_eq_some_iff.mp hstep
    obtain ⟨d', l', jobs', rfl, hok', hstores', hcount⟩ := enqueue_count hstores hok hres
    cases l' with
    | some l' => exact ⟨d', .resumeLater l', jobs', rfl, by simp, hok' l' rfl, hstores', hcount⟩
    | none =>
      exact ⟨d', .dequeuing (P.dequeue i), jobs', rfl, by simp, L.dequeue_ok hi, hstores', hcount⟩
  | resuming r => cases hstep
  | blocked => cases hstep
  | ended => cases hstep

/-- A worker's step in a function of the policy never fails. -/
theorem Inv.policy (h : Inv L s) {i : Nat} {c : P.Choice} {out : Except Fault (Coordinator P)}
    (hexec : s.exec (.policy i c) = some out) : ∃ s', out = .ok s' ∧ Inv L s' := by
  obtain ⟨jobs, hc⟩ := h.conserved
  obtain ⟨w, hi, hexec⟩ := Option.bind_eq_some_iff.mp hexec
  obtain ⟨res, hres, rfl⟩ := Option.map_eq_some_iff.mp hexec
  obtain ⟨hw, d', w', jobs', rfl, hw', hok', hstores, hcount⟩ :=
    policyStep_spec hc.stores (h.lt hi) (h.workers w (List.mem_of_getElem? hi)) hres
  refine ⟨_, rfl, h.setWorker hc hi hw w' hw' hok' hstores fun r => ?_⟩
  have hr := hcount r
  omega

/-- The helper is nowhere if `stop` does not wait for it. -/
theorem Conserved.count_helper (hc : s.Conserved L jobs) :
    jobs.count .shutdownHelper + (s.inHand L).count .shutdownHelper =
      (s.stop.circulating s.lastWorker).count .shutdownHelper := by
  have hall := hc.count .shutdownHelper
  have hjob (js : List J) : (js.map Resumable.job).count .shutdownHelper = 0 := by
    simp [List.count_eq_zero]
  rw [hjob, hjob, hjob] at hall
  omega

/-- A job that `stop` detaches, in numbers. -/
theorem Conserved.detach (hc : s.Conserved L jobs) {r : Option (Resumable J)}
    (hcall : s.stop.inCall = false) (hperm : jobs.Perm (r.toList ++ jobs')) (x : Resumable J) :
    jobs.count x + (s.detached.map Resumable.job).count x =
      jobs'.count x + ((detachFromScheduler r ++ s.detached).map Resumable.job).count x := by
  have hx := hperm.count_eq x
  rw [List.count_append] at hx
  rw [List.map_append, List.count_append]
  cases r with
  | none =>
    simp only [detachFromScheduler, Option.toList_none, List.map_nil, List.count_nil] at hx ⊢
    omega
  | some r =>
    cases r with
    | job j =>
      simp only [detachFromScheduler, Option.toList_some, List.map_cons, List.map_nil] at hx ⊢
      omega
    | shutdownHelper =>
      have hhelper := hc.count_helper
      have hmem := hperm.count_eq .shutdownHelper
      rw [StopState.circulating, if_neg (by simp [hcall]), List.count_nil] at hhelper
      rw [List.count_append, Option.toList_some, List.count_singleton_self] at hmem
      omega

/-- The helper is held by a worker only if `stop` waits for that. -/
theorem Inv.helper (h : Inv L s) {i : Nat} {w : SchedulerWorker P} (hi : s.workers[i]? = some w)
    (hheld : .shutdownHelper ∈ w.held L) : s.stop.inCall = true ∧ s.lastWorker = none := by
  obtain ⟨jobs, hc⟩ := h.conserved
  have hall := hc.count_helper
  have hpos : 0 < (s.workers.flatMap (SchedulerWorker.held L)).count .shutdownHelper :=
    List.count_pos_iff.mpr (List.mem_flatMap.mpr ⟨w, List.mem_of_getElem? hi, hheld⟩)
  unfold inHand at hall
  rw [List.count_append, List.count_append] at hall
  by_contra hnot
  rw [StopState.circulating, if_neg hnot, List.count_nil] at hall
  omega

/-- The helper ends a worker. -/
theorem Inv.shutdown (h : Inv L s) {i : Nat}
    (hi : s.workers[i]? = some (.resuming .shutdownHelper)) :
    Inv L { s with lastWorker := some i, workers := s.workers.set i .ended } := by
  obtain ⟨jobs, hc⟩ := h.conserved
  obtain ⟨hcall, hlast⟩ := h.helper hi (List.mem_singleton_self _)
  have hpending (last : Option Nat) : s.stop.pending last = last := by
    cases hs : s.stop <;> rw [hs] at hcall <;> first | rfl | cases hcall
  have hended := fun k hk => h.ended k hk
  simp only [hpending, hlast] at hended
  refine ⟨⟨jobs, hc.stores, fun r => ?_⟩, ?_, ?_, h.callers, ?_, ?_⟩
  · -- the helper is gone
    have hall := hc.count r
    have hset := count_flatMap_set_add hi .ended (SchedulerWorker.held L) r
    rw [StopState.circulating, if_pos ⟨hcall, hlast⟩] at hall
    rw [StopState.circulating, if_neg (by simp)]
    unfold inHand at hall ⊢
    simp only [List.count_append, SchedulerWorker.held, List.count_nil] at hall hset ⊢
    omega
  · rw [List.length_set]
    exact h.length
  · intro w₁ hw₁
    rcases List.mem_or_eq_of_mem_set hw₁ with hmem | rfl
    · exact h.workers w₁ hmem
    · trivial
  · -- the worker was alive
    have hlt := h.lt hi
    have halive : i ∈ s.stop.alive := by
      by_contra hnot
      have hw := (hended i hlt).mpr (.inl hnot)
      rw [hi] at hw
      cases hw
    have hstop := h.stop
    rw [hlast] at hstop
    dsimp only
    cases hs : s.stop <;> rw [hs] at hcall halive hstop <;> try cases hcall
    · exact ⟨fun _ h => by cases h; exact halive, hstop.2⟩
    · exact ⟨fun _ h => by cases h; exact halive, hstop.2⟩
  · intro k hk
    dsimp only
    rw [hpending]
    by_cases hki : i = k
    · subst hki
      rw [List.getElem?_set_self (List.getElem?_eq_some_iff.mp hi).1]
      simp
    · rw [List.getElem?_set_ne hki, hended k hk]
      simp [hki]

/-- A job that has been resumed, or the helper. -/
theorem Inv.resumedStep (h : Inv L s) {i : Nat} {result : ResumeResult} {s' : Coordinator P}
    (hstep : s.resumedStep i result = some s') : Inv L s' := by
  obtain ⟨jobs, hc⟩ := h.conserved
  unfold Coordinator.resumedStep at hstep
  cases hi : s.workers[i]? with
  | none => rw [hi] at hstep; cases hstep
  | some w =>
    rw [hi] at hstep
    cases w with
    | resuming r =>
      have hok := L.dequeue_ok (h.lt hi)
      cases r with
      | job j =>
        -- the actor is to be resumed later, is blocked, or has ended
        cases result with
        | resumeLater =>
          cases hstep
          obtain ⟨hlater, hheld⟩ := L.later_ok (.job j) (h.lt hi)
          refine h.setWorker hc hi (by simp) (.resumeLater _) (by simp) hlater hc.stores fun x => ?_
          simp only [SchedulerWorker.held, hheld]
        | awaitingMessage =>
          cases hstep
          refine h.setWorker hc hi (by simp) .blocked (by simp) trivial hc.stores fun x => ?_
          simp only [SchedulerWorker.held, List.map_cons, List.count_cons, List.count_nil]
          omega
        | done =>
          cases hstep
          refine h.setWorker hc hi (by simp) (.dequeuing _) (by simp) hok hc.stores fun x => ?_
          simp only [SchedulerWorker.held, List.map_cons, List.count_cons, List.count_nil]
          omega
      -- the worker has come across the helper
      | shutdownHelper =>
        cases hstep
        exact h.shutdown hi
    | dequeuing l => cases hstep
    | execLater r l => cases hstep
    | blocked => cases hstep
    | resumeLater l => cases hstep
    | ended => cases hstep

/-- A worker whose actor was blocked looks for the next job. -/
theorem Inv.returnedStep (h : Inv L s) {i : Nat} {s' : Coordinator P}
    (hstep : s.returnedStep i = some s') : Inv L s' := by
  obtain ⟨jobs, hc⟩ := h.conserved
  unfold Coordinator.returnedStep at hstep
  split at hstep
  · next hi =>
    cases hstep
    exact h.setWorker hc hi (by simp) (.dequeuing _) (by simp) (L.dequeue_ok (h.lt hi)) hc.stores
      fun x => rfl
  · cases hstep

/-- A worker begins to put a job into its queue. -/
theorem Inv.execLaterStep (h : Inv L s) {i : Nat} {j : J} {s' : Coordinator P}
    (hstep : s.execLaterStep i j = some s') : Inv L s' := by
  obtain ⟨jobs, hc⟩ := h.conserved
  unfold Coordinator.execLaterStep at hstep
  split at hstep
  · next j' hi =>
    cases hstep
    obtain ⟨hinternal, hheld⟩ := L.internal_ok (.job j) (h.lt hi)
    refine h.setWorker hc hi (by simp) (.execLater _ _) (by simp) hinternal hc.stores fun x => ?_
    simp only [SchedulerWorker.held, hheld, List.map_cons, List.count_cons, List.count_nil]
    omega
  · cases hstep

-- -------------------------
-- Callers
-- -------------------------

/-- A job that a caller enqueues is in the caller's hands. -/
theorem Inv.enqueue (h : Inv L s) (j : J) : Inv L { s with
    callers := s.callers ++ [some (P.centralEnqueue (.job j))], enqueued := j :: s.enqueued } := by
  obtain ⟨jobs, hc⟩ := h.conserved
  obtain ⟨hcentral, hheld⟩ := L.central_ok (.job j)
  refine ⟨⟨jobs, hc.stores, fun r => ?_⟩, h.length, h.workers, ?_, h.stop, h.ended⟩
  · have hall := hc.count r
    unfold inHand at hall ⊢
    simp only [List.count_append, List.flatMap_append, List.flatMap_singleton, Option.elim_some,
      hheld, List.map_cons, List.count_cons, List.count_nil] at hall ⊢
    omega
  · intro l hl
    rcases List.mem_append.mp hl with hmem | hnew
    · exact h.callers l hmem
    · obtain rfl := Option.some.inj (List.mem_singleton.mp hnew)
      exact hcentral

/-- A caller's step never fails. -/
theorem Inv.caller (h : Inv L s) {k : Nat} {c : P.Choice} {out : Except Fault (Coordinator P)}
    (hexec : s.exec (.caller k c) = some out) : ∃ s', out = .ok s' ∧ Inv L s' := by
  obtain ⟨jobs, hc⟩ := h.conserved
  obtain ⟨l, hk, hexec⟩ := Option.bind_eq_some_iff.mp hexec
  obtain ⟨res, hres, rfl⟩ := Option.map_eq_some_iff.mp hexec
  have hk' : s.callers[k]? = some (some l) := Option.join_eq_some_iff.mp hk
  have hok := h.callers l (List.mem_of_getElem? hk')
  obtain ⟨d', l', jobs', rfl, hok', hstores, hcount⟩ := enqueue_count hc.stores hok hres
  exact ⟨_, rfl, h.setCaller hc hk' hok' hstores hcount⟩

-- -------------------------
-- The shutdown
-- -------------------------

/-- A step of `stop` that does not change which workers have ended. -/
theorem Inv.setStop (h : Inv L s) (hc : s.Conserved L jobs) (stop : StopState P)
    {data : P.Data} (hstores : L.Stores data jobs') {lastWorker : Option Nat}
    (hvalid : stop.Valid L lastWorker) {detached : List J}
    (hcount : ∀ r, (stop.circulating lastWorker).count r + jobs.count r +
        (s.stop.held L).count r + (s.detached.map Resumable.job).count r =
      (s.stop.circulating s.lastWorker).count r + jobs'.count r + (stop.held L).count r +
        (detached.map Resumable.job).count r)
    (hended : ∀ i, (i ∉ s.stop.alive ∨ s.stop.pending s.lastWorker = some i) ↔
      (i ∉ stop.alive ∨ stop.pending lastWorker = some i)) :
    Inv L { s with data, stop, lastWorker, detached } := by
  refine ⟨⟨jobs', hstores, fun r => ?_⟩, h.length, h.workers, h.callers, hvalid, fun i hi => ?_⟩
  · have hall := hc.count r
    have hthis := hcount r
    unfold inHand at hall ⊢
    simp only [List.count_append] at hall ⊢
    omega
  · exact (h.ended i hi).trans (hended i)

/-- A step of `stop` after its loop. -/
theorem Inv.setLeft (h : Inv L s) (hc : s.Conserved L jobs) (hleft : s.stop.leftLoop = true)
    (stop : StopState P) (hleft' : stop.leftLoop = true) {data : P.Data}
    (hstores : L.Stores data jobs') (hvalid : stop.Valid L s.lastWorker) {detached : List J}
    (hcount : ∀ r, jobs.count r + (s.detached.map Resumable.job).count r =
      jobs'.count r + (detached.map Resumable.job).count r) :
    Inv L { s with data, stop, detached } := by
  have hcirculating {stop : StopState P} (hl : stop.leftLoop = true) (last : Option Nat) :
      stop.circulating last = [] := by
    cases stop <;> first | rfl | cases hl
  have hheld {stop : StopState P} (hl : stop.leftLoop = true) : stop.held L = [] := by
    cases stop <;> first | rfl | cases hl
  have halive {stop : StopState P} (hl : stop.leftLoop = true) : stop.alive = [] := by
    cases stop <;> first | rfl | cases hl
  refine h.setStop hc stop hstores hvalid (fun r => ?_) (fun i => ?_)
  · rw [hcirculating hleft, hcirculating hleft', hheld hleft, hheld hleft']
    have hr := hcount r
    omega
  · rw [halive hleft, halive hleft']
    exact iff_of_true (.inl List.not_mem_nil) (.inl List.not_mem_nil)

/-- Every step of `stop` outside of the policy keeps the invariant. -/
theorem Inv.next (h : Inv L s) {stop : StopState P} {lastWorker : Option Nat}
    (hstep : s.stop.next s.workers s.lastWorker = some (stop, lastWorker)) :
    Inv L { s with stop, lastWorker } := by
  obtain ⟨jobs, hc⟩ := h.conserved
  have hvalid := h.stop
  cases hs : s.stop with
  -- all workers are alive
  | running =>
    rw [hs] at hstep hvalid
    cases hstep
    refine h.setStop hc (.selecting _) hc.stores ⟨hvalid, fun i hi => List.mem_range.mp hi⟩
      (fun r => ?_) (fun i => ?_)
    · rw [hs]
      rfl
    · rw [hs]
      exact Iff.rfl
  | selecting alive =>
    rw [hs] at hstep hvalid
    cases alive with
    | cons => cases hstep
    -- none is left, so that they can be joined
    | nil =>
      cases hstep
      refine h.setStop hc (.joining 0) hc.stores hvalid.1 (fun r => ?_) (fun i => ?_)
      · rw [hs]
        rfl
      · rw [hs]
        exact Iff.rfl
  | enqueuing alive l => rw [hs] at hstep; cases hstep
  | waiting alive =>
    rw [hs, StopState.next] at hstep
    rw [hs] at hvalid
    split_ifs at hstep with hnone
    cases hstep
    -- some worker has resumed the helper
    obtain ⟨i, hi⟩ := Option.ne_none_iff_exists'.mp hnone
    refine h.setStop hc (.erasing alive) hc.stores ⟨⟨i, hvalid.1 i hi, hi⟩, hvalid.2.2⟩
      (fun r => ?_) (fun i => ?_)
    · rw [hs, StopState.circulating, StopState.circulating, if_neg (by simp [StopState.inCall]),
        if_neg (by simp [hnone])]
      rfl
    · rw [hs]
      exact Iff.rfl
  | erasing alive =>
    rw [hs] at hstep hvalid
    cases hstep
    refine h.setStop hc (.clearing _) hc.stores
      (fun i hi => hvalid.2 i (List.mem_filter.mp hi).1) (fun r => ?_) (fun i => ?_)
    · rw [hs]
      rfl
    · -- from now on this worker counts as gone
      rw [hs]
      simp only [StopState.alive, StopState.pending, List.mem_filter]
      by_cases hi : s.lastWorker = some i <;> simp [hi]
  | clearing alive =>
    rw [hs] at hstep hvalid
    cases hstep
    refine h.setStop hc (.selecting alive) hc.stores ⟨rfl, hvalid⟩ (fun r => ?_) (fun i => ?_)
    · rw [hs]
      rfl
    · rw [hs]
      exact Iff.rfl
  | joining k =>
    rw [hs, StopState.next] at hstep
    rw [hs] at hvalid
    have hleft : s.stop.leftLoop = true := by
      rw [hs]
      rfl
    split at hstep
    · cases hstep
      -- the next worker is joined
      exact h.setLeft hc hleft (.joining (k + 1)) rfl hc.stores hvalid fun r => rfl
    · cases hstep
    · cases hstep
      -- all have been joined, and what is left is detached
      obtain ⟨hforeach, htarget⟩ := L.foreach_ok L.workers_pos
      exact h.setLeft hc hleft (.detaching _ _) rfl hc.stores
        ⟨hvalid, L.workers_pos, hforeach, htarget⟩ fun r => rfl
  | detaching k l => rw [hs] at hstep; cases hstep
  | stopped => rw [hs] at hstep; cases hstep

/-- The helper is passed to a worker that is alive. -/
theorem Inv.select (h : Inv L s) {w : Nat} {stop : StopState P}
    (hstep : s.stop.select w = some stop) : Inv L { s with stop } := by
  obtain ⟨jobs, hc⟩ := h.conserved
  have hvalid := h.stop
  unfold StopState.select at hstep
  split at hstep
  · next alive hs =>
    split_ifs at hstep with hw
    cases hstep
    rw [hs] at hvalid
    obtain ⟨hnone, halive⟩ := hvalid
    obtain ⟨hexternal, hheld⟩ := L.external_ok .shutdownHelper (halive w hw)
    refine h.setStop hc (.enqueuing alive _) hc.stores
      ⟨?_, List.ne_nil_of_mem hw, halive, hexternal⟩ (fun r => ?_)
      (fun i => ?_)
    · rw [hnone]
      exact fun _ h => by cases h
    · rw [hs, hnone]
      simp [StopState.circulating, StopState.inCall, StopState.held, hheld]
      omega
    · rw [hs, hnone]
      exact Iff.rfl
  · cases hstep

/-- A step of `stop` in a function of the policy never fails. -/
theorem Inv.stopPolicy (h : Inv L s) {c : P.Choice} {out : Except Fault (Coordinator P)}
    (hexec : s.exec (.stopPolicy c) = some out) : ∃ s', out = .ok s' ∧ Inv L s' := by
  obtain ⟨jobs, hc⟩ := h.conserved
  have hvalid := h.stop
  obtain ⟨out', hstep, rfl⟩ := Option.map_eq_some_iff.mp hexec
  unfold StopState.policyStep at hstep
  split at hstep
  · -- the helper is being enqueued
    next alive l hs =>
    rw [hs] at hvalid
    obtain ⟨hlast, hne, halive, hok⟩ := hvalid
    obtain ⟨res, hres, rfl⟩ := Option.map_eq_some_iff.mp hstep
    obtain ⟨d', l', jobs', rfl, hok', hstores, hcount⟩ := enqueue_count hc.stores hok hres
    cases l' with
    | some l' =>
      refine ⟨_, rfl, h.setStop hc (.enqueuing alive l') hstores ⟨hlast, hne, halive, hok' l' rfl⟩
        (fun r => ?_) (fun i => ?_)⟩
      · have hr := hcount r
        rw [hs]
        simp only [StopState.circulating, StopState.inCall, StopState.held, Option.elim_some,
          List.nil_append] at hr ⊢
        omega
      · rw [hs]
        exact Iff.rfl
    | none =>
      refine ⟨_, rfl, h.setStop hc (.waiting alive) hstores ⟨hlast, hne, halive⟩ (fun r => ?_)
        (fun i => ?_)⟩
      · have hr := hcount r
        rw [hs]
        simp only [StopState.circulating, StopState.inCall, StopState.held, Option.elim_none,
          List.nil_append] at hr ⊢
        omega
      · rw [hs]
        exact Iff.rfl
  · -- jobs are detached, one worker after the other
    next k l hs =>
    rw [hs] at hvalid
    obtain ⟨hnone, hk, hforeach, htarget⟩ := hvalid
    obtain ⟨res, hres, rfl⟩ := Option.map_eq_some_iff.mp hstep
    obtain ⟨d', r, l', jobs', rfl, hstores, hperm, hok', -⟩ :=
      L.foreach_spec hc.stores hforeach hres
    have hdetach := hc.detach (by rw [hs]; rfl) hperm
    have hleft : s.stop.leftLoop = true := by
      rw [hs]
      rfl
    cases l' with
    | some l' =>
      obtain ⟨hforeach', htarget'⟩ := hok' l' rfl
      exact ⟨_, rfl, h.setLeft hc hleft (.detaching k l') rfl hstores
        ⟨hnone, hk, hforeach', htarget'.trans htarget⟩ hdetach⟩
    | none =>
      refine ⟨_, rfl, ?_⟩
      by_cases hlt : k + 1 < P.numWorkers
      · obtain ⟨hforeach', htarget'⟩ := L.foreach_ok hlt
        rw [if_pos hlt]
        exact h.setLeft hc hleft (.detaching _ _) rfl hstores ⟨hnone, hlt, hforeach', htarget'⟩
          hdetach
      · rw [if_neg hlt]
        exact h.setLeft hc hleft .stopped rfl hstores hnone hdetach
  · cases hstep

/-- Every step is defined and keeps the invariant. -/
theorem Inv.exec (h : Inv L s) {a : CoordinatorAction P} {out : Except Fault (Coordinator P)}
    (hexec : s.exec a = some out) : ∃ s', out = .ok s' ∧ Inv L s' := by
  cases a with
  | policy i c => exact h.policy hexec
  | resumed i result =>
    obtain ⟨s', hstep, rfl⟩ := Option.map_eq_some_iff.mp hexec
    exact ⟨s', rfl, h.resumedStep hstep⟩
  | returned i =>
    obtain ⟨s', hstep, rfl⟩ := Option.map_eq_some_iff.mp hexec
    exact ⟨s', rfl, h.returnedStep hstep⟩
  | execLater i j =>
    obtain ⟨s', hstep, rfl⟩ := Option.map_eq_some_iff.mp hexec
    exact ⟨s', rfl, h.execLaterStep hstep⟩
  | enqueue j =>
    cases hexec
    exact ⟨_, rfl, h.enqueue j⟩
  | caller k c => exact h.caller hexec
  | stop =>
    obtain ⟨⟨stop, lastWorker⟩, hstep, rfl⟩ := Option.map_eq_some_iff.mp hexec
    exact ⟨_, rfl, h.next hstep⟩
  | select w =>
    obtain ⟨stop, hstep, rfl⟩ := Option.map_eq_some_iff.mp hexec
    exact ⟨_, rfl, h.select hstep⟩
  | stopPolicy c => exact h.stopPolicy hexec

end Coordinator

end BoostActor
