import BoostActor.Core.Binary

/-!
# Scheduler policies

A scheduler is parameterized with a policy (`scheduler_policy.hpp`), which stores the jobs that the
workers will resume. A function of a policy takes many steps, and those of all threads
interleave, so that a policy says where a call can be and what its next step does.

* `LawfulPolicy` — what a policy has to do to be of use: jobs are stored, returned once, and
  nothing goes wrong.
-/

namespace BoostActor

/-- `scheduler_policy`, for jobs in `R`. A step is `none` if it has to wait; a `Choice` is what
the code does not determine, such as the addresses of new objects. -/
structure SchedulerPolicy (R : Type) where
  /-- `coordinator_data` and the `worker_data` of all workers -/
  Data : Type
  Choice : Type
  /-- where a call of `dequeue` is -/
  Dequeue : Type
  /-- where a call of one of the other functions for workers is, with the job it stores -/
  Enqueue : Type
  /-- where a call of `foreach_resumable` is -/
  Foreach : Type
  numWorkers : Nat
  isInitial : Data → Prop
  dequeue : Nat → Dequeue
  centralEnqueue : R → Enqueue
  externalEnqueue : Nat → R → Enqueue
  internalEnqueue : Nat → R → Enqueue
  resumeJobLater : Nat → R → Enqueue
  foreachResumable : Nat → Foreach
  /-- The call goes on or returns a job, which may be null. -/
  dequeueStep : Data → Dequeue → Choice → Option (Except Fault (Data × (Dequeue ⊕ Option R)))
  /-- The call goes on or returns. -/
  enqueueStep : Data → Enqueue → Choice → Option (Except Fault (Data × Option Enqueue))
  /-- The function is called with a job or not, and the call goes on or returns. -/
  foreachStep : Data → Foreach → Choice →
    Option (Except Fault (Data × Option R × Option Foreach))

variable {R : Type}

/-- What a policy promises. A call is fine (`DequeueOk` and so on) if it is one that its function
gets to. -/
structure LawfulPolicy (P : SchedulerPolicy R) where
  workers_pos : 0 < P.numWorkers
  /-- the jobs that are stored, in any order -/
  Stores : P.Data → List R → Prop
  DequeueOk : P.Dequeue → Prop
  EnqueueOk : P.Enqueue → Prop
  ForeachOk : P.Foreach → Prop
  /-- the job that a call has not stored yet -/
  held : P.Enqueue → List R
  /-- the worker whose jobs `foreach_resumable` takes -/
  target : P.Foreach → Nat
  /-- `foreach_resumable` has nothing to do for a worker any more -/
  Cleared : P.Data → Nat → Prop
  initial {d : P.Data} : P.isInitial d → Stores d []
  dequeue_ok {w : Nat} : w < P.numWorkers → DequeueOk (P.dequeue w)
  central_ok (r : R) : EnqueueOk (P.centralEnqueue r) ∧ held (P.centralEnqueue r) = [r]
  external_ok {w : Nat} (r : R) : w < P.numWorkers →
    EnqueueOk (P.externalEnqueue w r) ∧ held (P.externalEnqueue w r) = [r]
  internal_ok {w : Nat} (r : R) : w < P.numWorkers →
    EnqueueOk (P.internalEnqueue w r) ∧ held (P.internalEnqueue w r) = [r]
  later_ok {w : Nat} (r : R) : w < P.numWorkers →
    EnqueueOk (P.resumeJobLater w r) ∧ held (P.resumeJobLater w r) = [r]
  foreach_ok {w : Nat} : w < P.numWorkers →
    ForeachOk (P.foreachResumable w) ∧ target (P.foreachResumable w) = w
  /-- `dequeue` takes nothing but the job it returns. -/
  dequeue_spec {d : P.Data} {jobs : List R} {l : P.Dequeue} {c : P.Choice}
    {out : Except Fault (P.Data × (P.Dequeue ⊕ Option R))} :
    Stores d jobs → DequeueOk l → P.dequeueStep d l c = some out →
    (∃ d' l', out = .ok (d', .inl l') ∧ DequeueOk l' ∧ Stores d' jobs) ∨
    ∃ d' r jobs', out = .ok (d', .inr (some r)) ∧ Stores d' jobs' ∧ jobs.Perm (r :: jobs')
  /-- A job is either stored or still to be stored. -/
  enqueue_spec {d : P.Data} {jobs : List R} {l : P.Enqueue} {c : P.Choice}
    {out : Except Fault (P.Data × Option P.Enqueue)} :
    Stores d jobs → EnqueueOk l → P.enqueueStep d l c = some out →
    ∃ d' l' jobs', out = .ok (d', l') ∧ (∀ l₁ ∈ l', EnqueueOk l₁) ∧ Stores d' jobs' ∧
      (jobs' ++ l'.elim [] held).Perm (jobs ++ held l)
  /-- `foreach_resumable` takes nothing but the jobs it passes on, and does not return before its
  worker has none. -/
  foreach_spec {d : P.Data} {jobs : List R} {l : P.Foreach} {c : P.Choice}
    {out : Except Fault (P.Data × Option R × Option P.Foreach)} :
    Stores d jobs → ForeachOk l → P.foreachStep d l c = some out →
    ∃ d' r l' jobs', out = .ok (d', r, l') ∧ Stores d' jobs' ∧ jobs.Perm (r.toList ++ jobs') ∧
      (∀ l₁ ∈ l', ForeachOk l₁ ∧ target l₁ = target l) ∧ (l' = none → Cleared d' (target l)) ∧
      ∀ w, Cleared d w → Cleared d' w
  cleared {d : P.Data} {jobs : List R} : Stores d jobs → (∀ w < P.numWorkers, Cleared d w) →
    jobs = []

end BoostActor
