import BoostActor.Core.DoubleEndedQueue
import BoostActor.Core.SchedulerPolicy
import BoostActor.Lib.Threads

/-!
# Work stealing

The policy `work_stealing` (`work_stealing.hpp`): every worker has a double-ended queue that is
open to all threads. A worker takes jobs from the head of its own queue and tries to steal from the
tail of another one every now and then, polling less and less often.

A step is one operation on a queue, or one of the two writes of `append`. Which worker is
the next victim and where new nodes are is not determined.

* `WorkerQueue.Stores` — what the operations of a queue do to the jobs in it;
* `workStealing_lawful` — the policy keeps its promises.
-/

namespace BoostActor

open Lib

variable {R : Type}

-- -------------------------
-- The code
-- -------------------------

/-- The queue of a worker (`worker_data`), and the new node of the `append` that holds the lock of
the tail between its two writes. -/
structure WorkerQueue (R : Type) where
  queue : DoubleEndedQueue R
  appending : Option Nat

/-- The data of the coordinator and of all workers. -/
structure StealingData (R : Type) where
  nextWorker : UInt64
  workers : List (WorkerQueue R)

/-- `poll_strategy`, without the durations. -/
structure PollStrategy where
  attempts : Nat
  stepSize : Nat
  stealInterval : Nat

/-- The `strategies` of `dequeue`. -/
def strategies : List PollStrategy := [⟨100, 1, 10⟩, ⟨500, 1, 5⟩, ⟨101, 0, 1⟩]

/-- Where worker `w` is in `dequeue`, with strategy `strat` and `i` attempts. -/
inductive StealingDequeue where
  /-- about to poll its own queue -/
  | poll (w strat i : Nat)
  /-- about to roll the dice -/
  | trySteal (w strat i : Nat)
  /-- about to take a job from `victim` -/
  | steal (w strat i victim : Nat)
deriving DecidableEq, Repr

/-- Where a call that stores a job is. -/
inductive StealingEnqueue (R : Type) where
  | centralEnqueue (job : R)
  /-- before the first write of `append` to the queue of worker `w` -/
  | append (w : Nat) (job : R)
  /-- before the second one -/
  | appended (w : Nat)
  | prepend (w : Nat) (job : R)
deriving DecidableEq, Repr

/-- The end of an attempt: `std::this_thread::sleep_for`, and the next one. -/
def StealingDequeue.nextAttempt (strategy : PollStrategy) (w strat i : Nat) : StealingDequeue :=
  if i + strategy.stepSize < strategy.attempts then .poll w strat (i + strategy.stepSize)
  else .poll w (strat + 1) 0

/-- An operation on the queue of worker `w`, which may have to wait. -/
def StealingData.update {β : Type} (d : StealingData R) (w : Nat)
    (f : WorkerQueue R → Option (Except Fault (WorkerQueue R × β))) :
    Option (Except Fault (StealingData R × β)) :=
  match d.workers[w]? with
  | some q => (f q).map fun out => do
    let (q, res) ← out
    return ({ d with workers := d.workers.set w q }, res)
  | none => some (throw (.undefined "invalid index"))

namespace WorkerQueue

/-- `take_head` takes the lock of the head only. -/
def takeHead (q : WorkerQueue R) : Option (Except Fault (WorkerQueue R × Option R)) :=
  some do
    let (job, queue) ← q.queue.takeHead
    return ({ q with queue }, job)

/-- `take_tail` takes both locks. -/
def takeTail (q : WorkerQueue R) : Option (Except Fault (WorkerQueue R × Option R)) :=
  if q.appending = none then
    some do
      let (job, queue) ← q.queue.takeTail
      return ({ q with queue }, job)
  else none

/-- `append` with a new node at `tmp`, up to the point where the node is linked. -/
def link (q : WorkerQueue R) (tmp : Nat) (job : R) : Option (Except Fault (WorkerQueue R × Unit)) :=
  if q.appending = none ∧ q.queue.heap.find? tmp = none then
    some do return (⟨← q.queue.link tmp job, some tmp⟩, ())
  else none

/-- The last write of `append`. -/
def swing (q : WorkerQueue R) : Option (Except Fault (WorkerQueue R × Unit)) :=
  q.appending.map fun tmp => return (⟨q.queue.swing tmp, none⟩, ())

/-- `prepend` takes both locks. -/
def prepend (q : WorkerQueue R) (tmp : Nat) (job : R) :
    Option (Except Fault (WorkerQueue R × Unit)) :=
  if q.appending = none ∧ q.queue.heap.find? tmp = none then
    some do return (⟨← q.queue.prepend tmp job, none⟩, ())
  else none

end WorkerQueue

/-- `dequeue`, where `c` is the next number of `rengine`. -/
def StealingData.dequeueStep (d : StealingData R) (numWorkers : Nat) (c : Nat) :
    StealingDequeue → Option (Except Fault (StealingData R × (StealingDequeue ⊕ Option R)))
  | .poll w strat i =>
    match strategies[strat]? with
    -- "unreachable"
    | none => some (return (d, .inr none))
    | some strategy => (d.update w WorkerQueue.takeHead).map fun out => do
      let (d, job) ← out
      match job with
      | some job => return (d, .inr (some job))
      | none =>
        -- try to steal every X poll attempts, but not from yourself
        if i % strategy.stealInterval = 0 ∧ 2 ≤ numWorkers then
          return (d, .inl (.trySteal w strat i))
        else return (d, .inl (.nextAttempt strategy w strat i))
  | .trySteal w strat i =>
    let victim := c % numWorkers
    some (return (d, .inl (if victim = w then .trySteal w strat i else .steal w strat i victim)))
  | .steal w strat i victim => (d.update victim WorkerQueue.takeTail).map fun out => do
    let (d, job) ← out
    match job, strategies[strat]? with
    | some job, _ => return (d, .inr (some job))
    | none, some strategy => return (d, .inl (.nextAttempt strategy w strat i))
    | none, none => return (d, .inr none)

/-- The other functions, where `c` is the address of a new node. -/
def StealingData.enqueueStep (d : StealingData R) (numWorkers : Nat) (c : Nat) :
    StealingEnqueue R → Option (Except Fault (StealingData R × Option (StealingEnqueue R)))
  | .centralEnqueue job =>
    if numWorkers = 0 then some (throw (.undefined "division by zero"))
    else some (return ({ d with nextWorker := d.nextWorker + 1 },
      some (.append (d.nextWorker.toNat % numWorkers) job)))
  | .append w job => (d.update w fun q => q.link c job).map fun out => do
    let (d, _) ← out
    return (d, some (.appended w))
  | .appended w => (d.update w WorkerQueue.swing).map fun out => do
    let (d, _) ← out
    return (d, none)
  | .prepend w job => (d.update w fun q => q.prepend c job).map fun out => do
    let (d, _) ← out
    return (d, none)

/-- `foreach_resumable` -/
def StealingData.foreachStep (d : StealingData R) (w : Nat) :
    Option (Except Fault (StealingData R × Option R × Option Nat)) :=
  (d.update w WorkerQueue.takeHead).map fun out => do
    let (d, job) ← out
    match job with
    | some job => return (d, some job, some w)
    | none => return (d, none, none)

/-- The policy for a number of workers. -/
def workStealing (R : Type) (numWorkers : Nat) : SchedulerPolicy R where
  Data := StealingData R
  Choice := Nat
  Dequeue := StealingDequeue
  Enqueue := StealingEnqueue R
  Foreach := Nat
  numWorkers
  isInitial d := d.nextWorker = 0 ∧ d.workers.length = numWorkers ∧
    ∀ q ∈ d.workers, ∃ ptr, q = ⟨.new ptr, none⟩
  dequeue w := .poll w 0 0
  centralEnqueue job := .centralEnqueue job
  externalEnqueue w job := .append w job
  internalEnqueue w job := .prepend w job
  resumeJobLater w job := .append w job
  foreachResumable w := w
  dequeueStep d l c := d.dequeueStep numWorkers c l
  enqueueStep d l c := d.enqueueStep numWorkers c l
  foreachStep d w _ := d.foreachStep w

-- -------------------------
-- What the queues store
-- -------------------------

namespace WorkerQueue

variable {q : WorkerQueue R} {jobs : List R}

/-- The jobs from the head to the tail. -/
def Stores (q : WorkerQueue R) (jobs : List R) : Prop :=
  ∃ cells, q.queue.Holds (q.appending.getD q.queue.tail) cells ∧ cells.map Prod.snd = jobs

/-- `take_head` takes the first job, if there is one. -/
theorem Stores.takeHead (h : q.Stores jobs) :
    ∃ q', q.takeHead = some (.ok (q', jobs.head?)) ∧ q'.Stores jobs.tail := by
  obtain ⟨cells, hholds, rfl⟩ := h
  obtain ⟨q', htake, htail, hholds'⟩ := hholds.takeHead
  refine ⟨⟨q', q.appending⟩, ?_, cells.tail, ?_, List.map_tail⟩
  · rw [WorkerQueue.takeHead, htake]
    rfl
  · rw [htail]
    exact hholds'

/-- An empty queue stores nothing. -/
theorem Stores.eq_nil (h : q.Stores jobs) (hempty : q.Stores []) : jobs = [] := by
  obtain ⟨q', htake, -⟩ := h.takeHead
  obtain ⟨q₁, htake₁, -⟩ := hempty.takeHead
  rw [htake] at htake₁
  simp only [Option.some.injEq, Except.ok.injEq, Prod.mk.injEq, List.head?_nil] at htake₁
  exact List.head?_eq_none_iff.mp htake₁.2

/-- `take_tail` takes the last job, provided that no append is under way. -/
theorem Stores.takeTail (h : q.Stores jobs) (hfree : q.appending = none) :
    ∃ q', q.takeTail = some (.ok (q', jobs.getLast?)) ∧ q'.Stores jobs.dropLast := by
  obtain ⟨cells, hholds, rfl⟩ := h
  rw [hfree] at hholds
  obtain ⟨q', htake, hholds'⟩ := hholds.takeTail
  refine ⟨⟨q', q.appending⟩, ?_, cells.dropLast, ?_, List.map_dropLast⟩
  · rw [WorkerQueue.takeTail, if_pos hfree, htake]
    rfl
  · rw [hfree]
    exact hholds'

/-- The first half of `append` stores the job at the end. -/
theorem Stores.link (h : q.Stores jobs) {tmp : Nat} (hfree : q.appending = none)
    (hnew : q.queue.heap.find? tmp = none) (job : R) :
    ∃ q', q.link tmp job = some (.ok (q', ())) ∧ q'.Stores (jobs ++ [job]) := by
  obtain ⟨cells, hholds, rfl⟩ := h
  rw [hfree] at hholds
  obtain ⟨q', hlink, hholds'⟩ := hholds.link hnew job
  refine ⟨⟨q', some tmp⟩, ?_, cells ++ [(tmp, job)], hholds', List.map_append⟩
  rw [WorkerQueue.link, if_pos ⟨hfree, hnew⟩, hlink]
  rfl

/-- The second half of `append` moves the tail and keeps the jobs. -/
theorem Stores.swing (h : q.Stores jobs) {tmp : Nat} (happending : q.appending = some tmp) :
    ∃ q', q.swing = some (.ok (q', ())) ∧ q'.Stores jobs := by
  obtain ⟨cells, hholds, rfl⟩ := h
  rw [happending] at hholds
  refine ⟨⟨q.queue.swing tmp, none⟩, ?_, cells,
    ⟨hholds.linked, hholds.nodup, hholds.ends⟩, rfl⟩
  rw [WorkerQueue.swing, happending]
  rfl

/-- `prepend` stores the job at the front. -/
theorem Stores.prepend (h : q.Stores jobs) {tmp : Nat} (hfree : q.appending = none)
    (hnew : q.queue.heap.find? tmp = none) (job : R) :
    ∃ q', q.prepend tmp job = some (.ok (q', ())) ∧ q'.Stores (job :: jobs) := by
  obtain ⟨cells, hholds, rfl⟩ := h
  rw [hfree] at hholds
  obtain ⟨q', hprepend, hholds'⟩ := hholds.prepend hnew job
  refine ⟨⟨q', none⟩, ?_, (tmp, job) :: cells, hholds', rfl⟩
  rw [WorkerQueue.prepend, if_pos ⟨hfree, hnew⟩, hprepend]
  rfl

end WorkerQueue

namespace StealingData

variable {d : StealingData R} {n w : Nat} {jobs : List R}

/-- The jobs in all queues, in any order. -/
def Stores (n : Nat) (d : StealingData R) (jobs : List R) : Prop :=
  d.workers.length = n ∧ ∃ lists : List (List R), lists.length = n ∧
    (∀ (w : Nat) q js, d.workers[w]? = some q → lists[w]? = some js → q.Stores js) ∧
    jobs.Perm lists.flatten

theorem Stores.perm {jobs' : List R} (h : d.Stores n jobs') (hperm : jobs.Perm jobs') :
    d.Stores n jobs := by
  obtain ⟨hlength, lists, hlists, hstores, hperm'⟩ := h
  exact ⟨hlength, lists, hlists, hstores, hperm.trans hperm'⟩

/-- The jobs of one worker and those of all others. -/
theorem Stores.queue (h : d.Stores n jobs) (hw : w < n) :
    ∃ q js others, d.workers[w]? = some q ∧ q.Stores js ∧ jobs.Perm (js ++ others) ∧
      ∀ q' js' jobs', q'.Stores js' → jobs'.Perm (js' ++ others) →
        ({ d with workers := d.workers.set w q' }).Stores n jobs' := by
  obtain ⟨hlength, lists, hlists, hstores, hperm⟩ := h
  have hq : d.workers[w]? = some d.workers[w] := List.getElem?_eq_getElem (by omega)
  have hjs : lists[w]? = some lists[w] := List.getElem?_eq_getElem (by omega)
  obtain ⟨others, hmiddle⟩ : ∃ others, ∀ js, (lists.set w js).flatten.Perm (js ++ others) := by
    refine ⟨(lists.take w).flatten ++ (lists.drop (w + 1)).flatten, fun js => ?_⟩
    rw [List.set_eq_take_append_cons_drop, if_pos (by omega), List.flatten_append,
      List.flatten_cons, ← List.append_assoc, ← List.append_assoc]
    exact List.perm_append_comm.append_right _
  refine ⟨_, _, others, hq, hstores w _ _ hq hjs, ?_, fun q' js' jobs' hq' hjobs' => ?_⟩
  · have hself := hmiddle lists[w]
    rw [List.set_getElem_self] at hself
    exact hperm.trans hself
  · refine ⟨by rw [List.length_set, hlength], lists.set w js', by rw [List.length_set, hlists], ?_,
      hjobs'.trans (hmiddle js').symm⟩
    -- the queues of other workers keep their lists
    intro k q js hk hk'
    by_cases hkw : w = k
    · subst hkw
      rw [List.getElem?_set_self (by omega)] at hk hk'
      cases hk
      cases hk'
      exact hq'
    · rw [List.getElem?_set_ne hkw] at hk hk'
      exact hstores k q js hk hk'

/-- An operation on the queue of a worker updates that queue. -/
theorem update_eq {β : Type} {q q' : WorkerQueue R} {res : β} (hq : d.workers[w]? = some q)
    {f : WorkerQueue R → Option (Except Fault (WorkerQueue R × β))}
    (hf : f q = some (.ok (q', res))) :
    d.update w f = some (.ok ({ d with workers := d.workers.set w q' }, res)) := by
  unfold update
  rw [hq]
  dsimp only
  rw [hf]
  rfl

/-- A step that waits if the operation on the queue has to wait. -/
theorem isSome_of_update {β : Type} {q : WorkerQueue R} (hq : d.workers[w]? = some q)
    {f : WorkerQueue R → Option (Except Fault (WorkerQueue R × β))} {out}
    (hupdate : d.update w f = some out) : (f q).isSome = true := by
  unfold update at hupdate
  rw [hq] at hupdate
  obtain ⟨res, hres, -⟩ := Option.map_eq_some_iff.mp hupdate
  rw [hres]
  rfl

/-- The queue of worker `w` is empty. -/
def Cleared (d : StealingData R) (w : Nat) : Prop :=
  ∃ q, d.workers[w]? = some q ∧ q.Stores []

/-- Taking from the head of a worker's queue removes one job and clears no queue but empty ones. -/
theorem Stores.takeHead (h : d.Stores n jobs) (hw : w < n) :
    ∃ d' job jobs', d.update w WorkerQueue.takeHead = some (.ok (d', job)) ∧ d'.Stores n jobs' ∧
      jobs.Perm (job.toList ++ jobs') ∧ (job = none → d'.Cleared w) ∧
      ∀ k, d.Cleared k → d'.Cleared k := by
  obtain ⟨q, js, others, hq, hstores, hperm, hset⟩ := h.queue hw
  obtain ⟨q', htake, hstores'⟩ := hstores.takeHead
  have hself : (d.workers.set w q')[w]? = some q' :=
    List.getElem?_set_self (List.getElem?_eq_some_iff.mp hq).1
  refine ⟨_, js.head?, js.tail ++ others, update_eq hq htake, hset q' _ _ hstores' (.refl _),
    ?_, fun hnone => ?_, fun k hk => ?_⟩
  · rw [← List.append_assoc]
    cases js <;> exact hperm
  · obtain rfl := List.head?_eq_none_iff.mp hnone
    exact ⟨q', hself, hstores'⟩
  · obtain ⟨q₁, hq₁, hempty⟩ := hk
    by_cases hkw : w = k
    · -- the queue stays empty
      subst hkw
      rw [hq] at hq₁
      cases hq₁
      obtain rfl := hstores.eq_nil hempty
      exact ⟨q', hself, hstores'⟩
    · refine ⟨q₁, ?_, hempty⟩
      dsimp only
      rw [List.getElem?_set_ne hkw, hq₁]

/-- Taking from the tail of a worker's queue removes one job. -/
theorem Stores.takeTail (h : d.Stores n jobs) (hw : w < n) {out}
    (hupdate : d.update w WorkerQueue.takeTail = some out) :
    ∃ d' job jobs', out = .ok (d', job) ∧ d'.Stores n jobs' ∧ jobs.Perm (job.toList ++ jobs') := by
  obtain ⟨q, js, others, hq, hstores, hperm, hset⟩ := h.queue hw
  have hfree : q.appending = none := by
    have hsome := isSome_of_update hq hupdate
    unfold WorkerQueue.takeTail at hsome
    by_contra hnot
    rw [if_neg hnot] at hsome
    cases hsome
  obtain ⟨q', htake, hstores'⟩ := hstores.takeTail hfree
  rw [update_eq hq htake] at hupdate
  cases hupdate
  refine ⟨_, js.getLast?, js.dropLast ++ others, rfl, hset q' _ _ hstores' (.refl _), ?_⟩
  rcases List.eq_nil_or_concat js with rfl | ⟨rest, job, rfl⟩
  · exact hperm
  · rw [List.concat_eq_append] at hperm ⊢
    rw [List.getLast?_concat, List.dropLast_concat, ← List.append_assoc]
    exact hperm.trans (List.perm_append_comm.append_right _)

/-- Linking a job at the end of a worker's queue adds it. -/
theorem Stores.link (h : d.Stores n jobs) (hw : w < n) {tmp : Nat} {job : R} {out}
    (hupdate : d.update w (fun q => q.link tmp job) = some out) :
    ∃ d', out = .ok (d', ()) ∧ d'.Stores n (job :: jobs) := by
  obtain ⟨q, js, others, hq, hstores, hperm, hset⟩ := h.queue hw
  have hfree : q.appending = none ∧ q.queue.heap.find? tmp = none := by
    have hsome := isSome_of_update hq hupdate
    unfold WorkerQueue.link at hsome
    by_contra hnot
    rw [if_neg hnot] at hsome
    cases hsome
  obtain ⟨q', hlink, hstores'⟩ := hstores.link hfree.1 hfree.2 job
  rw [update_eq hq hlink] at hupdate
  cases hupdate
  refine ⟨_, rfl, hset q' _ _ hstores' ?_⟩
  rw [List.append_assoc]
  exact (hperm.cons job).trans List.perm_middle.symm

/-- Moving the tail of a worker's queue keeps the jobs. -/
theorem Stores.swing (h : d.Stores n jobs) (hw : w < n) {out}
    (hupdate : d.update w WorkerQueue.swing = some out) :
    ∃ d', out = .ok (d', ()) ∧ d'.Stores n jobs := by
  obtain ⟨q, js, others, hq, hstores, hperm, hset⟩ := h.queue hw
  have hsome := isSome_of_update hq hupdate
  unfold WorkerQueue.swing at hsome
  rw [Option.isSome_map] at hsome
  obtain ⟨tmp, htmp⟩ := Option.isSome_iff_exists.mp hsome
  obtain ⟨q', hswing, hstores'⟩ := hstores.swing htmp
  rw [update_eq hq hswing] at hupdate
  cases hupdate
  exact ⟨_, rfl, hset q' _ _ hstores' hperm⟩

/-- Prepending to a worker's queue adds the job. -/
theorem Stores.prepend (h : d.Stores n jobs) (hw : w < n) {tmp : Nat} {job : R} {out}
    (hupdate : d.update w (fun q => q.prepend tmp job) = some out) :
    ∃ d', out = .ok (d', ()) ∧ d'.Stores n (job :: jobs) := by
  obtain ⟨q, js, others, hq, hstores, hperm, hset⟩ := h.queue hw
  have hfree : q.appending = none ∧ q.queue.heap.find? tmp = none := by
    have hsome := isSome_of_update hq hupdate
    unfold WorkerQueue.prepend at hsome
    by_contra hnot
    rw [if_neg hnot] at hsome
    cases hsome
  obtain ⟨q', hprepend, hstores'⟩ := hstores.prepend hfree.1 hfree.2 job
  rw [update_eq hq hprepend] at hupdate
  cases hupdate
  exact ⟨_, rfl, hset q' _ _ hstores' (hperm.cons job)⟩

/-- Nothing is left if all queues are empty. -/
theorem Stores.eq_nil (h : d.Stores n jobs) (hcleared : ∀ w < n, d.Cleared w) : jobs = [] := by
  obtain ⟨hlength, lists, hlists, hstores, hperm⟩ := h
  have hnil : lists.flatten = [] := by
    rw [List.flatten_eq_nil_iff]
    intro js hjs
    obtain ⟨w, hw, rfl⟩ := List.getElem_of_mem hjs
    obtain ⟨q, hq, hempty⟩ := hcleared w (by omega)
    exact (hstores w q _ hq (List.getElem?_eq_getElem hw)).eq_nil hempty
  rw [hnil] at hperm
  exact hperm.eq_nil

end StealingData

-- -------------------------
-- The promises of the policy
-- -------------------------

/-- `dequeue` does not run out of strategies. -/
def StealingDequeue.Ok (n : Nat) : StealingDequeue → Prop
  | .poll w strat i => w < n ∧ strat < 3 ∧ (strat = 2 → i = 0)
  | .trySteal w strat i => 2 ≤ n ∧ w < n ∧ strat < 3 ∧ (strat = 2 → i = 0)
  | .steal w strat i victim => victim < n ∧ w < n ∧ strat < 3 ∧ (strat = 2 → i = 0)

def StealingEnqueue.Ok (n : Nat) : StealingEnqueue R → Prop
  | .centralEnqueue _ => True
  | .append w _ => w < n
  | .appended w => w < n
  | .prepend w _ => w < n

/-- The job that is not in a queue yet. -/
def StealingEnqueue.held : StealingEnqueue R → List R
  | .centralEnqueue job => [job]
  | .append _ job => [job]
  | .appended _ => []
  | .prepend _ job => [job]

/-- The last strategy makes no step, and goes on forever. -/
theorem StealingDequeue.nextAttempt_ok {n w strat i : Nat} {strategy : PollStrategy}
    (hstrategy : strategies[strat]? = some strategy) (hw : w < n) (hi : strat = 2 → i = 0) :
    (nextAttempt strategy w strat i).Ok n := by
  unfold nextAttempt
  match strat, hstrategy with
  | 0, rfl => split_ifs <;> exact ⟨hw, by decide, fun h => by cases h⟩
  | 1, rfl =>
    split_ifs
    · exact ⟨hw, by decide, fun h => by cases h⟩
    · exact ⟨hw, by decide, fun _ => rfl⟩
  | 2, rfl =>
    obtain rfl := hi rfl
    exact ⟨hw, by decide, fun _ => rfl⟩

theorem exists_strategy {strat : Nat} (h : strat < 3) :
    ∃ strategy, strategies[strat]? = some strategy :=
  ⟨strategies[strat], List.getElem?_eq_getElem h⟩

namespace StealingData

variable {d : StealingData R} {n : Nat} {jobs : List R}

/-- A step of `dequeue` keeps the jobs or takes one of them. -/
theorem dequeueStep_spec {l : StealingDequeue} {c : Nat} {out} (h : d.Stores n jobs) (hl : l.Ok n)
    (hstep : d.dequeueStep n c l = some out) :
    (∃ d' l', out = .ok (d', .inl l') ∧ l'.Ok n ∧ d'.Stores n jobs) ∨
      ∃ d' r jobs', out = .ok (d', .inr (some r)) ∧ d'.Stores n jobs' ∧ jobs.Perm (r :: jobs') := by
  cases l with
  | poll w strat i =>
    obtain ⟨hw, hstrat, hi⟩ := hl
    obtain ⟨strategy, hstrategy⟩ := exists_strategy hstrat
    obtain ⟨d', job, jobs', htake, hstores, hperm, -⟩ := h.takeHead hw
    simp only [dequeueStep, hstrategy, htake, Option.map_some, Option.some.injEq] at hstep
    subst hstep
    cases job with
    | some job => exact .inr ⟨d', job, jobs', rfl, hstores, hperm⟩
    -- the own queue is empty: steal now, or go on polling
    | none =>
      have hstores₁ := hstores.perm hperm
      refine .inl ?_
      by_cases hsteal : i % strategy.stealInterval = 0 ∧ 2 ≤ n
      · refine ⟨d', .trySteal w strat i, ?_, ⟨hsteal.2, hw, hstrat, hi⟩, hstores₁⟩
        exact if_pos hsteal
      · refine ⟨d', .nextAttempt strategy w strat i, ?_,
          StealingDequeue.nextAttempt_ok hstrategy hw hi, hstores₁⟩
        exact if_neg hsteal
  -- a victim other than the worker itself is drawn
  | trySteal w strat i =>
    obtain ⟨hn, hw, hstrat, hi⟩ := hl
    cases hstep
    refine .inl ⟨d, _, rfl, ?_, h⟩
    split_ifs
    · exact ⟨hn, hw, hstrat, hi⟩
    · exact ⟨Nat.mod_lt _ (by omega), hw, hstrat, hi⟩
  | steal w strat i victim =>
    obtain ⟨hvictim, hw, hstrat, hi⟩ := hl
    obtain ⟨strategy, hstrategy⟩ := exists_strategy hstrat
    obtain ⟨out', hupdate, rfl⟩ := Option.map_eq_some_iff.mp hstep
    obtain ⟨d', job, jobs', rfl, hstores, hperm⟩ := h.takeTail hvictim hupdate
    cases job with
    | some job => exact .inr ⟨d', job, jobs', rfl, hstores, hperm⟩
    -- the victim has no job either
    | none =>
      refine .inl ⟨d', .nextAttempt strategy w strat i, ?_,
        StealingDequeue.nextAttempt_ok hstrategy hw hi, hstores.perm hperm⟩
      simp only [hstrategy]
      rfl

/-- A step of `enqueue` moves its job into the queue of some worker. -/
theorem enqueueStep_spec {l : StealingEnqueue R} {c : Nat} {out} (h : d.Stores n jobs)
    (hn : 0 < n) (hl : l.Ok n) (hstep : d.enqueueStep n c l = some out) :
    ∃ d' l' jobs', out = .ok (d', l') ∧ (∀ l₁ ∈ l', StealingEnqueue.Ok n l₁) ∧
      d'.Stores n jobs' ∧ (jobs' ++ l'.elim [] StealingEnqueue.held).Perm (jobs ++ l.held) := by
  cases l with
  | centralEnqueue job =>
    rw [enqueueStep, if_neg (by omega)] at hstep
    cases hstep
    refine ⟨_, _, jobs, rfl, ?_, h, .refl _⟩
    rintro _ ⟨⟩
    exact Nat.mod_lt _ hn
  | append w job =>
    obtain ⟨out', hupdate, rfl⟩ := Option.map_eq_some_iff.mp hstep
    obtain ⟨d', rfl, hstores⟩ := h.link hl hupdate
    refine ⟨d', some (.appended w), job :: jobs, rfl, ?_, hstores, ?_⟩
    · rintro _ ⟨⟩
      exact hl
    · exact (List.append_nil (job :: jobs)).symm ▸ (List.perm_append_singleton job jobs).symm
  | appended w =>
    obtain ⟨out', hupdate, rfl⟩ := Option.map_eq_some_iff.mp hstep
    obtain ⟨d', rfl, hstores⟩ := h.swing hl hupdate
    exact ⟨d', none, jobs, rfl, by simp, hstores, .refl _⟩
  | prepend w job =>
    obtain ⟨out', hupdate, rfl⟩ := Option.map_eq_some_iff.mp hstep
    obtain ⟨d', rfl, hstores⟩ := h.prepend hl hupdate
    refine ⟨d', none, job :: jobs, rfl, by simp, hstores, ?_⟩
    exact (List.append_nil (job :: jobs)).symm ▸ (List.perm_append_singleton job jobs).symm

/-- A step of `foreach` keeps the jobs, hands out one, or finds the worker's queue empty. -/
theorem foreachStep_spec {w : Nat} {out} (h : d.Stores n jobs) (hw : w < n)
    (hstep : d.foreachStep w = some out) :
    ∃ d' r l' jobs', out = .ok (d', r, l') ∧ d'.Stores n jobs' ∧ jobs.Perm (r.toList ++ jobs') ∧
      (∀ l₁ ∈ l', l₁ < n ∧ l₁ = w) ∧ (l' = none → d'.Cleared w) ∧
      ∀ k, d.Cleared k → d'.Cleared k := by
  obtain ⟨d', job, jobs', htake, hstores, hperm, hempty, hcleared⟩ := h.takeHead hw
  simp only [foreachStep, htake, Option.map_some, Option.some.injEq] at hstep
  subst hstep
  cases job with
  | some job =>
    refine ⟨d', some job, some w, jobs', rfl, hstores, hperm, ?_, by simp, hcleared⟩
    rintro _ ⟨⟩
    exact ⟨hw, rfl⟩
  | none =>
    exact ⟨d', none, none, jobs', rfl, hstores, hperm, by simp, fun _ => hempty rfl, hcleared⟩

end StealingData

/-- The policy keeps its promises. -/
def workStealing_lawful (R : Type) {n : Nat} (hn : 0 < n) : LawfulPolicy (workStealing R n) where
  workers_pos := hn
  Stores := StealingData.Stores n
  DequeueOk := StealingDequeue.Ok n
  EnqueueOk := StealingEnqueue.Ok n
  ForeachOk (w : Nat) := w < n
  held := StealingEnqueue.held
  target w := w
  Cleared := StealingData.Cleared
  initial := by
    rintro d ⟨-, hlength, hworkers⟩
    refine ⟨hlength, List.replicate n [], List.length_replicate, fun w q js hq hjs => ?_, ?_⟩
    · obtain rfl := (List.mem_replicate.mp (List.mem_of_getElem? hjs)).2
      obtain ⟨ptr, rfl⟩ := hworkers q (List.mem_of_getElem? hq)
      exact ⟨[], DoubleEndedQueue.Holds.new ptr, rfl⟩
    · rw [List.flatten_replicate_nil]
  dequeue_ok hw := ⟨hw, by decide, fun _ => rfl⟩
  central_ok _ := ⟨trivial, rfl⟩
  external_ok _ hw := ⟨hw, rfl⟩
  internal_ok _ hw := ⟨hw, rfl⟩
  later_ok _ hw := ⟨hw, rfl⟩
  foreach_ok hw := ⟨hw, rfl⟩
  dequeue_spec := StealingData.dequeueStep_spec
  enqueue_spec h hl hstep := StealingData.enqueueStep_spec h hn hl hstep
  foreach_spec := StealingData.foreachStep_spec
  cleared := StealingData.Stores.eq_nil

end BoostActor
