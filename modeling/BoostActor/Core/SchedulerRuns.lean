import BoostActor.Core.Coordinator
import BoostActor.Core.WorkStealing
import Mathlib.Data.List.Count

/-!
# Runs of the scheduler

What holds in every run of a coordinator with its workers, whatever the policy is, as long as the
policy keeps its promises.

* `workStealing_reach` — no job is lost or invented, and nothing goes wrong;
* `scheduler_unique` — a job that is scheduled only while it is somewhere else is in one place;
* `scheduler_shutdown` — `stop` shuts down one worker after the other, and all of them in the end;
* `scheduler_stopped` — afterwards no job is left that nobody has been told about.
-/

namespace BoostActor

open Lib

variable {J : Type}

/-- The jobs, without the helper. -/
def jobsOf (rs : List (Resumable J)) : List J :=
  rs.filterMap fun r => match r with
    | .job j => some j
    | .shutdownHelper => none

section

variable [DecidableEq J]

/-- The jobs among the resumables. -/
theorem count_jobsOf (rs : List (Resumable J)) (j : J) :
    (jobsOf rs).count j = rs.count (.job j) := by
  unfold jobsOf
  induction rs with
  | nil => rfl
  | cons r rs ih =>
    cases r with
    | job j' =>
      rw [List.filterMap_cons_some (by rfl), List.count_cons, List.count_cons, ih]
      by_cases h : j' = j <;> simp [h]
    | shutdownHelper =>
      rw [List.filterMap_cons_none (by rfl), ih, List.count_cons_of_ne (by simp)]

theorem count_map_job (js : List J) (j : J) : (js.map Resumable.job).count (.job j) = js.count j :=
  List.count_map_of_injective _ _ (fun _ _ h => Resumable.job.inj h) _

end

namespace StopState

variable {P : SchedulerPolicy (Resumable J)}

-- -------------------------
-- Joining
-- -------------------------

/-- All workers have been joined. -/
def allJoined : StopState P → Bool
  | .detaching _ _ => true
  | .stopped => true
  | _ => false

/-- After the last `join` the first worker is next. -/
theorem next_joined {workers : List (SchedulerWorker P)} {last last' : Option Nat}
    {stop stop' : StopState P} (hstep : stop.next workers last = some (stop', last')) :
    stop'.allJoined = false ∨ ∃ l, stop' = .detaching 0 l := by
  cases stop with
  | running => cases hstep; exact .inl rfl
  | selecting alive => cases alive <;> cases hstep; exact .inl rfl
  | enqueuing alive l => cases hstep
  | waiting alive =>
    rw [next] at hstep
    split_ifs at hstep
    cases hstep
    exact .inl rfl
  | erasing alive => cases hstep; exact .inl rfl
  | clearing alive => cases hstep; exact .inl rfl
  | joining k =>
    rw [next] at hstep
    split at hstep
    · cases hstep
      exact .inl rfl
    · cases hstep
    · cases hstep
      exact .inr ⟨_, rfl⟩
  | detaching k l => cases hstep
  | stopped => cases hstep

end StopState

/-- The worker that takes the step. -/
def CoordinatorAction.worker? {P : SchedulerPolicy (Resumable J)} :
    CoordinatorAction P → Option Nat
  | .policy i _ | .resumed i _ | .returned i | .execLater i _ => some i
  | _ => none

/-- A call of `enqueue`. -/
def CoordinatorAction.isEnqueue {P : SchedulerPolicy (Resumable J)} : CoordinatorAction P → Bool
  | .enqueue _ => true
  | _ => false

namespace Coordinator

variable {P : SchedulerPolicy (Resumable J)} {L : LawfulPolicy P} {s s' : Coordinator P}
  {jobs : List (Resumable J)}

-- -------------------------
-- Jobs
-- -------------------------

section

variable [DecidableEq J]

/-- Every job that was scheduled is stored or in the hands of a thread, or waits for a message or
has been detached. -/
theorem Conserved.perm (hc : s.Conserved L jobs) :
    s.enqueued.Perm (jobsOf jobs ++ jobsOf (s.inHand L) ++ (s.awaiting ++ s.detached)) := by
  rw [List.perm_iff_count]
  intro j
  have hj := hc.count (.job j)
  have hhelper : (s.stop.circulating s.lastWorker).count (.job j) = 0 := by
    unfold StopState.circulating
    split_ifs <;> simp
  rw [hhelper, count_map_job, count_map_job, count_map_job] at hj
  rw [List.count_append, List.count_append, List.count_append, count_jobsOf, count_jobsOf]
  omega

/-- Every reachable coordinator satisfies the invariant. -/
theorem reach_inv (L : LawfulPolicy P) {ok : Coordinator P → CoordinatorAction P → Prop}
    (hreach : Reach isInitial step ok s) : Inv L s := by
  refine hreach.invariant (fun s h => Inv.init h) ?_
  intro s a s' h _ hstep
  obtain ⟨out, hexec, hout⟩ := Option.bind_eq_some_iff.mp hstep
  obtain ⟨s₁, rfl, hinv⟩ := h.exec hexec
  cases hout
  exact hinv

/-- Every job that was scheduled is stored by the policy or in the hands of one of the threads, or
waits for a message or has been detached; no thread does what is not defined. -/
structure Schedules (L : LawfulPolicy P) (s : Coordinator P) : Prop where
  conserves : ∃ stored, L.Stores s.data stored ∧
    s.enqueued.Perm (jobsOf stored ++ jobsOf (s.inHand L) ++ (s.awaiting ++ s.detached))
  noFault : ∀ a out, s.exec a = some out → ∃ s', out = .ok s'

/-- What holds in every run, with any policy that keeps its promises. -/
theorem Inv.schedules (h : Inv L s) : s.Schedules L := by
  obtain ⟨stored, hc⟩ := h.conserved
  refine ⟨⟨stored, hc.stores, hc.perm⟩, fun a out hexec => ?_⟩
  obtain ⟨s', hout, -⟩ := h.exec hexec
  exact ⟨s', hout⟩

/-- Two workers with empty queues. -/
def twoWorkers : Coordinator (workStealing (Resumable Nat) 2) :=
  ⟨⟨0, [⟨.new 0, none⟩, ⟨.new 0, none⟩]⟩, [.dequeuing (.poll 0 0 0), .dequeuing (.poll 1 0 0)], [],
    .running, none, [], [], []⟩

theorem twoWorkers_initial : twoWorkers.isInitial := by
  refine ⟨_, ⟨rfl, rfl, ?_⟩, rfl⟩
  intro q hq
  exact ⟨0, by simpa using hq⟩

/-- The jobs of the work-stealing scheduler, for every number of workers, every sequence of steps of
all threads and all victims. -/
theorem workStealing_reach {n : Nat} (hn : 0 < n) {s : Coordinator (workStealing (Resumable J) n)}
    (hreach : Reach isInitial step anyStep s) : s.Schedules (workStealing_lawful _ hn) :=
  (reach_inv _ hreach).schedules

/-- Worker 1 steals the job of worker 0 as soon as it is complete, and has not finished it. -/
theorem workStealing_steals : ∃ s : Coordinator (workStealing (Resumable Nat) 2),
    s.enqueued = [7] ∧ s.workers[1]? = some (.resuming (.job 7)) ∧
      s.Schedules (workStealing_lawful _ (by decide)) :=
  ⟨_, rfl, rfl, workStealing_reach (by decide) (reach_of_run (.init twoWorkers_initial)
    (rfl : runAll step twoWorkers [.enqueue 7, .caller 0 (0 : Nat), .caller 0 (1 : Nat),
      .policy 1 (0 : Nat), .policy 1 (0 : Nat), .caller 0 (0 : Nat), .policy 1 (0 : Nat)] =
        some _))⟩

-- -------------------------
-- One place for each job
-- -------------------------

/-- A job has left the scheduler as often as it was scheduled. -/
def HasLeft (s : Coordinator P) (j : J) : Prop :=
  s.enqueued.count j = s.awaiting.count j + s.detached.count j

instance (s : Coordinator P) (j : J) : Decidable (s.HasLeft j) :=
  inferInstanceAs (Decidable (_ = _))

/-- A job is scheduled only if it is not in the scheduler. -/
def Fresh (s : Coordinator P) : CoordinatorAction P → Prop
  | .execLater _ j => s.HasLeft j
  | .enqueue j => s.HasLeft j
  | _ => True

instance (s : Coordinator P) : (a : CoordinatorAction P) → Decidable (s.Fresh a)
  | .execLater _ j => inferInstanceAs (Decidable (s.HasLeft j))
  | .enqueue j => inferInstanceAs (Decidable (s.HasLeft j))
  | .policy _ _ => isTrue trivial
  | .resumed _ _ => isTrue trivial
  | .returned _ => isTrue trivial
  | .caller _ _ => isTrue trivial
  | .stop => isTrue trivial
  | .select _ => isTrue trivial
  | .stopPolicy _ => isTrue trivial


/-- What a step adds to the histories. -/
theorem step_count {a : CoordinatorAction P} (hstep : s.step a = some s') (j : J) :
    s.awaiting.count j + s.detached.count j ≤ s'.awaiting.count j + s'.detached.count j ∧
      (s'.enqueued = s.enqueued ∨ ∃ j', s'.enqueued = j' :: s.enqueued ∧
        (a = .enqueue j' ∨ ∃ i, a = .execLater i j')) := by
  obtain ⟨out, hexec, hout⟩ := Option.bind_eq_some_iff.mp hstep
  -- only `exec_later` and `enqueue` bring a job in
  cases a with
  | policy i c =>
    obtain ⟨w, -, hexec⟩ := Option.bind_eq_some_iff.mp hexec
    obtain ⟨res, -, rfl⟩ := Option.map_eq_some_iff.mp hexec
    cases res with
    | error => cases hout
    | ok res => cases hout; exact ⟨le_rfl, .inl rfl⟩
  | caller k c =>
    obtain ⟨l, -, hexec⟩ := Option.bind_eq_some_iff.mp hexec
    obtain ⟨res, -, rfl⟩ := Option.map_eq_some_iff.mp hexec
    cases res with
    | error => cases hout
    | ok res => cases hout; exact ⟨le_rfl, .inl rfl⟩
  | stopPolicy c =>
    obtain ⟨res, -, rfl⟩ := Option.map_eq_some_iff.mp hexec
    cases res with
    | error => cases hout
    | ok res =>
      cases hout
      refine ⟨?_, .inl rfl⟩
      dsimp only
      rw [List.count_append]
      omega
  | resumed i result =>
    -- a job that is resumed goes back, waits for a message, or is done
    obtain ⟨s₁, hres, rfl⟩ := Option.map_eq_some_iff.mp hexec
    cases hout
    unfold resumedStep at hres
    split at hres
    · cases hres
      exact ⟨le_rfl, .inl rfl⟩
    · cases result with
      | resumeLater => cases hres; exact ⟨le_rfl, .inl rfl⟩
      | awaitingMessage =>
        cases hres
        exact ⟨Nat.add_le_add_right List.count_le_count_cons _, .inl rfl⟩
      | done =>
        cases hres
        exact ⟨Nat.add_le_add_left List.count_le_count_cons _, .inl rfl⟩
    · cases hres
  | returned i =>
    obtain ⟨s₁, hres, rfl⟩ := Option.map_eq_some_iff.mp hexec
    cases hout
    unfold returnedStep at hres
    split at hres
    · cases hres
      exact ⟨le_rfl, .inl rfl⟩
    · cases hres
  | execLater i j' =>
    obtain ⟨s₁, hres, rfl⟩ := Option.map_eq_some_iff.mp hexec
    cases hout
    unfold execLaterStep at hres
    split at hres
    · cases hres
      exact ⟨le_rfl, .inr ⟨j', rfl, .inr ⟨i, rfl⟩⟩⟩
    · cases hres
  | enqueue j' =>
    cases hexec
    cases hout
    exact ⟨le_rfl, .inr ⟨j', rfl, .inl rfl⟩⟩
  | stop =>
    obtain ⟨_, -, rfl⟩ := Option.map_eq_some_iff.mp hexec
    cases hout
    exact ⟨le_rfl, .inl rfl⟩
  | select w =>
    obtain ⟨_, -, rfl⟩ := Option.map_eq_some_iff.mp hexec
    cases hout
    exact ⟨le_rfl, .inl rfl⟩

/-- A job that is scheduled only while it is not in the scheduler is there once at most. -/
theorem reach_count (hreach : Reach isInitial step Fresh s) (j : J) :
    s.enqueued.count j ≤ s.awaiting.count j + s.detached.count j + 1 := by
  induction hreach with
  | init h =>
    obtain ⟨data, -, rfl⟩ := h
    exact Nat.zero_le _
  | @step s s' a hreach hfresh hstep ih =>
    obtain ⟨hleft, heq | ⟨j', heq, ha⟩⟩ := step_count hstep j
    · rw [heq]
      omega
    · rw [heq, List.count_cons]
      by_cases hj : j' = j
      · -- the job was not in the scheduler
        subst hj
        have hasLeft : s.HasLeft j' := by
          rcases ha with rfl | ⟨i, rfl⟩
          · exact hfresh
          · exact hfresh
        unfold HasLeft at hasLeft
        split_ifs <;> omega
      · rw [if_neg (by simpa using hj)]
        omega

/-- A job is in one place: at most one worker has it, and then it is neither stored nor about to be
stored by another thread. -/
structure InOnePlace (L : LawfulPolicy P) (s : Coordinator P) (j : J) : Prop where
  places : ∃ stored, L.Stores s.data stored ∧
    stored.count (.job j) + (s.inHand L).count (.job j) ≤ 1
  worker : ∀ (i k : Nat) (w w' : SchedulerWorker P), s.workers[i]? = some w →
    s.workers[k]? = some w' → .job j ∈ w.held L → .job j ∈ w'.held L → i = k

/-- A job that is enqueued once is in one place, whatever the policy. -/
theorem scheduler_unique (L : LawfulPolicy P) (hreach : Reach isInitial step Fresh s) (j : J) :
    s.InOnePlace L j := by
  obtain ⟨stored, hc⟩ := (reach_inv L hreach).conserved
  have hcount := reach_count hreach j
  have hall := (List.perm_iff_count.mp hc.perm) j
  rw [List.count_append, List.count_append, List.count_append, count_jobsOf, count_jobsOf] at hall
  have hplaces : stored.count (.job j) + (s.inHand L).count (.job j) ≤ 1 := by omega
  refine ⟨⟨stored, hc.stores, hplaces⟩, fun i k w w' hi hk hw hw' => ?_⟩
  by_contra hne
  have htwo := two_le_count_flatMap hne hi hk hw hw'
  unfold inHand at hplaces
  rw [List.count_append, List.count_append] at hplaces
  omega

/-- A job is stolen, schedules another job, waits for a message and is scheduled again before
`resume` has returned. -/
theorem scheduler_unique_run : ∃ s : Coordinator (workStealing (Resumable Nat) 2),
    s.enqueued = [7, 8, 7] ∧ s.InOnePlace (workStealing_lawful _ (by decide)) 7 :=
  ⟨_, rfl, scheduler_unique _ (reach_of_checked_run (.init twoWorkers_initial)
    (rfl : runAll _ twoWorkers [.enqueue 7, .caller 0 (0 : Nat), .caller 0 (1 : Nat),
      .caller 0 (0 : Nat), .policy 1 (0 : Nat), .policy 1 (0 : Nat), .policy 1 (0 : Nat),
      .execLater 1 8, .policy 1 (1 : Nat), .resumed 1 .awaitingMessage, .enqueue 7,
      .returned 1] = some _)) 7⟩

-- -------------------------
-- Shutdown
-- -------------------------

/-- What `stop` knows about the workers. -/
structure Shutdown (L : LawfulPolicy P) (s : Coordinator P) : Prop where
  /-- there is one helper at most, and none before `stop` passes it on or after a worker has
  resumed it -/
  helper : ∃ stored, L.Stores s.data stored ∧
    stored.count .shutdownHelper + (s.inHand L).count .shutdownHelper =
      if s.stop.inCall ∧ s.lastWorker = none then 1 else 0
  /-- a worker has resumed the helper, and takes no further job, if and only if it is not in
  `alive_workers`, or is the last one -/
  ended : ∀ i, i < P.numWorkers →
    (s.workers[i]? = some .ended ↔ i ∉ s.stop.alive ∨ s.stop.pending s.lastWorker = some i)
  /-- `stop` does not wait if no worker is left to resume the helper -/
  waits : ∀ alive, s.stop = .waiting alive → s.lastWorker = none →
    ∃ i ∈ alive, ∃ w, s.workers[i]? = some w ∧ w ≠ .ended
  /-- what is erased is there, so that every round of the loop shuts down one worker -/
  erases : ∀ alive, s.stop = .erasing alive → ∃ i ∈ alive, s.lastWorker = some i
  /-- when the threads are joined, none of them takes another job -/
  joins : s.stop.leftLoop = true → ∀ i, i < P.numWorkers → s.workers[i]? = some .ended

/-- The shutdown of a coordinator, whatever the policy. -/
theorem scheduler_shutdown (L : LawfulPolicy P) (hreach : Reach isInitial step anyStep s) :
    -- the waiting thread has taken in what the invariant says of each phase
    s.Shutdown L := by
  have hinv := reach_inv L hreach
  obtain ⟨stored, hc⟩ := hinv.conserved
  have hvalid := hinv.stop
  refine ⟨⟨stored, hc.stores, ?_⟩, hinv.ended, fun alive hs hnone => ?_, fun alive hs => ?_,
    fun hleft i hi => ?_⟩
  · rw [hc.count_helper, StopState.circulating]
    split_ifs <;> simp
  · rw [hs] at hvalid
    obtain ⟨-, hne, halive⟩ := hvalid
    obtain ⟨i, hi⟩ := List.exists_mem_of_ne_nil alive hne
    have hlt : i < s.workers.length := by
      rw [hinv.length]
      exact halive i hi
    refine ⟨i, hi, s.workers[i], List.getElem?_eq_getElem hlt, fun heq => ?_⟩
    have hended := (hinv.ended i (halive i hi)).mp (by rw [List.getElem?_eq_getElem hlt, heq])
    rw [hs, hnone] at hended
    rcases hended with hnot | hpending
    · exact hnot hi
    · cases hpending
  · rw [hs] at hvalid
    exact hvalid.1
  · rw [hinv.ended i hi]
    have halive : s.stop.alive = [] := by
      cases hs : s.stop <;> rw [hs] at hleft <;> first | rfl | cases hleft
    rw [halive]
    exact .inl List.not_mem_nil

/-- Worker 1 steals the helper that was meant for worker 0. -/
theorem scheduler_shutdown_stolen : ∃ s : Coordinator (workStealing (Resumable Nat) 2),
    s.lastWorker = some 1 ∧ s.Shutdown (workStealing_lawful _ (by decide)) :=
  ⟨_, rfl, scheduler_shutdown _ (reach_of_run (.init twoWorkers_initial)
    (rfl : runAll step twoWorkers [.stop, .select 0, .stopPolicy (1 : Nat), .stopPolicy (0 : Nat),
      .policy 1 (0 : Nat), .policy 1 (0 : Nat), .policy 1 (0 : Nat), .resumed 1 .done] = some _))⟩

/-- From the time that all workers have been joined, no other thread schedules jobs. -/
def Quiet (s : Coordinator P) (a : CoordinatorAction P) : Prop :=
  s.stop.allJoined = true → (∀ l ∈ s.callers, l.isNone = true) ∧ a.isEnqueue = false

instance (s : Coordinator P) (a : CoordinatorAction P) : Decidable (s.Quiet a) :=
  inferInstanceAs (Decidable (_ = true → _ ∧ _ = false))

/-- What `stop` has cleared so far. -/
structure Drained (L : LawfulPolicy P) (s : Coordinator P) : Prop where
  detaching : ∀ k l, s.stop = .detaching k l → ∀ w < k, L.Cleared s.data w
  stopped : s.stop = .stopped →
    (∀ w < P.numWorkers, L.Cleared s.data w) ∧ ∀ l ∈ s.callers, l.isNone = true

omit [DecidableEq J] in
/-- While a worker is left to join, nothing has to be drained. -/
theorem Drained.of_not_joined (h : s.stop.allJoined = false) : s.Drained L := by
  refine ⟨fun k l hs => ?_, fun hs => ?_⟩
  · rw [hs] at h
    cases h
  · rw [hs] at h
    cases h

/-- A worker that takes steps has not been joined. -/
theorem Inv.not_joined (h : Inv L s) {i : Nat} {w : SchedulerWorker P}
    (hi : s.workers[i]? = some w) (hw : w ≠ .ended) : s.stop.allJoined = false := by
  by_contra hjoined
  have halive : s.stop.alive = [] := by
    cases hs : s.stop <;> rw [hs] at hjoined <;> first | rfl | exact absurd rfl hjoined
  have hended := (h.ended i (h.lt hi)).mpr (.inl (by rw [halive]; exact List.not_mem_nil))
  rw [hi] at hended
  exact hw (Option.some.inj hended)

omit [DecidableEq J] in
/-- A worker takes a step: it has not been shut down, and `stop` stays where it is. -/
theorem stop_of_worker_step {a : CoordinatorAction P} {i : Nat} (ha : a.worker? = some i)
    (hexec : s.exec a = some (.ok s')) :
    s'.stop = s.stop ∧ ∃ w, s.workers[i]? = some w ∧ w ≠ .ended := by
  cases a with
  | policy i c =>
    cases ha
    obtain ⟨w, hi, hexec⟩ := Option.bind_eq_some_iff.mp hexec
    obtain ⟨res, hres, hout⟩ := Option.map_eq_some_iff.mp hexec
    refine ⟨?_, w, hi, ?_⟩
    · cases res with
      | error => cases hout
      | ok res => cases hout; rfl
    · rintro rfl
      cases hres
  | resumed i result =>
    cases ha
    obtain ⟨s₁, hres, hout⟩ := Option.map_eq_some_iff.mp hexec
    cases hout
    unfold resumedStep at hres
    split at hres
    · next hi =>
      cases hres
      exact ⟨rfl, _, hi, by simp⟩
    · next j hi => cases result <;> cases hres <;> exact ⟨rfl, _, hi, by simp⟩
    · cases hres
  | returned i =>
    cases ha
    obtain ⟨s₁, hres, hout⟩ := Option.map_eq_some_iff.mp hexec
    cases hout
    unfold returnedStep at hres
    split at hres
    · next hi =>
      cases hres
      exact ⟨rfl, _, hi, by simp⟩
    · cases hres
  | execLater i j =>
    cases ha
    obtain ⟨s₁, hres, hout⟩ := Option.map_eq_some_iff.mp hexec
    cases hout
    unfold execLaterStep at hres
    split at hres
    · next hi =>
      cases hres
      exact ⟨rfl, _, hi, by simp⟩
    · cases hres
  | enqueue | caller | stop | select | stopPolicy => cases ha

omit [DecidableEq J] in
/-- While a call of `enqueue` goes on, the workers have not all been joined. -/
theorem Quiet.not_joined {a : CoordinatorAction P} (hquiet : s.Quiet a) {k : Nat} {l : P.Enqueue}
    (hk : s.callers[k]?.join = some l) : s.stop.allJoined = false := by
  by_contra hjoined
  have hmem := List.mem_of_getElem? (Option.join_eq_some_iff.mp hk)
  cases (hquiet (by simpa using hjoined)).1 _ hmem

/-- A worker's step: it has not been joined, so nothing has to be drained. -/
theorem Drained.of_worker (hinv : Inv L s) {a : CoordinatorAction P} {i : Nat}
    (ha : a.worker? = some i) (hexec : s.exec a = some (.ok s')) : s'.Drained L := by
  obtain ⟨hstop, w, hi, hw⟩ := stop_of_worker_step ha hexec
  have hjoined := hinv.not_joined hi hw
  rw [← hstop] at hjoined
  exact .of_not_joined hjoined

omit [DecidableEq J] in
/-- `stop` goes on outside of the policy. No queue has to be empty when it begins to clear them. -/
theorem Drained.next {stop : StopState P} {lastWorker : Option Nat}
    (hnext : s.stop.next s.workers s.lastWorker = some (stop, lastWorker)) :
    ({ s with stop, lastWorker } : Coordinator P).Drained L := by
  rcases StopState.next_joined hnext with hnot | ⟨l, rfl⟩
  · exact .of_not_joined hnot
  · refine ⟨fun k l' hs w hw => ?_, fun hs => by cases hs⟩
    cases hs
    exact absurd hw (Nat.not_lt_zero w)

/-- A step of `foreach_resumable`: when it returns, the queue of its worker is empty too. -/
theorem Drained.foreach (h : s.Drained L) (hinv : Inv L s) {c : P.Choice} {k : Nat}
    {l : P.Foreach} (hs : s.stop = .detaching k l)
    {out : Except Fault (P.Data × Option (Resumable J) × Option P.Foreach)}
    (hstep : P.foreachStep s.data l c = some out) :
    ∃ data r l', out = .ok (data, r, l') ∧ (∀ w < k, L.Cleared data w) ∧
      (l' = none → ∀ w < k + 1, L.Cleared data w) := by
  obtain ⟨stored, hc⟩ := hinv.conserved
  have hvalid := hinv.stop
  rw [hs] at hvalid
  obtain ⟨-, -, hforeach, htarget⟩ := hvalid
  obtain ⟨data, r, l', jobs', rfl, -, -, -, hempty, hcleared⟩ :=
    L.foreach_spec hc.stores hforeach hstep
  have hbefore (w : Nat) (hw : w < k) : L.Cleared data w := hcleared w (h.detaching k l hs w hw)
  refine ⟨data, r, l', rfl, hbefore, fun hnone w hw => ?_⟩
  rcases Nat.lt_succ_iff_lt_or_eq.mp hw with hlt | rfl
  · exact hbefore w hlt
  · have hself := hempty hnone
    rwa [htarget] at hself

/-- `stop` takes a step in the policy: passing on the helper, or clearing the queue of a worker. -/
theorem Drained.stopPolicy (h : s.Drained L) (hinv : Inv L s)
    (hcallers : s.stop.allJoined = true → ∀ l ∈ s.callers, l.isNone = true) {c : P.Choice}
    {data : P.Data} {stop : StopState P} {detached : List J}
    (hstep : s.stop.policyStep s.data c = some (.ok (data, stop, detached))) :
    ({ s with data, stop, detached := detached ++ s.detached } : Coordinator P).Drained L := by
  unfold StopState.policyStep at hstep
  -- the queues are cleared one by one, after all workers have been joined
  split at hstep
  · next alive l hs =>
    obtain ⟨out, -, hout⟩ := Option.map_eq_some_iff.mp hstep
    match out, hout with
    | .ok (_, some l'), rfl => exact .of_not_joined rfl
    | .ok (_, none), rfl => exact .of_not_joined rfl
  · next k l hs =>
    obtain ⟨out, hforeach, hout⟩ := Option.map_eq_some_iff.mp hstep
    obtain ⟨data', r, l', rfl, hbefore, hupto⟩ := h.foreach hinv hs hforeach
    cases l' with
    | some l' =>
      cases hout
      refine ⟨fun k' l₁ hs' w hw => ?_, fun hs' => by cases hs'⟩
      cases hs'
      exact hbefore w hw
    | none =>
      cases hout
      refine ⟨fun k' l₁ hs' w hw => ?_, fun hs' => ?_⟩
      · dsimp only at hs'
        split_ifs at hs' with hlt
        cases hs'
        exact hupto rfl w hw
      · dsimp only at hs'
        split_ifs at hs' with hlt
        exact ⟨fun w hw => hupto rfl w (by omega), hcallers (by rw [hs]; rfl)⟩
  · cases hstep

/-- Every step of a quiet run keeps the coordinator drained. -/
theorem Drained.step (h : s.Drained L) (hinv : Inv L s) {a : CoordinatorAction P}
    (hquiet : s.Quiet a) (hstep : s.step a = some s') : s'.Drained L := by
  have hexec : s.exec a = some (.ok s') := by
    obtain ⟨out, hexec, hout⟩ := Option.bind_eq_some_iff.mp hstep
    cases out with
    | error => cases hout
    | ok s₁ => cases hout; exact hexec
  cases a with
  | policy | resumed | returned | execLater => exact .of_worker hinv rfl hexec
  | enqueue j =>
    -- nobody calls `enqueue` any more when all workers have been joined
    have hjoined : s.stop.allJoined = false := by
      by_contra hjoined
      cases (hquiet (by simpa using hjoined)).2
    cases hexec
    exact .of_not_joined hjoined
  | caller k c =>
    obtain ⟨l, hk, hexec⟩ := Option.bind_eq_some_iff.mp hexec
    obtain ⟨res, -, hout⟩ := Option.map_eq_some_iff.mp hexec
    cases res with
    | error => cases hout
    | ok res =>
      cases hout
      exact .of_not_joined (hquiet.not_joined hk)
  | select w =>
    obtain ⟨stop, hselect, hout⟩ := Option.map_eq_some_iff.mp hexec
    cases hout
    unfold StopState.select at hselect
    split at hselect
    · split_ifs at hselect
      cases hselect
      exact .of_not_joined rfl
    · cases hselect
  | stop =>
    obtain ⟨⟨stop, lastWorker⟩, hnext, hout⟩ := Option.map_eq_some_iff.mp hexec
    cases hout
    exact .next hnext
  | stopPolicy c =>
    obtain ⟨out, hpolicy, hout⟩ := Option.map_eq_some_iff.mp hexec
    cases out with
    | error => cases hout
    | ok out =>
      cases hout
      exact h.stopPolicy hinv (fun hjoined => (hquiet hjoined).1) hpolicy

/-- In every quiet run the coordinator is drained. -/
theorem reach_drained (L : LawfulPolicy P) (hreach : Reach isInitial step Quiet s) :
    s.Drained L := by
  induction hreach with
  | init h =>
    obtain ⟨data, -, rfl⟩ := h
    exact .of_not_joined rfl
  | step hreach hquiet hstep ih => exact ih.step (reach_inv L hreach) hquiet hstep

/-- After `stop`, if no other thread has scheduled jobs in the meantime: nothing is left, so that
every job that was not resumed to its end, or waits for a message, has been detached. -/
theorem scheduler_stopped (L : LawfulPolicy P) (hreach : Reach isInitial step Quiet s)
    (hstopped : s.stop = .stopped) :
    L.Stores s.data [] ∧ s.inHand L = [] ∧ s.enqueued.Perm (s.awaiting ++ s.detached) := by
  have hinv := reach_inv L hreach
  have hdrained := reach_drained L hreach
  obtain ⟨stored, hc⟩ := hinv.conserved
  obtain ⟨hcleared, hcallers⟩ := hdrained.stopped hstopped
  obtain rfl := L.cleared hc.stores hcleared
  have hinHand : s.inHand L = [] := by
    unfold inHand
    rw [List.append_eq_nil_iff, List.append_eq_nil_iff, List.flatMap_eq_nil_iff,
      List.flatMap_eq_nil_iff, hstopped]
    refine ⟨⟨fun w hw => ?_, fun l hl => ?_⟩, rfl⟩
    · -- all workers have resumed the helper
      obtain ⟨i, hi⟩ := List.getElem?_of_mem hw
      have hended := (hinv.ended i (hinv.lt hi)).mpr
        (.inl (by rw [hstopped]; exact List.not_mem_nil))
      rw [hi] at hended
      cases hended
      rfl
    · rw [Option.isNone_iff_eq_none.mp (hcallers l hl)]
      rfl
  refine ⟨hc.stores, hinHand, ?_⟩
  have hperm := hc.perm
  rw [hinHand] at hperm
  exact hperm

/-- A job that was scheduled after the helper is detached. -/
theorem scheduler_stopped_run : ∃ s : Coordinator (workStealing (Resumable Nat) 2),
    s.detached = [9] ∧ s.inHand (workStealing_lawful _ (by decide)) = [] ∧
      s.enqueued.Perm (s.awaiting ++ s.detached) :=
  ⟨_, rfl, (scheduler_stopped (workStealing_lawful _ (by decide))
    (reach_of_checked_run (.init twoWorkers_initial)
    (rfl : runAll _ twoWorkers [.stop, .select 0, .stopPolicy (1 : Nat), .stopPolicy (0 : Nat),
      .enqueue 9, .caller 0 (0 : Nat), .caller 0 (2 : Nat), .caller 0 (0 : Nat),
      .policy 0 (0 : Nat), .resumed 0 .done, .stop, .stop, .stop, .select 1,
      .stopPolicy (1 : Nat), .stopPolicy (0 : Nat), .policy 1 (0 : Nat), .resumed 1 .done,
      .stop, .stop, .stop, .stop, .stop, .stop, .stop, .stopPolicy (0 : Nat),
      .stopPolicy (0 : Nat), .stopPolicy (0 : Nat)] = some _)) rfl).2⟩

end

end Coordinator

end BoostActor
