import BoostActor.Core.ActorPool

/-!
# What a pool does with a message

`actor_pool::enqueue` from the message to what is sent (`actor_pool.cpp`). The way from the
shared to the exclusive lock, where other calls may go first, is the subject of
`Core.ActorPool`; here a call is run from its beginning to its end. `locked_eq` says that
the two agree.

* `enqueue_handled_iff` — a pool never uses a null pointer and loses no request, except for
  the messages that `filter` takes for messages to the pool because of their types, and for a
  request for the workers without a sender;
* `run_outOfWorkers_iff` — the runs in which a pool terminates for want of workers if and only if
  its last worker has terminated: those in which no down message finds a pool without workers.
-/

namespace BoostActor

open Lib

-- -------------------------
-- Messages
-- -------------------------

/-- A message to a pool. -/
structure PoolElement where
  sender : ActorAddr
  mid : MessageId
  msg : List PoolValue
deriving DecidableEq, Repr

/-- The branch that `filter` takes. -/
def PoolElement.content (e : PoolElement) : PoolContent := .of e.msg

/-- An exit message has one element. -/
theorem PoolContent.of_eq_exit {msg : List PoolValue} {reason : ExitReason}
    (h : PoolContent.of msg = .exit reason) : msg = [.exitMsg reason] := by
  unfold PoolContent.of at h
  split at h
  · cases h
    rfl
  all_goals cases h

/-- A down message has one element. -/
theorem PoolContent.of_eq_down {msg : List PoolValue} {source : Option ActorRef}
    (h : PoolContent.of msg = .down source) : msg = [.downMsg source] := by
  unfold PoolContent.of at h
  split at h
  · cases h
  · cases h
    rfl
  all_goals cases h

/-- The content of an answer. -/
inductive PoolAnswer where
  /-- `sync_exited_msg` -/
  | exited (reason : ExitReason)
  | workers (cpy : List ActorRef)
  /-- an empty message -/
  | empty
deriving DecidableEq, Repr

/-- What a call does besides changing the pool. -/
inductive PoolEffect where
  | answer (receiver : ActorAddr) (mid : MessageId) (content : PoolAnswer)
  /-- a member function is called on the null pointer of an invalid address -/
  | nullCall
  /-- `anon_send` of an exit message -/
  | sendExit (worker : ActorRef) (reason : ExitReason)
  | monitor (worker : ActorRef)
  /-- `policy_` is called -/
  | dispatch (workers : List ActorRef)
deriving DecidableEq, Repr

/-- The members of an `actor_pool`; `exitReason` is that of `abstract_actor`. -/
structure PoolState where
  workers : List ActorRef
  plannedReason : ExitReason
  exitReason : ExitReason
deriving DecidableEq, Repr

namespace PoolState

/-- `quit`, with `abstract_actor::cleanup`. -/
def quit (s : PoolState) : PoolState :=
  if s.exitReason ≠ ExitReason.notExited then s else { s with exitReason := s.plannedReason }

/-- `sync_request_bouncer`, after the test for a valid id. -/
def bounce (rsn : ExitReason) (e : PoolElement) : List PoolEffect :=
  if MessageId.valid e.mid && (e.sender ≠ .invalid && MessageId.isRequest e.mid) then
    [.answer e.sender (MessageId.responseId e.mid) (.exited (bouncedReason rsn))]
  else []

/-- Removes a worker by its handle. -/
def eraseWorker (workers : List ActorRef) (what : Option ActorRef) : List ActorRef :=
  what.elim workers workers.erase

/-- `filter`; the message goes on to the policy if it returns no state. -/
def filter (s : PoolState) (e : PoolElement) : Option PoolState × List PoolEffect :=
  if s.plannedReason ≠ ExitReason.notExited then (some s, bounce s.plannedReason e)
  else match e.content with
  | .exit reason =>
    -- send exit messages *always* to all workers and clear vector afterwards
    (some { s with workers := [], plannedReason := reason }.quit,
      s.workers.map fun w => .sendExit w reason)
  | .down source =>
    -- remove failed worker from pool
    let s := { s with workers := eraseWorker s.workers source }
    if s.workers.isEmpty then
      (some { s with plannedReason := ExitReason.outOfWorkers }.quit, [])
    else (some s, [])
  | .put none => (some s, [])
  | .put (some worker) => (some { s with workers := s.workers ++ [worker] }, [.monitor worker])
  | .get =>
    (some s, if e.sender = .invalid then [.nullCall]
      else [.answer e.sender (MessageId.responseId e.mid) (.workers s.workers)])
  | .work =>
    if s.workers.isEmpty then
      -- tell client we have ignored this sync message
      (some s, if e.sender ≠ .invalid ∧ MessageId.valid e.mid = true then
        [.answer e.sender (MessageId.responseId e.mid) .empty] else [])
    else (none, [])

/-- `actor_pool::enqueue`. -/
def enqueue (s : PoolState) (e : PoolElement) : PoolState × List PoolEffect :=
  match s.filter e with
  | (some s', effects) => (s', effects)
  | (none, effects) => (s, effects ++ [.dispatch s.workers])

-- -------------------------
-- The part under the exclusive lock
-- -------------------------

/-- The message that a call which waits for the exclusive lock is about. -/
def ofCall : ActorPool.Call → List PoolValue
  | .exit reason => (ActorPool.Request.exit reason).msg
  | .down source => [.downMsg (some source)]
  | .put worker => (ActorPool.Request.put (some worker)).msg

/-- `quit` leaves the workers alone. -/
theorem quit_workers (s : PoolState) : s.quit.workers = s.workers := by
  unfold quit
  split_ifs
  · rfl
  · rfl

theorem quit_plannedReason (s : PoolState) : s.quit.plannedReason = s.plannedReason := by
  unfold quit
  split_ifs
  · rfl
  · rfl

/-- A pool that has quit stays as it is. -/
theorem enqueue_of_planned {s : PoolState} (e : PoolElement)
    (hplan : s.plannedReason ≠ ExitReason.notExited) :
    s.enqueue e = (s, bounce s.plannedReason e) := by
  unfold enqueue filter
  rw [if_pos hplan]

/-- A down message that leaves no worker. -/
theorem enqueue_down_of_empty {s : PoolState} {e : PoolElement} {source : Option ActorRef}
    (hplan : s.plannedReason = ExitReason.notExited) (hcontent : e.content = .down source)
    (hempty : eraseWorker s.workers source = []) :
    (s.enqueue e).1 =
      quit { s with workers := [], plannedReason := ExitReason.outOfWorkers } := by
  unfold enqueue filter
  rw [if_neg (not_not.mpr hplan), hcontent]
  simp [hempty]

/-- A down message that leaves workers. -/
theorem enqueue_down_of_ne {s : PoolState} {e : PoolElement} {source : Option ActorRef}
    (hplan : s.plannedReason = ExitReason.notExited) (hcontent : e.content = .down source)
    (hne : eraseWorker s.workers source ≠ []) :
    (s.enqueue e).1 = { s with workers := eraseWorker s.workers source } := by
  unfold enqueue filter
  rw [if_neg (not_not.mpr hplan), hcontent]
  simp [hne]

/-- A call that nothing interrupts leaves the workers and the reason that the part under the
exclusive lock leaves. -/
theorem locked_eq (p : ActorPool) (c : ActorPool.Call) (sender : ActorAddr) (mid : MessageId)
    (exitReason : ExitReason) (hplan : p.plannedReason = ExitReason.notExited) :
    let s' := (enqueue ⟨p.workers, p.plannedReason, exitReason⟩ ⟨sender, mid, ofCall c⟩).1
    s'.workers = (p.locked c).workers ∧ s'.plannedReason = (p.locked c).plannedReason := by
  intro s'
  -- only a down message erases a worker
  by_cases hdown : ∃ source, c = .down source
  · obtain ⟨source, rfl⟩ := hdown
    simp only [ActorPool.locked]
    by_cases hempty : p.workers.erase source = []
    · have hs' := enqueue_down_of_empty (s := ⟨p.workers, p.plannedReason, exitReason⟩)
        (e := ⟨sender, mid, ofCall (.down source)⟩) hplan rfl hempty
      refine ⟨?_, ?_⟩
      · rw [show s' = _ from hs', quit_workers, hempty]
      · rw [show s' = _ from hs', quit_plannedReason, hempty]
        rfl
    · have hs' := enqueue_down_of_ne (s := ⟨p.workers, p.plannedReason, exitReason⟩)
        (e := ⟨sender, mid, ofCall (.down source)⟩) hplan rfl hempty
      have hfalse : (p.workers.erase source).isEmpty = false := by simpa using hempty
      rw [show s' = _ from hs', hfalse]
      exact ⟨rfl, rfl⟩
  · have hs' : s' =
        (enqueue ⟨p.workers, p.plannedReason, exitReason⟩ ⟨sender, mid, ofCall c⟩).1 := rfl
    unfold enqueue filter at hs'
    rw [if_neg (not_not.mpr hplan)] at hs'
    rw [hs']
    -- the other messages do to the pool what the call under the lock does
    cases c with
    | exit reason => exact ⟨quit_workers _, quit_plannedReason _⟩
    | put w => exact ⟨rfl, rfl⟩
    | down source => exact absurd ⟨source, rfl⟩ hdown

-- -------------------------
-- Requests
-- -------------------------

/-- The messages that a pool documents for itself; all others are for its workers. -/
def isControl : List PoolValue → Bool
  | [.exitMsg _] => true
  | [.downMsg _] => true
  | [.atom sys, .atom op, .actor _] => sys = atom "SYS" ∧ (op = atom "PUT" ∨ op = atom "DELETE")
  | [.atom sys, .atom op] => sys = atom "SYS" ∧ op = atom "GET"
  | _ => false

/-- A request for a worker, not for the pool. -/
def isWork (e : PoolElement) : Bool := !isControl e.msg && MessageId.isRequest e.mid

/-- The answer of the pool itself to a request: none without a sender. -/
def ownAnswer (s : PoolState) (e : PoolElement) : List PoolEffect :=
  if e.sender = .invalid then []
  else [.answer e.sender (MessageId.responseId e.mid)
    (if s.plannedReason ≠ ExitReason.notExited then .exited (bouncedReason s.plannedReason)
      else .empty)]

/-- What becomes of a message in a call with these effects: nothing is called on a null
pointer, the policy gets workers, and a request for a worker is handed to the policy
once, or the pool has quit or has no workers and answers it once. -/
structure Handled (s : PoolState) (e : PoolElement) (effects : List PoolEffect) : Prop where
  noNull : .nullCall ∉ effects
  workers : ∀ ws, .dispatch ws ∈ effects → ws ≠ []
  request : isWork e = true →
    effects = [.dispatch s.workers] ∨
      (s.plannedReason ≠ ExitReason.notExited ∨ s.workers = []) ∧ effects = ownAnswer s e

/-- Two atoms, which a running pool takes for a request for its workers: from nobody, or meant
for a worker. -/
def MisreadGet (e : PoolElement) : Prop :=
  e.content = .get ∧ (e.sender = .invalid ∨ isWork e = true)

/-- Two atoms and a handle, meant for a worker, which a running pool takes for a new worker. It
makes no difference if the handle is invalid, there are no workers and nobody waits for an
answer. -/
def MisreadPut (s : PoolState) (e : PoolElement) : Prop :=
  isWork e = true ∧ ∃ worker, e.content = .put worker ∧
    ¬ (worker = none ∧ s.workers = [] ∧ e.sender = .invalid)

/-- A message that a running pool misreads, or answers without having a sender. -/
def Misread (s : PoolState) (e : PoolElement) : Prop :=
  s.plannedReason = ExitReason.notExited ∧ (MisreadGet e ∨ MisreadPut s e)

theorem valid_of_isRequest {mid : MessageId} (h : MessageId.isRequest mid = true) :
    MessageId.valid mid = true := by
  rw [MessageId.isRequest, Bool.and_eq_true] at h
  exact h.1

theorem isRequest_of_isWork {e : PoolElement} (h : isWork e = true) :
    MessageId.isRequest e.mid = true := by
  rw [isWork, Bool.and_eq_true] at h
  exact h.2

/-- A pool that has quit bounces everything. -/
theorem handled_of_quit {s : PoolState} (e : PoolElement)
    (hplan : s.plannedReason ≠ ExitReason.notExited) : Handled s e (s.enqueue e).2 := by
  rw [enqueue_of_planned e hplan]
  refine ⟨?_, ?_, fun hwork => .inr ⟨.inl hplan, ?_⟩⟩
  · unfold bounce
    split_ifs <;> simp
  · unfold bounce
    split_ifs <;> simp
  · have hreq := isRequest_of_isWork hwork
    unfold bounce ownAnswer
    rw [if_pos hplan, valid_of_isRequest hreq, hreq]
    by_cases hsender : e.sender = .invalid
    · simp [hsender]
    · simp [hsender]

/-- The effects of a message to a running pool, by the branch that it takes. -/
theorem effects_of_running {s : PoolState} (e : PoolElement)
    (hplan : s.plannedReason = ExitReason.notExited) :
    (s.enqueue e).2 = match e.content with
      | .exit reason => s.workers.map fun w => .sendExit w reason
      | .down _ => []
      | .put worker => worker.toList.map .monitor
      | .get => if e.sender = .invalid then [.nullCall]
        else [.answer e.sender (MessageId.responseId e.mid) (.workers s.workers)]
      | .work => if s.workers = [] then
          if e.sender ≠ .invalid ∧ MessageId.valid e.mid = true then
            [.answer e.sender (MessageId.responseId e.mid) .empty] else []
        else [.dispatch s.workers] := by
  unfold enqueue filter
  rw [if_neg (not_not.mpr hplan)]
  cases e.content with
  | exit reason => rfl
  | down source =>
    dsimp only
    split_ifs <;> rfl
  | put worker => cases worker <;> rfl
  | get => rfl
  | work =>
    cases hworkers : s.workers with
    | nil => rfl
    | cons w ws => rfl

/-- A message that asks for the workers, as far as its types go. -/
theorem handled_get_iff {s : PoolState} {e : PoolElement}
    (hplan : s.plannedReason = ExitReason.notExited) (hcontent : e.content = .get) :
    Handled s e (s.enqueue e).2 ↔ ¬ MisreadGet e := by
  have heffects := effects_of_running e hplan
  simp only [hcontent] at heffects
  rw [heffects, MisreadGet]
  by_cases hsender : e.sender = .invalid
  · refine iff_of_false (fun h => h.noNull ?_) (by simp [hcontent, hsender])
    simp [hsender]
  · rw [if_neg hsender]
    cases hwork : isWork e with
    | false => exact iff_of_true ⟨by simp, by simp, by simp [hwork]⟩ (by simp [hsender])
    | true =>
      -- the answer has the workers, and is none that the request asked for
      refine iff_of_false (fun h => ?_) (by simp [hcontent])
      rcases h.request hwork with hd | ⟨-, ho⟩
      · simp at hd
      · simp [ownAnswer, hsender, hplan] at ho

/-- A message with a new worker, as far as its types go. -/
theorem handled_put_iff {s : PoolState} {e : PoolElement} {worker : Option ActorRef}
    (hplan : s.plannedReason = ExitReason.notExited) (hcontent : e.content = .put worker) :
    Handled s e (s.enqueue e).2 ↔ ¬ MisreadPut s e := by
  have heffects := effects_of_running e hplan
  simp only [hcontent] at heffects
  have hquiet : .nullCall ∉ worker.toList.map PoolEffect.monitor ∧
      ∀ ws, .dispatch ws ∉ worker.toList.map PoolEffect.monitor := by
    cases worker <;> simp
  -- the put branch monitors and adds the worker, it tells nobody
  rw [heffects]
  cases hwork : isWork e with
  | false =>
    refine iff_of_true ⟨hquiet.1, fun ws h => absurd h (hquiet.2 ws), by simp [hwork]⟩ ?_
    simp [MisreadPut, hwork]
  | true =>
    by_cases hlost : worker = none ∧ s.workers = [] ∧ e.sender = .invalid
    · -- there is nobody to answer
      refine iff_of_true ⟨hquiet.1, fun ws h => absurd h (hquiet.2 ws), fun _ => ?_⟩ ?_
      · exact .inr ⟨.inr hlost.2.1, by simp [hlost.1, ownAnswer, hlost.2.2]⟩
      · rintro ⟨-, worker', hcontent', hno⟩
        rw [hcontent, PoolContent.put.injEq] at hcontent'
        exact hno (hcontent' ▸ hlost)
    · -- a request that is read as put is swallowed, so it is handled only if there was nobody to
      -- tell
      refine iff_of_false (fun h => ?_) (not_not.mpr ⟨hwork, worker, hcontent, hlost⟩)
      rcases h.request hwork with hd | ⟨hq | hnil, ho⟩
      · exact hquiet.2 s.workers (by rw [hd]; exact List.mem_singleton_self _)
      · exact hq hplan
      · cases worker with
        | none =>
          have hsender : e.sender ≠ .invalid := fun hs => hlost ⟨rfl, hnil, hs⟩
          simp [ownAnswer, hsender] at ho
        | some w =>
          by_cases hsender : e.sender = .invalid
          · simp [ownAnswer, hsender] at ho
          · simp [ownAnswer, hsender] at ho

/-- A message for a worker goes to the policy, or is answered by a pool without workers. -/
theorem handled_work {s : PoolState} {e : PoolElement}
    (hplan : s.plannedReason = ExitReason.notExited) (hcontent : e.content = .work) :
    Handled s e (s.enqueue e).2 := by
  have heffects := effects_of_running e hplan
  simp only [hcontent] at heffects
  rw [heffects]
  by_cases hnil : s.workers = []
  · rw [if_pos hnil]
    refine ⟨?_, ?_, fun hwork => .inr ⟨.inr hnil, ?_⟩⟩
    · split_ifs <;> simp
    · split_ifs <;> simp
    · unfold ownAnswer
      rw [if_neg (not_not.mpr hplan)]
      by_cases hsender : e.sender = .invalid
      · simp [hsender]
      · simp [hsender, valid_of_isRequest (isRequest_of_isWork hwork)]
  · -- the lock is held until the policy has been called
    rw [if_neg hnil]
    exact ⟨by simp, by simp [hnil], fun _ => .inl rfl⟩

/-- For every state of the pool and every message: it is handled, unless the pool misreads it
or has to answer nobody. -/
theorem enqueue_handled_iff (s : PoolState) (e : PoolElement) :
    Handled s e (s.enqueue e).2 ↔ ¬ Misread s e := by
  by_cases hplan : s.plannedReason = ExitReason.notExited
  · -- exit and down messages are no work
    have hcontrol : ∀ {msg}, e.msg = msg → isControl msg = true → ¬ isWork e = true := by
      rintro msg rfl hc
      simp [isWork, hc]
    have hother : e.content ≠ .get → (∀ worker, e.content ≠ .put worker) → ¬ Misread s e := by
      rintro hget hput ⟨-, ⟨hc, -⟩ | ⟨-, worker, hc, -⟩⟩
      · exact hget hc
      · exact hput worker hc
    have heffects := effects_of_running e hplan
    cases hcontent : e.content with
    | exit reason =>
      have hwork := hcontrol (PoolContent.of_eq_exit hcontent) rfl
      simp only [hcontent] at heffects
      rw [heffects]
      exact iff_of_true ⟨by simp, by simp, fun h => absurd h hwork⟩
        (hother (by simp [hcontent]) (by simp [hcontent]))
    | down source =>
      have hwork := hcontrol (PoolContent.of_eq_down hcontent) rfl
      simp only [hcontent] at heffects
      rw [heffects]
      exact iff_of_true ⟨by simp, by simp, fun h => absurd h hwork⟩
        (hother (by simp [hcontent]) (by simp [hcontent]))
    -- every pair of atoms with an actor is put
    | put worker =>
      rw [handled_put_iff hplan hcontent, Misread, MisreadGet]
      simp [hplan, hcontent]
    -- every pair of atoms is get
    | get =>
      rw [handled_get_iff hplan hcontent, Misread, MisreadPut]
      simp [hplan, hcontent]
    | work =>
      exact iff_of_true (handled_work hplan hcontent)
        (hother (by simp [hcontent]) (by simp [hcontent]))
  · exact iff_of_true (handled_of_quit e hplan) fun h => hplan h.1

/-- Two atoms that mean nothing to a pool, sent with `anon_send`. -/
theorem get_from_nobody :
    let s : PoolState := ⟨[1], ExitReason.notExited, ExitReason.notExited⟩
    let e : PoolElement := ⟨.invalid, 0, [.atom (atom "foo"), .atom (atom "bar")]⟩
    .nullCall ∈ (s.enqueue e).2 ∧ ¬ Handled s e (s.enqueue e).2 :=
  have hnull : .nullCall ∈ ((⟨[1], ExitReason.notExited, ExitReason.notExited⟩ : PoolState).enqueue
      ⟨.invalid, 0, [.atom (atom "foo"), .atom (atom "bar")]⟩).2 := List.mem_singleton_self _
  ⟨hnull, fun h => h.noNull hnull⟩

-- -------------------------
-- Runs
-- -------------------------

/-- `actor_pool::make`, with the workers that the factory has made. -/
def make (workers : List ActorRef) : PoolState :=
  ⟨workers, ExitReason.notExited, ExitReason.notExited⟩

/-- One message after the other. -/
def run (s : PoolState) (es : List PoolElement) : PoolState :=
  es.foldl (fun s e => (s.enqueue e).1) s

/-- Every message of a run finds the pool in a state in which `P` holds of it. -/
def EveryCall (P : PoolState → PoolElement → Prop) : PoolState → List PoolElement → Prop
  | _, [] => True
  | s, e :: es => P s e ∧ EveryCall P (s.enqueue e).1 es

/-- Some message of a run finds the pool in a state in which `P` holds of it. -/
def SomeCall (P : PoolState → PoolElement → Prop) : PoolState → List PoolElement → Prop
  | _, [] => False
  | s, e :: es => P s e ∨ SomeCall P (s.enqueue e).1 es

/-- A down message that removes the last worker. -/
def RemovesLast (s : PoolState) (e : PoolElement) : Prop :=
  ∃ w ∈ s.workers, e.content = .down (some w) ∧ s.workers.erase w = []

/-- A down message from somebody who is no worker changes nothing. -/
def IgnoresStrangers (s : PoolState) (e : PoolElement) : Prop :=
  ∀ source, e.content = .down source → (∀ w ∈ s.workers, source ≠ some w) → (s.enqueue e).1 = s

/-- The pool has quit, or the message is neither a down message to a pool without workers nor
an exit message that itself says `out_of_workers`. -/
def InTime (s : PoolState) (e : PoolElement) : Prop :=
  s.plannedReason ≠ ExitReason.notExited ∨
    (∀ source, e.content = .down source → s.workers ≠ []) ∧
      e.content ≠ .exit ExitReason.outOfWorkers

/-- A pool that has not quit. -/
structure Running (s : PoolState) : Prop where
  planned : s.plannedReason = ExitReason.notExited
  exit : s.exitReason = ExitReason.notExited

/-- A pool that has quit, without workers. -/
structure Stopped (s : PoolState) : Prop where
  planned : s.plannedReason ≠ ExitReason.notExited
  workers : s.workers = []

/-- Nothing happens to a pool that has quit. -/
theorem Stopped.run_eq {s : PoolState} (h : Stopped s) (es : List PoolElement) :
    s.run es = s := by
  induction es with
  | nil => rfl
  | cons e es ih =>
    rw [run, List.foldl_cons, enqueue_of_planned e h.planned]
    exact ih

/-- A stopped pool cannot lose its last worker. -/
theorem Stopped.not_someCall {s : PoolState} (h : Stopped s) (es : List PoolElement) :
    ¬ SomeCall RemovesLast s es := by
  induction es with
  | nil => exact id
  | cons e es ih =>
    rw [SomeCall, enqueue_of_planned e h.planned]
    rintro (⟨w, hw, -⟩ | hsome)
    · rw [h.workers] at hw
      exact List.not_mem_nil hw
    · exact ih hsome

theorem Stopped.everyCall {s : PoolState} (h : Stopped s) (es : List PoolElement) :
    EveryCall IgnoresStrangers s es ∧ EveryCall InTime s es := by
  induction es with
  | nil => exact ⟨trivial, trivial⟩
  | cons e es ih =>
    simp only [EveryCall, enqueue_of_planned e h.planned]
    exact ⟨⟨fun _ _ _ => by rw [enqueue_of_planned e h.planned], ih.1⟩, .inl h.planned, ih.2⟩

/-- A running pool that quits takes over the reason. -/
theorem Running.quit_eq {s : PoolState} (h : Running s) (reason : ExitReason) :
    quit { s with workers := [], plannedReason := reason } = ⟨[], reason, reason⟩ := by
  unfold quit
  rw [if_neg (not_not.mpr h.exit)]

/-- What a running pool does with a message that is no down message: an exit message stops it,
or leaves it without workers, and everything else it survives. -/
theorem Running.enqueue_of_not_down {s : PoolState} (h : Running s) {e : PoolElement}
    (hdown : ∀ source, e.content ≠ .down source) :
    (∃ reason, e.content = .exit reason ∧ (s.enqueue e).1 = ⟨[], reason, reason⟩) ∨
      (∀ reason, e.content ≠ .exit reason) ∧ Running (s.enqueue e).1 := by
  unfold enqueue filter
  rw [if_neg (not_not.mpr h.planned)]
  cases hcontent : e.content with
  | exit reason =>
    refine .inl ⟨reason, rfl, ?_⟩
    rw [← h.quit_eq]
  | down source => exact absurd hcontent (hdown source)
  | put worker =>
    refine .inr ⟨by simp, ?_⟩
    cases worker with
    | none => exact h
    | some w => exact ⟨h.planned, h.exit⟩
  | get => exact .inr ⟨by simp, h⟩
  | work =>
    refine .inr ⟨by simp, ?_⟩
    dsimp only
    split_ifs <;> exact h

/-- The down message of the last worker, or of anyone for a pool without workers: the pool
quits, in the right way if and only if the message was in time. -/
theorem Running.enqueue_last {s : PoolState} (h : Running s) {e : PoolElement}
    {source : Option ActorRef} (hcontent : e.content = .down source)
    (hempty : eraseWorker s.workers source = []) :
    Stopped (s.enqueue e).1 ∧
      (((s.enqueue e).1.exitReason = ExitReason.outOfWorkers ↔ RemovesLast s e) ∧
        IgnoresStrangers s e ↔ InTime s e) := by
  have hstep : (s.enqueue e).1 = ⟨[], ExitReason.outOfWorkers, ExitReason.outOfWorkers⟩ := by
    rw [enqueue_down_of_empty h.planned hcontent hempty, h.quit_eq]
  refine ⟨by rw [hstep]; exact ⟨by decide, rfl⟩, ?_⟩
  by_cases hnil : s.workers = []
  · -- the pool had no workers before
    refine iff_of_false (fun hp => ?_) fun htime => ?_
    · have hsame := hp.2 source hcontent (by simp [hnil])
      rw [hstep] at hsame
      exact absurd h.planned (by rw [← hsame]; decide)
    · obtain hplan | ⟨hfinds, -⟩ := htime
      · exact hplan h.planned
      · exact hfinds source hcontent hnil
  · -- the last worker
    obtain ⟨w, rfl⟩ : ∃ w, source = some w := by
      cases source with
      | none => exact absurd hempty hnil
      | some w => exact ⟨w, rfl⟩
    have hmem : w ∈ s.workers := by
      by_contra hmem
      rw [eraseWorker, Option.elim_some, List.erase_of_not_mem hmem] at hempty
      exact hnil hempty
    refine iff_of_true ⟨iff_of_true (by rw [hstep]) ⟨w, hmem, hcontent, hempty⟩, ?_⟩ ?_
    · intro source' hsource' hstranger
      rw [hcontent, PoolContent.down.injEq] at hsource'
      exact absurd hsource'.symm (hstranger w hmem)
    · exact .inr ⟨fun _ _ => hnil, by simp [hcontent]⟩

/-- A down message that leaves workers: the pool goes on, and the message was in time. -/
theorem Running.enqueue_down {s : PoolState} (h : Running s) {e : PoolElement}
    {source : Option ActorRef} (hcontent : e.content = .down source)
    (hleft : eraseWorker s.workers source ≠ []) :
    Running (s.enqueue e).1 ∧ ¬ RemovesLast s e ∧ IgnoresStrangers s e ∧ InTime s e := by
  have hstep := enqueue_down_of_ne h.planned hcontent hleft
  refine ⟨by rw [hstep]; exact ⟨h.planned, h.exit⟩, ?_, ?_, .inr ⟨?_, by simp [hcontent]⟩⟩
  · rintro ⟨w, -, hw, hlast⟩
    rw [hcontent, PoolContent.down.injEq] at hw
    exact hleft (by rw [hw]; exact hlast)
  · intro source' hsource' hstranger
    rw [hcontent, PoolContent.down.injEq] at hsource'
    rw [hstep]
    cases source with
    | none => rfl
    | some w =>
      have hmem : w ∉ s.workers := fun hmem => hstranger w hmem hsource'.symm
      rw [eraseWorker, Option.elim_some, List.erase_of_not_mem hmem]
  · intro _ _ hnil
    apply hleft
    rw [hnil]
    cases source <;> rfl

/-- A message to a running pool: the pool goes on, and the message was in time and removed no
last worker, or the pool quits, in the right way if and only if the message was in time. -/
theorem Running.enqueue_cases {s : PoolState} (h : Running s) (e : PoolElement) :
    (Running (s.enqueue e).1 ∧ ¬ RemovesLast s e ∧ IgnoresStrangers s e ∧ InTime s e) ∨
      (Stopped (s.enqueue e).1 ∧
        (((s.enqueue e).1.exitReason = ExitReason.outOfWorkers ↔ RemovesLast s e) ∧
          IgnoresStrangers s e ↔ InTime s e)) := by
  -- only a down message can take the last worker
  by_cases hdown : ∃ source, e.content = .down source
  · obtain ⟨source, hcontent⟩ := hdown
    by_cases hempty : eraseWorker s.workers source = []
    · exact .inr (h.enqueue_last hcontent hempty)
    · exact .inl (h.enqueue_down hcontent hempty)
  · have hnone : ∀ source, e.content ≠ .down source := fun source hc => hdown ⟨source, hc⟩
    have hlast : ¬ RemovesLast s e := fun ⟨w, _, hw, _⟩ => hnone _ hw
    have hstrangers : IgnoresStrangers s e := fun source hc => absurd hc (hnone source)
    obtain ⟨reason, hcontent, hstep⟩ | ⟨hexit, hrun⟩ := h.enqueue_of_not_down hnone
    · have htime : InTime s e ↔ reason ≠ ExitReason.outOfWorkers := by
        simp [InTime, hcontent, h.planned]
      by_cases halive : reason = ExitReason.notExited
      · -- workers are gone, and the pool waits for others
        refine .inl ⟨by rw [hstep, halive]; exact ⟨rfl, rfl⟩, hlast, hstrangers, htime.mpr ?_⟩
        rw [halive]
        decide
      · refine .inr ⟨by rw [hstep]; exact ⟨halive, rfl⟩, ?_⟩
        rw [htime, hstep]
        simp [hlast, hstrangers]
    · exact .inl ⟨hrun, hlast, hstrangers, .inr ⟨fun source hc => absurd hc (hnone source),
        hexit _⟩⟩

/-- A run of a running pool. -/
theorem Running.run_iff {s : PoolState} (h : Running s) (es : List PoolElement) :
    ((s.run es).exitReason = ExitReason.outOfWorkers ↔ SomeCall RemovesLast s es) ∧
      EveryCall IgnoresStrangers s es ↔ EveryCall InTime s es := by
  induction es generalizing s with
  | nil =>
    refine iff_of_true ⟨iff_of_false ?_ id, trivial⟩ trivial
    rw [run, List.foldl_nil, h.exit]
    decide
  | cons e es ih =>
    rw [run, List.foldl_cons]
    simp only [SomeCall, EveryCall]
    obtain ⟨hrun, hlast, hstrangers, htime⟩ | ⟨hstop, hiff⟩ := h.enqueue_cases e
    · rw [← ih hrun]
      simp [hlast, hstrangers, htime, run]
    · -- a pool that has quit stays as it is
      have hframe := hstop.run_eq es
      rw [run] at hframe
      rw [hframe, ← hiff]
      simp [hstop.not_someCall es, hstop.everyCall es]

/-- For every pool and every sequence of messages: the pool terminates with `out_of_workers` if
and only if a down message removes its last worker, and ignores other down messages, if and only
if every message was in time. -/
theorem run_outOfWorkers_iff (workers : List ActorRef) (es : List PoolElement) :
    (((make workers).run es).exitReason = ExitReason.outOfWorkers ↔
        SomeCall RemovesLast (make workers) es) ∧
      EveryCall IgnoresStrangers (make workers) es ↔ EveryCall InTime (make workers) es :=
  Running.run_iff ⟨rfl, rfl⟩ es

/-- A down message from an actor that never was a worker: the pool, without workers,
terminates. -/
theorem run_of_strangers_down :
    let es : List PoolElement := [⟨.invalid, 0, [.downMsg (some 1)]⟩]
    ((make []).run es).exitReason = ExitReason.outOfWorkers ∧
      ¬ SomeCall RemovesLast (make []) es ∧ ¬ EveryCall IgnoresStrangers (make []) es := by
  refine ⟨by decide, ?_, ?_⟩
  · rintro (⟨w, hmem, -, -⟩ | h)
    · cases hmem
    · exact h
  · rintro ⟨hlast, -⟩
    exact absurd (hlast _ rfl (by decide)) (by decide)

end PoolState

end BoostActor
