import BoostActor.Lib.Run
import BoostActor.Core.Scheduling
import BoostActor.Core.Requests
import BoostActor.Core.MailboxElement

/-!
# An event-based actor at work

What `local_actor::resume` does with the messages of an actor: `next_message`,
`filter_msg`, `invoke_message`, the cache of skipped messages, exceptions and `cleanup`.

User code is arbitrary. While it runs, the actor performs any number of `Action`s, and
then it ends in one of the ways of `Outcome`. Meanwhile others may enqueue messages at any
time. A scan of the cache goes through the second partition; `visited` is the part before
its iterator and `unvisited` the part after it.

`enqueued`, `sent` and `reached` record the elements that were enqueued to the actor, the
replies that it has sent, and the ids of the messages that have reached a handler.
-/

namespace BoostActor

open Lib

/-- The code of a behavior. -/
inductive Handlers where
  /-- user code, by number -/
  | user (n : Nat)
  /-- the wrapper that `handle_message_id_res` puts around the handler of a response -/
  | wrapper
  /-- the handlers for the answer to a migration request -/
  | migration
  /-- `others >> [=] { self->forward_current_message(dest_hdl); }`, after a migration -/
  | forwarding
deriving DecidableEq, Repr

/-- A behavior, with its timeout in milliseconds. -/
structure Behavior where
  timeout : Option Nat
  handlers : Handlers
deriving DecidableEq, Repr

/-- What user code can do to its actor. -/
inductive Action where
  /-- `sync_send` -/
  | request (mp : MessagePriority)
  /-- `then`, for the response with this id -/
  | setResponseHandler (mid : MessageId) (bhvr : Behavior)
  | become (bhvr : Behavior) (discardOld : Bool)
  | unbecome
  | quit (rsn : ExitReason)
  | trapExit (value : Bool)
  | onSyncFailure (value : Bool)
  | isMigratedFrom (value : Bool)
  /-- `make_response_promise`, with the promise kept for later -/
  | makeResponsePromise
  /-- `forward_current_message` or `delegate` -/
  | relay (r : Relay)
deriving DecidableEq, Repr

/-- How user code ends. -/
inductive Outcome where
  /-- no handler matches, or the message is skipped -/
  | skip
  /-- an empty message: a handler that returns `void` -/
  | void
  /-- a result -/
  | value
  /-- the id of a response, by `return sync_send(...).then(...)` -/
  | messageId (mid : MessageId)
  /-- `actor_exited` is thrown -/
  | actorExited (rsn : ExitReason)
  /-- something else is thrown -/
  | thrown
deriving DecidableEq, Repr

/-- User code threw an exception. -/
def Outcome.throws : Outcome → Bool
  | .actorExited _ | .thrown => true
  | _ => false

namespace EventBasedActor

/-- The caller of `invoke_message`: the loop of `resume`, or a scan of the cache with the
awaited id that it started with. -/
inductive Origin where
  | mailbox
  | cache (mid : MessageId)
deriving DecidableEq, Repr

/-- The user code that `invoke_message` runs. `ptr` is what was the current element
before. -/
inductive Job where
  /-- the behavior, for an ordinary message -/
  | message (hadTimeout : Bool) (ptr : Option MailboxElement)
  /-- the handler of a response -/
  | response (awaited : MessageId) (ptr : Option MailboxElement)
  /-- the timeout of the handler of a response -/
  | syncTimeout (awaited : MessageId) (ptr : Option MailboxElement)
  /-- `handle_sync_failure` -/
  | syncFailure (awaited : MessageId) (ptr : Option MailboxElement)
  /-- the timeout of the behavior -/
  | timeout
  /-- `save_state`, for the system message `e` -/
  | saveState (e : MailboxElement)
  /-- `load_state`, for the system message `e` -/
  | loadState (e : MailboxElement)
deriving DecidableEq, Repr

/-- The response that a job works on. -/
def Job.awaited : Job → Option MessageId
  | .response mid _ | .syncTimeout mid _ | .syncFailure mid _ => some mid
  | _ => none

/-- Where the actor is in `resume`. -/
inductive Phase where
  | initializing
  /-- at the beginning of the loop, or not running -/
  | ready
  /-- `next_message` reads the whole mailbox into the cache -/
  | filling
  /-- `invoke_from_cache`, with the awaited id -/
  | scanning (mid : MessageId)
  | invoking (origin : Origin) (job : Job)
  /-- `on_exit`, called by `actor_done` -/
  | onExit (inTry : Bool)
  /-- an exception was caught; `eptr` says whether it was kept, `job` what threw it -/
  | failed (eptr : Bool) (job : Option Job)
  /-- `cleanup` has closed the mailbox -/
  | closed
  | exited
deriving DecidableEq, Repr

end EventBasedActor

/-- `event_based_actor`. -/
structure EventBasedActor where
  ref : ActorRef
  priorityAware : Bool
  serializable : Bool
  mailbox : Mailbox MailboxElement
  first : List MailboxElement
  visited : List MailboxElement
  unvisited : List MailboxElement
  current : Option MailboxElement
  requests : Requests Behavior
  behaviors : List Behavior
  plannedExitReason : ExitReason
  exitReason : ExitReason
  trapExit : Bool
  syncFailureHandler : Bool
  migratedFrom : Bool
  hasTimeout : Bool
  timeoutId : UInt32
  phase : EventBasedActor.Phase
  promises : List ResponsePromise
  enqueued : List MailboxElement
  sent : List Reply
  reached : List MessageId

namespace EventBasedActor

/-- An actor that has not been initialized yet. -/
def initial (ref : ActorRef) (priorityAware serializable : Bool) : EventBasedActor where
  ref
  priorityAware
  serializable
  mailbox := .initial
  first := []
  visited := []
  unvisited := []
  current := none
  requests := .initial
  behaviors := []
  plannedExitReason := ExitReason.notExited
  exitReason := ExitReason.notExited
  trapExit := false
  syncFailureHandler := false
  migratedFrom := false
  hasTimeout := false
  timeoutId := 0
  phase := .initializing
  promises := []
  enqueued := []
  sent := []
  reached := []

/-- A state with these replies sent. -/
def send (s : EventBasedActor) (rs : List Reply) : EventBasedActor :=
  { s with sent := s.sent ++ rs }

-- -------------------------
-- The mailbox
-- -------------------------

/-- `enqueue`. An element that is too late is bounced. -/
def enqueue (s : EventBasedActor) (sender : ActorAddr) (mid : MessageId) (content : Content) :
    EventBasedActor :=
  let e : MailboxElement := ⟨s.enqueued.length, sender, mid, content⟩
  let (result, mailbox) := s.mailbox.enqueue e
  let s := { s with mailbox, enqueued := s.enqueued ++ [e] }
  if result = .queueClosed then s.send (e.bounce s.exitReason) else s

/-- `request_timeout`. A message with a delay comes from the scheduler, later on. -/
def requestTimeout (s : EventBasedActor) : Option Nat → EventBasedActor
  | none => { s with hasTimeout := false }
  | some d =>
    let s := { s with hasTimeout := true, timeoutId := s.timeoutId + 2 }
    if d = 0 then s.enqueue (.localActor s.ref) 0 (.timeout s.timeoutId) else s

/-- `is_active_timeout`. -/
def isActiveTimeout (s : EventBasedActor) (tid : UInt32) : Bool :=
  s.hasTimeout && s.timeoutId = tid

/-- `push_to_cache`. -/
def pushToCache (s : EventBasedActor) (e : MailboxElement) : EventBasedActor :=
  if s.priorityAware && e.isHighPriority then
    { s with
      visited := s.visited.takeWhile (·.isHighPriority) ++
        e :: s.visited.dropWhile (·.isHighPriority) }
  else { s with visited := s.visited ++ [e] }

-- -------------------------
-- Termination
-- -------------------------

/-- `quit`. -/
def quit (s : EventBasedActor) (rsn : ExitReason) : EventBasedActor :=
  { s with plannedExitReason := rsn }

/-- `has_behavior`. -/
def hasBehavior (s : EventBasedActor) : Bool :=
  !s.behaviors.isEmpty || !s.requests.pendingResponses.isEmpty

/-- The condition of `actor_done`. -/
def isDone (s : EventBasedActor) : Bool :=
  !s.hasBehavior || s.plannedExitReason ≠ ExitReason.notExited

/-- The end of `actor_done` and the first half of `cleanup`, which bounces the requests that
are still in the mailbox or in its cache. -/
def cleanup (s : EventBasedActor) : EventBasedActor :=
  let rsn := bouncedReason s.plannedExitReason
  let (unread, mailbox) := s.mailbox.close
  { s.send ((unread ++ s.first ++ s.visited ++ s.unvisited).flatMap (·.bounce rsn)) with
    behaviors := []
    plannedExitReason := rsn
    current := none
    mailbox
    first := []
    visited := []
    unvisited := []
    requests := { s.requests with pendingResponses := [] }
    phase := .closed }

-- -------------------------
-- Responses
-- -------------------------

/-- `make_response_promise`. -/
def makeResponsePromise (s : EventBasedActor) : Option ResponsePromise × EventBasedActor :=
  match s.current with
  | none => (none, s)
  | some e =>
    (some ⟨e.serial, e.sender, MessageId.responseId e.mid⟩,
      { s with current := some { e with mid := MessageId.markAsAnswered e.mid } })

/-- Answers the current element. -/
def respond (s : EventBasedActor) (content : ReplyContent) : EventBasedActor :=
  match s.makeResponsePromise with
  | (none, s) => s
  | (some p, s) => s.send (p.deliver content)

/-- A promise for the current element that is kept for later. -/
def keepPromise (s : EventBasedActor) : EventBasedActor :=
  match s.makeResponsePromise with
  | (none, s) => s
  | (some p, s) => { s with promises := s.promises ++ [p] }

/-- `post_process_invoke_res`, with whether the message was handled. -/
def postProcess (s : EventBasedActor) : Outcome → Bool × EventBasedActor
  | .void =>
    match s.current with
    | some e =>
      if MessageId.isRequest e.mid && !MessageId.isAnswered e.mid then (true, s.respond .empty)
      else (true, s)
    | none => (true, s)
  | .value => (true, s.respond .result)
  | .messageId mid =>
    if (s.requests.findPendingResponse mid).isSome then
      -- the handler is wrapped in one without a timeout
      (true,
        { s.keepPromise with requests := s.requests.setResponseHandler mid ⟨none, .wrapper⟩ })
    else (true, s.respond .result)
  | _ => (false, s)

-- -------------------------
-- Results of `invoke_message`
-- -------------------------

/-- `im_dropped`. -/
def dropped (s : EventBasedActor) : Origin → EventBasedActor
  | .mailbox => { s with phase := .ready }
  | .cache mid => { s with phase := .scanning mid }

/-- `im_skipped`. -/
def skipped (s : EventBasedActor) (e : MailboxElement) : Origin → EventBasedActor
  | .mailbox => { s.pushToCache e with phase := .ready }
  | .cache mid => { s with visited := s.visited ++ [e], phase := .scanning mid }

/-- `im_success`: unless the actor is done, the cache is scanned from its beginning. -/
def success (s : EventBasedActor) : EventBasedActor :=
  if s.isDone then { s with phase := .onExit true }
  else
    { s with
      visited := []
      unvisited := s.visited ++ s.unvisited
      phase := .scanning s.requests.awaitedResponseId }

-- -------------------------
-- `invoke_message`
-- -------------------------

/-- `msg_type`. -/
inductive MsgType where
  | normalExit
  | nonNormalExit (rsn : ExitReason)
  | expiredTimeout
  | expiredSyncResponse
  | timeout
  | ordinary
  | syncResponse
  | sysMessage
deriving DecidableEq, Repr

/-- `filter_msg`, without the effects of system messages. -/
def filterMsg (s : EventBasedActor) (e : MailboxElement) : MsgType :=
  if MessageId.isResponse e.mid then
    if s.requests.awaits e.mid then .syncResponse else .expiredSyncResponse
  else match e.content with
    | .migrateTo | .migrateFrom | .get _ =>
      if e.sender = .invalid then .ordinary else .sysMessage
    | .timeout tid => if s.isActiveTimeout tid then .timeout else .expiredTimeout
    | .exit rsn =>
      if rsn = ExitReason.kill then .nonNormalExit rsn
      else if s.trapExit then .ordinary
      else if rsn ≠ ExitReason.normal then .nonNormalExit rsn
      else .normalExit
    | .user | .syncTimeout => .ordinary

/-- What it means for an element that `filter_msg` returns a type. -/
def MsgType.Fits (s : EventBasedActor) (e : MailboxElement) : MsgType → Prop
  | .syncResponse => MessageId.isResponse e.mid = true ∧ s.requests.awaits e.mid = true
  | .expiredSyncResponse => MessageId.isResponse e.mid = true ∧ s.requests.awaits e.mid = false
  | .sysMessage => e.sender ≠ .invalid ∧
    (e.content = .migrateTo ∨ e.content = .migrateFrom ∨ ∃ info, e.content = .get info)
  | .ordinary => MessageId.isResponse e.mid = false
  | .normalExit | .nonNormalExit _ | .timeout | .expiredTimeout =>
    (∃ tid, e.content = .timeout tid) ∨ ∃ rsn, e.content = .exit rsn

/-- What each type of a message says about it. -/
theorem filterMsg_fits (s : EventBasedActor) (e : MailboxElement) :
    (s.filterMsg e).Fits s e := by
  cases hr : MessageId.isResponse e.mid with
  | true =>
    simp only [filterMsg, hr, if_true]
    split
    · next h => exact ⟨hr, h⟩
    · next h => exact ⟨hr, by simpa using h⟩
  | false =>
    simp only [filterMsg, hr, Bool.false_eq_true, if_false]
    cases hc : e.content with
    | user | syncTimeout => exact hr
    | migrateTo | migrateFrom | get info =>
      by_cases hs : e.sender = .invalid
      · simpa [hs, MsgType.Fits] using hr
      · simp [hs, hc, MsgType.Fits]
    | timeout tid =>
      dsimp only
      split <;> simp [MsgType.Fits, hc]
    | exit rsn =>
      dsimp only
      split_ifs <;> simp [MsgType.Fits, hc, hr]

/-- The effects of a system message. -/
def handleSysMessage (s : EventBasedActor) (e : MailboxElement) (origin : Origin) :
    EventBasedActor :=
  match e.content with
  | .migrateTo =>
    if s.serializable then { s with phase := .invoking origin (.saveState e) }
    else (s.send [e.reply (.system false)]).dropped origin
  | .migrateFrom =>
    if s.serializable then
      { s with
        behaviors := if s.migratedFrom then s.behaviors.tail else s.behaviors
        migratedFrom := false
        phase := .invoking origin (.loadState e) }
    else (s.send [e.reply (.system false)]).dropped origin
  | .get info => (s.send [e.reply (.system info)]).dropped origin
  | _ => s.dropped origin

/-- The beginning of a handler: the element becomes the current one. -/
def invoke (s : EventBasedActor) (e : MailboxElement) (origin : Origin) (job : Job) :
    EventBasedActor :=
  { s with
    current := some e
    phase := .invoking origin job
    reached := s.reached ++ [e.mid] }

/-- The end of a handler of a response: the response has arrived. -/
def finishResponse (s : EventBasedActor) (awaited : MessageId) (ptr : Option MailboxElement) :
    EventBasedActor :=
  { s with current := ptr, requests := s.requests.markArrived awaited }.success

/-- The handler of the awaited response, with its timeout. -/
def handleResponse (s : EventBasedActor) (e : MailboxElement) (origin : Origin)
    (awaited : MessageId) : EventBasedActor :=
  if e.content = .syncTimeout then
    match ((s.requests.findPendingResponse awaited).bind (·.2)).bind (·.timeout) with
    | some _ => s.invoke e origin (.syncTimeout awaited s.current)
    | none => (s.invoke e origin (.syncTimeout awaited s.current)).finishResponse awaited s.current
  else s.invoke e origin (.response awaited s.current)

/-- `invoke_message`, up to the point where user code is called. -/
def invokeMessage (s : EventBasedActor) (e : MailboxElement) (origin : Origin)
    (awaited : MessageId) : EventBasedActor :=
  match s.filterMsg e with
  | .normalExit | .expiredSyncResponse | .expiredTimeout => s.dropped origin
  | .sysMessage => s.handleSysMessage e origin
  | .nonNormalExit rsn => (s.quit rsn).success
  | .timeout =>
    if awaited = 0 then { s with phase := .invoking origin .timeout } else s.dropped origin
  | .syncResponse =>
    if MessageId.valid awaited && e.mid = awaited then s.handleResponse e origin awaited
    else s.skipped e origin
  | .ordinary =>
    if MessageId.valid awaited then s.skipped e origin
    else { s with hasTimeout := false }.invoke e origin (.message s.hasTimeout s.current)

/-- The end of the behavior, for an ordinary message. -/
def finishMessage (s : EventBasedActor) (origin : Origin) (hadTimeout : Bool)
    (ptr : Option MailboxElement) (o : Outcome) : Option EventBasedActor :=
  let (handled, s) := s.postProcess o
  let e := s.current
  let s := { s with current := ptr }
  if handled then some s.success
  else
    let s := { s with hasTimeout := hadTimeout || s.hasTimeout }
    match e, origin with
    | some e, _ => some (s.skipped e origin)
    -- the element is gone: the scan goes on, but the loop of `resume` dereferences it
    | none, .cache mid => some { s with phase := .scanning mid }
    | none, .mailbox => none

/-- The end of user code that was called by `invoke_message`. -/
def finish (s : EventBasedActor) (origin : Origin) (job : Job) (o : Outcome) :
    Option EventBasedActor :=
  match job with
  | .message hadTimeout ptr => s.finishMessage origin hadTimeout ptr o
  | .response awaited ptr =>
    let (handled, s) := s.postProcess o
    if handled then some (s.finishResponse awaited ptr)
    else if s.syncFailureHandler then
      some { s with phase := .invoking origin (.syncFailure awaited ptr) }
    else some ((s.quit ExitReason.unhandledSyncFailure).finishResponse awaited ptr)
  | .syncTimeout awaited ptr | .syncFailure awaited ptr => some (s.finishResponse awaited ptr)
  | .timeout => some s.success
  | .saveState _ =>
    let (req, requests) := s.requests.newRequestId .normal
    let requests := requests.setResponseHandler (MessageId.responseId req) ⟨none, .migration⟩
    some ({ s with requests }.dropped origin)
  | .loadState e => some ((s.send [e.reply (.system true)]).dropped origin)

-- -------------------------
-- `resume`
-- -------------------------

/-- An action of user code. -/
def act (s : EventBasedActor) : Action → EventBasedActor
  | .request mp => { s with requests := (s.requests.newRequestId mp).2 }
  | .setResponseHandler mid bhvr =>
    -- a `sync_timeout_msg` comes from the scheduler, later on
    { s with requests := s.requests.setResponseHandler mid bhvr }
  | .become bhvr discardOld =>
    let s := { s with behaviors := if discardOld then s.behaviors.tail else s.behaviors }
    let s := s.requestTimeout bhvr.timeout
    { s with behaviors := bhvr :: s.behaviors }
  | .unbecome => { s with behaviors := s.behaviors.tail }
  | .quit rsn => s.quit rsn
  | .trapExit value => { s with trapExit := value }
  | .onSyncFailure value => { s with syncFailureHandler := value }
  | .isMigratedFrom value => { s with migratedFrom := value }
  | .makeResponsePromise => s.keepPromise
  | .relay _ => { s with current := none }

/-- An exception is caught. -/
def caught (s : EventBasedActor) (o : Outcome) (job : Option Job) : EventBasedActor :=
  match o with
  | .actorExited rsn => { s.quit rsn with phase := .failed false job }
  | _ => { s.quit ExitReason.unhandledException with phase := .failed true job }

/-- User code ends. -/
def ret (s : EventBasedActor) (o : Outcome) : Option EventBasedActor :=
  match s.phase with
  | .initializing =>
    if o.throws then some (s.caught o none)
    else some { s with phase := if s.isDone then .onExit true else .ready }
  | .invoking origin job =>
    if o.throws then some (s.caught o (some job)) else s.finish origin job o
  | .onExit inTry =>
    -- outside of the `try` block, an exception leaves `resume`
    if o.throws then if inTry then some (s.caught o none) else none
    else some s.cleanup
  | _ => none

/-- User code is running: also the exception handlers, while an exception that was kept is
handled. -/
def Phase.running : Phase → Bool
  | .initializing | .invoking _ _ | .onExit _ | .failed true _ => true
  | _ => false

/-- The mailbox has been closed. -/
def Phase.ended : Phase → Bool
  | .closed | .exited => true
  | _ => false

/-- The actor takes the next message. -/
def Phase.takes : Phase → Bool
  | .ready | .filling | .scanning _ => true
  | _ => false

/-- The end of `next_message`, if there is a message in the first partition. -/
def takeFirst (s : EventBasedActor) : EventBasedActor :=
  match s.first with
  | e :: first => { s with first }.invokeMessage e .mailbox s.requests.awaitedResponseId
  | [] => { s with phase := .ready }

/-- The next message, from the mailbox or from the cache. -/
def next (s : EventBasedActor) : Option EventBasedActor :=
  match s.phase with
  | .ready =>
    if s.priorityAware then
      if s.first.head?.any (·.isHighPriority) then some s.takeFirst
      else some { s with phase := .filling }
    else
      match s.mailbox.tryPop with
      | (some e, mailbox) =>
        some ({ s with mailbox }.invokeMessage e .mailbox s.requests.awaitedResponseId)
      | (none, mailbox) => some { s with mailbox }
  | .filling =>
    match s.mailbox.tryPop with
    | (some e, mailbox) =>
      some { s with mailbox, first := Schedule.insertFirst (·.isHighPriority) e s.first }
    | (none, mailbox) => some { s with mailbox }.takeFirst
  | .scanning mid =>
    match s.unvisited with
    | e :: unvisited => some ({ s with unvisited }.invokeMessage e (.cache mid) mid)
    | [] => some { s with phase := .ready }
  | _ => none

/-- `get_behavior`. -/
def getBehavior (s : EventBasedActor) : Option Behavior :=
  match s.requests.pendingResponses with
  | [] => s.behaviors.head?
  | pr :: _ => pr.2

/-- `reset_timeout_if_needed`. -/
def resetTimeout (s : EventBasedActor) : Option EventBasedActor :=
  if s.phase = .ready then some (s.requestTimeout (s.getBehavior.bind (·.timeout))) else none

/-- `mailbox().try_block()`. -/
def block (s : EventBasedActor) : Option EventBasedActor :=
  if s.phase = .ready then some { s with mailbox := s.mailbox.tryBlock.2 } else none

/-- The end of `resume` after an exception: `rsn` is the result of `handle(eptr)`, nothing if
there is no exception handler, or each of them returns nothing or throws. If the actor is
not done, it is revived. -/
def handle (s : EventBasedActor) (rsn : Option ExitReason) : Option EventBasedActor :=
  match s.phase with
  | .failed eptr _ =>
    if !eptr && rsn.isSome then none
    else
      let s := s.quit (rsn.getD s.plannedExitReason)
      some { s with
        visited := s.visited ++ s.unvisited
        unvisited := []
        phase := if s.isDone then .onExit false else .ready }
  | _ => none

/-- What happens next. -/
inductive Label where
  | enqueue (sender : ActorAddr) (mid : MessageId) (content : Content)
  | act (a : Action)
  | ret (o : Outcome)
  | next
  | resetTimeout
  | block
  | handle (rsn : Option ExitReason)
  /-- `abstract_actor::cleanup` -/
  | exit
  /-- someone delivers a promise -/
  | deliver (i : Nat)
deriving DecidableEq, Repr

def step (s : EventBasedActor) : Label → Option EventBasedActor
  | .enqueue sender mid content => some (s.enqueue sender mid content)
  | .act a => if s.phase.running then some (s.act a) else none
  | .ret o => s.ret o
  | .next => s.next
  | .resetTimeout => s.resetTimeout
  | .block => s.block
  | .handle rsn => s.handle rsn
  | .exit =>
    if s.phase = .closed then some { s with exitReason := s.plannedExitReason, phase := .exited }
    else none
  | .deliver i => (s.promises[i]?).map fun p => s.send (p.deliver .result)

/-- The actor has been created. -/
def isInitial (s : EventBasedActor) : Prop :=
  ∃ ref priorityAware serializable, s = initial ref priorityAware serializable

/-- The states of runs whose steps all meet a condition. -/
def Reachable (ok : EventBasedActor → Label → Prop) : EventBasedActor → Prop :=
  Reach isInitial step ok

end EventBasedActor

end BoostActor
