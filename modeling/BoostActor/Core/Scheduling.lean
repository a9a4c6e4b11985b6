import BoostActor.Core.Mailbox

/-!
# Scheduling an event-based actor

A cooperatively scheduled actor, the senders that enqueue messages to it and the workers
that resume it. A pointer to the actor may be in the job queues of the workers any number
of times (`jobs`), and any number of workers may be working on it: nothing but the
protocol between `enqueue` and `resume` keeps this down to one.

Every operation on the mailbox is one step, as are the decisions of `resume` in between.
What user code does is arbitrary: a `Choice` tells for each step whether a handler took
the message, skipped it or threw, and whether the actor has to exit afterwards. Messages
that an actor sends to itself, such as timeouts, are those of a sender.

The order of events that matters is recorded in `log`.
-/

namespace BoostActor

open Lib

variable {α : Type}

/-- `resumable::resume_result`. -/
inductive ResumeResult where
  | resumeLater
  | awaitingMessage
  | done
deriving DecidableEq, Repr

/-- What came of a message: `invoke_message_result`, or an exception. -/
inductive Invoked where
  | success
  | skipped
  | dropped
  | thrown
deriving DecidableEq, Repr

/-- What user code does in a step: the fate of a message, and whether the actor has no
behavior or an exit reason afterwards. -/
structure Choice where
  result : Invoked
  exits : Bool
deriving DecidableEq, Repr

/-- The progress of a worker with the actor. Whether an exception is caught depends on
where `actor_done` is called. -/
inductive Worker (α : Type) where
  | idle
  /-- `resume` has been called -/
  | entry
  /-- at the beginning of the loop over `max_throughput` messages -/
  | loop (i : Nat)
  /-- `next_message` reads the whole mailbox into the cache -/
  | fill (i : Nat)
  /-- `invoke_message` -/
  | invoke (i : Nat) (x : α)
  /-- `invoke_from_cache` -/
  | invokeFromCache (i : Nat)
  /-- no message is left, about to block -/
  | block (i : Nat)
  /-- the loop has ended -/
  | leave
  /-- no message is left after the loop, about to block -/
  | leaveBlock
  /-- `actor_done` calls `on_exit` -/
  | onExit (inTry : Bool)
  /-- `cleanup`, about to close the mailbox -/
  | cleanup (inTry : Bool)
  /-- the mailbox is closed -/
  | closed (inTry : Bool)
  /-- an exception has been caught -/
  | caught
  /-- `resume` has returned -/
  | returned (r : ResumeResult)
deriving DecidableEq, Repr

/-- The progress of a call of `local_actor::enqueue`. -/
inductive Sender where
  | idle
  /-- the reader was blocked, about to schedule the actor -/
  | waking
  | finished (result : EnqueueResult)
deriving DecidableEq, Repr

/-- The progress of `launch`. -/
inductive Launch where
  | starting
  /-- about to schedule the actor -/
  | waking
  | launched
deriving DecidableEq, Repr

/-- What happens to the mailbox: the reader blocks, with the messages that are unread at
that time, a message is enqueued, the mailbox is closed. -/
inductive MailboxEvent (α : Type) where
  | blocked (unread : List α)
  | enqueued (result : EnqueueResult)
  | closed
deriving DecidableEq, Repr

/-- What does not change: whether the actor is aware of priorities, the limit that workers
pass to `resume`, and the messages of high priority. -/
structure Settings (α : Type) where
  priorityAware : Bool
  maxThroughput : Nat
  isHighPriority : α → Bool

/-- An actor with its senders and workers. -/
structure Schedule (α : Type) where
  mailbox : Mailbox α
  /-- the first partition of the cache: messages that were not processed yet -/
  first : List α
  initialized : Bool
  /-- `actor_done` has cleared the behaviors -/
  cleared : Bool
  launch : Launch
  jobs : Nat
  senders : Nat → Sender
  workers : Nat → Worker α
  log : List (MailboxEvent α)

namespace Schedule

/-- An actor that is about to be launched. -/
def initial : Schedule α where
  mailbox := .initial
  first := []
  initialized := false
  cleared := false
  launch := .starting
  jobs := 0
  senders := fun _ => .idle
  workers := fun _ => .idle
  log := []

/-- The messages that have not been read. -/
def unread (s : Schedule α) : List α := s.first ++ s.mailbox.unread

/-- A worker goes on. -/
def goto (s : Schedule α) (w : Nat) (pc : Worker α) : Schedule α :=
  { s with workers := Function.update s.workers w pc }

-- -------------------------
-- Senders
-- -------------------------

/-- `local_actor::enqueue`, up to the access to the mailbox that decides. -/
def enqueue (s : Schedule α) (c : Nat) (x : α) : Option (Schedule α) :=
  if s.senders c = .idle then
    let (result, mailbox) := s.mailbox.enqueue x
    some { s with
      mailbox := mailbox
      senders := Function.update s.senders c
        (if result = .unblockedReader then .waking else .finished result)
      log := s.log ++ [.enqueued result] }
  else none

/-- The sender schedules the actor. -/
def wake (s : Schedule α) (c : Nat) : Option (Schedule α) :=
  if s.senders c = .waking then
    some { s with
      jobs := s.jobs + 1
      senders := Function.update s.senders c (.finished .unblockedReader) }
  else none

/-- `launch`, up to scheduling the actor. -/
def doLaunch (s : Schedule α) (lazyInit : Bool) : Option (Schedule α) :=
  match s.launch with
  | .starting =>
    if lazyInit then
      match s.mailbox.tryBlock with
      | (true, mailbox) =>
        some { s with
          mailbox := mailbox
          launch := .launched
          log := s.log ++ [MailboxEvent.blocked s.unread] }
      | (false, mailbox) => some { s with mailbox := mailbox, launch := .waking }
    else some { s with launch := .waking }
  | .waking => some { s with jobs := s.jobs + 1, launch := .launched }
  | .launched => none

-- -------------------------
-- Workers
-- -------------------------

/-- A worker dequeues the actor and calls `resume`. -/
def dequeue (s : Schedule α) (w : Nat) : Option (Schedule α) :=
  match s.workers w with
  | .idle => if 0 < s.jobs then some ({ s with jobs := s.jobs - 1 }.goto w .entry) else none
  | _ => none

/-- Where `next_message` puts a message of the mailbox: those of high priority before the
others. -/
def insertFirst (high : α → Bool) (x : α) (first : List α) : List α :=
  if high x then first.takeWhile high ++ x :: first.dropWhile high else first ++ [x]

/-- The end of `next_message`: the first message of the cache, if there is one. -/
def takeFirst (s : Schedule α) (w i : Nat) : Schedule α :=
  match s.first with
  | x :: xs => { s with first := xs }.goto w (.invoke i x)
  | [] => s.goto w (.block i)

/-- `next_message()`. -/
def nextMessage (cfg : Settings α) (s : Schedule α) (w i : Nat) : Schedule α :=
  if cfg.priorityAware then
    match s.first with
    | x :: _ => if cfg.isHighPriority x then s.takeFirst w i else s.goto w (.fill i)
    | [] => s.goto w (.fill i)
  else
    match s.mailbox.tryPop with
    | (some x, mailbox) => { s with mailbox := mailbox }.goto w (.invoke i x)
    | (none, mailbox) => { s with mailbox := mailbox }.goto w (.block i)

/-- One round of the loop in `next_message`. -/
def fill (cfg : Settings α) (s : Schedule α) (w i : Nat) : Schedule α :=
  match s.mailbox.tryPop with
  | (some x, mailbox) =>
    { s with mailbox := mailbox, first := insertFirst cfg.isHighPriority x s.first }
  | (none, mailbox) => { s with mailbox := mailbox }.takeFirst w i

/-- `has_next_message()`. -/
def hasNextMessage (cfg : Settings α) (s : Schedule α) : Bool :=
  if cfg.priorityAware then !s.first.isEmpty || s.mailbox.canFetchMore
  else s.mailbox.canFetchMore

/-- `try_block()`, which decides how the worker goes on. -/
def tryBlock (s : Schedule α) (w : Nat) (otherwise : Worker α) : Schedule α :=
  match s.mailbox.tryBlock with
  | (true, mailbox) =>
    let s := { s with mailbox := mailbox, log := s.log ++ [MailboxEvent.blocked s.unread] }
    s.goto w (.returned .awaitingMessage)
  | (false, mailbox) => { s with mailbox := mailbox }.goto w otherwise

/-- What follows the invocation of a handler: `actor_done`, and `next` if it returns
`false`. -/
def afterInvoke (s : Schedule α) (w : Nat) (ch : Choice) (next : Worker α) : Schedule α :=
  s.goto w (if ch.exits then .onExit true else next)

/-- The next step of a worker; `none` when it has nothing to do, or when an exception
leaves `resume`. -/
def work (cfg : Settings α) (s : Schedule α) (w : Nat) (ch : Choice) : Option (Schedule α) :=
  match s.workers w with
  | .idle => none
  | .entry =>
    if s.initialized then some (s.goto w (.loop 0))
    else
      let s := { s with initialized := true }
      some (if ch.result = .thrown then s.goto w .caught else s.afterInvoke w ch (.loop 0))
  | .loop i =>
    if i < cfg.maxThroughput then some (s.nextMessage cfg w i) else some (s.goto w .leave)
  | .fill i => some (s.fill cfg w i)
  | .invoke i _ =>
    match ch.result with
    | .success => some (s.afterInvoke w ch (.invokeFromCache i))
    | .skipped | .dropped => some (s.goto w (.loop (i + 1)))
    | .thrown => some (s.goto w .caught)
  | .invokeFromCache i =>
    match ch.result with
    | .success => some (s.afterInvoke w ch (.invokeFromCache i))
    | .skipped | .dropped => some (s.goto w (.loop (i + 1)))
    | .thrown => some (s.goto w .caught)
  | .block i => some (s.tryBlock w (.loop (i + 1)))
  | .leave => some (s.goto w (if s.hasNextMessage cfg then .returned .resumeLater else .leaveBlock))
  | .leaveBlock => some (s.tryBlock w (.returned .resumeLater))
  | .onExit inTry =>
    if ch.result = .thrown then if inTry then some (s.goto w .caught) else none
    else some ({ s with cleared := true }.goto w (.cleanup inTry))
  | .cleanup inTry =>
    let s := { s with
      mailbox := s.mailbox.close.2
      first := []
      log := s.log ++ [MailboxEvent.closed] }
    some (s.goto w (.closed inTry))
  | .closed inTry =>
    if ch.result = .thrown then if inTry then some (s.goto w .caught) else none
    else some (s.goto w (.returned .done))
  | .caught =>
    -- without behaviors the actor cannot be revived
    some (s.goto w (if s.cleared || ch.exits then .onExit false else .returned .resumeLater))
  | .returned r =>
    let s := if r = .resumeLater then { s with jobs := s.jobs + 1 } else s
    some (s.goto w .idle)

/-- What senders and workers do next. -/
inductive Input (α : Type) where
  | enqueue (c : Nat) (x : α)
  | wake (c : Nat)
  | launch (lazyInit : Bool)
  | dequeue (w : Nat)
  | work (w : Nat) (ch : Choice)
deriving DecidableEq, Repr

def step (cfg : Settings α) (s : Schedule α) : Input α → Option (Schedule α)
  | .enqueue c x => s.enqueue c x
  | .wake c => s.wake c
  | .launch lazyInit => s.doLaunch lazyInit
  | .dequeue w => s.dequeue w
  | .work w ch => s.work cfg w ch

/-- The states that some interleaving reaches. -/
def Reachable (cfg : Settings α) : Schedule α → Prop :=
  Reach (· = initial) (step cfg) anyStep

end Schedule

end BoostActor
