import BoostActor.Core.MessageId

/-!
# Mailbox elements and replies

What actors exchange, as far as the library looks at it: the sender of a message, its id
and the kinds of content that `filter_msg` treats in a special way. Every element has a
number of its own, which the code does not have, so that the replies to a request can be
told from those to any other.

* `MailboxElement.bounce` — `sync_request_bouncer`;
* `ResponsePromise.deliver` — the ordinary way to answer a request.
-/

namespace BoostActor

-- -------------------------
-- Addresses and exit reasons
-- -------------------------

/-- A pointer to a local actor. -/
abbrev ActorRef := Nat

/-- A pointer to a proxy. -/
abbrev ProxyRef := Nat

/-- `actor_addr`. -/
inductive ActorAddr where
  | invalid
  | localActor (ref : ActorRef)
  | proxy (ref : ProxyRef)
deriving DecidableEq, Repr

/-- `exit_reason::...`; zero is `not_exited`. -/
abbrev ExitReason := UInt32

namespace ExitReason

def notExited : ExitReason := 0
def normal : ExitReason := 1
def unhandledException : ExitReason := 2
def unhandledSyncFailure : ExitReason := 4
def unknown : ExitReason := 6
def outOfWorkers : ExitReason := 7
def kill : ExitReason := 0x11
def remoteLinkUnreachable : ExitReason := 0x101

end ExitReason

/-- The reason that `sync_request_bouncer` reports. -/
def bouncedReason (rsn : ExitReason) : ExitReason :=
  if rsn = ExitReason.notExited then ExitReason.normal else rsn

-- -------------------------
-- Elements
-- -------------------------

/-- The content of a message. -/
inductive Content where
  /-- what the library does not recognise -/
  | user
  /-- `{sys_atom, migrate_atom, mm}` -/
  | migrateTo
  /-- `{sys_atom, migrate_atom, buf}` -/
  | migrateFrom
  /-- `{sys_atom, get_atom, what}`, with whether `what` is `"info"` -/
  | get (info : Bool)
  /-- `timeout_msg` -/
  | timeout (timeoutId : UInt32)
  /-- `exit_msg` -/
  | exit (reason : ExitReason)
  /-- `sync_timeout_msg` -/
  | syncTimeout
deriving DecidableEq, Repr

/-- `mailbox_element`. -/
structure MailboxElement where
  serial : Nat
  sender : ActorAddr
  mid : MessageId
  content : Content
deriving DecidableEq, Repr

/-- The content of a reply. -/
inductive ReplyContent where
  /-- the result of a handler -/
  | result
  /-- an empty message -/
  | empty
  /-- `sync_exited_msg` -/
  | exited (reason : ExitReason)
  /-- the answer to a system message -/
  | system (ok : Bool)
deriving DecidableEq, Repr

/-- A message in reply to the element with the number `serial`. -/
structure Reply where
  serial : Nat
  receiver : ActorAddr
  mid : MessageId
  content : ReplyContent
deriving DecidableEq, Repr

namespace MailboxElement

/-- `mailbox_element::is_high_priority`. -/
def isHighPriority (e : MailboxElement) : Bool := MessageId.isHighPriority e.mid

/-- The reply to an element. -/
def reply (e : MailboxElement) (content : ReplyContent) : Reply :=
  ⟨e.serial, e.sender, MessageId.responseId e.mid, content⟩

/-- Someone waits for a response to this element. -/
def asked (e : MailboxElement) : Bool := e.sender ≠ .invalid && MessageId.isRequest e.mid

/-- `sync_request_bouncer`. -/
def bounce (rsn : ExitReason) (e : MailboxElement) : List Reply :=
  if e.sender ≠ .invalid && MessageId.isRequest e.mid then [e.reply (.exited (bouncedReason rsn))]
  else []

end MailboxElement

/-- `response_promise`. -/
structure ResponsePromise where
  serial : Nat
  receiver : ActorAddr
  id : MessageId
deriving DecidableEq, Repr

/-- `response_promise::deliver`. -/
def ResponsePromise.deliver (p : ResponsePromise) (content : ReplyContent) : List Reply :=
  if p.receiver = .invalid then [] else [⟨p.serial, p.receiver, p.id, content⟩]

/-- A reply to an asynchronous message is an asynchronous message itself; all others are
responses. -/
def responses (rs : List Reply) : List Reply := rs.filter fun r => MessageId.isResponse r.mid

end BoostActor
