import BoostActor.Lib.Program
import BoostActor.Core.Message
import BoostActor.Core.MailboxElement
import BoostActor.Io.RoutingTable

/-!
# The state of a BASP broker

Everything that the BASP broker of a node and the code it calls read and write:
the protocol instance with its routing table, the connection contexts, the actor
namespace with its proxies, the actor registry, the scribes and doormen of the
broker, and the tasks posted to the multiplexer.

Actors and proxies are referred to by their position in `actors` and `heap`, so
that a new one is always different from every earlier one. `history` records what
the broker does towards the outside, in order; some entries carry a little more
than the outside sees, to state properties of a run.

Programs over the state live in `M`: they change it and may throw.
-/

namespace BoostActor

open Lib

/-! ## Actors -/

/-- The functors that the node attaches to its own actors. -/
inductive Attachable where
  /-- `actor_registry::put`: mark the entry under `key` as exited -/
  | eraseEntry (key : ActorId)
  /-- `proxy_announced`: tell `nid` that the actor `aid` has exited -/
  | sendKillProxyInstance (nid : NodeId) (aid : ActorId)
deriving DecidableEq, Repr

/-- A local actor. When it exits, its attachables are moved out first and then
called one after the other: `exiting` holds those still to be called. -/
structure LocalActor where
  id : ActorId
  exitReason : ExitReason
  attachables : List Attachable
  exiting : List Attachable
deriving DecidableEq, Repr

/-- `forwarding_actor_proxy`. `manager` says whether the proxy still has its
manager (the broker), `functor` whether the functor that `make_proxy` attached is
still there; the functor owns a reference to the proxy itself. -/
structure Proxy where
  nid : NodeId
  aid : ActorId
  manager : Bool
  exitReason : ExitReason
  functor : Bool
  destroyed : Bool
deriving DecidableEq, Repr

/-! ## Connections -/

/-- A BASP message on the wire. `via` lists the nodes that have forwarded it; it
is not part of the bytes. -/
structure Packet where
  hdr : Header
  payload : Bytes
  via : List NodeId
deriving DecidableEq, Repr

/-- The bytes of a message. -/
def Packet.bytes (p : Packet) : Bytes := writeHdr p.hdr ++ p.payload

/-- A scribe: the number of bytes to read next, the messages in its write buffer
and those handed to the socket. -/
structure Scribe where
  rdSize : Nat
  wrBuf : List Packet
  sent : List Packet
deriving DecidableEq, Repr

/-- `accept_handle`. -/
structure AcceptHandle where
  id : Int
deriving DecidableEq, Repr

/-- `basp::connection_state`. -/
inductive ConnectionState where
  | awaitHeader
  | awaitPayload
  | closeConnection
deriving DecidableEq, Repr

/-- A response promise, by number. -/
abbrev Promise := Nat

/-- The answers to a connect request. -/
inductive Response where
  | ok (nid : NodeId) (addr : ActorAddr) (sigs : List Bytes)
  | error (what : Bytes)
deriving DecidableEq, Repr

/-- `basp_broker_state::connection_context`. -/
structure ConnectionContext where
  cstate : ConnectionState
  hdr : Header
  hdl : ConnectionHandle
  id : NodeId
  remotePort : UInt16
  callback : Option Promise
deriving DecidableEq, Repr

/-- The header of a new context. -/
def Header.initial : Header :=
  ⟨.serverHandshake, 0, 0, NodeId.invalid, NodeId.invalid, 0, 0⟩

/-- The context that `set_context` creates. -/
def ConnectionContext.initial (hdl : ConnectionHandle) : ConnectionContext :=
  ⟨.awaitHeader, Header.initial, hdl, NodeId.invalid, 0, none⟩

/-! ## The broker -/

/-- Work for the multiplexer: callbacks that were posted to it and messages to the
broker from the destructors of proxies. -/
inductive Task where
  /-- the erase callback of the proxy `res`, made for `nid` -/
  | eraseProxy (res : ProxyRef) (nid : NodeId) (rsn : ExitReason)
  | sendKillProxyInstance (nid : NodeId) (aid : ActorId) (rsn : ExitReason)
  /-- a `delete_atom` message -/
  | deleteProxy (nid : NodeId) (aid : ActorId)
deriving DecidableEq, Repr

/-- The assertions of `add_direct`. -/
inductive Assertion where
  | handleUnbound (hdl : ConnectionHandle)
  | nodeUnbound (nid : NodeId)
deriving DecidableEq, Repr

/-- What a run of the broker leaves behind: hooks, answers, messages it writes. -/
inductive Event where
  | newConnectionEstablished (nid : NodeId)
  | connectionLost (nid : NodeId)
  /-- `connected`: whether `hop` had a direct connection at that time -/
  | newRouteAdded (hop dest : NodeId) (connected : Bool)
  | routeLost (hop dest : NodeId)
  | newRemoteActor (ref : ProxyRef)
  | actorPublished (whom : ActorAddr) (sigs : List Bytes) (port : UInt16)
  | messageForwarded (hdr : Header) (payload : Option Bytes)
  | messageForwardingFailed (hdr : Header) (payload : Option Bytes)
  | messageSent (sender : ActorAddr) (nextHop : NodeId) (receiver : ActorAddr) (mid : MessageId)
  | messageSendingFailed (sender receiver : ActorAddr) (mid : MessageId)
  | messageReceived (node : NodeId) (src dest : ActorAddr) (mid : MessageId)
  | invalidMessageReceived (node : NodeId) (src : ActorAddr) (dest : ActorId) (mid : MessageId)
  /-- a request was answered with the exit reason of its receiver -/
  | bounced (sender : ActorAddr) (mid : MessageId) (rsn : ExitReason)
  /-- a connect request was accepted: its promise is stored in the context of `hdl` -/
  | requestAccepted (promise : Promise) (hdl : ConnectionHandle)
  | answered (promise : Promise) (response : Response)
  /-- the broker wrote a message of its own to a connection -/
  | wrote (hdl : ConnectionHandle) (packet : Packet)
  | assertionFailed (what : Assertion)
deriving DecidableEq, Repr

/-- The process the broker runs in. Its node id is made of the process id, which
is never zero, and a host id. -/
structure Process where
  id : NodeId
  pid_ne_zero : id.processId ≠ 0
  types : TypeMap

/-- A process has a valid node id. -/
theorem Process.id_valid (process : Process) : process.id.valid = true := by
  have hpid := process.pid_ne_zero
  cases hv : process.id.valid with
  | true => rfl
  | false =>
    rw [NodeId.not_valid_iff.mp hv] at hpid
    exact absurd rfl hpid

/-- The BASP broker of a node, with the parts of the node it works on. -/
structure Broker where
  process : Process
  tbl : RoutingTable
  publishedActors : UMap UInt16 (ActorAddr × List Bytes)
  ctx : UMap ConnectionHandle ConnectionContext
  thisContext : Option ConnectionHandle
  /-- the entries of the actor namespace; an entry without anchor is `none` -/
  proxies : UMap NodeId (UMap ActorId (Option ProxyRef))
  heap : List Proxy
  knownRemotes : UMap NodeId (UInt16 × ActorAddr)
  spawnServers : UMap NodeId ActorRef
  enableAutomaticConnections : Bool
  scribes : UMap ConnectionHandle Scribe
  doormen : UMap AcceptHandle UInt16
  registry : UMap ActorId (Option ActorRef × ExitReason)
  named : UMap UInt64 ActorRef
  actors : List LocalActor
  lastId : ActorId
  tasks : List Task
  promises : Nat
  exitReason : ExitReason
  history : List Event

namespace Broker

/-- `this_node()`. -/
def thisNode (s : Broker) : NodeId := s.process.id

/-- A broker that has just been started. -/
def initial (process : Process) (order : HopOrder) : Broker where
  process
  tbl := RoutingTable.empty order
  publishedActors := UMap.empty
  ctx := UMap.empty
  thisContext := none
  proxies := UMap.empty
  heap := []
  knownRemotes := UMap.empty
  spawnServers := UMap.empty
  enableAutomaticConnections := false
  scribes := UMap.empty
  doormen := UMap.empty
  registry := UMap.empty
  named := UMap.empty
  actors := []
  lastId := 0
  tasks := []
  promises := 0
  exitReason := ExitReason.notExited
  history := []

/-- The node an address belongs to. -/
def addrNode (s : Broker) : ActorAddr → NodeId
  | .invalid => NodeId.invalid
  | .localActor _ => s.thisNode
  | .proxy r => ((s.heap[r]?).map (·.nid)).getD NodeId.invalid

/-- The id of the actor behind an address. -/
def addrId (s : Broker) : ActorAddr → ActorId
  | .invalid => 0
  | .localActor r => ((s.actors[r]?).map (·.id)).getD 0
  | .proxy r => ((s.heap[r]?).map (·.aid)).getD 0

/-- `actor_addr::is_remote`. -/
def isRemote (s : Broker) (addr : ActorAddr) : Bool :=
  addr ≠ .invalid && !(s.addrNode addr).equals s.thisNode

/-- The proxy that the namespace holds for an actor, expired or not. -/
def anchor (s : Broker) (nid : NodeId) (aid : ActorId) : Option ProxyRef :=
  ((s.proxies.find? nid).bind (·.find? aid)).join

/-- `anchor->get()`: the proxy, unless it has been destroyed. -/
def live (s : Broker) (r : ProxyRef) : Bool := !((s.heap[r]?).map (·.destroyed)).getD false

/-- An entry in the history. -/
def note (s : Broker) (e : Event) : Broker := { s with history := s.history ++ [e] }

@[simp] theorem note_ctx (s : Broker) (e : Event) : (s.note e).ctx = s.ctx := rfl
@[simp] theorem note_tbl (s : Broker) (e : Event) : (s.note e).tbl = s.tbl := rfl
@[simp] theorem note_history (s : Broker) (e : Event) : (s.note e).history = s.history ++ [e] := rfl

/-- Appends a message to the write buffer of `hdl`. -/
def append (s : Broker) (hdl : ConnectionHandle) (p : Packet) : Broker :=
  { s with scribes := s.scribes.adjust hdl fun c => { c with wrBuf := c.wrBuf ++ [p] } }

/-- Hands the write buffer of `hdl` to the socket. -/
def flush (s : Broker) (hdl : ConnectionHandle) : Broker :=
  { s with
    scribes := s.scribes.adjust hdl fun c => { c with wrBuf := [], sent := c.sent ++ c.wrBuf } }

/-- Sets the number of bytes that `hdl` reads next. -/
def configure (s : Broker) (hdl : ConnectionHandle) (rdSize : Nat) : Broker :=
  { s with scribes := s.scribes.adjust hdl fun c => { c with rdSize } }

/-- The current context. -/
def context? (s : Broker) : Option ConnectionContext := s.thisContext.bind s.ctx.find?

/-- Changes the context of `hdl`. -/
def modifyCtx (s : Broker) (hdl : ConnectionHandle)
    (f : ConnectionContext → ConnectionContext) : Broker :=
  { s with ctx := s.ctx.adjust hdl f }

end Broker

/-! ## Programs -/

/-- Code of the broker. -/
abbrev M := EStateM Fault Broker

/-- Runs a hook, or takes note of an event. -/
def notify (e : Event) : M Unit := modify (·.note e)

/-- `by_id(hdl)`, for a scribe. -/
def byId (hdl : ConnectionHandle) : M Scribe := do
  match (← get).scribes.find? hdl with
  | some c => return c
  | none => throw (.invalidArgument "invalid handle")

/-- `abstract_broker::flush`. -/
def flush (hdl : ConnectionHandle) : M Unit := do
  let _ ← byId hdl
  modify (·.flush hdl)

/-- `abstract_broker::configure_read`. -/
def configureRead (hdl : ConnectionHandle) (rdSize : Nat) : M Unit := do
  let _ ← byId hdl
  modify (·.configure hdl rdSize)

/-- `abstract_broker::close`, for a scribe. -/
def close (hdl : ConnectionHandle) : M Unit := do
  let _ ← byId hdl
  modify fun s => { s with scribes := s.scribes.erase hdl }

/-- `*this_context`. -/
def context : M ConnectionContext := do
  match (← get).context? with
  | some c => return c
  | none => throw (.undefined "this_context")

/-- Changes `*this_context`. -/
def modifyContext (f : ConnectionContext → ConnectionContext) : M Unit :=
  modify fun s =>
    match s.thisContext with
    | some hdl => s.modifyCtx hdl f
    | none => s

/-- `make_response_promise()`. -/
def makeResponsePromise : M Promise := do
  let p := (← get).promises
  modify fun s => { s with promises := p + 1 }
  return p

end BoostActor
