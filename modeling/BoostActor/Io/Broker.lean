import BoostActor.Lib.Run
import BoostActor.Io.Instance

/-!
# The BASP broker as a transition system

The message handlers of `basp_broker::make_behavior`, and everything else that
happens to a broker and its node: each is an `Input`, and `step` says what the
broker does with it. An exception that leaves a handler ends the broker
(`abstract_broker::invoke_message`).
-/

namespace BoostActor

open Lib

/-! ## Message handlers -/

/-- `new_data_msg`. -/
def newDataMsg (dm : NewData) : M Unit := do
  setContext dm.handle
  let next ← handle dm ((← context).cstate = .awaitPayload)
  if next = .closeConnection then
    close dm.handle
    modify fun s => { s with ctx := s.ctx.erase dm.handle }
  else
    let c ← context
    if next ≠ c.cstate then
      configureRead dm.handle (if next = .awaitPayload then c.hdr.payloadLen.toNat else headerSize)
      modifyContext fun c => { c with cstate := next }

/-- `forward_atom`, received from proxies. -/
def forwardMsg (sender receiver : ActorAddr) (mid : MessageId) (msg : Message) : M Unit := do
  if receiver = .invalid || !(← get).isRemote receiver then return
  registerIfLocal sender
  if !(← dispatch sender receiver mid msg) && MessageId.isRequest mid then
    bounce ExitReason.remoteLinkUnreachable sender mid

/-- `abstract_broker::local_port`. -/
def Broker.localPort (s : Broker) (hdl : AcceptHandle) : UInt16 := (s.doormen.find? hdl).getD 0

/-- `abstract_broker::hdl_by_port`. -/
def Broker.hdlByPort (s : Broker) (port : UInt16) : Option AcceptHandle :=
  (s.doormen.entries.find? (·.2 = port)).map (·.1)

/-- `new_connection_msg`. -/
def newConnectionMsg (hdl : ConnectionHandle) (source : AcceptHandle) : M Unit := do
  let _ ← byId hdl
  writeServerHandshake hdl (some ((← get).localPort source))
  flush hdl
  configureRead hdl headerSize

/-- `connection_closed_msg`. -/
def Broker.connectionClosedMsg (s : Broker) (hdl : ConnectionHandle) : Broker :=
  if !s.ctx.contains hdl then s
  else
    let s := s.eraseContext hdl
    let nid := s.tbl.lookupNode hdl
    if nid.equals NodeId.invalid then s else (s.handleNodeShutdown nid).eraseNode nid

/-- `acceptor_closed_msg`. -/
def acceptorClosedMsg (hdl : AcceptHandle) : M Unit := do
  let _ ← removePublishedActorAt ((← get).localPort hdl)

/-- Closes the doorman that listens on a port. -/
def closeAcceptor (port : UInt16) : M Bool := do
  match (← get).hdlByPort port with
  | some acc =>
    modify fun s => { s with doormen := s.doormen.erase acc }
    return true
  | none => return false

/-- `publish_atom`; `assigned` says whether the doorman could be assigned. -/
def publishMsg (hdl : AcceptHandle) (port : UInt16) (whom : ActorAddr) (sigs : List Bytes)
    (assigned : Bool) : M Unit := do
  if hdl.id = -1 ∨ whom = .invalid ∨ assigned = false then return
  modify fun s => { s with doormen := s.doormen.emplace hdl port }
  registerIfLocal whom
  addPublishedActor port whom sigs

/-- `connect_atom`; `failure` is the exception that assigning the scribe raises. -/
def connectMsg (hdl : ConnectionHandle) (port : UInt16) (failure : Option Bytes) : M Unit := do
  let rp ← makeResponsePromise
  match failure with
  | some what =>
    notify (.answered rp (.error (ascii "failed to assign scribe from handle: " ++ what)))
  | none =>
    modify fun s => { s with scribes := s.scribes.emplace hdl ⟨0, [], []⟩ }
    modify fun s =>
      let c := (s.ctx.find? hdl).getD (ConnectionContext.initial hdl)
      { s with
        ctx := s.ctx.set hdl
          { c with hdl, remotePort := port, cstate := .awaitHeader, callback := some rp } }
    notify (.requestAccepted rp hdl)
    configureRead hdl headerSize

/-- `unpublish_atom`: whether a mapping was found. -/
def unpublishMsg (whom : ActorAddr) (port : UInt16) : M Bool := do
  if whom = .invalid then return false
  let removed ← removePublishedActor whom port fun p => do let _ ← closeAcceptor p
  return removed ≠ 0

/-- `close_atom`. -/
def closeMsg (port : UInt16) : M Bool := do
  if port = 0 then return false
  let _ ← removePublishedActorAt port
  closeAcceptor port

/-! ## Posted work and other threads -/

/-- What the multiplexer does with a task. -/
def runTask : Task → M Unit
  | .eraseProxy res nid rsn => modify fun s => s.eraseProxy nid (s.addrId (.proxy res)) rsn
  | .sendKillProxyInstance nid aid rsn => sendKillProxyInstance nid aid rsn
  | .deleteProxy nid aid => modify (·.eraseProxy nid aid ExitReason.remoteLinkUnreachable)

namespace Broker

/-- The first half of `abstract_actor::cleanup`. -/
def exitActor (s : Broker) (ref : ActorRef) (rsn : ExitReason) : Broker :=
  { s with
    actors := s.actors.modify ref fun act =>
      { act with exitReason := rsn, attachables := [], exiting := act.attachables } }

/-- The next attachable of an actor that exits on a thread of its own: what has to
be done by the broker is posted to the multiplexer. -/
def callAttachable (s : Broker) (ref : ActorRef) : Broker :=
  match s.actors[ref]? with
  | none => s
  | some act =>
    match act.exiting with
    | [] => s
    | a :: rest =>
      let s := { s with actors := s.actors.set ref { act with exiting := rest } }
      match a with
      | .eraseEntry key => s.eraseEntry key act.exitReason
      | .sendKillProxyInstance nid aid =>
        { s with tasks := s.tasks ++ [.sendKillProxyInstance nid aid act.exitReason] }

/-- Something still refers to the proxy: its own functor, a posted callback or
`known_remotes`. -/
def referenced (s : Broker) (r : ProxyRef) : Bool :=
  ((s.heap[r]?).map (·.functor)).getD false
    || s.tasks.any (fun | .eraseProxy res _ _ => res = r | _ => false)
    || s.knownRemotes.entries.any (·.2.2 = .proxy r)

/-- `~forwarding_actor_proxy`: tells the manager, if there is one. -/
def destroyProxy (s : Broker) (r : ProxyRef) : Broker :=
  match s.heap[r]? with
  | none => s
  | some p =>
    { s with
      heap := s.heap.set r { p with destroyed := true }
      tasks := s.tasks ++ if p.manager then [.deleteProxy p.nid p.aid] else [] }

/-- `cleanup` after `quit`: the state is destroyed, every connection is closed. -/
def terminate (s : Broker) : Broker :=
  let s := s.proxies.entries.foldl (fun s e => s.resetAll e.2.entries) s
  { s with
    tbl := RoutingTable.empty s.tbl.order
    publishedActors := UMap.empty
    ctx := UMap.empty
    thisContext := none
    proxies := UMap.empty
    knownRemotes := UMap.empty
    spawnServers := UMap.empty
    scribes := UMap.empty
    doormen := UMap.empty
    exitReason := ExitReason.unhandledException }

/-- `abstract_broker::invoke_message`: an exception ends the broker. -/
def invoke (s : Broker) (x : M Unit) : Broker :=
  match x s with
  | .ok _ s' => s'
  | .error _ s' => s'.terminate

end Broker

/-! ## Steps -/

/-- What can happen to a broker. -/
inductive Input where
  /-- a doorman accepts a connection -/
  | newConnection (hdl : ConnectionHandle) (source : AcceptHandle)
  /-- a scribe has read as many bytes as it was configured for -/
  | newData (dm : NewData)
  /-- a scribe has failed or its peer has closed the connection -/
  | connectionClosed (hdl : ConnectionHandle)
  | acceptorClosed (hdl : AcceptHandle)
  | forward (sender receiver : ActorAddr) (mid : MessageId) (msg : Message)
  | publish (hdl : AcceptHandle) (port : UInt16) (whom : ActorAddr) (sigs : List Bytes)
      (assigned : Bool)
  | connect (hdl : ConnectionHandle) (port : UInt16) (failure : Option Bytes)
  | unpublish (whom : ActorAddr) (port : UInt16)
  | closePort (port : UInt16)
  /-- the configuration server enables automatic connections -/
  | enableAutomaticConnections (hdl : AcceptHandle) (port : UInt16)
  | putNamed (key : UInt64) (ref : ActorRef)
  /-- the multiplexer runs one of its tasks -/
  | runTask (index : Nat)
  | spawnActor
  | exitActor (ref : ActorRef) (rsn : ExitReason)
  | callAttachable (ref : ActorRef)
  | destroyProxy (ref : ProxyRef)

namespace Broker

/-- An address that a local actor can hold. -/
def holds (s : Broker) : ActorAddr → Bool
  | .invalid => true
  | .localActor r => r < s.actors.length
  | .proxy r => r < s.heap.length

/-- Whether an input can occur. -/
def enabled (s : Broker) (i : Input) : Bool :=
  s.exitReason = ExitReason.notExited &&
  match i with
  | .newConnection hdl _ => hdl ≠ ConnectionHandle.invalid && !s.scribes.contains hdl
  | .newData dm => match s.scribes.find? dm.handle with
    | some c => dm.buf.length = c.rdSize
    | none => false
  | .connectionClosed hdl => s.scribes.contains hdl
  | .acceptorClosed hdl => s.doormen.contains hdl
  | .forward sender receiver _ msg =>
    s.holds sender && s.holds receiver && msg.locals.all (· < s.actors.length)
  | .publish _ _ whom _ _ => s.holds whom
  | .connect hdl _ _ => hdl ≠ ConnectionHandle.invalid && !s.scribes.contains hdl
  | .runTask index => index < s.tasks.length
  | .putNamed _ ref => ref < s.actors.length
  | .exitActor ref rsn => match s.actors[ref]? with
    | some act => act.exitReason = ExitReason.notExited && rsn ≠ ExitReason.notExited
    | none => false
  | .destroyProxy r => match s.heap[r]? with
    | some p => !p.destroyed && !s.referenced r
    | none => false
  | _ => true

/-- What the broker does with an input. -/
def exec (s : Broker) : Input → Broker
  | .newConnection hdl source =>
    { s with scribes := s.scribes.emplace hdl ⟨0, [], []⟩ }.invoke (newConnectionMsg hdl source)
  -- a scribe sends what is in its write buffer after its data was handled
  | .newData dm => (s.invoke (newDataMsg dm)).flush dm.handle
  | .connectionClosed hdl =>
    { s with scribes := s.scribes.erase hdl }.connectionClosedMsg hdl
  | .acceptorClosed hdl =>
    { s with doormen := s.doormen.erase hdl }.invoke (acceptorClosedMsg hdl)
  | .forward sender receiver mid msg => s.invoke (forwardMsg sender receiver mid msg)
  | .publish hdl port whom sigs assigned => s.invoke (publishMsg hdl port whom sigs assigned)
  | .connect hdl port failure => s.invoke (connectMsg hdl port failure)
  | .unpublish whom port => s.invoke (do let _ ← unpublishMsg whom port)
  | .closePort port => s.invoke (do let _ ← closeMsg port)
  | .enableAutomaticConnections hdl port =>
    { s with doormen := s.doormen.emplace hdl port, enableAutomaticConnections := true }
  | .putNamed key ref => { s with named := s.named.emplace key ref }
  | .runTask index =>
    match s.tasks[index]? with
    | some t => { s with tasks := s.tasks.eraseIdx index }.invoke (BoostActor.runTask t)
    | none => s
  | .spawnActor => s.addActor
  | .exitActor ref rsn => s.exitActor ref rsn
  | .callAttachable ref => s.callAttachable ref
  | .destroyProxy r => s.destroyProxy r

/-- One step of the broker. -/
def step (s : Broker) (i : Input) : Option Broker :=
  if s.enabled i then some (s.exec i) else none

/-- The broker has just been started. -/
def isInitial (s : Broker) : Prop := ∃ process order, s = initial process order

/-- The states of runs whose steps all meet a condition. -/
def Reachable (ok : Broker → Input → Prop) : Broker → Prop := Reach isInitial step ok

/-- A step is an input that can arrive, with what the broker then does. -/
theorem step_eq_some {s s' : Broker} {i : Input} :
    s.step i = some s' ↔ s.enabled i = true ∧ s' = s.exec i := by
  unfold step
  split
  · next h => simp [h, eq_comm]
  · next h => simp [h]

/-- An input that can arrive leads to another reachable state. -/
theorem Reachable.exec {ok : Broker → Input → Prop} {s : Broker} {i : Input} (h : Reachable ok s)
    (hok : ok s i) (he : s.enabled i = true) : Reachable ok (s.exec i) :=
  .step h hok (step_eq_some.mpr ⟨he, rfl⟩)

end Broker

/-! ## A small network

Nodes, handles and messages for concrete runs. -/

namespace Sample

/-- The host id that starts with `b`. -/
def host (b : UInt8) : HostId := ⟨b :: List.replicate 19 0, by simp [hostIdSize]⟩

/-- The node with process id 1 on host `b`. -/
def node (b : UInt8) : NodeId := NodeId.make 1 (host b)

/-- Iteration in the order of insertion, last one first. -/
def order : HopOrder := ⟨id, fun _ => List.Perm.refl _⟩

/-- The broker of node `b`, which knows the builtin types only. -/
def broker (b : UInt8) : Broker :=
  Broker.initial ⟨node b, (by decide : (1 : UInt32) ≠ 0), TypeMap.empty⟩ order

theorem broker_reachable (b : UInt8) {ok : Broker → Input → Prop} :
    Broker.Reachable ok (broker b) := .init ⟨_, _, rfl⟩

/-- Connection handles. -/
def conn (n : Nat) : ConnectionHandle := ⟨n⟩

/-- A client handshake. -/
def clientHello (source dest : NodeId) : Header :=
  ⟨.clientHandshake, 0, 0, source, dest, 0, 0⟩

/-- A server handshake without a published actor. -/
def serverHello (source : NodeId) : Header :=
  ⟨.serverHandshake, 0, version, source, NodeId.invalid, 0, 0⟩

/-- Bytes that arrive on a connection. -/
def received (n : Nat) (bs : Bytes) : NewData := ⟨conn n, bs, []⟩

/-- A doorman accepts a connection. -/
def accepts (n : Nat) : Input := .newConnection (conn n) ⟨100⟩

/-- A local actor asks for a connection. -/
def dials (n : Nat) : Input := .connect (conn n) 80 none

/-- Bytes arrive. -/
def reads (n : Nat) (bs : Bytes) : Input := .newData (received n bs)

/-- A header arrives. -/
def hears (n : Nat) (hdr : Header) : Input := reads n (writeHdr hdr)

/-- The header of a message from actor 4 of one node to actor 1 of another. -/
def dispatches (source dest : NodeId) (msg : Message) : Header :=
  Header.withPayload ⟨.dispatchMessage, 0, 0, source, dest, 4, 1⟩ (some msg.bytes)

/-- A message with the handle of an actor on node `b`. -/
def carries (b : UInt8) (aid : ActorId) : Message :=
  ⟨ascii "+@actor", writeUInt32 aid ++ (host b).bytes ++ writeUInt32 1, [], none⟩

end Sample

end BoostActor
