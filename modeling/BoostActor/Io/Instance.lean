import BoostActor.Io.Callee

/-!
# The protocol instance

`basp::instance`: what happens when a header or a payload arrives on a
connection, when a connection is lost, and when a local actor sends a message to
a remote one. `handle` is the header/payload switch of the source; `process` is
the rest of it, once a message is complete.
-/

namespace BoostActor

open Lib

/-! ## Direct routes -/

namespace Broker

/-- `BOOST_ACTOR_ASSERT`: a failed assertion is recorded; like a release build, the
code then goes on. -/
def assert (s : Broker) (what : Assertion) (cond : Bool) : Broker :=
  if cond then s else s.note (.assertionFailed what)

/-- `routing_table::add_direct`. -/
def addDirect (s : Broker) (hdl : ConnectionHandle) (nid : NodeId) : Broker :=
  let s := s.assert (.handleUnbound hdl) (!s.tbl.directByHdl.contains hdl)
  let s := s.assert (.nodeUnbound nid) (!s.tbl.directByNid.contains nid)
  { s with tbl := s.tbl.addDirect hdl nid }.note (.newConnectionEstablished nid)

/-- `routing_table::erase_direct`, with the callback that the instance passes. -/
def eraseDirect (s : Broker) (hdl : ConnectionHandle) : Broker :=
  match s.tbl.directByHdl.find? hdl with
  | none => s
  | some nid =>
    let s := (s.purgeState nid).note (.connectionLost nid)
    { s with tbl := s.tbl.removeDirect hdl nid }

/-- `routing_table::erase`, with the callback that the instance passes. -/
def eraseRoutes (s : Broker) (dest : NodeId) : Broker :=
  let s := s.purgeState dest
  let s := (s.tbl.hops dest).foldl
    (fun s nid => (s.purgeState nid).note (.routeLost nid dest)) s
  let s := { s with tbl := s.tbl.removeIndirect dest }
  let hdl := s.tbl.lookupDirect dest
  if hdl = ConnectionHandle.invalid then s
  else { s with tbl := s.tbl.removeDirect hdl dest }.note (.connectionLost dest)

end Broker

/-! ## Incoming messages -/

/-- `new_data_msg`; `via` is that of the message the data belongs to. -/
structure NewData where
  handle : ConnectionHandle
  buf : Bytes
  via : List NodeId
deriving DecidableEq, Repr

/-- The cleanup code of `instance::handle`. -/
def err (hdl : ConnectionHandle) : M ConnectionState := do
  modify (·.eraseDirect hdl)
  return .closeConnection

/-- The function object `payload_valid` of `instance::handle`. -/
def payloadValid (hdr : Header) (payload : Option Bytes) : Bool :=
  match payload with
  | some p => p.length = hdr.payloadLen.toNat
  | none => false

/-- Exceptions of a serializer or deserializer are exceptions of the program that uses it. -/
def ofExcept {α : Type} : Except Fault α → M α
  | .ok a => return a
  | .error e => throw e

/-- Runs a deserializer on a buffer. -/
def parse {α : Type} (r : Reader α) (bs : Bytes) : Except Fault α := (r bs).map (·.1)

/-- `bd >> aid >> sigs`. -/
def readPublished : Reader (ActorId × List Bytes) := do
  let aid ← readUInt32
  let sigs ← readStrings
  return (aid, sigs)

/-- Tells the source of a message that there is no route to its destination. -/
def reportNoRoute (hdr : Header) (payload : Option Bytes) : M Unit := do
  let thisNode := (← get).thisNode
  if hdr.sourceNode.equals thisNode then return
  match ← lookup hdr.sourceNode with
  | none => return
  | some reversePath =>
    writeDispatchError reversePath.hdl thisNode hdr.sourceNode noRouteToDestination hdr payload

/-- The branch of `instance::handle` for messages to other nodes. -/
def forwardMessage (hdr : Header) (payload : Option Bytes) (via : List NodeId) : M Unit := do
  let thisNode := (← get).thisNode
  match ← lookup hdr.destNode with
  | some path =>
    modify (·.append path.hdl ⟨hdr, payload.getD [], via ++ [thisNode]⟩)
    flush path.hdl
    notify (.messageForwarded hdr payload)
  | none =>
    reportNoRoute hdr payload
    notify (.messageForwardingFailed hdr payload)

/-- The id and the interface of the published actor in a server handshake. -/
def handshakePayload (hdr : Header) (payload : Option Bytes) :
    Except Fault (ActorId × List Bytes) :=
  if payloadValid hdr payload then parse readPublished (payload.getD []) else .ok (0, [])

/-- The part of both handshakes that adds the direct route to a node and removes
any indirect entry for it. -/
def Broker.bindDirect (s : Broker) (hdl : ConnectionHandle) (nid : NodeId) : Broker :=
  (s.addDirect hdl nid).eraseIndirect nid

/-- `case message_type::server_handshake`. -/
def serverHandshake (hdl : ConnectionHandle) (hdr : Header) (payload : Option Bytes) :
    M ConnectionState := do
  let (aid, sigs) ← ofExcept (handshakePayload hdr payload)
  let s ← get
  if hdr.sourceNode.equals s.thisNode || s.tbl.connected hdr.sourceNode then
    -- connection to self, or a second connection to the same node
    finalizeHandshake hdr.sourceNode aid sigs
    err hdl
  else
    let wasIndirect := s.tbl.indirect.contains hdr.sourceNode
    modify (·.bindDirect hdl hdr.sourceNode)
    match ← lookup hdr.sourceNode with
    | none => err hdl
    | some path =>
      writeClientHandshake path.hdl hdr.sourceNode
      learnedNewNodeDirectly hdr.sourceNode wasIndirect
      finalizeHandshake hdr.sourceNode aid sigs
      flush path.hdl
      return .awaitHeader

/-- `case message_type::client_handshake`. -/
def clientHandshake (hdl : ConnectionHandle) (hdr : Header) : M ConnectionState := do
  let s ← get
  if s.tbl.connected hdr.sourceNode then return .awaitHeader
  let wasIndirect := s.tbl.indirect.contains hdr.sourceNode
  modify (·.bindDirect hdl hdr.sourceNode)
  learnedNewNodeDirectly hdr.sourceNode wasIndirect
  return .awaitHeader

/-- The sender of a dispatched message is reached through the node that passed the
message on, unless there is something better. -/
def learnSource (hdl : ConnectionHandle) (sourceNode : NodeId) : M Unit := do
  let s ← get
  let lastHop := s.tbl.lookupNode hdl
  if !sourceNode.equals NodeId.invalid && !sourceNode.equals s.thisNode
      && !lastHop.equals sourceNode && !s.tbl.connected sourceNode then
    learnRoute lastHop sourceNode

/-- `case message_type::dispatch_message`. -/
def dispatchMessage (hdl : ConnectionHandle) (hdr : Header) (payload : Option Bytes) :
    M ConnectionState := do
  if !payloadValid hdr payload then err hdl
  else
    learnSource hdl hdr.sourceNode
    deserialize (payload.getD [])
    deliver hdr.sourceNode hdr.sourceActor hdr.destNode hdr.destActor hdr.operationData
    return .awaitHeader

/-- `instance::handle`, for a complete message. -/
def processMessage (hdl : ConnectionHandle) (hdr : Header) (payload : Option Bytes)
    (via : List NodeId) : M ConnectionState := do
  if !hdr.valid then err hdl
  else if !hdr.isHandshake && !hdr.destNode.equals (← get).thisNode then
    forwardMessage hdr payload via
    return .awaitHeader
  else match hdr.operation with
    | .serverHandshake => serverHandshake hdl hdr payload
    | .clientHandshake => clientHandshake hdl hdr
    | .dispatchMessage => dispatchMessage hdl hdr payload
    | .announceProxyInstance =>
      proxyAnnounced hdr.sourceNode hdr.destActor
      return .awaitHeader
    | .killProxyInstance =>
      killProxy hdr.sourceNode hdr.sourceActor hdr.operationData.toUInt32
      return .awaitHeader
    | .unknown _ _ => err hdl

/-- `instance::handle(new_data_msg)`. The header is that of the current context:
it is filled in when a header arrives and kept until its payload has arrived. -/
def handle (dm : NewData) (isPayload : Bool) : M ConnectionState := do
  if isPayload then
    let hdr := (← context).hdr
    if dm.buf.length ≠ hdr.payloadLen.toNat then err dm.handle
    else processMessage dm.handle hdr (some dm.buf) dm.via
  else
    let hdr ← ofExcept (parse readHdr dm.buf)
    modifyContext fun c => { c with hdr := hdr }
    if 0 < hdr.payloadLen then return .awaitPayload
    else processMessage dm.handle hdr none dm.via

/-- `instance::handle_node_shutdown`. -/
def Broker.handleNodeShutdown (s : Broker) (affectedNode : NodeId) : Broker :=
  if affectedNode.equals NodeId.invalid then s else s.eraseRoutes affectedNode

/-! ## Outgoing messages -/

/-- `instance::dispatch`. Serializing a message registers the local actors in it, and may
throw. -/
def dispatch (sender receiver : ActorAddr) (mid : MessageId) (msg : Message) : M Bool := do
  match ← lookup ((← get).addrNode receiver) with
  | none =>
    notify (.messageSendingFailed sender receiver mid)
    return false
  | some path =>
    msg.locals.forM registerLocal
    let payload ← ofExcept msg.serialize
    let s ← get
    let sourceNode := if sender = .invalid then s.thisNode else s.addrNode sender
    write path.hdl
      ⟨.dispatchMessage, 0, mid, sourceNode, s.addrNode receiver, s.addrId sender,
        s.addrId receiver⟩
      (some payload)
    flush path.hdl
    notify (.messageSent sender path.nextHop receiver mid)
    return true

/-! ## Published actors -/

/-- `instance::add_published_actor`. -/
def addPublishedActor (port : UInt16) (whom : ActorAddr) (sigs : List Bytes) : M Unit := do
  modify fun s => { s with publishedActors := s.publishedActors.set port (whom, sigs) }
  notify (.actorPublished whom sigs port)

/-- `instance::remove_published_actor(port)`. -/
def removePublishedActorAt (port : UInt16) : M Nat := do
  if !(← get).publishedActors.contains port then return 0
  modify fun s => { s with publishedActors := s.publishedActors.erase port }
  return 1

/-- `instance::remove_published_actor(whom, port, cb)`; port zero stands for every
port of the actor. -/
def removePublishedActor (whom : ActorAddr) (port : UInt16) (cb : UInt16 → M Unit) : M Nat := do
  let published := (← get).publishedActors.entries.filter fun e =>
    e.2.1 = whom ∧ (port = 0 ∨ e.1 = port)
  published.forM fun e => do
    cb e.1
    modify fun s => { s with publishedActors := s.publishedActors.erase e.1 }
  return published.length

end BoostActor
