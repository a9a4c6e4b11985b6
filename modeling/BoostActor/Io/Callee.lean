import BoostActor.Io.Actors

/-!
# The broker's side of the protocol

`basp_broker_state`: the functions that `basp::instance` calls back while it
processes a message. They create proxies, finish handshakes, announce and kill
proxies, deliver messages to local actors and ask newly learned nodes for their
spawn server and connectivity.
-/

namespace BoostActor

open Lib

/-- `std::numeric_limits<actor_id>::max()`: the message is for a named actor. -/
def namedActorId : ActorId := 0xFFFFFFFF

/-! ## New nodes -/

/-- A request to the actor named `name` on `nid`, answered to the actor `tmp`; `msg` has
elements of builtin types only. -/
def requestNamed (path : Route) (name : String) (nid : NodeId) (tmp : ActorRef)
    (msg : Message) : M Unit := do
  let s ← get
  write path.hdl
    ⟨.dispatchMessage, 0, atom name, s.thisNode, nid, s.addrId (.localActor tmp), namedActorId⟩
    (some msg.bytes)
  flush path.hdl

/-- `learned_new_node`. -/
def learnedNewNode (nid : NodeId) : M Unit := do
  let tmp ← spawn
  modify fun s => { s with spawnServers := s.spawnServers.set nid tmp }
  registerLocal tmp
  match ← lookup nid with
  | none => return
  | some path => requestNamed path "SpawnServ" nid tmp infoRequest

/-- `learned_new_node_directly`. -/
def learnedNewNodeDirectly (nid : NodeId) (wasIndirectlyBefore : Bool) : M Unit := do
  if wasIndirectlyBefore then return
  learnedNewNode nid

/-- `learned_new_node_indirectly`. -/
def learnedNewNodeIndirectly (nid : NodeId) : M Unit := do
  learnedNewNode nid
  if !(← get).enableAutomaticConnections then return
  match ← lookup nid with
  | none => return
  | some path =>
    if path.nextHop.equals nid then return
    let tmp ← spawn
    registerLocal tmp
    requestNamed path "ConfigServ" nid tmp connectivityRequest

/-- A node is learned when `add_indirect` adds its first hop. -/
def learnRoute (hop dest : NodeId) : M Unit := do
  if ← addIndirect hop dest then learnedNewNodeIndirectly dest

/-! ## Proxies -/

/-- If a remote node A sends us a handle to a third node B, then we assume that A
offers a route to B. -/
def learnHandle (c : ConnectionContext) (nid : NodeId) : M Unit := do
  if !nid.equals c.id && !(← get).tbl.connected nid then learnRoute c.id nid

/-- The proxy itself, once there is a route: tells the remote side that we are
monitoring this actor now. -/
def announceProxy (c : ConnectionContext) (path : Route) (nid : NodeId) (aid : ActorId) :
    M ProxyRef := do
  let res ← newProxy nid aid
  let _ ← byId c.hdl
  write c.hdl ⟨.announceProxyInstance, 0, 0, (← get).thisNode, nid, 0, aid⟩ none
  flush path.hdl
  notify (.newRemoteActor res)
  return res

/-- `make_proxy`. -/
def makeProxy (nid : NodeId) (aid : ActorId) : M (Option ProxyRef) := do
  if nid.equals NodeId.invalid || aid == 0 then return none
  let c ← context
  learnHandle c nid
  match ← lookup nid with
  | none => return none
  | some path => return some (← announceProxy c path nid aid)

/-- The proxy of an entry of the namespace, unless it is expired. -/
def Broker.liveProxy (s : Broker) (nid : NodeId) (aid : ActorId) : Option ProxyRef :=
  (s.anchor nid aid).filter s.live

/-- `actor_namespace::get_or_put`. -/
def getOrPut (nid : NodeId) (aid : ActorId) : M (Option ProxyRef) := do
  modify (·.reserve nid aid)
  match (← get).liveProxy nid aid with
  | some r => return some r
  | none =>
    match ← makeProxy nid aid with
    | none => return none
    | some r =>
      modify (·.setAnchor nid aid r)
      return some r

/-- `actor_namespace::read`, after the handle has been read from the input. -/
def readAddr (a : AddrRef) : M Unit := do
  if a.aid = 0 ∧ a.pid = 0 then return
  let thisNode := (← get).thisNode
  if a.pid = thisNode.processId ∧ a.host = thisNode.hostId then return
  match ← getOrPut a.node a.aid with
  | some _ => return
  | none => throw (.undefined "null actor_proxy")

/-- `message::deserialize` on a payload. -/
def deserialize (payload : Bytes) : M Unit := do
  let t := Message.deserialize (← get).process.types payload
  t.addrs.forM readAddr
  match t.result with
  | .ok _ => return
  | .error e => throw e

/-- `proxy_announced`. -/
def proxyAnnounced (nid : NodeId) (aid : ActorId) : M Unit := do
  let entry := (← get).getEntry aid
  if entry.2 ≠ ExitReason.notExited then sendKillProxyInstance nid aid entry.2
  else match entry.1 with
    | some ref => attach ref (.sendKillProxyInstance nid aid)
    | none => throw (.undefined "null actor")

/-- `kill_proxy`. -/
def killProxy (nid : NodeId) (aid : ActorId) (rsn : ExitReason) : M Unit :=
  modify (·.eraseProxy nid aid rsn)

/-! ## Handshakes and contexts -/

/-- The address of an actor on any node: from the registry for an actor of this
node, from the namespace otherwise. -/
def resolve (nid : NodeId) (aid : ActorId) : M ActorAddr := do
  let s ← get
  if nid.equals s.thisNode then return s.registryAddr aid
  match ← getOrPut nid aid with
  | some r => return .proxy r
  | none => return .invalid

/-- A remote actor that a handshake told us about is kept in `known_remotes`. -/
def rememberRemote (nid : NodeId) (port : UInt16) (addr : ActorAddr) : M Unit := do
  if (← get).isRemote addr then
    modify fun s => { s with knownRemotes := s.knownRemotes.emplace nid (port, addr) }

/-- `finalize_handshake`. The scope guard of the source clears the callback on
every way out; nothing in between reads it, so it is cleared first here. -/
def finalizeHandshake (nid : NodeId) (aid : ActorId) (sigs : List Bytes) : M Unit := do
  modifyContext fun c => { c with id := nid }
  let c ← context
  match c.callback with
  | none => return
  | some cb =>
    modifyContext fun c => { c with callback := none }
    if aid = 0 then
      notify (.answered cb (.ok nid .invalid sigs))
    else
      let addr ← resolve nid aid
      rememberRemote nid c.remotePort addr
      notify (.answered cb (.ok nid addr sigs))

/-- `purge_state`. -/
def Broker.purgeState (s : Broker) (nid : NodeId) : Broker :=
  let hdl := s.tbl.lookupDirect nid
  if hdl = ConnectionHandle.invalid then s
  else
    let s := s.eraseNode nid
    { s with ctx := s.ctx.erase hdl, knownRemotes := s.knownRemotes.erase nid }

/-- `set_context`. -/
def setContext (hdl : ConnectionHandle) : M Unit :=
  modify fun s =>
    { s with
      ctx := s.ctx.emplace hdl (ConnectionContext.initial hdl)
      thisContext := some hdl }

/-- `erase_context`. -/
def Broker.eraseContext (s : Broker) (hdl : ConnectionHandle) : Broker :=
  let s := match (s.ctx.find? hdl).bind (·.callback) with
    | some cb => s.note (.answered cb (.error (ascii "disconnect during handshake")))
    | none => s
  { s with ctx := s.ctx.erase hdl }

/-! ## Delivery -/

/-- `sync_request_bouncer`. -/
def bounce (rsn : ExitReason) (sender : ActorAddr) (mid : MessageId) : M Unit := do
  let rsn := if rsn = ExitReason.notExited then ExitReason.normal else rsn
  if sender ≠ .invalid ∧ MessageId.isRequest mid then notify (.bounced sender mid rsn)

/-- Where a message is delivered: the receiver, the exit reason to report when
there is none, and the id of the message. -/
def deliverTo (destNode : NodeId) (destActor : ActorId) (mid : MessageId) :
    M (ActorAddr × ExitReason × MessageId) := do
  let s ← get
  if !destNode.equals s.thisNode then
    match ← getOrPut destNode destActor with
    | some r => return (.proxy r, ExitReason.remoteLinkUnreachable, mid)
    | none => return (.invalid, ExitReason.remoteLinkUnreachable, mid)
  else if destActor = namedActorId then
    match s.named.find? mid with
    | some ref => return (.localActor ref, ExitReason.remoteLinkUnreachable, 0)
    | none => return (.invalid, ExitReason.remoteLinkUnreachable, 0)
  else return (s.registryAddr destActor, (s.getEntry destActor).2, mid)

/-- `deliver`. -/
def deliver (sourceNode : NodeId) (sourceActor : ActorId) (destNode : NodeId)
    (destActor : ActorId) (mid : MessageId) : M Unit := do
  let src ← resolve sourceNode sourceActor
  let (dest, rsn, mid) ← deliverTo destNode destActor mid
  if dest = .invalid then
    notify (.invalidMessageReceived sourceNode src destActor mid)
    if MessageId.valid mid ∧ src ≠ .invalid then bounce rsn src mid
  else
    notify (.messageReceived sourceNode src dest mid)

end BoostActor
