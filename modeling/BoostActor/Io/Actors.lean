import BoostActor.Io.State

/-!
# Actors, registry and namespace of a node

The parts of the actor library that the broker works with: `actor_registry`,
attaching functors to actors, and `actor_namespace` as far as it does not create
proxies. Also the routing table's operations as programs, and the functions of
`basp::instance` that write a message.
-/

namespace BoostActor

open Lib

-- -------------------------
-- Routes
-- -------------------------

/-- `routing_table::lookup`. Taking the write buffer of the route throws when its
handle has no scribe. -/
def lookup (target : NodeId) : M (Option Route) := do
  let path := (← get).tbl.route? target
  modify fun s => { s with tbl := s.tbl.prune target }
  match path with
  | none => return none
  | some r =>
    let _ ← byId r.hdl
    return some r

/-- The insertion of `routing_table::add_indirect`, with its hook. -/
def Broker.addHop (s : Broker) (hop dest : NodeId) : Broker :=
  { s with tbl := s.tbl.addHop hop dest }.note (.newRouteAdded hop dest (s.tbl.connected hop))

/-- `routing_table::add_indirect`: whether `hop` is the first hop to `dest`. -/
def addIndirect (hop dest : NodeId) : M Bool := do
  let t := (← get).tbl
  if t.blacklisted hop dest then return false
  modify (·.addHop hop dest)
  return (t.hops dest).isEmpty

/-- `routing_table::erase_indirect`, with its hooks. -/
def Broker.eraseIndirect (s : Broker) (dest : NodeId) : Broker :=
  let s := (s.tbl.hops dest).foldl (fun s nid => s.note (.routeLost nid dest)) s
  { s with tbl := s.tbl.removeIndirect dest }

-- -------------------------
-- Writing messages
-- -------------------------

/-- The effect of `instance::write`: the message is appended to the buffer. -/
def Broker.write (s : Broker) (hdl : ConnectionHandle) (hdr : Header) (pw : Option Bytes) :
    Broker :=
  let p : Packet := ⟨hdr.withPayload pw, pw.getD [], []⟩
  (s.append hdl p).note (.wrote hdl p)

/-- `instance::write`, for a message that this node originates. -/
def write (hdl : ConnectionHandle) (hdr : Header) (pw : Option Bytes) : M Unit :=
  modify (·.write hdl hdr pw)

/-- `instance::write_server_handshake`: the header names the actor published at
`port`, and the payload repeats its id and lists its interface. -/
def writeServerHandshake (hdl : ConnectionHandle) (port : Option UInt16) : M Unit := do
  let s ← get
  let pa := port.bind s.publishedActors.find?
  let payload := match pa with
    | some (whom, sigs) => writeUInt32 (s.addrId whom) ++ writeStrings sigs
    | none => []
  let aid := match pa with
    | some (whom, _) => s.addrId whom
    | none => 0
  write hdl ⟨.serverHandshake, 0, version, s.thisNode, NodeId.invalid, aid, 0⟩ (some payload)

/-- `instance::write_client_handshake`. -/
def writeClientHandshake (hdl : ConnectionHandle) (remoteSide : NodeId) : M Unit := do
  write hdl ⟨.clientHandshake, 0, 0, (← get).thisNode, remoteSide, 0, 0⟩ none

/-- `error::no_route_to_destination`. -/
def noRouteToDestination : UInt64 := 1

/-- `instance::write_dispatch_error`. -/
def writeDispatchError (hdl : ConnectionHandle) (sourceNode destNode : NodeId) (errorCode : UInt64)
    (originalHdr : Header) (payload : Option Bytes) : M Unit :=
  write hdl ⟨.killProxyInstance, 0, errorCode, sourceNode, destNode, 0, 0⟩
    (some (writeHdr originalHdr ++ payload.getD []))

/-- `instance::write_kill_proxy_instance`. -/
def writeKillProxyInstance (hdl : ConnectionHandle) (destNode : NodeId) (aid : ActorId)
    (rsn : ExitReason) : M Unit := do
  write hdl ⟨.killProxyInstance, 0, rsn.toUInt64, (← get).thisNode, destNode, aid, 0⟩ none

/-- The lambda of `proxy_announced`. -/
def sendKillProxyInstance (nid : NodeId) (aid : ActorId) (rsn : ExitReason) : M Unit := do
  match ← lookup nid with
  | none => return
  | some path =>
    writeKillProxyInstance path.hdl nid aid rsn
    flush path.hdl

-- -------------------------
-- Local actors and their registry
-- -------------------------

/-- A new local actor with the next id. -/
def Broker.addActor (s : Broker) : Broker :=
  { s with
    lastId := s.lastId + 1
    actors := s.actors ++ [⟨s.lastId + 1, ExitReason.notExited, [], []⟩] }

/-- Spawns a local actor. -/
def spawn : M ActorRef := do
  let ref := (← get).actors.length
  modify (·.addActor)
  return ref

/-- `actor_registry::get_entry`. -/
def Broker.getEntry (s : Broker) (key : ActorId) : Option ActorRef × ExitReason :=
  (s.registry.find? key).getD (none, ExitReason.unknown)

/-- `actor_registry::erase`. -/
def Broker.eraseEntry (s : Broker) (key : ActorId) (reason : ExitReason) : Broker :=
  { s with registry := s.registry.adjust key fun _ => (none, reason) }

/-- An attachable is told, on the multiplexer's thread, that its actor has exited. -/
def actorExited (a : Attachable) (reason : ExitReason) : M Unit :=
  match a with
  | .eraseEntry key => modify (·.eraseEntry key reason)
  | .sendKillProxyInstance nid aid => sendKillProxyInstance nid aid reason

/-- `abstract_actor::attach_impl`. -/
def Broker.attachTo (s : Broker) (ref : ActorRef) (a : Attachable) : Broker :=
  { s with
    actors := s.actors.modify ref fun act => { act with attachables := a :: act.attachables } }

/-- `abstract_actor::attach`. -/
def attach (ref : ActorRef) (a : Attachable) : M Unit := do
  match (← get).actors[ref]? with
  | none => return -- references never dangle
  | some act =>
    if act.exitReason = ExitReason.notExited then modify (·.attachTo ref a)
    else actorExited a act.exitReason

/-- The insertion of `actor_registry::put`. -/
def Broker.putEntry (s : Broker) (key : ActorId) (ref : ActorRef) : Broker :=
  { s with registry := s.registry.emplace key (some ref, ExitReason.notExited) }

/-- `actor_registry::put`. -/
def registryPut (key : ActorId) (ref : ActorRef) : M Unit := do
  if (← get).registry.contains key then return
  modify (·.putEntry key ref)
  attach ref (.eraseEntry key)

/-- `registry->put(addr.id(), addr)` for a local actor. -/
def registerLocal (ref : ActorRef) : M Unit := do
  registryPut ((← get).addrId (.localActor ref)) ref

/-- `registry->put(addr->id(), addr)` unless the actor is remote. -/
def registerIfLocal : ActorAddr → M Unit
  | .localActor ref => registerLocal ref
  | _ => pure ()

/-- `registry->get(aid)`, as an address. -/
def Broker.registryAddr (s : Broker) (aid : ActorId) : ActorAddr :=
  match (s.getEntry aid).1 with
  | some ref => .localActor ref
  | none => .invalid

-- -------------------------
-- Proxies
-- -------------------------

/-- `forwarding_actor_proxy::kill_proxy`: gives up the manager and exits. -/
def Proxy.kill (p : Proxy) (rsn : ExitReason) : Proxy :=
  if p.exitReason ≠ ExitReason.notExited then { p with manager := false }
  else { p with manager := false, exitReason := rsn, functor := false }

namespace Broker

/-- Kills the proxy `r` unless it has expired. A proxy that exits posts its erase
callback. -/
def reset (s : Broker) (r : ProxyRef) (rsn : ExitReason) : Broker :=
  match s.heap[r]? with
  | none => s
  | some p =>
    if p.destroyed then s
    else
      { s with
        heap := s.heap.set r (p.kill rsn)
        tasks := s.tasks ++
          if p.exitReason = ExitReason.notExited ∧ p.functor = true then
            [.eraseProxy r p.nid rsn]
          else [] }

/-- `proxy_entry::reset`. -/
def resetEntry (s : Broker) (entry : Option ProxyRef) (rsn : ExitReason) : Broker :=
  match entry with
  | some r => s.reset r rsn
  | none => s

/-- `actor_namespace::erase(node, aid, rsn)`. -/
def eraseProxy (s : Broker) (nid : NodeId) (aid : ActorId) (rsn : ExitReason) : Broker :=
  match s.proxies.find? nid with
  | none => s
  | some submap =>
    match submap.find? aid with
    | none => s
    | some entry =>
      let s := s.resetEntry entry rsn
      let submap := submap.erase aid
      { s with
        proxies := if submap.entries.isEmpty then s.proxies.erase nid
          else s.proxies.set nid submap }

/-- The entries of a node are destroyed one after the other. -/
def resetAll (s : Broker) (entries : List (ActorId × Option ProxyRef)) : Broker :=
  entries.foldl (fun s e => s.resetEntry e.2 ExitReason.remoteLinkUnreachable) s

/-- `actor_namespace::erase(node)`. -/
def eraseNode (s : Broker) (nid : NodeId) : Broker :=
  match s.proxies.find? nid with
  | none => s
  | some submap =>
    let s := s.resetAll submap.entries
    { s with proxies := s.proxies.erase nid }

/-- `proxies_[node][aid]` creates what is missing. -/
def reserve (s : Broker) (nid : NodeId) (aid : ActorId) : Broker :=
  let submap := (s.proxies.find? nid).getD UMap.empty
  { s with proxies := s.proxies.set nid (submap.emplace aid none) }

/-- `anchor = result->get_anchor()`. -/
def setAnchor (s : Broker) (nid : NodeId) (aid : ActorId) (r : ProxyRef) : Broker :=
  { s with proxies := s.proxies.adjust nid fun submap => submap.set aid (some r) }

end Broker

/-- `make_counted<forwarding_actor_proxy>(aid, nid, ptr)` with its functor. -/
def Broker.addProxy (s : Broker) (nid : NodeId) (aid : ActorId) : Broker :=
  { s with heap := s.heap ++ [⟨nid, aid, true, ExitReason.notExited, true, false⟩] }

/-- Creates a proxy. -/
def newProxy (nid : NodeId) (aid : ActorId) : M ProxyRef := do
  let res := (← get).heap.length
  modify (·.addProxy nid aid)
  return res

end BoostActor
