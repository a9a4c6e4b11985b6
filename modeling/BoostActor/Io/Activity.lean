import Mathlib.Logic.Relation
import BoostActor.Io.Instance

/-!
# What happens on the side

While it processes a message, the broker does many things besides changing its
connections: it writes messages, learns indirect routes, spawns helpers, creates
proxies, registers actors. `Act` lists these side activities once, each with the
conditions under which the code does it, and `Quiet` is any sequence of them.
`Io/Quiet.lean` shows which programs of the broker are `Quiet`; a property of runs
then has to be checked against the cases of `Act` only.

* `Quiet.untouched` — contexts, direct routes, promises and more stay as they are;
* `Quiet.rdSize?` — so do the connections and what they are configured for.
-/

namespace BoostActor

open Lib

-- -------------------------
-- Activities
-- -------------------------

/-- Events that no other activity stands for. -/
def Event.plain : Event → Bool
  | .newRouteAdded _ _ _ | .requestAccepted _ _ | .answered _ _ | .wrote _ _
  | .assertionFailed _ => false
  | _ => true

/-- What an input of the broker is about: the connection it arrives on, the actors
of other nodes it names, the sender of a dispatched message, the node that
introduces itself, the node that is greeted in return, the exits it reports, nodes to
be told about a lost message, messages of local actors, the message to pass on, the port
of a new connection, and whether proxies may be stored in the namespace. -/
structure Turn where
  hdl : ConnectionHandle
  names : NodeId → ActorId → Prop := fun _ _ => False
  sender : NodeId → Prop := fun _ => False
  peer : NodeId → Prop := fun _ => False
  greets : NodeId → Prop := fun _ => False
  watches : NodeId → ActorId → ExitReason → Prop := fun _ _ _ => False
  bounces : NodeId → Prop := fun _ => False
  sends : ActorAddr → ActorAddr → Message → Prop := fun _ _ _ => False
  relays : Header → Bytes → List NodeId → Prop := fun _ _ _ => False
  accepts : UInt16 → Prop := fun _ => False
  anchors : Prop := False

/-- The nodes that may be asked for their named actors. -/
def Turn.knows (T : Turn) (nid : NodeId) : Prop :=
  T.peer nid ∨ nid.valid = true ∧ (T.sender nid ∨ ∃ aid, T.names nid aid ∧ aid ≠ 0)

/-- A connection that is the direct route to some node. -/
def Broker.routes (s : Broker) (hdl : ConnectionHandle) : Prop :=
  ∃ hop, s.tbl.connected hop = true ∧ hdl = s.tbl.lookupDirect hop

/-- The messages that the broker originates, and the connections it puts them on. -/
inductive Origin (T : Turn) (s : Broker) : ConnectionHandle → Header → Option Bytes → Prop where
  | clientHandshake {path : Route} {nid : NodeId} (hp : T.greets nid)
      (hr : s.tbl.route? nid = some path) :
      Origin T s path.hdl ⟨.clientHandshake, 0, 0, s.thisNode, nid, 0, 0⟩ none
  | request {path : Route} {name : String} {nid : NodeId} {ref : ActorRef}
      {msg : Message} (hk : T.knows nid) (hm : msg = infoRequest ∨ msg = connectivityRequest)
      (hr : s.tbl.route? nid = some path) :
      Origin T s path.hdl
        ⟨.dispatchMessage, 0, atom name, s.thisNode, nid, s.addrId (.localActor ref), namedActorId⟩
        (some msg.bytes)
  | announce {c : ConnectionContext} {nid : NodeId} {aid : ActorId} (hn : T.names nid aid)
      (hv : nid.valid = true) (ha : aid ≠ 0) (hc : s.context? = some c)
      (hr : (s.tbl.route? nid).isSome = true) :
      Origin T s c.hdl ⟨.announceProxyInstance, 0, 0, s.thisNode, nid, 0, aid⟩ none
  | kill {path : Route} {nid : NodeId} {aid : ActorId} {rsn : ExitReason}
      (hw : T.watches nid aid rsn) (hp : s.tbl.route? nid = some path) :
      Origin T s path.hdl
        ⟨.killProxyInstance, 0, rsn.toUInt64, s.thisNode, nid, aid, 0⟩ none
  | dispatchError {path : Route} {nid : NodeId} {hdr : Header} {payload : Option Bytes}
      (hb : T.bounces nid) (hr : s.tbl.route? nid = some path) :
      Origin T s path.hdl ⟨.killProxyInstance, 0, noRouteToDestination, s.thisNode, nid, 0, 0⟩
        (some (writeHdr hdr ++ payload.getD []))
  | dispatch {path : Route} {sender receiver : ActorAddr} {mid : MessageId}
      {msg : Message} (hs : T.sends sender receiver msg)
      (hr : s.tbl.route? (s.addrNode receiver) = some path) :
      Origin T s path.hdl
        ⟨.dispatchMessage, 0, mid, if sender = .invalid then s.thisNode else s.addrNode sender,
          s.addrNode receiver, s.addrId sender, s.addrId receiver⟩
        (some msg.bytes)
  | serverHandshake {hdl : ConnectionHandle} {port : UInt16} (ha : T.accepts port) :
      Origin T s hdl ⟨.serverHandshake, 0, version, s.thisNode, NodeId.invalid, 0, 0⟩ (some [])
  | publishedHandshake {hdl : ConnectionHandle} {port : UInt16} {whom : ActorAddr}
      {sigs : List Bytes} (ha : T.accepts port)
      (hw : s.publishedActors.find? port = some (whom, sigs)) :
      Origin T s hdl
        ⟨.serverHandshake, 0, version, s.thisNode, NodeId.invalid, s.addrId whom, 0⟩
        (some (writeUInt32 (s.addrId whom) ++ writeStrings sigs))

/-- A node that offers a route to the node `dest` of the actor `aid`: the peer that
passed on a message of `dest`, or the node that the current context belongs to when
the actor gets a proxy. -/
inductive Offers (T : Turn) (s : Broker) (dest : NodeId) (aid : ActorId) : NodeId → Prop where
  | lastHop (hs : T.sender dest) (h : (s.tbl.lookupNode T.hdl).equals dest = false) :
      Offers T s dest aid (s.tbl.lookupNode T.hdl)
  | context {c : ConnectionContext} (hc : s.context? = some c) (h : dest.equals c.id = false)
      (ha : aid ≠ 0) (hl : s.liveProxy dest aid = none) : Offers T s dest aid c.id

/-- The message that announces a proxy. -/
def announcement (self nid : NodeId) (aid : ActorId) : Packet :=
  ⟨⟨.announceProxyInstance, 0, 0, self, nid, 0, aid⟩, [], []⟩

/-- A proxy that is new, announced on `hdl` before `hdl'` is flushed, and stored in the
namespace. -/
def Broker.adopted (s : Broker) (hdl hdl' : ConnectionHandle) (nid : NodeId) (aid : ActorId) :
    Broker :=
  let p := announcement s.thisNode nid aid
  { s with
    heap := s.heap ++ [⟨nid, aid, true, ExitReason.notExited, true, false⟩]
    scribes := (s.scribes.adjust hdl fun c => { c with wrBuf := c.wrBuf ++ [p] }).adjust hdl'
      fun c => { c with wrBuf := [], sent := c.sent ++ c.wrBuf }
    history := s.history ++ [.wrote hdl p, .newRemoteActor s.heap.length]
    proxies := s.proxies.adjust nid fun submap => submap.set aid (some s.heap.length) }

/-- What has been written to a connection that is open: the messages handed to the
socket and those still in the buffer. -/
def Broker.stream (s : Broker) (hdl : ConnectionHandle) : List Packet :=
  ((s.scribes.find? hdl).map fun c => c.sent ++ c.wrBuf).getD []

/-- The functors that a turn allows to attach. -/
def Turn.attaches (T : Turn) : Attachable → Prop
  | .eraseEntry _ => True
  | .sendKillProxyInstance nid aid =>
    ∀ rsn, rsn ≠ ExitReason.notExited → T.watches nid aid rsn

/-- A side activity of the broker. -/
inductive Act (T : Turn) (s : Broker) : Broker → Prop where
  | note (e : Event) (he : e.plain = true) : Act T s (s.note e)
  | prune (target : NodeId) : Act T s { s with tbl := s.tbl.prune target }
  | write {hdl : ConnectionHandle} {hdr : Header} {pw : Option Bytes}
      (ho : Origin T s hdl hdr pw) : Act T s (s.write hdl hdr pw)
  | relay {path : Route} {hdr : Header} {payload : Bytes} {via : List NodeId}
      (hT : T.relays hdr payload via) (hp : s.tbl.route? hdr.destNode = some path)
      (hd : hdr.destNode.equals s.thisNode = false) (hh : hdr.isHandshake = false) :
      Act T s (s.append path.hdl ⟨hdr, payload, via ++ [s.thisNode]⟩)
  | flush (hdl : ConnectionHandle) : Act T s (s.flush hdl)
  | learn {hop dest : NodeId} {aid : ActorId} (hn : T.names dest aid)
      (ho : Offers T s dest aid hop) (hv : dest.valid = true)
      (hc : s.tbl.connected dest = false) : Act T s (s.addHop hop dest)
  | spawn : Act T s s.addActor
  | serve (nid : NodeId) (ref : ActorRef) :
      Act T s { s with spawnServers := s.spawnServers.set nid ref }
  | register {ref : ActorRef} {act : LocalActor} (ha : s.actors[ref]? = some act)
      (hk : s.registry.contains act.id = false) : Act T s (s.putEntry act.id ref)
  | attach {ref : ActorRef} {a : Attachable} {act : LocalActor} (ha : s.actors[ref]? = some act)
      (he : act.exitReason = ExitReason.notExited) (hT : T.attaches a) : Act T s (s.attachTo ref a)
  | eraseEntry {key : ActorId} {reason : ExitReason} (hr : reason ≠ ExitReason.notExited) :
      Act T s (s.eraseEntry key reason)
  | remember (nid : NodeId) (port : UInt16) (addr : ActorAddr) :
      Act T s { s with knownRemotes := s.knownRemotes.emplace nid (port, addr) }
  | addProxy {nid : NodeId} {aid : ActorId} (hn : T.names nid aid) (hv : nid.valid = true)
      (ha : aid ≠ 0) : Act T s (s.addProxy nid aid)
  | reserve (ha : T.anchors) (nid : NodeId) (aid : ActorId) : Act T s (s.reserve nid aid)
  | adopt {nid : NodeId} {aid : ActorId} {c : ConnectionContext} (hdl : ConnectionHandle)
      (ha : T.anchors) (hn : T.names nid aid) (hv : nid.valid = true) (hz : aid ≠ 0)
      (hl : s.liveProxy nid aid = none) (hc : s.context? = some c)
      (ho : s.scribes.contains c.hdl = true) (hr : (s.tbl.route? nid).isSome = true) :
      Act T s (s.adopted c.hdl hdl nid aid)

/-- Any sequence of side activities. -/
def Quiet (T : Turn) : Broker → Broker → Prop := Relation.ReflTransGen (Act T)

variable {T : Turn} {s s' : Broker}

theorem Quiet.refl : Quiet T s s := Relation.ReflTransGen.refl

theorem Quiet.trans {a b c : Broker} (h : Quiet T a b) (h' : Quiet T b c) : Quiet T a c :=
  Relation.ReflTransGen.trans h h'

instance (T : Turn) : Frame (Quiet T) where
  refl _ := Quiet.refl
  trans := Quiet.trans

theorem Act.quiet (h : Act T s s') : Quiet T s s' := Relation.ReflTransGen.single h

/-- What every activity preserves, a sequence of them preserves. -/
theorem Quiet.preserves {P : Broker → Prop} (h : Quiet T s s')
    (hact : ∀ a b, P a → Act T a b → P b) (hs : P s) : P s' := by
  induction h with
  | refl => exact hs
  | tail _ hlast ih => exact hact _ _ ih hlast

/-- What no activity changes, a sequence of them does not change. -/
theorem Quiet.same {τ : Type} {f : Broker → τ} (h : Quiet T s s')
    (hact : ∀ a b, Act T a b → f b = f a) : f s' = f s :=
  h.preserves (fun _ _ hp ha => (hact _ _ ha).trans hp) (P := fun b => f b = f s) rfl

-- -------------------------
-- What stays
-- -------------------------

/-- The parts of a broker that no side activity changes. -/
structure Untouched (s s' : Broker) : Prop where
  process : s'.process = s.process
  order : s'.tbl.order = s.tbl.order
  directByHdl : s'.tbl.directByHdl = s.tbl.directByHdl
  directByNid : s'.tbl.directByNid = s.tbl.directByNid
  blacklist : s'.tbl.blacklist = s.tbl.blacklist
  ctx : s'.ctx = s.ctx
  thisContext : s'.thisContext = s.thisContext
  publishedActors : s'.publishedActors = s.publishedActors
  doormen : s'.doormen = s.doormen
  named : s'.named = s.named
  tasks : s'.tasks = s.tasks
  promises : s'.promises = s.promises
  exitReason : s'.exitReason = s.exitReason

theorem Untouched.refl (s : Broker) : Untouched s s := by constructor <;> rfl

/-- Untouched states compose. -/
theorem Untouched.trans {a b c : Broker} (h : Untouched a b) (h' : Untouched b c) :
    Untouched a c where
  process := h'.process.trans h.process
  order := h'.order.trans h.order
  directByHdl := h'.directByHdl.trans h.directByHdl
  directByNid := h'.directByNid.trans h.directByNid
  blacklist := h'.blacklist.trans h.blacklist
  ctx := h'.ctx.trans h.ctx
  thisContext := h'.thisContext.trans h.thisContext
  publishedActors := h'.publishedActors.trans h.publishedActors
  doormen := h'.doormen.trans h.doormen
  named := h'.named.trans h.named
  tasks := h'.tasks.trans h.tasks
  promises := h'.promises.trans h.promises
  exitReason := h'.exitReason.trans h.exitReason

theorem Act.untouched (h : Act T s s') : Untouched s s' := by
  cases h with
  | prune target => constructor <;> simp
  | _ => constructor <;> rfl

theorem Quiet.untouched (h : Quiet T s s') : Untouched s s' :=
  h.preserves (fun _ _ hp ha => hp.trans ha.untouched) (Untouched.refl s)

namespace Untouched

variable (h : Untouched s s')

include h

theorem thisNode : s'.thisNode = s.thisNode := by rw [Broker.thisNode, h.process, Broker.thisNode]

theorem context? : s'.context? = s.context? := by
  rw [Broker.context?, h.ctx, h.thisContext, Broker.context?]

theorem lookupNode (hdl : ConnectionHandle) : s'.tbl.lookupNode hdl = s.tbl.lookupNode hdl := by
  rw [RoutingTable.lookupNode, h.directByHdl, RoutingTable.lookupNode]

/-- The direct connection to each node stays the same. -/
theorem lookupDirect (nid : NodeId) : s'.tbl.lookupDirect nid = s.tbl.lookupDirect nid := by
  rw [RoutingTable.lookupDirect, h.directByNid, RoutingTable.lookupDirect]

theorem connected (nid : NodeId) : s'.tbl.connected nid = s.tbl.connected nid := by
  rw [RoutingTable.connected, h.lookupDirect, RoutingTable.connected]

theorem routes {hdl : ConnectionHandle} (hr : s.routes hdl) : s'.routes hdl := by
  obtain ⟨hop, hc, he⟩ := hr
  exact ⟨hop, by rw [h.connected, hc], by rw [h.lookupDirect, he]⟩

end Untouched

-- -------------------------
-- What acts can only extend
-- -------------------------

/-- What a scribe is configured for; `none` for a handle that is not open. -/
def Broker.rdSize? (s : Broker) (hdl : ConnectionHandle) : Option Nat :=
  (s.scribes.find? hdl).map (·.rdSize)

/-- Changing the buffers of a scribe does not open, close or configure any. -/
theorem rdSize?_adjust {f : Scribe → Scribe} (hf : ∀ c, (f c).rdSize = c.rdSize)
    (hdl hdl' : ConnectionHandle) :
    ((s.scribes.adjust hdl f).find? hdl').map (·.rdSize) =
      (s.scribes.find? hdl').map (·.rdSize) := by
  rw [UMap.find?_adjust]
  split
  · rw [Option.map_map]
    congr 1
    funext c
    exact hf c
  · rfl

/-- Side activities open, close and configure no connection. -/
theorem Act.rdSize? (h : Act T s s') (hdl : ConnectionHandle) : s'.rdSize? hdl = s.rdSize? hdl := by
  cases h with
  | write => exact rdSize?_adjust (by simp) _ _
  | relay => exact rdSize?_adjust (by simp) _ _
  | flush => exact rdSize?_adjust (by simp) _ _
  | @adopt nid aid c hdl' =>
    refine Eq.trans (rdSize?_adjust (s := s.append c.hdl (announcement s.thisNode nid aid))
      (by simp) hdl' hdl) (rdSize?_adjust (by simp) _ _)
  | _ => rfl

/-- The list of local actors only grows. -/
theorem Act.actors (h : Act T s s') : s.actors.length ≤ s'.actors.length := by
  cases h with
  | spawn => simp [Broker.addActor]
  | attach => simp [Broker.attachTo]
  | _ => exact Nat.le_refl _

theorem Quiet.actors (h : Quiet T s s') : s.actors.length ≤ s'.actors.length :=
  h.preserves (fun _ _ hp ha => Nat.le_trans hp ha.actors) (Nat.le_refl _)

/-- Side activities create proxies, but do not change those that exist. -/
theorem Act.heap (h : Act T s s') : s.heap <+: s'.heap := by
  cases h with
  | addProxy => exact List.prefix_append _ _
  | adopt => exact List.prefix_append _ _
  | _ => exact List.prefix_rfl

theorem Quiet.heap (h : Quiet T s s') : s.heap <+: s'.heap :=
  h.preserves (P := fun b => s.heap <+: b.heap) (fun _ _ hp ha => List.IsPrefix.trans hp ha.heap)
    List.prefix_rfl

/-- So an address keeps its node. -/
theorem Quiet.addrNode (h : Quiet T s s') {addr : ActorAddr}
    (hh : ∀ r, addr = .proxy r → r < s.heap.length) : s'.addrNode addr = s.addrNode addr := by
  cases addr with
  | invalid => rfl
  | localActor r => exact h.untouched.thisNode
  | proxy r =>
    have hr := hh r rfl
    obtain ⟨rest, hrest⟩ := h.heap
    rw [Broker.addrNode, Broker.addrNode, ← hrest, List.getElem?_append_left hr]

theorem Quiet.rdSize? (h : Quiet T s s') (hdl : ConnectionHandle) :
    s'.rdSize? hdl = s.rdSize? hdl :=
  h.same fun _ _ ha => ha.rdSize? hdl

/-- The broker has an actor for the spawn server of a node. -/
def Broker.served (s : Broker) (nid : NodeId) : Bool := s.spawnServers.contains nid

/-- The entry that `learned_new_node` writes. -/
theorem Broker.served_set (nid nid' : NodeId) (ref : ActorRef) :
    Broker.served { s with spawnServers := s.spawnServers.set nid ref } nid' =
      ((nid == nid') || s.served nid') := by
  show ((s.spawnServers.set nid ref).find? nid').isSome = _
  rw [UMap.find?_set]
  by_cases hk : (nid == nid') = true
  · rw [if_pos hk, hk]
    rfl
  · rw [if_neg hk, Bool.eq_false_iff.mpr hk]
    rfl

/-- Side activities never take the spawn server of a node away. -/
theorem Act.served (h : Act T s s') {nid : NodeId} (hs : s.served nid = true) :
    s'.served nid = true := by
  cases h with
  | serve nid' ref => rw [Broker.served_set, hs, Bool.or_true]
  | _ => exact hs

theorem Quiet.served (h : Quiet T s s') {nid : NodeId} (hs : s.served nid = true) :
    s'.served nid = true :=
  h.preserves (P := fun b => b.served nid = true) (fun _ _ hp ha => ha.served hp) hs

end BoostActor
