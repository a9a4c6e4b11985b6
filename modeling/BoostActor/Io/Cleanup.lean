import BoostActor.Io.SpawnServers

/-!
# Lost connections

What the broker keeps about a node is spread over its containers: the namespace, the
contexts, `known_remotes`, `spawn_servers` and the routing table. They are filled at
different times and cleaned up in different places when the connection is lost, or closed
by `instance::handle`.

* `Disconnected`, `Forgotten` — nothing is left, without and with `spawn_servers`;
* `disconnected_of_closing` — the other containers are cleaned up;
* `spawnServer_outlives` — the entry in `spawn_servers` always stays.
-/

namespace BoostActor

open Lib

variable {hdl : ConnectionHandle} {hdr : Header} {payload : Option Bytes} {s s' : Broker}

/-! ## What is left of a connection -/

/-- The namespace holds no proxies of a node that has been erased. -/
theorem Broker.eraseNode_proxies (nid : NodeId) : (s.eraseNode nid).proxies.find? nid = none := by
  unfold eraseNode
  cases hf : s.proxies.find? nid with
  | none => exact hf
  | some submap => exact UMap.find?_erase_self _ _

/-- Nothing under the key of a connection or of its node, apart from spawn servers. -/
structure Disconnected (s : Broker) (hdl : ConnectionHandle) (nid : NodeId) : Prop where
  proxies : s.proxies.find? nid = none
  context : s.ctx.find? hdl = none
  knownRemote : s.knownRemotes.find? nid = none
  node : s.tbl.directByHdl.find? hdl = none
  handle : s.tbl.directByNid.find? nid = none
  indirect : s.tbl.indirect.find? nid = none

/-- Nothing at all: a spawn request for the node is refused. -/
structure Forgotten (s : Broker) (hdl : ConnectionHandle) (nid : NodeId) : Prop
    extends Disconnected s hdl nid where
  spawnServer : s.spawnServers.find? nid = none
  refused : ∀ type args, s.spawnMsg nid type args = .error (ascii "no connection to requested node")

variable {nid : NodeId}

/-- Closing a connection that has nothing left. -/
theorem Disconnected.drop (h : Disconnected s hdl nid) : Disconnected (s.drop hdl) hdl nid :=
  { h with context := UMap.find?_erase_self _ _ }

/-- Erasing the direct route of a connection purges its node. -/
theorem Wired.disconnected_eraseDirect (h : Wired s)
    (hb : s.tbl.directByHdl.find? hdl = some nid) :
    Disconnected (s.eraseDirect hdl) hdl nid := by
  -- the node still has its direct route when it is purged
  have hk := h.connected_of_bound hb
  have hne : s.tbl.lookupDirect nid ≠ ConnectionHandle.invalid := by
    simpa [RoutingTable.connected] using hk
  have hpurge : (s.purgeState nid).proxies = (s.eraseNode nid).proxies := by
    rw [Broker.purgeState, if_neg hne]
  obtain ⟨_, _, _, he⟩ := Broker.purgeState_eq_of_bound h hb
  rw [Broker.eraseDirect_eq hb]
  refine ⟨?_, ?_, ?_, ?_, ?_, ?_⟩
  · -- the callback of the table purges the proxies and the state kept for the node
    show (s.purgeState nid).proxies.find? nid = none
    rw [hpurge]
    exact Broker.eraseNode_proxies nid
  · show (s.purgeState nid).ctx.find? hdl = none
    rw [he]
    exact UMap.find?_erase_self _ _
  · show (s.purgeState nid).knownRemotes.find? nid = none
    rw [he]
    exact UMap.find?_erase_self _ _
  · exact UMap.find?_erase_self _ _
  · exact UMap.find?_erase_self _ _
  · exact h.direct (h.half hb)

/-- `instance::handle` purges the node of a connection that it closes. -/
theorem Wired.disconnected_processed {via : List NodeId} {c : ConnectionContext} (h : Wired s)
    (hc : s.ctx.find? hdl = some c) (hb : s.tbl.directByHdl.find? hdl = some nid)
    (hp : Processed hdl hdr payload via s .closeConnection s') : Disconnected s' hdl nid := by
  cases hp with
  | reject => exact h.disconnected_eraseDirect hb
  | refuse _ _ _ _ hf =>
    refine (h.finalized hf).disconnected_eraseDirect ?_
    rw [hf.directByHdl]
    exact hb
  | noRoute hv ho _ _ hk hq hr =>
    -- a node that has just been bound has a route
    have hval := hdr.sourceNode_valid hv (by simp [Header.isHandshake, ho])
    have hconn := h.connected_of_bind hc hval hk
    rw [← hq.untouched.connected] at hconn
    rw [RoutingTable.route?_eq_none, hconn] at hr
    cases hr.1

/-- Closing a connection while handling its data disconnects the node. -/
theorem Wired.disconnected_handled {dm : NewData} (h : Wired s)
    (hb : s.tbl.directByHdl.find? dm.handle = some nid)
    (hh : Handled dm s .closeConnection s') : Disconnected s' dm.handle nid := by
  cases hh with
  | mismatch => exact h.disconnected_eraseDirect hb
  | message ha hp =>
    obtain ⟨_, _, _, hc₁, -⟩ := ha.ctx
    refine (h.arrived ha).disconnected_processed hc₁ ?_ hp
    rw [ha.tbl.1]
    exact hb

/-- The handler of `connection_closed_msg` does so as well. -/
theorem Wired.disconnected_connectionClosed (h : Wired s)
    (hb : s.tbl.directByHdl.find? hdl = some nid) :
    Disconnected (s.exec (.connectionClosed hdl)) hdl nid := by
  obtain ⟨c, hc⟩ := h.bound hb
  have hcont : s.ctx.contains hdl = true := UMap.contains_iff.mpr ⟨c, hc⟩
  have hnode : s.tbl.lookupNode hdl = nid := by
    rw [RoutingTable.lookupNode, hb]
    rfl
  have hval : nid.equals NodeId.invalid = false := NodeId.valid_iff.mp (h.names hb)
  -- the handler erases the node's proxies itself, before the table is told
  have hproxies : (s.exec (.connectionClosed hdl)).proxies.find? nid = none := by
    show (Broker.connectionClosedMsg { s with scribes := s.scribes.erase hdl } hdl).proxies.find? _
      = none
    unfold Broker.connectionClosedMsg
    rw [if_neg (by simp [hcont]), Broker.eraseContext_eq]
    dsimp only
    rw [hnode, hval, if_neg (by simp)]
    exact Broker.eraseNode_proxies nid
  obtain ⟨_, _, _, _, he⟩ := connectionClosed_bound h hb
  refine ⟨hproxies, ?_, ?_, ?_, ?_, ?_⟩
  · rw [he]
    exact UMap.find?_erase_self _ _
  · rw [he]
    exact UMap.find?_erase_self _ _
  · rw [he]
    exact UMap.find?_erase_self _ _
  · rw [he]
    exact UMap.find?_erase_self _ _
  · rw [he]
    exact UMap.find?_erase_self _ _

/-! ## Closing connections -/

/-- The part of the handler for `new_data_msg` up to the result of `instance::handle`. -/
def handleData (dm : NewData) : M ConnectionState := do
  setContext dm.handle
  handle dm ((← context).cstate = .awaitPayload)

/-- `instance::handle` closes the connection on an error. -/
def Broker.closes (s : Broker) (dm : NewData) : Bool :=
  match handleData dm s with
  | .ok .closeConnection _ => true
  | _ => false

/-- The inputs with which a connection is lost or closed. -/
inductive Closing (s : Broker) (hdl : ConnectionHandle) : Input → Prop where
  | lost : Closing s hdl (.connectionClosed hdl)
  | error {dm : NewData} (hh : dm.handle = hdl) (hc : s.closes dm = true) :
      Closing s hdl (.newData dm)

/-- What data does on which the connection is closed. -/
theorem closes_cases {dm : NewData} (ho : (s.rdSize? dm.handle).isSome = true)
    (hc : s.closes dm = true) : ∃ s₁, Handled dm (s.enter dm.handle) .closeConnection s₁ ∧
      Tended (s.enter dm.handle) s₁ ∧
      s.exec (.newData dm) = (s₁.drop dm.handle).flush dm.handle := by
  have hclose : After (handleData dm) s (fun next _ => next = .closeConnection)
      fun _ _ => False := by
    unfold Broker.closes at hc
    unfold After
    split at hc
    · next heq => rw [heq]
    · cases hc
  have h := newDataMsg_spec (E := fun _ _ => False)
    (H := fun next s₁ => next = .closeConnection ∧ Tended (s.enter dm.handle) s₁) ho ?_
  · unfold After at h
    unfold Broker.exec Broker.invoke
    dsimp only
    split at h
    · next hok =>
      obtain ⟨next, s₁, ⟨hh, rfl, ht⟩, hs'⟩ := h
      refine ⟨s₁, hh, ht, ?_⟩
      rw [hok, hs', if_pos rfl]
    · exact h.elim
  · -- the connection's context is there, so the handler runs
    intro c hctx
    have hcur : (s.enter dm.handle).context? = some c := hctx
    have hresult := (after_context hcur).mp (after_bind.mp (after_modify.mp (after_bind.mp hclose)))
    have hall := After.and (After.and (handle_spec dm rfl hctx) (tends_handle dm _)) hresult
    exact hall.mono (fun _ _ h => ⟨h.1.1, h.2, h.1.2⟩) fun _ _ h => h.2

/-- A connection is a direct route to a node when one of the direct maps says so, which find the
node by its hash and `operator==`. They differ after a second handshake on the same connection. -/
def Broker.directRoute (s : Broker) (hdl : ConnectionHandle) (nid : NodeId) : Prop :=
  (∃ n, s.tbl.directByHdl.find? hdl = some n ∧ (n == nid) = true) ∨
    s.tbl.directByNid.find? nid = some hdl

theorem Wired.routed_of_directRoute (h : Wired s) (hr : s.directRoute hdl nid) : s.routed nid := by
  left
  rcases hr with ⟨n, hb, he⟩ | hf
  · rw [← RoutingTable.connected_congr he]
    exact h.connected_of_bound hb
  · exact h.connected_iff.mpr ⟨hdl, hf⟩

/-- Apart from spawn servers, the broker forgets a connection and the node it is bound to. -/
theorem disconnected_of_closing {i : Input} (h : Broker.Reachable anyStep s)
    (hb : s.tbl.directByHdl.find? hdl = some nid) (hi : Closing s hdl i)
    (hs : s.step i = some s') : Disconnected s' hdl nid := by
  have hw := wired_of_reachable h
  obtain ⟨he, rfl⟩ := Broker.step_eq_some.mp hs
  cases hi with
  | lost => exact hw.disconnected_connectionClosed hb
  | @error dm hh hc =>
    subst hh
    have ho := rdSize?_of_enabled he
    obtain ⟨s₁, hhandled, -, heq⟩ := closes_cases ho hc
    have hd := ((hw.enter ho).disconnected_handled hb hhandled).drop
    rw [heq]
    exact ⟨hd.proxies, hd.context, hd.knownRemote, hd.node, hd.handle, hd.indirect⟩

/-- No node loses its spawn server when a connection is closed. -/
theorem served_of_closing {i : Input} (hw : Wired s) (hi : Closing s hdl i)
    (hs : s.step i = some s') (hn : s.served nid = true) : s'.served nid = true := by
  obtain ⟨he, rfl⟩ := Broker.step_eq_some.mp hs
  cases hi with
  | lost =>
    cases hb : s.tbl.directByHdl.find? hdl with
    | none =>
      rw [connectionClosed_unbound hb]
      exact hn
    | some n =>
      obtain ⟨_, _, _, _, heq⟩ := connectionClosed_bound hw hb
      rw [heq]
      exact hn
  | error hh hc =>
    obtain ⟨s₁, -, ht, heq⟩ := closes_cases (rdSize?_of_enabled he) hc
    rw [heq]
    exact ht.served nid hn

/-- **Spawn servers outlive their nodes.** Whatever the run, and however the connection to
a node is lost or closed: its spawn server stays, and a later spawn request is delegated
to it instead of being refused. Of a node that the connection is bound to, nothing else is
left. -/
theorem spawnServer_outlives {i : Input} (h : Broker.Reachable anyStep s)
    (hr : s.directRoute hdl nid) (hi : Closing s hdl i) (hs : s.step i = some s') :
    ¬ Forgotten s' hdl nid ∧
      (∃ server, ∀ type args, s'.spawnMsg nid type args = .delegated server type args) ∧
      (s.tbl.directByHdl.find? hdl = some nid → Disconnected s' hdl nid) := by
  have hw := wired_of_reachable h
  have hs₀ : s.served nid = true := served_of_reachable h nid (hw.routed_of_directRoute hr)
  have hserved := served_of_closing hw hi hs hs₀
  obtain ⟨server, hf⟩ := UMap.contains_iff.mp hserved
  refine ⟨fun hforgot => ?_, ⟨server, fun type args => ?_⟩, fun hb => ?_⟩
  · have hno := Broker.spawnMsg_error_iff.mp (hforgot.refused [] infoRequest)
    rw [hserved] at hno
    cases hno
  · rw [Broker.spawnMsg, hf]
  · exact disconnected_of_closing h hb hi hs

namespace Sample

/-- Node 1 after a handshake with node 2. -/
def greeted : Broker :=
  ((broker 1).exec (accepts 7)).exec (hears 7 (clientHello (node 2) (node 1)))

theorem greeted_reachable : Broker.Reachable anyStep greeted :=
  ((broker_reachable 1).exec trivial (by decide +kernel)).exec trivial (by decide +kernel)

end Sample

open Sample in
/-- Node 2 has a spawn server after its connection was lost. -/
theorem spawnServer_outlives_greeted :
    let s := greeted.exec (.connectionClosed (conn 7))
    ¬ Forgotten s (conn 7) (node 2) ∧
      (∃ server, ∀ type args, s.spawnMsg (node 2) type args = .delegated server type args) ∧
      (greeted.tbl.directByHdl.find? (conn 7) = some (node 2) →
        Disconnected s (conn 7) (node 2)) := by
  have hb : greeted.tbl.directByHdl.find? (conn 7) = some (node 2) := by decide +kernel
  have hs : greeted.step (.connectionClosed (conn 7)) =
      some (greeted.exec (.connectionClosed (conn 7))) :=
    Broker.step_eq_some.mpr ⟨by decide +kernel, rfl⟩
  exact spawnServer_outlives greeted_reachable (Or.inl ⟨node 2, hb, BEq.rfl⟩) .lost hs

open Sample in
/-- A closed connection should leave nothing behind, but does. -/
theorem spawnServer_left : ¬ ∀ s hdl nid i s', Broker.Reachable anyStep s →
    s.directRoute hdl nid → Closing s hdl i → s.step i = some s' → Forgotten s' hdl nid := by
  intro h
  have hb : greeted.tbl.directByHdl.find? (conn 7) = some (node 2) := by decide +kernel
  have hs : greeted.step (.connectionClosed (conn 7)) =
      some (greeted.exec (.connectionClosed (conn 7))) :=
    Broker.step_eq_some.mpr ⟨by decide +kernel, rfl⟩
  have hforgot := h greeted (conn 7) (node 2) _ _ greeted_reachable
    (Or.inl ⟨node 2, hb, BEq.rfl⟩) .lost hs
  exact absurd hforgot.spawnServer (by decide +kernel)

end BoostActor
