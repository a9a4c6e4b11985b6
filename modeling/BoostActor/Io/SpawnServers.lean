import BoostActor.Io.Lookup
import BoostActor.Io.Wiring

/-!
# Spawn servers

For every node it learns, the broker spawns an actor that talks to the spawn server
there, and keeps it in `spawn_servers`; a spawn request for the node is delegated to
that actor. Entries are added by `learned_new_node` and never removed.

* `Tended` — what programs of the broker do to routes and spawn servers: a route to a
  node without spawn server is never left behind;
* `served_of_reachable` — so every node with a route has a spawn server.
-/

namespace BoostActor

open Lib

variable {hdl : ConnectionHandle} {hdr : Header} {payload : Option Bytes} {s s' : Broker}

/-! ## Spawn requests -/

/-- The answers to a spawn request: an error, or whatever the actor that it is delegated
to answers. -/
inductive SpawnReply where
  | error (what : Bytes)
  | delegated (server : ActorRef) (type : Bytes) (args : Message)
deriving DecidableEq, Repr

/-- `spawn_atom`. -/
def Broker.spawnMsg (s : Broker) (nid : NodeId) (type : Bytes) (args : Message) : SpawnReply :=
  match s.spawnServers.find? nid with
  | none => .error (ascii "no connection to requested node")
  | some server => .delegated server type args

/-- A request is refused for want of a connection iff there is no entry. -/
theorem Broker.spawnMsg_error_iff {nid : NodeId} {type : Bytes} {args : Message} :
    s.spawnMsg nid type args = .error (ascii "no connection to requested node") ↔
      s.served nid = false := by
  unfold spawnMsg served
  rw [UMap.contains_eq_false]
  cases s.spawnServers.find? nid with
  | none => simp
  | some server => simp

/-! ## Nodes with a route -/

/-- A node with a connection or with an entry among the indirect routes. -/
def Broker.routed (s : Broker) (nid : NodeId) : Prop :=
  s.tbl.connected nid = true ∨ s.tbl.indirect.contains nid = true

theorem Broker.served_congr {a b : NodeId} (h : (a == b) = true) : s.served a = s.served b := by
  rw [served, UMap.contains, UMap.find?_congr _ h, served, UMap.contains]

theorem Broker.routed_congr {a b : NodeId} (h : (a == b) = true) : s.routed a ↔ s.routed b := by
  rw [routed, routed, RoutingTable.connected_congr h, UMap.contains, UMap.find?_congr _ h,
    UMap.contains]

/-- Pruning keeps the keys of the table. -/
theorem Broker.routed_prune {target nid : NodeId} :
    ({ s with tbl := s.tbl.prune target }).routed nid ↔ s.routed nid := by
  unfold routed
  rw [RoutingTable.connected_prune, RoutingTable.contains_prune]

/-- What a program does to routes and spawn servers: a node that gets a route gets a
spawn server, and none is lost. -/
structure Tended (s s' : Broker) : Prop where
  routed : ∀ nid, s'.routed nid → s.routed nid ∨ s'.served nid = true
  served : ∀ nid, s.served nid = true → s'.served nid = true

instance : Frame Tended where
  refl s := ⟨fun _ h => Or.inl h, fun _ h => h⟩
  trans h h' := by
    refine ⟨fun nid hr => ?_, fun nid hs => h'.served nid (h.served nid hs)⟩
    rcases h'.routed nid hr with hr | hs
    · exact (h.routed nid hr).imp_right (h'.served nid)
    · exact Or.inr hs

namespace Tended

theorem refl (s : Broker) : Tended s s := Frame.refl s

theorem trans {a b c : Broker} (h : Tended a b) (h' : Tended b c) : Tended a c := Frame.trans h h'

/-- Fewer routes, the same spawn servers. -/
theorem of_fewer (hr : ∀ nid, s'.routed nid → s.routed nid)
    (hs : s'.spawnServers = s.spawnServers) : Tended s s' := by
  refine ⟨fun nid h => Or.inl (hr nid h), fun nid h => ?_⟩
  rw [Broker.served, hs]
  exact h

theorem of_eq (ht : s'.tbl = s.tbl) (hs : s'.spawnServers = s.spawnServers) : Tended s s' := by
  refine of_fewer (fun nid h => ?_) hs
  rw [Broker.routed, ht] at h
  exact h

theorem prune (target : NodeId) : Tended s { s with tbl := s.tbl.prune target } :=
  of_fewer (fun _ => Broker.routed_prune.mp) rfl

/-- A route to `nid` is added first, its spawn server after that. -/
theorem after_adding {nid : NodeId} {s₁ : Broker}
    (hr : ∀ n, s₁.routed n → s.routed n ∨ (nid == n) = true)
    (hs : s₁.spawnServers = s.spawnServers) (ht : Tended s₁ s')
    (hn : s.routed nid ∨ s'.served nid = true) : Tended s s' := by
  refine ⟨fun n h => ?_, fun n h => ht.served n (by rw [Broker.served, hs]; exact h)⟩
  rcases ht.routed n h with h₁ | h₁
  · rcases hr n h₁ with h₀ | he
    · exact Or.inl h₀
    · rw [← Broker.routed_congr he, ← Broker.served_congr he]
      exact hn
  · exact Or.inr h₁

/-- Quiet steps of a turn that names no handles add no unserved routes. -/
theorem quiet {T : Turn} (h : Quiet T s s') (hn : ∀ nid aid, ¬ T.names nid aid) : Tended s s' := by
  refine h.preserves (fun a b hp ha => hp.trans ?_) (.refl s)
  cases ha with
  | prune target => exact .prune target
  | learn hn' => exact absurd hn' (hn _ _)
  | serve nid ref =>
    exact ⟨fun _ h => Or.inl h, fun nid' h => by rw [Broker.served_set, h, Bool.or_true]⟩
  | _ => exact .of_eq rfl rfl

theorem killsOnly (h : KillsOnly s s') : Tended s s' := by
  obtain ⟨_, _, _, rfl⟩ := h
  exact .of_eq rfl rfl

/-- Removing a direct route. -/
theorem removeDirect {nid : NodeId} (ht : s'.tbl = s.tbl.removeDirect hdl nid)
    (hs : s'.spawnServers = s.spawnServers) : Tended s s' := by
  refine of_fewer (fun n h => h.imp (fun hc => ?_) fun hi => ?_) hs
  · rw [RoutingTable.connected_iff, ht] at hc
    obtain ⟨hdl', hf, hv⟩ := hc
    replace hf : (s.tbl.directByNid.erase nid).find? n = some hdl' := hf
    rw [UMap.find?_erase] at hf
    split at hf
    · cases hf
    · exact RoutingTable.connected_iff.mpr ⟨hdl', hf, hv⟩
  · rw [ht] at hi
    exact hi

/-- Erasing a direct route loses routes only. -/
theorem eraseDirect : Tended s (s.eraseDirect hdl) := by
  cases hb : s.tbl.directByHdl.find? hdl with
  | none =>
    rw [Broker.eraseDirect_of_unbound hb]
    exact .refl s
  | some nid =>
    rw [Broker.eraseDirect_eq hb]
    refine removeDirect rfl ?_
    show (s.purgeState nid).spawnServers = s.spawnServers
    cases hk : s.tbl.connected nid with
    | true =>
      obtain ⟨_, _, _, he⟩ := Broker.purgeState_eq hk
      rw [he]
    | false => rw [Broker.purgeState_of_not_connected hk]

end Tended

/-! ## Programs

One lemma for each program of the broker: if it returns, it is `Tended`. A run that
throws may leave a route without spawn server; it ends the broker. -/

/-- If `x` from `s` returns, no node is left with a route but without spawn server. -/
abbrev Tends {α : Type} (x : M α) (s : Broker) : Prop := Returns Tended x s

/-- A quiet program of a turn that names no handles tends. -/
theorem tends_quiet {α : Type} {x : M α} {T : Turn} {Q : α → Broker → Prop}
    (h : Within (Quiet T) x s Q) (hn : ∀ nid aid, ¬ T.names nid aid) : Tends x s :=
  h.returns fun _ hq => .quiet hq hn

/-- Assignments to anything but the routing table and `spawn_servers`. -/
theorem tends_modify {f : Broker → Broker} (ht : (f s).tbl = s.tbl)
    (hs : (f s).spawnServers = s.spawnServers) : Tends (modify f) s :=
  returns_modify (.of_eq ht hs)

theorem tends_notify (e : Event) : Tends (notify e) s := tends_modify rfl rfl

theorem tends_byId (hdl : ConnectionHandle) : Tends (byId hdl) s := by
  refine returns_get ?_
  split
  · exact returns_pure _
  · exact returns_throw _

theorem tends_context : Tends context s := by
  refine returns_get ?_
  split
  · exact returns_pure _
  · exact returns_throw _

theorem tends_modifyContext (f : ConnectionContext → ConnectionContext) :
    Tends (modifyContext f) s := by
  refine returns_modify ?_
  cases s.thisContext with
  | none => exact .refl s
  | some hdl => exact .of_eq rfl rfl

theorem tends_write (hdl : ConnectionHandle) (hdr : Header) (pw : Option Bytes) :
    Tends (write hdl hdr pw) s := tends_modify rfl rfl

theorem tends_flush (hdl : ConnectionHandle) : Tends (flush hdl) s :=
  (tends_byId hdl).bind fun _ _ _ => tends_modify rfl rfl

theorem tends_configureRead (hdl : ConnectionHandle) (n : Nat) : Tends (configureRead hdl n) s :=
  (tends_byId hdl).bind fun _ _ _ => tends_modify rfl rfl

theorem tends_lookup (target : NodeId) : Tends (lookup target) s :=
  tends_quiet (quiet_lookup (T := Turn.registering) target) fun _ _ => id

/-- The turn in which only the node `nid` is learned. -/
def Turn.learning (nid : NodeId) : Turn :=
  { hdl := ConnectionHandle.invalid, peer := fun n => n = nid }

/-- Adding a hop gives a route to its destination only. -/
theorem Broker.routed_addHop {hop dest nid : NodeId} (h : (s.addHop hop dest).routed nid) :
    s.routed nid ∨ (dest == nid) = true := by
  rcases h with hc | hi
  · exact Or.inl (Or.inl hc)
  · replace hi : ((s.tbl.indirect.set dest _).find? nid).isSome = true := hi
    rw [UMap.find?_set] at hi
    split at hi
    · next he => exact Or.inr he
    · exact Or.inl (Or.inr hi)

/-- The first hop of a node is added together with its spawn server. -/
theorem tends_learnRoute (hop dest : NodeId) : Tends (learnRoute hop dest) s := by
  refine after_bind.mpr (after_bind.mpr (after_get.mpr (after_ite.mpr ⟨fun _ => ?_, fun _ => ?_⟩)))
  · exact Tended.refl s
  refine after_bind.mpr (after_modify.mpr (after_pure.mpr ?_))
  refine after_ite.mpr ⟨fun _ => ?_, fun hne => ?_⟩
  · have hq := quiet_learnedNewNodeIndirectly (T := Turn.learning dest) (s := s.addHop hop dest)
      (Or.inl rfl)
    refine After.mono hq (fun _ s' h => ?_) fun _ _ _ => trivial
    exact .after_adding (fun _ => Broker.routed_addHop) rfl (.quiet h.1 fun _ _ => id) (Or.inr h.2)
  · -- the node has had hops before
    have hr : s.routed dest := by
      right
      rw [RoutingTable.hops] at hne
      cases hf : s.tbl.indirect.find? dest with
      | none => simp [hf] at hne
      | some hops => exact UMap.contains_iff.mpr ⟨hops, hf⟩
    exact .after_adding (fun _ => Broker.routed_addHop) rfl (.refl _) (Or.inl hr)

theorem tends_learnHandle (c : ConnectionContext) (nid : NodeId) : Tends (learnHandle c nid) s :=
  returns_get (returns_ite (fun _ => tends_learnRoute c.id nid) fun _ => returns_pure _)

theorem tends_learnSource (hdl : ConnectionHandle) (nid : NodeId) : Tends (learnSource hdl nid) s :=
  returns_get (returns_ite (fun _ => tends_learnRoute _ nid) fun _ => returns_pure _)

/-- Announcing a proxy tends. -/
theorem tends_announceProxy (c : ConnectionContext) (path : Route) (nid : NodeId) (aid : ActorId) :
    Tends (announceProxy c path nid aid) s := by
  unfold announceProxy newProxy
  simp only [bind_assoc, pure_bind]
  refine returns_get ((tends_modify rfl rfl).bind fun _ _ _ => ?_)
  refine (tends_byId c.hdl).bind fun _ _ _ => returns_get ?_
  refine (tends_write _ _ _).bind fun _ _ _ => ?_
  refine (tends_flush path.hdl).bind fun _ _ _ => ?_
  exact (tends_notify _).bind fun _ _ _ => returns_pure _

/-- `make_proxy` tends. -/
theorem tends_makeProxy (nid : NodeId) (aid : ActorId) : Tends (makeProxy nid aid) s := by
  refine returns_ite (fun _ => returns_pure _) fun _ => ?_
  refine tends_context.bind fun c _ _ => ?_
  refine (tends_learnHandle c nid).bind fun _ _ _ => ?_
  refine (tends_lookup nid).bind fun path _ _ => ?_
  cases path with
  | none => exact returns_pure _
  | some path => exact (tends_announceProxy c path nid aid).bind fun _ _ _ => returns_pure _

/-- `get_or_put` tends. -/
theorem tends_getOrPut (nid : NodeId) (aid : ActorId) : Tends (getOrPut nid aid) s := by
  refine (tends_modify rfl rfl).bind fun _ s₁ _ => returns_get ?_
  split
  · exact returns_pure _
  · refine (tends_makeProxy nid aid).bind fun r _ _ => ?_
    cases r with
    | none => exact returns_pure _
    | some r => exact (tends_modify rfl rfl).bind fun _ _ _ => returns_pure _

theorem tends_readAddr (a : AddrRef) : Tends (readAddr a) s := by
  refine returns_ite (fun _ => returns_pure _) fun _ => returns_get ?_
  refine returns_ite (fun _ => returns_pure _) fun _ => ?_
  refine (tends_getOrPut a.node a.aid).bind fun r _ _ => ?_
  cases r with
  | none => exact returns_throw _
  | some r => exact returns_pure _

theorem tends_deserialize (payload : Bytes) : Tends (deserialize payload) s := by
  refine returns_get (Returns.bind (returns_forM (fun a _ => tends_readAddr a) _ _) fun _ _ _ => ?_)
  split
  · exact returns_pure _
  · exact returns_throw _

theorem tends_resolve (nid : NodeId) (aid : ActorId) : Tends (resolve nid aid) s := by
  refine returns_get (returns_ite (fun _ => returns_pure _) fun _ => ?_)
  refine (tends_getOrPut nid aid).bind fun r _ _ => ?_
  cases r with
  | none => exact returns_pure _
  | some r => exact returns_pure _

theorem tends_rememberRemote (nid : NodeId) (port : UInt16) (addr : ActorAddr) :
    Tends (rememberRemote nid port addr) s :=
  returns_get (returns_ite (fun _ => tends_modify rfl rfl) fun _ => returns_pure _)

/-- The end of a handshake tends. -/
theorem tends_finalizeHandshake (nid : NodeId) (aid : ActorId) (sigs : List Bytes) :
    Tends (finalizeHandshake nid aid sigs) s := by
  refine (tends_modifyContext _).bind fun _ _ _ => tends_context.bind fun c _ _ => ?_
  split
  · exact returns_pure _
  refine (tends_modifyContext _).bind fun _ _ _ => returns_ite (fun _ => tends_notify _) fun _ => ?_
  refine (tends_resolve nid aid).bind fun addr _ _ => ?_
  exact (tends_rememberRemote nid _ addr).bind fun _ _ _ => tends_notify _

theorem tends_bounce (rsn : ExitReason) (sender : ActorAddr) (mid : MessageId) :
    Tends (bounce rsn sender mid) s :=
  returns_ite (fun _ => tends_notify _) fun _ => returns_pure _

/-- Delivering to an actor tends. -/
theorem tends_deliverTo (destNode : NodeId) (destActor : ActorId) (mid : MessageId) :
    Tends (deliverTo destNode destActor mid) s := by
  refine returns_get (returns_ite (fun _ => ?_) fun _ => returns_ite (fun _ => ?_) fun _ =>
    returns_pure _)
  · refine (tends_getOrPut destNode destActor).bind fun r _ _ => ?_
    cases r with
    | none => exact returns_pure _
    | some r => exact returns_pure _
  · split
    · exact returns_pure _
    · exact returns_pure _

/-- `deliver` tends. -/
theorem tends_deliver (sourceNode : NodeId) (sourceActor : ActorId) (destNode : NodeId)
    (destActor : ActorId) (mid : MessageId) :
    Tends (deliver sourceNode sourceActor destNode destActor mid) s := by
  refine (tends_resolve sourceNode sourceActor).bind fun src _ _ => ?_
  refine (tends_deliverTo destNode destActor mid).bind fun dest _ _ => ?_
  refine returns_ite (fun _ => ?_) fun _ => tends_notify _
  refine (tends_notify _).bind fun _ _ _ => ?_
  exact returns_ite (fun _ => tends_bounce _ _ _) fun _ => returns_pure _

theorem tends_err (hdl : ConnectionHandle) : Tends (err hdl) s :=
  (returns_modify Tended.eraseDirect).bind fun _ _ _ => returns_pure _

theorem tends_dispatchMessage (hdl : ConnectionHandle) (hdr : Header) (payload : Option Bytes) :
    Tends (dispatchMessage hdl hdr payload) s := by
  refine returns_ite (fun _ => tends_err hdl) fun _ => ?_
  refine (tends_learnSource hdl hdr.sourceNode).bind fun _ _ _ => ?_
  refine (tends_deserialize _).bind fun _ _ _ => ?_
  exact (tends_deliver _ _ _ _ _).bind fun _ _ _ => returns_pure _

/-- Binding a connection gives a route to its node only. -/
theorem Broker.routed_bindDirect {nid n : NodeId} (h : (s.bindDirect hdl nid).routed n) :
    s.routed n ∨ (nid == n) = true := by
  rw [bindDirect_eq] at h
  rcases h with hc | hi
  · -- `emplace` keeps the connection of a node that has one
    obtain ⟨hdl', hf, hv⟩ := RoutingTable.connected_iff.mp hc
    replace hf : (s.tbl.directByNid.emplace nid hdl).find? n = some hdl' := hf
    rw [UMap.find?_emplace] at hf
    cases hn : s.tbl.directByNid.find? n with
    | some hdl₀ =>
      rw [hn] at hf
      cases hf
      exact Or.inl (Or.inl (RoutingTable.connected_iff.mpr ⟨hdl', hn, hv⟩))
    | none =>
      rw [hn, Option.none_or] at hf
      split at hf
      · next he => exact Or.inr he
      · cases hf
  · replace hi : ((s.tbl.indirect.erase nid).find? n).isSome = true := hi
    rw [UMap.find?_erase] at hi
    split at hi
    · cases hi
    · exact Or.inl (Or.inr hi)

/-- A node that has just been bound gets a spawn server, unless it has had an indirect
route before. -/
theorem tends_learnedNewNodeDirectly {nid : NodeId} (was : Bool) {t : Broker}
    (hr : ∀ n, t.routed n → s.routed n ∨ (nid == n) = true)
    (hs : t.spawnServers = s.spawnServers) (hwas : was = true → s.routed nid) :
    After (learnedNewNodeDirectly nid was) t (fun _ s' => Tended s s') fun _ _ => True := by
  refine after_ite.mpr ⟨fun hw => ?_, fun _ => ?_⟩
  · exact .after_adding hr hs (.refl t) (Or.inl (hwas hw))
  · have hq := quiet_learnedNewNode (T := Turn.learning nid) (s := t) (Or.inl rfl)
    refine After.mono hq (fun _ _ h => ?_) fun _ _ _ => trivial
    exact .after_adding hr hs (.quiet h.1 fun _ _ => id) (Or.inr h.2)

theorem tends_ofExcept {α : Type} (x : Except Fault α) : Tends (ofExcept x) s := by
  cases x with
  | ok a => exact returns_pure a
  | error e => exact returns_throw e

/-- A server handshake tends: the node it binds is served when it returns. -/
theorem tends_serverHandshake (hdl : ConnectionHandle) (hdr : Header) (payload : Option Bytes) :
    Tends (serverHandshake hdl hdr payload) s := by
  refine (tends_ofExcept _).bind fun published s _ => returns_get ?_
  refine returns_ite (fun _ => ?_) fun _ => ?_
  · exact (tends_finalizeHandshake _ _ _).bind fun _ _ _ => tends_err hdl
  refine after_bind.mpr (after_modify.mpr (after_bind.mpr ?_))
  have hlookup := quiet_lookup (T := Turn.registering) (s := s.bindDirect hdl hdr.sourceNode)
    hdr.sourceNode
  refine After.mono hlookup ?_ fun _ _ _ => trivial
  rintro path s₁ ⟨-, hs₁, hpath⟩
  have hroutes : ∀ n, s₁.routed n → s.routed n ∨ (hdr.sourceNode == n) = true := by
    intro n hn
    rw [hs₁, Broker.routed_prune] at hn
    exact Broker.routed_bindDirect hn
  have hservers : s₁.spawnServers = s.spawnServers := by rw [hs₁, Broker.bindDirect_eq]
  cases path with
  | none =>
    -- without a route there is nothing to serve
    have hnone : ¬ s₁.routed hdr.sourceNode := by
      rw [hs₁, Broker.routed_prune, Broker.bindDirect_eq]
      rintro (hc | hi)
      · rw [eq_comm, RoutingTable.route?_eq_none, Broker.bindDirect_eq] at hpath
        rw [hpath.1] at hc
        cases hc
      · replace hi : (s.tbl.indirect.erase hdr.sourceNode).contains hdr.sourceNode = true := hi
        rw [UMap.contains, UMap.find?_erase_self] at hi
        cases hi
    have ht : Tended s s₁ := by
      refine .of_fewer (fun n hn => (hroutes n hn).resolve_right fun he => hnone ?_) hservers
      rw [Broker.routed_congr he]
      exact hn
    exact After.mono (tends_err hdl) (fun _ _ h => ht.trans h) fun _ _ h => h
  -- the new node is learned, which serves it
  | some path =>
    refine after_bind.mpr (after_bind.mpr (after_get.mpr (after_modify.mpr (after_bind.mpr ?_))))
    have hlearned := tends_learnedNewNodeDirectly (s.tbl.indirect.contains hdr.sourceNode)
      (t := s₁.write path.hdl ⟨.clientHandshake, 0, 0, s₁.thisNode, hdr.sourceNode, 0, 0⟩ none)
      hroutes hservers Or.inr
    refine After.mono hlearned (fun _ s₂ h₂ => ?_) fun _ _ h => h
    have hrest : Tends (finalizeHandshake hdr.sourceNode published.1 published.2 >>= fun _ =>
        flush path.hdl >>= fun _ => pure ConnectionState.awaitHeader) s₂ := by
      refine (tends_finalizeHandshake _ _ _).bind fun _ _ _ => ?_
      exact (tends_flush path.hdl).bind fun _ _ _ => returns_pure _
    exact After.mono hrest (fun _ _ h => h₂.trans h) fun _ _ h => h

/-- A client handshake tends. -/
theorem tends_clientHandshake (hdl : ConnectionHandle) (hdr : Header) :
    Tends (clientHandshake hdl hdr) s := by
  refine returns_get (returns_ite (fun _ => returns_pure _) fun _ => ?_)
  refine after_bind.mpr (after_modify.mpr (after_bind.mpr ?_))
  have hservers : (s.bindDirect hdl hdr.sourceNode).spawnServers = s.spawnServers := by
    rw [Broker.bindDirect_eq]
  have hlearned := tends_learnedNewNodeDirectly (s.tbl.indirect.contains hdr.sourceNode)
    (fun _ => Broker.routed_bindDirect) hservers Or.inr
  exact After.mono hlearned (fun _ _ h => after_pure.mpr h) fun _ _ h => h

/-- Processing a message tends. -/
theorem tends_processMessage (hdl : ConnectionHandle) (hdr : Header) (payload : Option Bytes)
    (via : List NodeId) : Tends (processMessage hdl hdr payload via) s := by
  refine returns_ite (fun _ => tends_err hdl) fun _ => returns_get ?_
  refine returns_ite (fun hf => ?_) fun _ => ?_
  · -- needs forwarding
    simp only [Bool.and_eq_true, Bool.not_eq_true'] at hf
    have hq := quiet_forwardMessage (T := Turn.relayed s hdl hdr payload via) (s := s)
      ⟨rfl, rfl, rfl⟩ (fun hs hd hr => ⟨rfl, hs, hd, hr⟩) hf.2 hf.1
    exact (tends_quiet hq fun _ _ => id).bind fun _ _ _ => returns_pure _
  split
  · exact tends_serverHandshake hdl hdr payload
  · exact tends_clientHandshake hdl hdr
  · exact tends_dispatchMessage hdl hdr payload
  · have hq : Within (Quiet (Turn.announced hdl hdr)) (proxyAnnounced hdr.sourceNode hdr.destActor)
        s fun _ => Watched hdr.sourceNode hdr.destActor s :=
      quiet_proxyAnnounced fun _ hr => ⟨rfl, rfl, hr⟩
    exact (tends_quiet hq fun _ _ => id).bind fun _ _ _ => returns_pure _
  · refine Returns.bind (returns_modify (.killsOnly ?_)) fun _ _ _ => returns_pure _
    exact Broker.eraseProxy_killsOnly _ _ _
  · exact tends_err hdl

theorem tends_handle (dm : NewData) (isPayload : Bool) : Tends (handle dm isPayload) s := by
  refine returns_ite (fun _ => ?_) fun _ => ?_
  · refine tends_context.bind fun c _ _ => ?_
    exact returns_ite (fun _ => tends_err _) fun _ => tends_processMessage _ _ _ _
  · refine (tends_ofExcept _).bind fun hdr _ _ => ?_
    refine (tends_modifyContext _).bind fun _ _ _ => ?_
    exact returns_ite (fun _ => returns_pure _) fun _ => tends_processMessage _ _ _ _

theorem tends_close (hdl : ConnectionHandle) : Tends (close hdl) s :=
  (tends_byId hdl).bind fun _ _ _ => tends_modify rfl rfl

/-- The handler for new data tends. -/
theorem tends_newDataMsg (dm : NewData) : Tends (newDataMsg dm) s := by
  refine (tends_modify rfl rfl).bind fun _ _ _ => tends_context.bind fun c _ _ => ?_
  refine (tends_handle dm _).bind fun next _ _ => returns_ite (fun _ => ?_) fun _ => ?_
  · exact (tends_close _).bind fun _ _ _ => tends_modify rfl rfl
  · refine tends_context.bind fun c _ _ => returns_ite (fun _ => ?_) fun _ => returns_pure _
    exact (tends_configureRead _ _).bind fun _ _ _ => tends_modifyContext _

/-! ## Runs -/

theorem Broker.not_routed_terminate (nid : NodeId) : ¬ s.terminate.routed nid := by
  unfold routed
  rw [terminate_tbl]
  simp [RoutingTable.empty, RoutingTable.connected, RoutingTable.lookupDirect, UMap.contains]

/-- Every node with a route has a spawn server. -/
def Broker.allServed (s : Broker) : Prop := ∀ nid, s.routed nid → s.served nid = true

/-- Tending keeps every node with a route served. -/
theorem Tended.allServed (h : Tended s s') (ha : s.allServed) : s'.allServed := by
  intro nid hr
  rcases h.routed nid hr with hr | hs
  · exact h.served nid (ha nid hr)
  · exact hs

theorem Broker.terminate_allServed : s.terminate.allServed :=
  fun nid hr => absurd hr (not_routed_terminate nid)

theorem Tended.portsOnly (h : PortsOnly s s') : Tended s s' := by
  obtain ⟨_, _, _, _, rfl⟩ := h.eq
  exact .of_eq rfl rfl

theorem TaskDone.tended {t : Task} (h : TaskDone s t s') : Tended s s' := by
  cases h with
  | eraseProxy => exact .killsOnly (Broker.eraseProxy_killsOnly _ _ _)
  | sendKillProxyInstance hq => exact .quiet hq fun _ _ => id
  | deleteProxy => exact .killsOnly (Broker.eraseProxy_killsOnly _ _ _)

/-- Calling an attachable tends. -/
theorem Broker.callAttachable_tended (ref : ActorRef) : Tended s (s.callAttachable ref) := by
  unfold callAttachable
  split
  · exact .refl s
  · split
    · exact .refl s
    · split
      · exact .of_eq rfl rfl
      · exact .of_eq rfl rfl

theorem Broker.destroyProxy_tended (r : ProxyRef) : Tended s (s.destroyProxy r) := by
  unfold destroyProxy
  split
  · exact .refl s
  · exact .of_eq rfl rfl

/-- Inputs that are not about a connection. -/
theorem Other.tended {i : Input} (h : Other s i s') : Tended s s' := by
  cases h with
  | ports _ hp => exact .portsOnly hp
  | @publish _ port whom sigs _ s₁ s₂ _ _ hp hq =>
    have hq' : Tended s₁ s₂ := .quiet hq fun _ _ => id
    exact (Tended.portsOnly hp).trans (hq'.trans (.of_eq rfl rfl))
  | forward _ _ hq => exact .quiet hq fun _ _ => id
  | @task index _ _ _ hd =>
    have ht : Tended s { s with tasks := s.tasks.eraseIdx index } := .of_eq rfl rfl
    exact ht.trans hd.tended
  | spawn => exact .of_eq rfl rfl
  | exit => exact .of_eq rfl rfl
  | attachable ref => exact Broker.callAttachable_tended ref
  | @destroy r => exact Broker.destroyProxy_tended r

/-- Data leaves no node without spawn server: if an exception ends the broker, no routes
are left either. -/
theorem newData_allServed (dm : NewData) (ha : s.allServed) : (s.exec (.newData dm)).allServed := by
  have h := tends_newDataMsg (s := s) dm
  unfold Tends Returns After at h
  unfold Broker.exec Broker.invoke
  dsimp only
  split
  · next hok =>
    rw [hok] at h
    exact (h.trans (.of_eq rfl rfl)).allServed ha
  · exact (Tended.of_eq rfl rfl).allServed Broker.terminate_allServed

/-- Every step keeps every node with a route served. -/
theorem allServed_step {i : Input} (hw : Wired s) (ha : s.allServed) (hs : s.step i = some s') :
    s'.allServed := by
  cases step_cases hw hs with
  | other ho => exact ho.tended.allServed ha
  | ended => exact Broker.terminate_allServed
  | @data dm =>
    rw [(Broker.step_eq_some.mp hs).2]
    exact newData_allServed dm ha
  | @accepted hdl _ s₁ _ _ hq =>
    have ho : Tended s (s.opened hdl) := .of_eq rfl rfl
    have hq' : Tended (s.opened hdl) s₁ := .quiet hq fun _ _ => id
    exact (ho.trans (hq'.trans (.of_eq rfl rfl))).allServed ha
  | requested => exact (Tended.of_eq rfl rfl).allServed ha
  | refused => exact (Tended.of_eq rfl rfl).allServed ha
  | lost => exact (Tended.of_eq rfl rfl).allServed ha
  | @lostNode hdl nid heap tasks proxies =>
    -- first the indirect routes of the node are removed, then its direct route
    have ht : Tended s { s with tbl := s.tbl.removeIndirect nid } := by
      refine .of_fewer (fun n h => h.imp_right fun hi => ?_) rfl
      replace hi : ((s.tbl.indirect.erase nid).find? n).isSome = true := hi
      rw [UMap.find?_erase] at hi
      split at hi
      · cases hi
      · exact hi
    have hd : Tended { s with tbl := s.tbl.removeIndirect nid }
        { s with
          heap, tasks, proxies
          tbl := (s.tbl.removeIndirect nid).removeDirect hdl nid
          scribes := s.scribes.erase hdl
          ctx := s.ctx.erase hdl
          knownRemotes := s.knownRemotes.erase nid
          history := s.history ++ s.disconnectAnswers hdl ++ [.connectionLost nid] } :=
      .removeDirect rfl rfl
    exact (ht.trans hd).allServed ha

/-- In every reachable state, every node with a route has a spawn server. -/
theorem served_of_reachable (h : Broker.Reachable anyStep s) : s.allServed := by
  have hboth : Wired s ∧ s.allServed := by
    refine h.invariant (I := fun s => Wired s ∧ s.allServed) (fun s hi => ?_) ?_
    · refine ⟨.initial hi, ?_⟩
      obtain ⟨process, order, rfl⟩ := hi
      intro nid hr
      simp [Broker.routed, Broker.initial, RoutingTable.empty, RoutingTable.connected,
        RoutingTable.lookupDirect, UMap.contains] at hr
    · intro s i s' h _ hs
      exact ⟨h.1.step hs, allServed_step h.1 h.2 hs⟩
  exact hboth.2

end BoostActor
