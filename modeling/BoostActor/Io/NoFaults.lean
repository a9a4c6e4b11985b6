import BoostActor.Io.OpenRoutes

/-!
# When nothing is thrown

The programs that process a message throw for a few reasons only. As long as every
direct route is an open connection (`Routed`), looking up a route and writing to it
always works; what is left is input that cannot be read, and actor handles for
which there is no proxy and no route.

* `noThrow_lookup`, `noThrow_makeProxy`, `noThrow_deliver`, ... — one lemma for each
  program;
* `getOrPut_some` — when an actor handle yields a proxy;
* `noThrow_deserialize` — when a payload can be read.
-/

namespace BoostActor

open Lib

variable {hdl : ConnectionHandle} {s s' : Broker}

/-- Every direct route is an open connection. -/
structure Routed (s : Broker) : Prop where
  wired : Wired s
  sound : s.tbl.Sound

namespace Routed

/-- The connection of a route is open. -/
theorem isOpen (h : Routed s) (hr : s.routes hdl) : ∃ d, s.scribes.find? hdl = some d := by
  obtain ⟨hop, hc, rfl⟩ := hr
  obtain ⟨hdl, hf, -⟩ := RoutingTable.connected_iff.mp hc
  have hl : s.tbl.lookupDirect hop = hdl := by
    rw [RoutingTable.lookupDirect, hf]
    rfl
  obtain ⟨n, hb, -⟩ := (h.sound.inverse hdl hop).mpr hf
  obtain ⟨c, hctx⟩ := h.wired.bound hb
  have ho := (h.wired.opened hctx).1
  rw [Broker.rdSize?, Option.isSome_map, Option.isSome_iff_exists] at ho
  rw [hl]
  exact ho

/-- So is that of the route to a node. -/
theorem openRoute (h : Routed s) (nid : NodeId) : OpenRoute s nid := by
  intro path hpath
  obtain ⟨hc, he⟩ := RoutingTable.route?_direct hpath
  exact UMap.contains_iff.mpr (h.isOpen ⟨path.nextHop, hc, he⟩)

theorem quiet {T : Turn} (h : Routed s) (hq : Quiet T s s') : Routed s' :=
  ⟨h.wired.quiet hq, h.sound.congr hq.untouched.directByHdl hq.untouched.directByNid⟩

end Routed

/-- A turn in which every side activity is allowed. -/
def Turn.any : Turn :=
  ⟨ConnectionHandle.invalid, fun _ _ => True, fun _ => True, fun _ => True, fun _ => True,
    fun _ _ _ => True, fun _ => True, fun _ _ _ => True,
    fun _ _ _ => True, fun _ => True, True⟩

/-- The same, for a message that arrives on `hdl`. -/
def Turn.anyOn (hdl : ConnectionHandle) : Turn := { Turn.any with hdl }

/-! ## Routes -/

/-- A lookup does not throw: every route leads over an open connection. -/
theorem noThrow_lookup (h : Routed s) (nid : NodeId) : NoThrow (lookup nid) s :=
  (h.openRoute nid).lookup

theorem noThrow_flush (h : Routed s) (hr : s.routes hdl) : NoThrow (flush hdl) s :=
  noThrow_openFlush (UMap.contains_iff.mpr (h.isOpen hr))

/-- Writing to a route and flushing it. -/
theorem noThrow_writeFlush (h : Routed s) (hr : s.routes hdl) (hdl' : ConnectionHandle)
    (hdr : Header) (pw : Option Bytes) :
    NoThrow (do write hdl' hdr pw; flush hdl) s :=
  noThrow_openWriteFlush (UMap.contains_iff.mpr (h.isOpen hr)) hdl' hdr pw

/-- Reporting a dead proxy does not throw. -/
theorem noThrow_sendKillProxyInstance (h : Routed s) (nid : NodeId) (aid : ActorId)
    (rsn : ExitReason) : NoThrow (sendKillProxyInstance nid aid rsn) s := by
  refine (noThrow_lookup h nid).bind (quiet_lookup (T := Turn.any) nid) fun path s₁ h₁ hpath => ?_
  cases path with
  | none => exact noThrow_pure _
  | some path =>
    dsimp only [writeKillProxyInstance]
    rw [bind_assoc]
    exact noThrow_get (noThrow_writeFlush (h.quiet h₁) (routes_of_lookup hpath) _ _ _)

/-! ## New nodes -/

theorem noThrow_learnedNewNodeDirectly (h : Routed s) (nid : NodeId) (was : Bool) :
    NoThrow (learnedNewNodeDirectly nid was) s :=
  noThrow_ite (fun _ => noThrow_pure _) fun _ => (h.openRoute nid).learnedNewNode

/-! ## Routes that are learned -/

/-- A route stays a route while side activities go on. -/
theorem Act.route {T : Turn} (h : Act T s s') {nid : NodeId}
    (hr : (s.tbl.route? nid).isSome = true) : (s'.tbl.route? nid).isSome = true := by
  cases h with
  | prune target =>
    show ((s.tbl.prune target).route? nid).isSome = true
    rw [RoutingTable.route?_prune]
    exact hr
  | learn => exact RoutingTable.route?_isSome_addHop hr
  | _ => exact hr

theorem Quiet.route {T : Turn} (h : Quiet T s s') {nid : NodeId}
    (hr : (s.tbl.route? nid).isSome = true) : (s'.tbl.route? nid).isSome = true :=
  h.preserves (fun _ _ hp ha => ha.route hp) hr

/-- Learning a route does not throw; if its hop is connected, there is one then. -/
theorem learnRoute_spec {hop dest : NodeId} (h : Routed s) (hc : s.tbl.connected dest = false) :
    After (learnRoute hop dest) s (fun _ s' => s.tbl.connected hop = true →
      s.tbl.blacklisted hop dest = false → (s'.tbl.route? dest).isSome = true)
        fun _ _ => False := by
  refine after_bind.mpr (after_bind.mpr (after_get.mpr (after_ite.mpr ⟨fun hb => ?_, fun _ => ?_⟩)))
  · refine after_pure.mpr (after_ite.mpr ⟨fun hf => absurd hf (by simp), fun _ => ?_⟩)
    intro _ hb'
    rw [hb] at hb'
    cases hb'
  · refine after_bind.mpr (after_modify.mpr (after_pure.mpr ?_))
    have hroute : s.tbl.connected hop = true →
        ((s.addHop hop dest).tbl.route? dest).isSome = true :=
      fun hc => RoutingTable.route?_addHop hc BEq.rfl
    have hadd : Routed (s.addHop hop dest) := ⟨h.wired.addHop hc, h.sound.congr rfl rfl⟩
    have hknows : Turn.any.knows dest := Or.inl trivial
    refine after_ite.mpr ⟨fun _ => ?_, fun _ => after_pure.mpr fun hc _ => hroute hc⟩
    refine ((hadd.openRoute dest).learnedNewNodeIndirectly.within
      (quiet_learnedNewNodeIndirectly hknows)).mono (fun _ _ hq => ?_) fun _ _ h => h
    exact fun hcon _ => hq.1.route (hroute hcon)

theorem noThrow_learnRoute {hop dest : NodeId} (h : Routed s)
    (hc : s.tbl.connected dest = false) : NoThrow (learnRoute hop dest) s :=
  (learnRoute_spec h hc).mono (fun _ _ _ => trivial) fun _ _ h => h

/-- Learning from the source of a message does not throw. -/
theorem noThrow_learnSource (h : Routed s) (hdl : ConnectionHandle) (sourceNode : NodeId) :
    NoThrow (learnSource hdl sourceNode) s := by
  refine noThrow_get (noThrow_ite (fun hcond => ?_) fun _ => noThrow_pure _)
  simp only [Bool.and_eq_true, Bool.not_eq_true'] at hcond
  exact noThrow_learnRoute h hcond.2

/-! ## Proxies -/

/-- Learning from a handle does not throw. -/
theorem noThrow_learnHandle (h : Routed s) (c : ConnectionContext) (nid : NodeId) :
    NoThrow (learnHandle c nid) s := by
  refine noThrow_get (noThrow_ite (fun hcond => ?_) fun _ => noThrow_pure _)
  simp only [Bool.and_eq_true, Bool.not_eq_true'] at hcond
  exact noThrow_learnRoute h hcond.2

/-- There is a route to `nid`, or the node of the context offers one. -/
def Reaches (s : Broker) (c : ConnectionContext) (nid : NodeId) : Prop :=
  (s.tbl.route? nid).isSome = true ∨
    nid.equals c.id = false ∧ s.tbl.connected c.id = true ∧ s.tbl.blacklisted c.id nid = false

theorem RoutingTable.route?_of_connected {t : RoutingTable} {nid : NodeId}
    (h : t.connected nid = true) : (t.route? nid).isSome = true :=
  RoutingTable.route?_isSome_iff.mpr (Or.inl h)

/-- The route to a node that has just been bound. -/
theorem Wired.route_of_bind {nid : NodeId} {c : ConnectionContext} (hw : Wired s)
    (hc : s.ctx.find? hdl = some c) (hv : nid.valid = true) (hk : s.tbl.connected nid = false) :
    ((s.bindDirect hdl nid).tbl.route? nid).isSome = true :=
  RoutingTable.route?_of_connected (hw.connected_of_bind hc hv hk)

/-- After a handle has been learned, its node is reached. -/
theorem learnHandle_spec {c : ConnectionContext} {nid : NodeId} {aid : ActorId} (h : Routed s)
    (hv : nid.valid = true) (ha : aid ≠ 0) (hc : s.context? = some c)
    (hl : s.liveProxy nid aid = none) :
    After (learnHandle c nid) s (fun _ s' => Quiet Turn.any s s' ∧
      (Reaches s c nid → (s'.tbl.route? nid).isSome = true)) fun _ _ => False := by
  have hn : Turn.any.names nid aid := trivial
  have hquiet := (noThrow_learnHandle h c nid).within (quiet_learnHandle hn hv ha hc hl)
  have hlearn : After (learnHandle c nid) s (fun _ s' => nid.equals c.id = false →
      s.tbl.connected c.id = true → s.tbl.blacklisted c.id nid = false →
      (s'.tbl.route? nid).isSome = true ∨ s' = s ∧ s.tbl.connected nid = true)
        fun _ _ => False := by
    refine after_bind.mpr (after_get.mpr (after_ite.mpr ⟨fun hcond => ?_, fun hcond => ?_⟩))
    · simp only [Bool.and_eq_true, Bool.not_eq_true'] at hcond
      exact (learnRoute_spec h hcond.2).mono (fun _ _ hr _ hcon hb => Or.inl (hr hcon hb))
        fun _ _ h => h
    · intro hne _ _
      simp only [hne, Bool.not_false, Bool.true_and, Bool.not_eq_true',
        Bool.not_eq_false] at hcond
      exact Or.inr ⟨rfl, hcond⟩
  refine (After.and hquiet hlearn).mono (fun _ s' hs => ⟨hs.1.1, fun hr => ?_⟩) fun _ _ h => h.1
  rcases hr with hr | ⟨hne, hcon, hb⟩
  · exact hs.1.1.route hr
  · rcases hs.2 hne hcon hb with hr | ⟨rfl, hcon'⟩
    · exact hr
    · exact RoutingTable.route?_of_connected hcon'

/-- The connection of the current context is open. -/
theorem Routed.context (h : Routed s) {c : ConnectionContext} (hc : s.context? = some c) :
    ∃ d, s.scribes.find? c.hdl = some d := by
  rw [Broker.context?, Option.bind_eq_some_iff] at hc
  obtain ⟨hdl, -, hf⟩ := hc
  obtain ⟨ho, he⟩ := h.wired.opened hf
  rw [Broker.rdSize?, Option.isSome_map, Option.isSome_iff_exists] at ho
  rw [he]
  exact ho

/-- Announcing a proxy does not throw. -/
theorem noThrow_announceProxy {c : ConnectionContext} {path : Route} {nid : NodeId}
    {aid : ActorId} (h : Routed s) (hc : s.context? = some c) (hr : s.routes path.hdl) :
    NoThrow (announceProxy c path nid aid) s := by
  obtain ⟨d, hd⟩ := h.context hc
  unfold announceProxy newProxy
  simp only [bind_assoc, pure_bind]
  have h₁ : Routed (s.addProxy nid aid) :=
    ⟨h.wired.of_eq rfl rfl rfl (fun _ => rfl) fun _ _ _ hi => hi, h.sound.congr rfl rfl⟩
  refine noThrow_get (after_bind.mpr (after_modify.mpr ?_))
  refine after_bind.mpr ((after_byId (s := s.addProxy nid aid) hd).mpr ?_)
  refine noThrow_get ?_
  have hr₁ : (s.addProxy nid aid).routes path.hdl := hr
  have hwf := noThrow_writeFlush h₁ hr₁ c.hdl
    ⟨.announceProxyInstance, 0, 0, (s.addProxy nid aid).thisNode, nid, 0, aid⟩ none
  exact after_bind.mpr ((after_bind.mp hwf).mono (fun _ _ hf =>
    after_bind.mpr (hf.mono (fun _ _ _ => trivial) fun _ _ h => h)) fun _ _ h => h)

/-- `make_proxy` does not throw, and makes a proxy for an actor that can be reached. -/
theorem makeProxy_spec {c : ConnectionContext} {nid : NodeId} {aid : ActorId} (h : Routed s)
    (hc : s.context? = some c) (hl : s.liveProxy nid aid = none) :
    After (makeProxy nid aid) s (fun r _ => nid.valid = true → aid ≠ 0 → Reaches s c nid →
      r.isSome = true) fun _ _ => False := by
  refine after_ite.mpr ⟨fun hcond => ?_, fun hcond => ?_⟩
  · -- an invalid handle needs no proxy
    refine after_pure.mpr fun hv ha => ?_
    simp only [Bool.or_eq_true, beq_iff_eq] at hcond
    rcases hcond with hcond | hcond
    · rw [NodeId.valid_iff, hcond] at hv
      cases hv
    · exact absurd hcond ha
  simp only [Bool.or_eq_true, beq_iff_eq, not_or, Bool.not_eq_true] at hcond
  have hv : nid.valid = true := NodeId.valid_iff.mpr hcond.1
  refine after_bind.mpr ((after_context hc).mpr (after_bind.mpr ?_))
  refine (learnHandle_spec h hv hcond.2 hc hl).mono (fun _ s₁ h₁ => ?_) fun _ _ h => h
  refine after_bind.mpr (((noThrow_lookup (h.quiet h₁.1) nid).within
    (quiet_lookup (T := Turn.any) nid)).mono (fun path s₂ h₂ => ?_) fun _ _ h => h)
  cases path with
  | none =>
    -- what is learned from the handle has given its node a route
    refine after_pure.mpr fun _ _ hr => ?_
    have := h₁.2 hr
    rw [← h₂.2.2] at this
    cases this
  | some path =>
    have hs₂ := (h.quiet h₁.1).quiet h₂.1
    have hc₂ : s₂.context? = some c := by
      rw [h₂.1.untouched.context?, h₁.1.untouched.context?, hc]
    refine after_bind.mpr ((noThrow_announceProxy hs₂ hc₂ (routes_of_lookup h₂.2)).mono
      (fun _ _ _ => ?_) fun _ _ h => h)
    exact after_pure.mpr fun _ _ _ => rfl

/-- An actor handle yields a proxy: there is one, or the actor can be reached. -/
def Resolvable (s : Broker) (c : ConnectionContext) (nid : NodeId) (aid : ActorId) : Prop :=
  (s.liveProxy nid aid).isSome = true ∨ nid.valid = true ∧ aid ≠ 0 ∧ Reaches s c nid

/-- Quiet steps keep a node in reach. -/
theorem Reaches.quiet {T : Turn} {c : ConnectionContext} {nid : NodeId} (h : Reaches s c nid)
    (hq : Quiet T s s') : Reaches s' c nid := by
  rcases h with h | ⟨hne, hcon, hb⟩
  · exact Or.inl (hq.route h)
  · refine Or.inr ⟨hne, by rw [hq.untouched.connected, hcon], ?_⟩
    rw [RoutingTable.blacklisted, hq.untouched.blacklist]
    exact hb

/-- Quiet steps keep a handle resolvable. -/
theorem Resolvable.quiet {T : Turn} {c : ConnectionContext} {nid : NodeId} {aid : ActorId}
    (h : Resolvable s c nid aid) (hq : Quiet T s s') : Resolvable s' c nid aid := by
  rcases h with h | ⟨hv, ha, hr⟩
  · left
    cases hl : s'.liveProxy nid aid with
    | some r => rfl
    | none =>
      rw [hq.liveProxy hl] at h
      cases h
  · exact Or.inr ⟨hv, ha, hr.quiet hq⟩

/-- `get_or_put` does not throw, and finds or makes a proxy for a resolvable actor. -/
theorem getOrPut_spec {c : ConnectionContext} {nid : NodeId} {aid : ActorId} (h : Routed s)
    (hc : s.context? = some c) :
    After (getOrPut nid aid) s (fun r _ => Resolvable s c nid aid → r.isSome = true)
      fun _ _ => False := by
  have hres : Quiet Turn.any s (s.reserve nid aid) := (Act.reserve trivial nid aid).quiet
  refine after_bind.mpr (after_modify.mpr (after_bind.mpr (after_get.mpr ?_)))
  split
  · exact after_pure.mpr fun _ => rfl
  · next hl =>
    have hc₁ : (s.reserve nid aid).context? = some c := hc
    refine after_bind.mpr ((makeProxy_spec (h.quiet hres) hc₁ hl).mono (fun r s₂ hr => ?_)
      fun _ _ h => h)
    have hsome : Resolvable s c nid aid → r.isSome = true := by
      intro hr'
      rcases hr'.quiet hres with hlive | ⟨hv, ha, hreach⟩
      · rw [hl] at hlive
        cases hlive
      · exact hr hv ha hreach
    cases r with
    | none => exact after_pure.mpr fun h => absurd (hsome h) (by simp)
    | some r => exact after_bind.mpr (after_modify.mpr (after_pure.mpr fun _ => rfl))

theorem noThrow_getOrPut {c : ConnectionContext} {nid : NodeId} {aid : ActorId} (h : Routed s)
    (hc : s.context? = some c) : NoThrow (getOrPut nid aid) s :=
  (getOrPut_spec h hc).mono (fun _ _ _ => trivial) fun _ _ h => h

/-- Resolving an address does not throw. -/
theorem noThrow_resolve {c : ConnectionContext} {nid : NodeId} {aid : ActorId} (h : Routed s)
    (hc : s.context? = some c) : NoThrow (resolve nid aid) s := by
  refine noThrow_get (noThrow_ite (fun _ => noThrow_pure _) fun _ => ?_)
  refine after_bind.mpr ((noThrow_getOrPut h hc).mono (fun r _ _ => ?_) fun _ _ h => h)
  cases r with
  | none => exact noThrow_pure _
  | some r => exact noThrow_pure _

/-! ## Dispatched messages -/

/-- Reading an address that can be resolved does not throw. -/
theorem noThrow_readAddr {c : ConnectionContext} {a : AddrRef} (h : Routed s)
    (hc : s.context? = some c) (hr : a.foreign s.thisNode → Resolvable s c a.node a.aid) :
    NoThrow (readAddr a) s := by
  refine noThrow_ite (fun _ => noThrow_pure _) fun hz => noThrow_get ?_
  refine noThrow_ite (fun _ => noThrow_pure _) fun hself => ?_
  refine after_bind.mpr ((getOrPut_spec h hc).mono (fun r _ hsome => ?_) fun _ _ h => h)
  cases r with
  | none => exact absurd (hsome (hr ⟨hz, hself⟩)) (by simp)
  | some r => exact noThrow_pure _

/-- A payload that is well formed and whose actor handles can be resolved. -/
theorem noThrow_deserialize {c : ConnectionContext} {payload : Bytes} {rest : List Value × Source}
    (h : Routed s) (hc : s.context? = some c)
    (hok : (Message.deserialize s.process.types payload).result = .ok rest)
    (hr : ∀ a ∈ (Message.deserialize s.process.types payload).addrs, a.foreign s.thisNode →
      Resolvable s c a.node a.aid) : NoThrow (deserialize payload) s := by
  refine noThrow_get (after_bind.mpr ?_)
  refine (noThrow_forM (I := fun s' => Quiet Turn.any s s') (fun a hmem s' hq => ?_) .refl).mono
    (fun _ _ _ => ?_) fun _ _ h => h
  · have hc' : s'.context? = some c := by rw [hq.untouched.context?, hc]
    have hfor : a.foreign s'.thisNode → Resolvable s' c a.node a.aid := by
      rw [hq.untouched.thisNode]
      exact fun hf => (hr a hmem hf).quiet hq
    exact ((noThrow_readAddr (h.quiet hq) hc' hfor).within
      (quiet_readAddr (T := Turn.any) trivial fun _ => trivial)).mono
      (fun _ _ hs => hq.trans hs.1) fun _ _ h => h
  · rw [hok]
    exact noThrow_pure _

theorem noThrow_bounce (rsn : ExitReason) (sender : ActorAddr) (mid : MessageId) :
    NoThrow (bounce rsn sender mid) s :=
  noThrow_ite (fun _ => noThrow_modify _) fun _ => noThrow_pure _

/-- Delivering to an actor of this node does not throw. -/
theorem noThrow_deliverTo {destNode : NodeId} {destActor : ActorId} {mid : MessageId}
    (hd : destNode.equals s.thisNode = true) : NoThrow (deliverTo destNode destActor mid) s := by
  refine noThrow_get (noThrow_ite (fun h => ?_) fun _ => noThrow_ite (fun _ => ?_) fun _ => ?_)
  · simp [hd] at h
  · split <;> exact noThrow_pure _
  · exact noThrow_pure _

/-- `deliver` does not throw for an actor of this node. -/
theorem noThrow_deliver {c : ConnectionContext} {sourceNode destNode : NodeId}
    {sourceActor destActor : ActorId} {mid : MessageId} (h : Routed s) (hc : s.context? = some c)
    (hd : destNode.equals s.thisNode = true) :
    NoThrow (deliver sourceNode sourceActor destNode destActor mid) s := by
  refine (noThrow_resolve h hc).bind (quiet_resolve (T := Turn.any) trivial fun _ => trivial)
    fun src s₁ h₁ _ => ?_
  refine after_bind.mpr ((noThrow_deliverTo (by rw [h₁.untouched.thisNode, hd])).mono
    (fun _ _ _ => ?_) fun _ _ h => h)
  refine noThrow_ite (fun _ => ?_) fun _ => noThrow_modify _
  exact after_bind.mpr (after_modify.mpr (noThrow_ite (fun _ => noThrow_bounce _ _ _)
    fun _ => noThrow_pure _))

/-! ## Other messages -/

/-- The handler of `announce_proxy_instance` does not throw. -/
theorem noThrow_proxyAnnounced (h : Routed s) (hreg : Registered s) (nid : NodeId)
    (aid : ActorId) : NoThrow (proxyAnnounced nid aid) s := by
  refine noThrow_get (noThrow_ite (fun _ => noThrow_sendKillProxyInstance h _ _ _) fun hne => ?_)
  have he : (s.getEntry aid).2 = ExitReason.notExited := by simpa using hne
  split
  · next ref _ =>
    refine noThrow_get ?_
    split
    · exact noThrow_pure _
    · exact noThrow_ite (fun _ => noThrow_modify _) fun _ => noThrow_sendKillProxyInstance h _ _ _
  · next hnone =>
    -- an entry that has not exited refers to an actor
    exfalso
    unfold Broker.getEntry at he hnone
    cases hf : s.registry.find? aid with
    | none => simp [hf, ExitReason.unknown, ExitReason.notExited] at he
    | some e =>
      obtain ⟨ref, rsn⟩ := e
      simp only [hf, Option.getD_some] at he hnone
      subst he
      obtain ⟨r, -, hr, -⟩ := hreg.entry hf
      rw [hnone] at hr
      cases hr

/-- Reporting an undeliverable message does not throw. -/
theorem noThrow_reportNoRoute (h : Routed s) (hdr : Header) (payload : Option Bytes) :
    NoThrow (reportNoRoute hdr payload) s := by
  refine noThrow_get (noThrow_ite (fun _ => noThrow_pure _) fun _ => ?_)
  refine after_bind.mpr ((noThrow_lookup h hdr.sourceNode).mono (fun path _ _ => ?_) fun _ _ h => h)
  cases path with
  | none => exact noThrow_pure _
  | some path => exact noThrow_modify _

/-- Forwarding a message does not throw. -/
theorem noThrow_forwardMessage (h : Routed s) (hdr : Header) (payload : Option Bytes)
    (via : List NodeId) : NoThrow (forwardMessage hdr payload via) s := by
  refine noThrow_get ?_
  refine (noThrow_lookup h hdr.destNode).bind (quiet_lookup (T := Turn.any) hdr.destNode)
    fun path s₁ h₁ hpath => ?_
  have hs₁ := h.quiet h₁
  cases path with
  | some path =>
    refine after_bind.mpr (after_modify.mpr (after_bind.mpr ?_))
    obtain ⟨d, hd⟩ := hs₁.isOpen (routes_of_lookup hpath)
    have ho : (s₁.append path.hdl ⟨hdr, payload.getD [], via ++ [s.thisNode]⟩).scribes.find?
      path.hdl =
        some { d with wrBuf := d.wrBuf ++ [⟨hdr, payload.getD [], via ++ [s.thisNode]⟩] } := by
      show (s₁.scribes.adjust path.hdl _).find? path.hdl = _
      rw [UMap.find?_adjust, hd, if_pos BEq.rfl]
      rfl
    refine after_bind.mpr ((after_byId ho).mpr (after_modify.mpr ?_))
    exact noThrow_modify _
  | none =>
    exact after_bind.mpr ((noThrow_reportNoRoute hs₁ hdr payload).mono
      (fun _ _ _ => noThrow_modify _) fun _ _ h => h)

/-! ## Inputs that are not about a connection -/

/-- A message that a proxy passes on can be serialized, if there is a route for it. -/
def Broker.serializes (s : Broker) : Input → Prop
  | .forward _ receiver _ msg => s.isRemote receiver = true →
      (s.tbl.route? (s.addrNode receiver)).isSome = true → msg.fault = none
  | _ => True

/-- Dispatching a message does not throw if it can be serialized or has no route. -/
theorem noThrow_dispatch {sender receiver : ActorAddr} {mid : MessageId} {msg : Message}
    (h : Routed s) (hl : ∀ ref ∈ msg.locals, ref < s.actors.length)
    (hm : (s.tbl.route? (s.addrNode receiver)).isSome = true → msg.fault = none) :
    NoThrow (dispatch sender receiver mid msg) s := by
  refine noThrow_get ((noThrow_lookup h _).bind (quiet_lookup (T := Turn.any) _)
    fun path s₁ h₁ hpath => ?_)
  cases path with
  | none => exact after_bind.mpr (noThrow_modify _)
  | some path =>
    -- registering the actors of the message keeps the route
    refine after_bind.mpr ((noThrow_forM (I := fun s' => Quiet Turn.any s₁ s')
      (fun ref hmem s' hq => ?_) .refl).mono (fun _ s₂ h₂ => ?_) fun _ _ h => h)
    · have hr : ref < s'.actors.length :=
        Nat.lt_of_lt_of_le (hl ref hmem) (Nat.le_trans h₁.actors hq.actors)
      exact ((noThrow_registerLocal ref).within (quiet_registerLocal (T := Turn.any) hr)).mono
        (fun _ _ hs => hq.trans hs.1) fun _ _ h => h
    -- a message with a route can be serialized
    have hfault : msg.fault = none := hm (by rw [← hpath.2]; rfl)
    rw [Message.serialize_eq_ok.mpr ⟨hfault, rfl⟩]
    refine after_bind.mpr (after_pure.mpr (noThrow_get ?_))
    have hroutes := h₂.untouched.routes (routes_of_lookup hpath)
    have hwf := noThrow_writeFlush ((h.quiet h₁).quiet h₂) hroutes path.hdl
      ⟨.dispatchMessage, 0, mid, if sender = .invalid then s₂.thisNode else s₂.addrNode sender,
        s₂.addrNode receiver, s₂.addrId sender, s₂.addrId receiver⟩ (some msg.bytes)
    exact after_bind.mpr ((after_bind.mp hwf).mono (fun _ _ hf => after_bind.mpr
      (hf.mono (fun _ _ _ => after_bind.mpr (noThrow_modify _)) fun _ _ h => h)) fun _ _ h => h)

/-- The handler that forwards a message does not throw if the message can be serialized. -/
theorem noThrow_forwardMsg {sender receiver : ActorAddr} {mid : MessageId} {msg : Message}
    (h : Routed s) (hh : s.holds sender = true) (hr : s.holds receiver = true)
    (hl : ∀ ref ∈ msg.locals, ref < s.actors.length)
    (hm : s.serializes (.forward sender receiver mid msg)) :
    NoThrow (forwardMsg sender receiver mid msg) s := by
  refine noThrow_get (noThrow_ite (fun _ => noThrow_pure _) fun hcond => ?_)
  simp only [Bool.or_eq_true, decide_eq_true_eq, Bool.not_eq_true', not_or,
    Bool.not_eq_false] at hcond
  refine (noThrow_registerIfLocal sender).bind (quiet_registerIfLocal (T := Turn.any) hh)
    fun _ s₁ h₁ htbl => ?_
  have hnode : s₁.addrNode receiver = s.addrNode receiver := by
    refine h₁.addrNode ?_
    rintro r rfl
    simpa [Broker.holds] using hr
  refine after_bind.mpr ((noThrow_dispatch (h.quiet h₁)
    (fun ref hmem => Nat.lt_of_lt_of_le (hl ref hmem) h₁.actors) (fun hroute => ?_)).mono
      (fun _ _ _ => ?_) fun _ _ h => h)
  · rw [htbl, hnode] at hroute
    exact hm hcond.2 hroute
  exact noThrow_ite (fun _ => noThrow_bounce _ _ _) fun _ => noThrow_pure _

theorem noThrow_removePublishedActorAt (port : UInt16) : NoThrow (removePublishedActorAt port) s :=
  noThrow_get (noThrow_ite (fun _ => noThrow_pure _) fun _ => after_bind.mpr (noThrow_modify _))

/-- Closing an acceptor does not throw. -/
theorem noThrow_closeAcceptor (port : UInt16) : NoThrow (closeAcceptor port) s := by
  refine noThrow_get ?_
  split
  · exact after_bind.mpr (noThrow_modify _)
  · exact noThrow_pure _

/-- Running a task does not throw. -/
theorem noThrow_runTask (h : Routed s) (t : Task) : NoThrow (BoostActor.runTask t) s := by
  cases t with
  | eraseProxy => exact noThrow_modify _
  | sendKillProxyInstance nid aid rsn => exact noThrow_sendKillProxyInstance h nid aid rsn
  | deleteProxy => exact noThrow_modify _

/-- Unpublishing an actor does not throw. -/
theorem noThrow_unpublishMsg (whom : ActorAddr) (port : UInt16) :
    NoThrow (unpublishMsg whom port) s := by
  refine noThrow_ite (fun _ => noThrow_pure _) fun _ => after_bind.mpr ?_
  refine noThrow_get (after_bind.mpr ((noThrow_forM (I := fun _ => True) (fun e _ s' _ => ?_)
    trivial).mono (fun _ _ _ => noThrow_pure _) fun _ _ h => h))
  exact after_bind.mpr (after_bind.mpr ((noThrow_closeAcceptor e.1).mono (fun _ _ _ => trivial)
    fun _ _ h => h))

theorem noThrow_closeMsg (port : UInt16) : NoThrow (closeMsg port) s :=
  noThrow_ite (fun _ => noThrow_pure _) fun _ => after_bind.mpr
    ((noThrow_removePublishedActorAt port).mono (fun _ _ _ => noThrow_closeAcceptor port)
      fun _ _ h => h)

theorem calm_runTask (t : Task) : Within Calm (BoostActor.runTask t) s fun _ _ => True := by
  cases t with
  | eraseProxy => exact within_modify (Broker.eraseProxy_killsOnly _ _ _).calm trivial
  | sendKillProxyInstance nid aid rsn =>
    exact ((quiet_sendKillProxyInstance (T := Turn.reporting nid aid rsn) ⟨rfl, rfl, rfl⟩).weaken
      fun _ hq => hq.calm fun _ _ => id).mono fun _ _ _ _ => trivial
  | deleteProxy => exact within_modify (Broker.eraseProxy_killsOnly _ _ _).calm trivial

/-- A program that returns leaves the broker as its frame says. -/
theorem Broker.invoke_of_noThrow {R : Broker → Broker → Prop} {x : M Unit}
    {Q : Unit → Broker → Prop} (h : NoThrow x s) (hw : Within R x s Q) : R s (s.invoke x) :=
  invoke_spec ((h.within hw).mono (fun _ _ h => h.1) fun _ _ h => h.elim)

/-- While every direct route is open, no such input ends the broker unless it has to
pass on a message that cannot be serialized. -/
theorem Routed.exitReason {i : Input} (h : Routed s) (hi : i.aboutConnection = false)
    (ha : s.serializes i) (he : s.enabled i = true) : (s.exec i).exitReason = s.exitReason := by
  simp only [Broker.enabled, Bool.and_eq_true] at he
  -- inputs about connections are excluded; each of the others has a program that returns
  cases i with
  | newConnection | newData | connectionClosed | connect => cases hi
  | acceptorClosed hdl =>
    have hn : NoThrow (acceptorClosedMsg hdl) { s with doormen := s.doormen.erase hdl } :=
      noThrow_get (after_bind.mpr ((noThrow_removePublishedActorAt _).mono
        (fun _ _ _ => noThrow_pure _) fun _ _ h => h))
    exact (Broker.invoke_of_noThrow hn (ports_acceptorClosedMsg hdl)).calm.exitReason
  | forward sender receiver mid msg =>
    simp only [Bool.and_eq_true, List.all_eq_true, decide_eq_true_eq] at he
    exact (Broker.invoke_of_noThrow (noThrow_forwardMsg h he.2.1.1 he.2.1.2 he.2.2 ha)
      (quiet_forwardMsg mid he.2.1.1 he.2.1.2 he.2.2)).untouched.exitReason
  | publish hdl port whom sigs assigned => exact (publish_cases he.2).calm.exitReason
  | unpublish whom port =>
    have hn : NoThrow (do let _ ← unpublishMsg whom port) s :=
      after_bind.mpr ((noThrow_unpublishMsg whom port).mono (fun _ _ _ => noThrow_pure _)
        fun _ _ h => h)
    exact (Broker.invoke_of_noThrow (Q := fun _ _ => True) hn
      ((ports_unpublishMsg whom port).bind fun _ _ _ _ => within_pure trivial)).calm.exitReason
  | closePort port =>
    have hn : NoThrow (do let _ ← closeMsg port) s :=
      after_bind.mpr ((noThrow_closeMsg port).mono (fun _ _ _ => noThrow_pure _) fun _ _ h => h)
    exact (Broker.invoke_of_noThrow (Q := fun _ _ => True) hn
      ((ports_closeMsg port).bind fun _ _ _ _ => within_pure trivial)).calm.exitReason
  | enableAutomaticConnections hdl port => rfl
  | putNamed key ref => rfl
  | runTask index =>
    unfold Broker.exec
    dsimp only
    split
    · next t ht =>
      have h₀ : Routed { s with tasks := s.tasks.eraseIdx index } :=
        ⟨h.wired.of_eq rfl rfl rfl (fun _ => rfl) fun _ _ _ hi => hi, h.sound.congr rfl rfl⟩
      exact (Broker.invoke_of_noThrow (noThrow_runTask h₀ t) (calm_runTask t)).exitReason
    · rfl
  | spawnActor => rfl
  | exitActor ref rsn => rfl
  | callAttachable ref => exact (Broker.callAttachable_calm ref).exitReason
  | destroyProxy r => exact (Broker.destroyProxy_calm r).exitReason

end BoostActor
