import BoostActor.Io.DirectRoutes
import BoostActor.Io.Framing
import BoostActor.Io.NoFaults

/-!
# Fault isolation

Data on one connection is meant to harm that connection at most. The broker turns
some failures into closing the connection, but an exception while a payload is
deserialized, or a handle in it for which no proxy can be made, ends the broker and
with it every connection. Nothing else does.

* `Harmless` — the messages that can be processed;
* `running_of_harmless` — data that completes such a message throws nothing;
* `data_isolated` — then the other connections are left alone;
* `data_not_isolated` — a payload that cannot be read;
* `broker_consistent` — routes, contexts, read sizes and registry, whatever the peers send.
-/

namespace BoostActor

open Lib

variable {hdl : ConnectionHandle} {hdr : Header} {payload : Option Bytes} {s s' : Broker}

/-- The broker goes on, and what belongs to other connections than `hdl` is left
alone: contexts, direct routes in both maps, open scribes and their configuration. -/
structure Isolated (hdl : ConnectionHandle) (s s' : Broker) : Prop where
  running : s'.exitReason = ExitReason.notExited
  ctx : ∀ other, other ≠ hdl → s'.ctx.find? other = s.ctx.find? other
  byHdl : ∀ other, other ≠ hdl →
    s'.tbl.directByHdl.find? other = s.tbl.directByHdl.find? other
  byNid : ∀ nid other, other ≠ hdl →
    (s'.tbl.directByNid.find? nid = some other ↔ s.tbl.directByNid.find? nid = some other)
  scribes : ∀ other, other ≠ hdl → s'.rdSize? other = s.rdSize? other

/-- The actor handle `(nid, aid)` in a message on `hdl` yields a proxy: there is one
already; or there is a route to its node, the node that the context belongs to
offers one, or the message itself comes from that node over a connection that is bound
to another one. A sender that compares equal to the node of its connection is not
learned, so one that is another key of the table does not resolve. -/
def CanResolve (s : Broker) (hdl : ConnectionHandle) (hdr : Header) (nid : NodeId)
    (aid : ActorId) : Prop :=
  (s.liveProxy nid aid).isSome = true ∨ aid ≠ 0 ∧
    (Reaches s (s.contextOf hdl) nid ∨
      (nid == hdr.sourceNode) = true ∧ hdr.sourceNode.equals s.thisNode = false ∧
        s.tbl.directByHdl.find? hdl ≠ none ∧
        (s.tbl.lookupNode hdl).equals hdr.sourceNode = false ∧
        s.tbl.blacklisted (s.tbl.lookupNode hdl) hdr.sourceNode = false)

/-- A message that can be processed: a handshake does not bind a connection that is
bound already, and its payload can be read; the payload of a message for this node
can be read, and every actor handle in it can be resolved. -/
structure Harmless (s : Broker) (hdl : ConnectionHandle) (hdr : Header)
    (payload : Option Bytes) : Prop where
  binds : Binding hdr payload s → s.tbl.directByHdl.find? hdl = none
  handshake : hdr.operation = .serverHandshake → ∃ r, handshakePayload hdr payload = .ok r
  dispatch : hdr.operation = .dispatchMessage → hdr.destNode.equals s.thisNode = true →
    (∃ rest, (Message.deserialize s.process.types (payload.getD [])).result = .ok rest) ∧
      ∀ a ∈ (Message.deserialize s.process.types (payload.getD [])).addrs,
        a.foreign s.thisNode → CanResolve s hdl hdr a.node a.aid

/-- Data does not complete a valid message that cannot be processed. -/
def harmless (s : Broker) : Input → Prop
  | .newData dm => ∀ hdr payload, s.completed dm = some (hdr, payload) → hdr.valid = true →
      Harmless s dm.handle hdr payload
  | _ => True

/-! ## Messages -/

theorem noThrow_err : NoThrow (err hdl) s := trivial

theorem RoutingTable.lookupNode_of_bound {t : RoutingTable} {nid : NodeId}
    (h : t.directByHdl.find? hdl = some nid) : t.lookupNode hdl = nid := by
  rw [RoutingTable.lookupNode, h]
  rfl

/-- The sender of a message that another node passed on is reached once it has been
learned. -/
theorem learnSource_route (h : Routed s) (hv : hdr.sourceNode.valid = true)
    (hself : hdr.sourceNode.equals s.thisNode = false) (hb : s.tbl.directByHdl.find? hdl ≠ none)
    (hpeer : (s.tbl.lookupNode hdl).equals hdr.sourceNode = false)
    (hbl : s.tbl.blacklisted (s.tbl.lookupNode hdl) hdr.sourceNode = false) :
    After (learnSource hdl hdr.sourceNode) s
      (fun _ s' => (s'.tbl.route? hdr.sourceNode).isSome = true) fun _ _ => False := by
  obtain ⟨nid, hnid⟩ := Option.ne_none_iff_exists'.mp hb
  have hcon : s.tbl.connected (s.tbl.lookupNode hdl) = true := by
    rw [RoutingTable.lookupNode_of_bound hnid]
    exact h.wired.connected_of_bound hnid
  refine after_bind.mpr (after_get.mpr (after_ite.mpr ⟨fun hcond => ?_, fun hcond => ?_⟩))
  · simp only [Bool.and_eq_true, Bool.not_eq_true'] at hcond
    exact (learnRoute_spec h hcond.2).mono (fun _ _ hr => hr hcon hbl) fun _ _ h => h
  · -- the sender has a connection of its own
    refine after_pure.mpr (RoutingTable.route?_of_connected ?_)
    rw [NodeId.valid_iff] at hv
    simpa [hv, hself, hpeer] using hcond

/-- The handles of a message can be resolved once its sender has been learned. -/
theorem learnSource_spec {c : ConnectionContext} (h : Routed s)
    (hc : s.ctx.find? hdl = some c) :
    After (learnSource hdl hdr.sourceNode) s (fun _ s' => Quiet (Turn.anyOn hdl) s s' ∧
      ∀ nid aid, nid.valid = true → CanResolve s hdl hdr nid aid → Resolvable s' c nid aid)
      fun _ _ => False := by
  have hquiet : Within (Quiet (Turn.anyOn hdl)) (learnSource hdl hdr.sourceNode) s
      fun _ _ => True := by
    -- learning from the source is a quiet step
    have hn : (Turn.anyOn hdl).names hdr.sourceNode 0 := trivial
    exact quiet_learnSource (T := Turn.anyOn hdl) (fun _ => trivial) fun _ => hn
  have hroute : After (learnSource hdl hdr.sourceNode) s (fun _ s' =>
      hdr.sourceNode.valid = true → hdr.sourceNode.equals s.thisNode = false →
      s.tbl.directByHdl.find? hdl ≠ none →
      (s.tbl.lookupNode hdl).equals hdr.sourceNode = false →
      s.tbl.blacklisted (s.tbl.lookupNode hdl) hdr.sourceNode = false →
      (s'.tbl.route? hdr.sourceNode).isSome = true) fun _ _ => False := by
    by_cases hall : hdr.sourceNode.valid = true ∧ hdr.sourceNode.equals s.thisNode = false ∧
        s.tbl.directByHdl.find? hdl ≠ none ∧
        (s.tbl.lookupNode hdl).equals hdr.sourceNode = false ∧
        s.tbl.blacklisted (s.tbl.lookupNode hdl) hdr.sourceNode = false
    · obtain ⟨hv, hs, hb, hp, hbl⟩ := hall
      exact (learnSource_route h hv hs hb hp hbl).mono (fun _ _ hr _ _ _ _ _ => hr) fun _ _ h => h
    · exact (noThrow_learnSource h hdl hdr.sourceNode).mono
        (fun _ _ _ hv hs hb hp hbl => absurd ⟨hv, hs, hb, hp, hbl⟩ hall) fun _ _ h => h
  refine (After.and ((noThrow_learnSource h hdl hdr.sourceNode).within hquiet) hroute).mono
    (fun _ s' hs => ⟨hs.1.1, fun nid aid hv hcan => ?_⟩) fun _ _ h => h.1
  -- the handle has a proxy, a route already, or the one that is learned now
  rcases hcan with hlive | ⟨ha, hreach | ⟨heq, hself, hb, hp, hbl⟩⟩
  · exact Resolvable.quiet (Or.inl hlive) hs.1.1
  · rw [Broker.contextOf_eq hc] at hreach
    exact Resolvable.quiet (Or.inr ⟨hv, ha, hreach⟩) hs.1.1
  · have hv' : hdr.sourceNode.valid = true := by rw [← NodeId.valid_congr heq, hv]
    refine Or.inr ⟨hv, ha, Or.inl ?_⟩
    rw [RoutingTable.route?_isSome_congr heq]
    exact hs.2 hv' hself hb hp hbl

/-- Dispatching a harmless message does not throw. -/
theorem noThrow_dispatchMessage {c : ConnectionContext} (h : Routed s)
    (ht : s.thisContext = some hdl) (hc : s.ctx.find? hdl = some c)
    (ho : hdr.operation = .dispatchMessage) (hd : hdr.destNode.equals s.thisNode = true)
    (hok : Harmless s hdl hdr payload) : NoThrow (dispatchMessage hdl hdr payload) s := by
  obtain ⟨⟨rest, hrest⟩, hhandles⟩ := hok.dispatch ho hd
  have hctx : s.context? = some c := by rw [Broker.context?_eq ht, hc]
  refine noThrow_ite (fun _ => noThrow_err) fun _ => ?_
  refine after_bind.mpr ((learnSource_spec h hc).mono (fun _ s₁ h₁ => ?_) fun _ _ h => h)
  obtain ⟨hq, hres⟩ := h₁
  have hctx₁ : s₁.context? = some c := by rw [hq.untouched.context?, hctx]
  have hread : NoThrow (deserialize (payload.getD [])) s₁ := by
    have hrest₁ : (Message.deserialize s₁.process.types (payload.getD [])).result = .ok rest := by
      rw [hq.untouched.process, hrest]
    refine noThrow_deserialize (h.quiet hq) hctx₁ hrest₁ ?_
    · rw [hq.untouched.process, hq.untouched.thisNode]
      exact fun a hmem hf => hres a.node a.aid rfl (hhandles a hmem hf)
  have hqread : Within (Quiet Turn.any) (deserialize (payload.getD [])) s₁ fun _ _ => True :=
    quiet_deserialize trivial fun _ _ _ => trivial
  refine hread.bind hqread fun _ s₂ h₂ _ => ?_
  have hctx₂ : s₂.context? = some c := by rw [h₂.untouched.context?, hctx₁]
  have hd₂ : hdr.destNode.equals s₂.thisNode = true := by
    rw [h₂.untouched.thisNode, hq.untouched.thisNode, hd]
  exact after_bind.mpr ((noThrow_deliver ((h.quiet hq).quiet h₂) hctx₂ hd₂).mono
    (fun _ _ _ => noThrow_pure _) fun _ _ h => h)

/-! ## Handshakes -/

theorem Routed.modifyCtx {f : ConnectionContext → ConnectionContext} (h : Routed s)
    (hf : ∀ c, (f c).hdl = c.hdl) : Routed (s.modifyCtx hdl f) :=
  ⟨h.wired.modifyCtx hf, h.sound.congr rfl rfl⟩

/-- Binding a free handle keeps the routes sound. -/
theorem Routed.bind {nid : NodeId} {c : ConnectionContext} (h : Routed s)
    (hc : s.ctx.find? hdl = some c) (hv : nid.valid = true)
    (hb : s.tbl.directByHdl.find? hdl = none) (hk : s.tbl.connected nid = false) :
    Routed (s.bindDirect hdl nid) := by
  have hne : hdl ≠ ConnectionHandle.invalid := by
    rintro rfl
    have ho := (h.wired.opened hc).1
    rw [h.wired.real] at ho
    cases ho
  refine ⟨h.wired.bind hc hv hk, ?_⟩
  rw [Broker.bindDirect_eq]
  exact (h.sound.addDirect hb (h.sound.find?_of_not_connected hk) hne).congr rfl rfl

theorem noThrow_rememberRemote (nid : NodeId) (port : UInt16) (addr : ActorAddr) :
    NoThrow (rememberRemote nid port addr) s :=
  noThrow_get (noThrow_ite (fun _ => noThrow_modify _) fun _ => noThrow_pure _)

/-- The end of a handshake does not throw. -/
theorem noThrow_finalizeHandshake {c : ConnectionContext} (nid : NodeId) (aid : ActorId)
    (sigs : List Bytes) (h : Routed s) (ht : s.thisContext = some hdl)
    (hc : s.ctx.find? hdl = some c) : NoThrow (finalizeHandshake nid aid sigs) s := by
  have ht₁ : (s.identify hdl nid).thisContext = some hdl := ht
  have hc₁ : (s.identify hdl nid).ctx.find? hdl = some { c with id := nid } := by
    rw [Broker.identify, Broker.find?_modifyCtx, if_pos rfl, hc]
    rfl
  have hctx : (s.identify hdl nid).context? = some { c with id := nid } := by
    rw [Broker.context?_eq ht₁, hc₁]
  refine after_bind.mpr ((after_modifyContext ht).mpr ?_)
  refine after_bind.mpr ((after_context hctx).mpr ?_)
  dsimp only
  split
  · exact noThrow_pure _
  · refine after_bind.mpr ((after_modifyContext ht₁).mpr ?_)
    refine noThrow_ite (fun _ => noThrow_modify _) fun _ => ?_
    -- taking the callback leaves the routes alone
    have h₂ : Routed ((s.identify hdl nid).takeCallback hdl) :=
      ⟨(h.wired.identify nid).takeCallback, h.sound.congr rfl rfl⟩
    have hctx₂ : ((s.identify hdl nid).takeCallback hdl).context? =
        some { c with id := nid, callback := none } := by
      have ht₂ : ((s.identify hdl nid).takeCallback hdl).thisContext = some hdl := ht
      rw [Broker.context?_eq ht₂, Broker.takeCallback, Broker.find?_modifyCtx, if_pos rfl, hc₁]
      rfl
    refine after_bind.mpr ((noThrow_resolve h₂ hctx₂).mono (fun addr _ _ => ?_) fun _ _ h => h)
    exact after_bind.mpr ((noThrow_rememberRemote nid _ addr).mono (fun _ _ _ => noThrow_modify _)
      fun _ _ h => h)

/-- A route stays a route when a handshake is finished. -/
theorem Finalized.routes {nid : NodeId} {aid : ActorId} {hdl' : ConnectionHandle}
    (hf : Finalized hdl nid aid s s') (hr : s.routes hdl') : s'.routes hdl' := by
  cases hf with
  | silent => exact hr
  | answer _ _ _ _ hq => exact hq.untouched.routes hr

/-- A harmless server handshake does not throw. -/
theorem noThrow_serverHandshake {c : ConnectionContext} (h : Routed s)
    (ht : s.thisContext = some hdl) (hc : s.ctx.find? hdl = some c) (hv : hdr.valid = true)
    (ho : hdr.operation = .serverHandshake) (hok : Harmless s hdl hdr payload) :
    NoThrow (serverHandshake hdl hdr payload) s := by
  obtain ⟨⟨aid, sigs⟩, hi⟩ := hok.handshake ho
  have hval := hdr.sourceNode_valid hv (by simp [Header.isHandshake, ho])
  unfold serverHandshake
  rw [hi]
  refine after_bind.mpr (after_pure.mpr (noThrow_get (noThrow_ite (fun _ => ?_) fun hk => ?_)))
  · exact after_bind.mpr ((noThrow_finalizeHandshake _ _ _ h ht hc).mono (fun _ _ _ => noThrow_err)
      fun _ _ h => h)
  simp only [Bool.or_eq_true, not_or, Bool.not_eq_true] at hk
  -- the handle is free, so that binding it keeps the routes sound
  have hfree := hok.binds (.server hv ho hi hk.1 hk.2)
  have hbind := Broker.bindDirect_eq (s := s) hdl hdr.sourceNode
  have h₀ : Routed (s.bindDirect hdl hdr.sourceNode) := h.bind hc hval hfree hk.2
  refine after_bind.mpr (after_modify.mpr ?_)
  refine (noThrow_lookup h₀ _).bind (quiet_lookup (T := Turn.any) _) fun path s₁ h₁ hpath => ?_
  cases path with
  | none => exact noThrow_err
  | some path =>
    have hwrite : NoThrow (writeClientHandshake path.hdl hdr.sourceNode) s₁ :=
      noThrow_get (noThrow_modify _)
    refine hwrite.bind (within_get (quiet_write (T := Turn.any)
      (.clientHandshake trivial (route?_of_lookup hpath)))) fun _ s₂ h₂ _ => ?_
    have hs₂ := (h₀.quiet h₁).quiet h₂
    refine (noThrow_learnedNewNodeDirectly hs₂ _ _).bind
      (quiet_learnedNewNodeDirectly (T := Turn.any) (Or.inl trivial) _) fun _ s₃ h₃ _ => ?_
    have hq := h₁.trans (h₂.trans h₃)
    have hs₃ := hs₂.quiet h₃
    have ht₃ : s₃.thisContext = some hdl := by rw [hq.untouched.thisContext, hbind, ht]
    have hc₃ : s₃.ctx.find? hdl = some c := by rw [hq.untouched.ctx, hbind, hc]
    -- what the remaining calls need of the context
    have hfin := (noThrow_finalizeHandshake hdr.sourceNode aid sigs hs₃ ht₃ hc₃).and
      (finalizeHandshake_spec ht₃ hc₃)
    refine after_bind.mpr (hfin.mono (fun _ s₄ h₄ => ?_) fun _ _ h => h.1)
    have hr₄ : s₄.routes path.hdl := h₄.2.routes
      (h₃.untouched.routes (h₂.untouched.routes (routes_of_lookup hpath)))
    have hs₄ : Routed s₄ := by
      refine ⟨hs₃.wired.finalized h₄.2, ?_⟩
      cases h₄.2 with
      | silent => exact hs₃.sound.congr rfl rfl
      | answer _ _ _ _ hq' =>
        exact hs₃.sound.congr hq'.untouched.directByHdl hq'.untouched.directByNid
    exact after_bind.mpr ((noThrow_flush hs₄ hr₄).mono (fun _ _ _ => noThrow_pure _) fun _ _ h => h)

/-- A harmless client handshake does not throw. -/
theorem noThrow_clientHandshake {c : ConnectionContext} (h : Routed s)
    (hc : s.ctx.find? hdl = some c) (hv : hdr.valid = true)
    (ho : hdr.operation = .clientHandshake) (hok : Harmless s hdl hdr payload) :
    NoThrow (clientHandshake hdl hdr) s := by
  have hval := hdr.sourceNode_valid hv (by simp [Header.isHandshake, ho])
  refine noThrow_get (noThrow_ite (fun _ => noThrow_pure _) fun hk => ?_)
  rw [Bool.not_eq_true] at hk
  have h₀ := h.bind hc hval (hok.binds (.client hv ho hk)) hk
  refine after_bind.mpr (after_modify.mpr ?_)
  exact after_bind.mpr ((noThrow_learnedNewNodeDirectly h₀ _ _).mono (fun _ _ _ => noThrow_pure _)
    fun _ _ h => h)

/-! ## Data -/

/-- Processing a harmless message does not throw. -/
theorem noThrow_processMessage {c : ConnectionContext} (h : Routed s) (hreg : Registered s)
    (ht : s.thisContext = some hdl) (hc : s.ctx.find? hdl = some c) (via : List NodeId)
    (hok : hdr.valid = true → Harmless s hdl hdr payload) :
    NoThrow (processMessage hdl hdr payload via) s := by
  refine noThrow_ite (fun _ => noThrow_err) fun hv => ?_
  simp only [Bool.not_eq_true', Bool.not_eq_false] at hv
  refine noThrow_get (noThrow_ite (fun _ => ?_) fun hf => ?_)
  · exact after_bind.mpr ((noThrow_forwardMessage h hdr payload via).mono
      (fun _ _ _ => noThrow_pure _) fun _ _ h => h)
  have hdest : hdr.isHandshake = false → hdr.destNode.equals s.thisNode = true := by
    intro hh
    simpa [hh] using hf
  split
  · next ho => exact noThrow_serverHandshake h ht hc hv ho (hok hv)
  · next ho => exact noThrow_clientHandshake h hc hv ho (hok hv)
  · next ho =>
    exact noThrow_dispatchMessage h ht hc ho (hdest (by simp [Header.isHandshake, ho])) (hok hv)
  · exact after_bind.mpr ((noThrow_proxyAnnounced h hreg _ _).mono (fun _ _ _ => noThrow_pure _)
      fun _ _ h => h)
  · exact after_bind.mpr (noThrow_modify _)
  · exact noThrow_err

/-- Whether a message can be processed does not depend on the header in the context. -/
theorem Harmless.arrived {dm : NewData} {s₁ : Broker} (hok : Harmless s dm.handle hdr payload)
    (ha : Arrived dm (s.enter dm.handle) s₁ hdr payload) : Harmless s₁ dm.handle hdr payload := by
  obtain ⟨c, c₁, hc, hc₁, -, hcc, -⟩ := ha.ctx
  have htbl : s₁.tbl = s.tbl := ha.tbl.1
  have hproc : s₁.process = s.process := ha.tbl.2
  have hnode : s₁.thisNode = s.thisNode := by rw [Broker.thisNode, hproc, Broker.thisNode]
  have hid : (s₁.contextOf dm.handle).id = (s.contextOf dm.handle).id := by
    rw [Broker.contextOf_enter] at hc
    cases hc
    rw [Broker.contextOf_eq hc₁, hcc]
  have hlive : ∀ nid aid, s₁.liveProxy nid aid = s.liveProxy nid aid := by
    cases ha <;> exact fun _ _ => rfl
  refine ⟨fun hb => ?_, hok.handshake, fun ho hd => ?_⟩
  · rw [htbl]
    exact hok.binds (hb.congr hproc (by rw [htbl]))
  · rw [hnode] at hd
    rw [hproc, hnode]
    refine ⟨(hok.dispatch ho hd).1, fun a hmem hf => ?_⟩
    have := (hok.dispatch ho hd).2 a hmem hf
    simpa only [CanResolve, Reaches, hlive, htbl, hnode, hid] using this

/-- A connection that waits for a header reads `header_size` bytes. -/
theorem Framed.parse {dm : NewData} (h : Framed s) (hr : s.rdSize? dm.handle = some dm.buf.length)
    (hs : (s.contextOf dm.handle).cstate ≠ .awaitPayload) :
    ∃ hdr, BoostActor.parse readHdr dm.buf = .ok hdr := by
  rcases h dm.handle _ hr with ⟨-, hn⟩ | ⟨hst, -⟩
  · obtain ⟨hdr, hread⟩ := Takes.readHdr dm.buf (Nat.le_of_eq hn.symm)
    exact ⟨hdr, by rw [BoostActor.parse, hread]; rfl⟩
  · exact absurd hst hs

/-- Handling harmless data does not throw. -/
theorem noThrow_handle {dm : NewData} {c : ConnectionContext} (h : Routed s) (hreg : Registered s)
    (hf : Framed s) (hr : s.rdSize? dm.handle = some dm.buf.length) (hok : harmless s (.newData dm))
    (hc : (s.enter dm.handle).ctx.find? dm.handle = some c) :
    NoThrow (handle dm (c.cstate = .awaitPayload)) (s.enter dm.handle) := by
  have ht : (s.enter dm.handle).thisContext = some dm.handle := rfl
  have hctx : (s.enter dm.handle).context? = some c := by rw [Broker.context?_eq ht, hc]
  have h₀ : Routed (s.enter dm.handle) :=
    ⟨h.wired.enter (by rw [hr]; rfl), h.sound.congr rfl rfl⟩
  have hof : c = s.contextOf dm.handle := by
    rw [Broker.contextOf_enter] at hc
    exact (Option.some.inj hc).symm
  -- a complete message is processed without throwing
  have hmsg : ∀ {s₁ hdr payload}, Arrived dm (s.enter dm.handle) s₁ hdr payload → Routed s₁ →
      NoThrow (processMessage dm.handle hdr payload dm.via) s₁ := by
    intro s₁ hdr payload ha h₁
    have hreg₁ : Registered s₁ := by cases ha <;> exact hreg.kept ⟨rfl, rfl⟩
    have ht₁ : s₁.thisContext = some dm.handle := by rw [ha.kept.thisContext, ht]
    obtain ⟨_, _, _, hc₁, -⟩ := ha.ctx
    have hcompl := ha.completed
    rw [Broker.completed_enter] at hcompl
    exact noThrow_processMessage h₁ hreg₁ ht₁ hc₁ _ fun hv => (hok _ _ hcompl hv).arrived ha
  refine noThrow_ite (fun hs => ?_) fun hs => ?_
  · -- a payload that completes a message, or a header
    rw [decide_eq_true_iff] at hs
    refine after_bind.mpr ((after_context hctx).mpr
      (noThrow_ite (fun _ => noThrow_err) fun hl => ?_))
    exact hmsg (.payload hc hs (by simpa using hl)) h₀
  · rw [decide_eq_true_iff] at hs
    obtain ⟨hdr, hread⟩ := hf.parse hr (by rw [← hof]; exact hs)
    rw [hread]
    refine after_bind.mpr (after_pure.mpr (after_bind.mpr ((after_modifyContext ht).mpr ?_)))
    refine noThrow_ite (fun _ => noThrow_pure _) fun hl => ?_
    have hl0 : hdr.payloadLen = 0 := by
      apply UInt32.toNat_inj.mp
      have := UInt32.lt_iff_toNat_lt.not.mp hl
      simpa using this
    exact hmsg (.header hc hs hread hl0)
      ⟨h₀.wired.modifyCtx fun _ => rfl, h₀.sound.congr rfl rfl⟩

/-- Data that completes no message that cannot be processed does not end the broker. -/
theorem running_of_harmless {dm : NewData} (h : Routed s) (hreg : Registered s) (hf : Framed s)
    (hr : s.rdSize? dm.handle = some dm.buf.length) (hok : harmless s (.newData dm)) :
    OthersKept dm.handle s (s.exec (.newData dm)) ∧
      (s.exec (.newData dm)).exitReason = s.exitReason := by
  have ho : (s.rdSize? dm.handle).isSome = true := by rw [hr]; rfl
  have hhandle : ∀ c, (s.enter dm.handle).ctx.find? dm.handle = some c →
      After (handle dm (c.cstate = .awaitPayload)) (s.enter dm.handle)
        (fun next s₁ => Handled dm (s.enter dm.handle) next s₁ ∧ True) fun _ _ => False :=
    fun c hc => ((noThrow_handle h hreg hf hr hok hc).and (handle_spec dm rfl hc)).mono
      (fun _ _ h => ⟨h.2, trivial⟩) fun _ _ h => h.1
  have hspec := newDataMsg_spec ho hhandle
  unfold After at hspec
  -- the handler ran to an end, so only closing or going on is left
  unfold Broker.exec Broker.invoke
  dsimp only
  split
  · next hdone =>
    rw [hdone] at hspec
    obtain ⟨next, s₁, ⟨hh, -⟩, rfl⟩ := hspec
    have hkept := OthersKept.enter.trans (.handled (h.wired.enter ho) hh)
    have hexit : s₁.exitReason = s.exitReason := hh.kept.exitReason
    split
    · exact ⟨(hkept.trans .drop).trans (.flush _), hexit⟩
    · refine ⟨(hkept.trans (.settle next)).trans (.flush _), ?_⟩
      rw [← hexit]
      unfold Broker.settle
      split
      · rfl
      · split <;> rfl
  · next herr =>
    rw [herr] at hspec
    exact hspec.elim

/-! ## Runs -/

/-- A broker that has terminated has its direct routes in order. -/
theorem DirectOk.terminated (h : DirectOk s) : DirectOk s.terminate := by
  refine ⟨?_, fun what => ?_⟩
  · rw [Broker.terminate_tbl]
    exact RoutingTable.sound_empty _
  · rw [Broker.terminate_history]
    exact h.asserts what

/-- Data that binds free handles keeps the direct routes in order. -/
theorem DirectOk.data {dm : NewData} (h : DirectOk s)
    (hb : ∀ hdr payload, s.completed dm = some (hdr, payload) →
      BindsFreeHandle dm.handle hdr payload s) (hd : DataStep dm s s') : DirectOk s' := by
  have h₀ : DirectOk (s.enter dm.handle) := h.of_eq rfl rfl ⟨[], by simp [Broker.enter], by simp⟩
  have hb₀ : ∀ hdr payload, (s.enter dm.handle).completed dm = some (hdr, payload) →
      BindsFreeHandle dm.handle hdr payload (s.enter dm.handle) := by
    intro hdr payload hm
    rw [Broker.completed_enter] at hm
    exact (hb hdr payload hm).congr rfl rfl
  cases hd with
  | closed hh =>
    exact (h₀.handled hb₀ hh).of_eq rfl rfl ⟨[], by simp [Broker.flush, Broker.drop], by simp⟩
  | @«open» s₁ next _ hh =>
    have hsame : (s₁.settle dm.handle next).tbl = s₁.tbl ∧
        (s₁.settle dm.handle next).history = s₁.history := by
      unfold Broker.settle
      split
      · exact ⟨rfl, rfl⟩
      · split <;> exact ⟨rfl, rfl⟩
    refine (h₀.handled hb₀ hh).of_eq ?_ ?_ ⟨[], ?_, by simp⟩
    · exact congrArg _ hsame.1
    · exact congrArg _ hsame.1
    · rw [List.append_nil]
      exact hsame.2
  | terminated hf => exact (h₀.failed hb₀ hf).terminated

/-- A handshake that can be processed binds a free handle. -/
theorem bindsFreeHandle_of_harmless {dm : NewData} (hw : Wired s)
    (ho : (s.rdSize? dm.handle).isSome = true) (hok : harmless s (.newData dm)) (hdr : Header)
    (payload : Option Bytes) (hm : s.completed dm = some (hdr, payload)) :
    BindsFreeHandle dm.handle hdr payload s := by
  intro hb
  have hv : hdr.valid = true := by cases hb <;> assumption
  refine ⟨(hok hdr payload hm hv).binds hb, fun hinv => ?_⟩
  rw [hinv, hw.real] at ho
  cases ho

theorem DirectOk.calm (h : DirectOk s) (hc : Calm s s') : DirectOk s' := by
  obtain ⟨es, he, hes⟩ := hc.history
  refine h.of_eq hc.directByHdl hc.directByNid ⟨es, he, fun what hmem => ?_⟩
  cases hes _ hmem

/-- Every harmless step keeps the direct routes in order. -/
theorem DirectOk.step {i : Input} (h : DirectOk s) (hw : Wired s) (hok : harmless s i)
    (hs : s.step i = some s') : DirectOk s' := by
  -- answers to promises are no failed assertions
  have hanswers : ∀ {hdl what}, .assertionFailed what ∉ s.disconnectAnswers hdl := by
    intro hdl what hmem
    unfold Broker.disconnectAnswers at hmem
    split at hmem <;> simp at hmem
  cases step_cases hw hs with
  | other ho => exact h.calm ho.calm
  | ended ho => exact (h.calm ho.calm).terminated
  | data ho hd => exact h.data (bindsFreeHandle_of_harmless hw ho hok) hd
  | @accepted hdl _ _ _ _ hq =>
    have h₀ : DirectOk (s.opened hdl) := h.of_eq rfl rfl ⟨[], by simp [Broker.opened], by simp⟩
    exact (h₀.quiet hq).of_eq rfl rfl ⟨[], by simp [Broker.configure], by simp⟩
  | requested => exact h.of_eq rfl rfl ⟨[_], rfl, by simp⟩
  | refused => exact h.of_eq rfl rfl ⟨[_], rfl, by simp⟩
  | lost => exact h.of_eq rfl rfl ⟨_, rfl, fun _ => hanswers⟩
  | @lostNode hdl nid _ _ _ hb =>
    have hgone : s.tbl.directByNid.find? nid = some hdl := h.sound.lookup hb
    refine ⟨(h.sound.removeDirect hgone).congr rfl rfl, fun what hmem => ?_⟩
    simp only [List.mem_append, List.mem_singleton, reduceCtorEq, or_false] at hmem
    rcases hmem with hmem | hmem
    · exact h.asserts what hmem
    · exact hanswers hmem

theorem directOk_of_initial : s.isInitial → DirectOk s := by
  rintro ⟨process, order, rfl⟩
  exact ⟨RoutingTable.sound_empty order, fun what hmem => by cases hmem⟩

/-- Every direct route is an open connection, and no assertion fails. -/
theorem directOk_of_reachable (h : Broker.Reachable harmless s) : DirectOk s := by
  have hinv : Wired s ∧ DirectOk s :=
    h.invariant (I := fun s => Wired s ∧ DirectOk s)
      (fun _ hi => ⟨.initial hi, directOk_of_initial hi⟩)
      fun _ _ _ hi hok hs => ⟨hi.1.step hs, hi.2.step hi.1 hok hs⟩
  exact hinv.2

/-- What an enabled input says about the broker and the connection. -/
theorem Broker.enabled_newData {dm : NewData} (he : s.enabled (.newData dm) = true) :
    s.exitReason = ExitReason.notExited ∧ s.rdSize? dm.handle = some dm.buf.length := by
  simp only [enabled, Bool.and_eq_true, decide_eq_true_eq] at he
  refine ⟨he.1, ?_⟩
  cases hf : s.scribes.find? dm.handle with
  | none => simp [hf] at he
  | some d =>
    simp only [hf, decide_eq_true_eq] at he
    rw [rdSize?, hf, Option.map_some, he.2]

/-- How the parts of a broker fit together. -/
structure Consistent (s : Broker) : Prop where
  /-- a connection with a direct route is open, and its node, which is valid, is reached by it -/
  routes : ∀ hdl nid, s.tbl.directByHdl.find? hdl = some nid →
    s.tbl.directByNid.find? nid = some hdl ∧ nid.valid = true ∧ (s.rdSize? hdl).isSome = true
  /-- a node with a direct route has no indirect one -/
  direct : ∀ nid hdl, s.tbl.directByNid.find? nid = some hdl →
    hdl ≠ ConnectionHandle.invalid ∧ s.tbl.indirect.find? nid = none
  /-- contexts are those of open connections -/
  contexts : ∀ hdl c, s.ctx.find? hdl = some c → (s.rdSize? hdl).isSome = true ∧ c.hdl = hdl
  /-- every connection reads what its context waits for -/
  frames : ∀ hdl n, s.rdSize? hdl = some n → (s.contextOf hdl).expects n
  /-- an entry of the registry that is not marked as exited refers to the actor with its id -/
  registry : ∀ key ref, s.registry.find? key = some (ref, ExitReason.notExited) →
    ∃ r act, ref = some r ∧ s.actors[r]? = some act ∧ act.id = key

end BoostActor
