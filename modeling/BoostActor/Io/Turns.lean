import BoostActor.Io.Quiet

/-!
# What one message does

Inversion of `instance::handle` for a complete message: the states that the broker
can be in after it, in terms of side activities (`Quiet`) and of the few operations
that change connections: binding a direct route, identifying
the peer of a context, answering a connect request, erasing a direct route.

* `finalizeHandshake_spec` — the end of a server handshake;
* `processMessage_spec` — a complete message: `Processed`, or `Aborted` when an
  exception is thrown.
-/

namespace BoostActor

open Lib

/-! ## Turns -/

/-- The actors of other nodes that a dispatched message names: its sender and every
handle in it. -/
def named (process : Process) (hdr : Header) (payload : Option Bytes) (nid : NodeId)
    (aid : ActorId) : Prop :=
  nid = hdr.sourceNode ∧ aid = hdr.sourceActor ∧ hdr.sourceNode.equals process.id = false ∨
    ∃ a ∈ (Message.deserialize process.types (payload.getD [])).addrs,
      a.foreign process.id ∧ nid = a.node ∧ aid = a.aid

namespace Turn

/-- A dispatched message for this node. -/
def dispatched (process : Process) (hdl : ConnectionHandle) (hdr : Header)
    (payload : Option Bytes) : Turn :=
  { hdl
    names := named process hdr payload
    sender := fun nid => nid = hdr.sourceNode ∧ hdr.sourceNode.equals process.id = false
    anchors := True }

/-- A message for another node. If there is no route to it, its source is told so. -/
def relayed (s : Broker) (hdl : ConnectionHandle) (hdr : Header) (payload : Option Bytes)
    (via : List NodeId) : Turn :=
  { hdl
    relays := fun h p v => h = hdr ∧ p = payload.getD [] ∧ v = via
    bounces := fun nid => nid = hdr.sourceNode ∧ hdr.sourceNode.equals s.thisNode = false ∧
      s.tbl.route? hdr.destNode = none ∧ (s.tbl.route? hdr.sourceNode).isSome = true }

/-- An announcement of a proxy. -/
def announced (hdl : ConnectionHandle) (hdr : Header) : Turn :=
  { hdl
    watches := fun nid aid rsn =>
      nid = hdr.sourceNode ∧ aid = hdr.destActor ∧ rsn ≠ ExitReason.notExited }

/-- A handshake that binds the connection to its source; that of a server is answered. -/
def introduced (hdl : ConnectionHandle) (hdr : Header) : Turn :=
  { hdl
    peer := fun n => n = hdr.sourceNode
    greets := fun n => n = hdr.sourceNode ∧ hdr.operation = .serverHandshake }

/-- The actor that a server handshake publishes, unless it is one of this node. -/
def published (process : Process) (hdl : ConnectionHandle) (nid : NodeId) (aid : ActorId) : Turn :=
  { hdl
    names := fun n a => n = nid ∧ a = aid ∧ nid.equals process.id = false
    anchors := True }

end Turn

/-! ## Messages -/

/-- The peer of a connection is known, and its connect request is being answered. -/
def Broker.identify (s : Broker) (hdl : ConnectionHandle) (nid : NodeId) : Broker :=
  s.modifyCtx hdl fun c => { c with id := nid }

/-- The callback of a context is taken. -/
def Broker.takeCallback (s : Broker) (hdl : ConnectionHandle) : Broker :=
  s.modifyCtx hdl fun c => { c with callback := none }

/-- How `finalize_handshake` ends. -/
inductive Finalized (hdl : ConnectionHandle) (nid : NodeId) (aid : ActorId) (s : Broker) :
    Broker → Prop where
  | silent {c : ConnectionContext} (hc : s.ctx.find? hdl = some c) (hcb : c.callback = none) :
      Finalized hdl nid aid s (s.identify hdl nid)
  | answer {c : ConnectionContext} {cb : Promise} {s₁ : Broker} (addr : ActorAddr)
      (sigs : List Bytes) (hc : s.ctx.find? hdl = some c) (hcb : c.callback = some cb)
      (hq : Quiet (Turn.published s.process hdl nid aid)
      ((s.identify hdl nid).takeCallback hdl) s₁) :
      Finalized hdl nid aid s (s₁.note (.answered cb (.ok nid addr sigs)))

/-- The side activities that a message of the given kind causes. -/
inductive Side (hdl : ConnectionHandle) (hdr : Header) (payload : Option Bytes)
    (via : List NodeId) (s : Broker) : Turn → Prop where
  | dispatched (ho : hdr.operation = .dispatchMessage) (hp : payloadValid hdr payload = true)
      (hd : hdr.destNode.equals s.thisNode = true) :
      Side hdl hdr payload via s (Turn.dispatched s.process hdl hdr payload)
  | relayed (hh : hdr.isHandshake = false) (hd : hdr.destNode.equals s.thisNode = false) :
      Side hdl hdr payload via s (Turn.relayed s hdl hdr payload via)
  | announced (ho : hdr.operation = .announceProxyInstance)
      (hd : hdr.destNode.equals s.thisNode = true) :
      Side hdl hdr payload via s (Turn.announced hdl hdr)
  /-- a second client handshake -/
  | ignored (ho : hdr.operation = .clientHandshake) :
      Side hdl hdr payload via s { hdl }
  /-- a server handshake with a payload that cannot be read -/
  | unreadable {e : Fault} (ho : hdr.operation = .serverHandshake)
      (hi : handshakePayload hdr payload = .error e) : Side hdl hdr payload via s { hdl }

/-- The first message to a node that has just been bound is a client handshake. -/
def Greeted (hdl : ConnectionHandle) (hdr : Header) (s s₁ : Broker) : Prop :=
  ∃ s₀ path, s₀ = { s.bindDirect hdl hdr.sourceNode with
      tbl := (s.bindDirect hdl hdr.sourceNode).tbl.prune hdr.sourceNode } ∧
    s₀.tbl.route? hdr.sourceNode = some path ∧ s.scribes.contains path.hdl = true ∧
    Quiet (Turn.introduced hdl hdr) (s₀.write path.hdl
      ⟨.clientHandshake, 0, 0, s.thisNode, hdr.sourceNode, 0, 0⟩ none) s₁

/-- How a complete message is processed when nothing is thrown. -/
inductive Processed (hdl : ConnectionHandle) (hdr : Header) (payload : Option Bytes)
    (via : List NodeId) (s : Broker) : ConnectionState → Broker → Prop where
  | reject (hr : hdr.valid = false ∨
        hdr.operation = .dispatchMessage ∧ payloadValid hdr payload = false) :
      Processed hdl hdr payload via s .closeConnection (s.eraseDirect hdl)
  | side {T : Turn} {s' : Broker} (hv : hdr.valid = true) (hT : Side hdl hdr payload via s T)
      (hq : Quiet T s s')
      (hw : hdr.operation = .announceProxyInstance → hdr.destNode.equals s.thisNode = true →
        Watched hdr.sourceNode hdr.destActor s s') :
      Processed hdl hdr payload via s .awaitHeader s'
  | kill (hv : hdr.valid = true) (ho : hdr.operation = .killProxyInstance)
      (hd : hdr.destNode.equals s.thisNode = true) :
      Processed hdl hdr payload via s .awaitHeader
        (s.eraseProxy hdr.sourceNode hdr.sourceActor hdr.operationData.toUInt32)
  | refuse {aid : ActorId} {sigs : List Bytes} {s₁ : Broker} (hv : hdr.valid = true)
      (ho : hdr.operation = .serverHandshake)
      (hi : handshakePayload hdr payload = .ok (aid, sigs))
      (hk : hdr.sourceNode.equals s.thisNode = true ∨ s.tbl.connected hdr.sourceNode = true)
      (hf : Finalized hdl hdr.sourceNode aid s s₁) :
      Processed hdl hdr payload via s .closeConnection (s₁.eraseDirect hdl)
  | server {aid : ActorId} {sigs : List Bytes} {s₁ s₂ s' : Broker} (hv : hdr.valid = true)
      (ho : hdr.operation = .serverHandshake)
      (hi : handshakePayload hdr payload = .ok (aid, sigs))
      (hn : hdr.sourceNode.equals s.thisNode = false)
      (hk : s.tbl.connected hdr.sourceNode = false)
      (hq : Quiet (Turn.introduced hdl hdr) (s.bindDirect hdl hdr.sourceNode) s₁)
      (hf : Finalized hdl hdr.sourceNode aid s₁ s₂)
      (hq' : Quiet (Turn.introduced hdl hdr) s₂ s') (hg : Greeted hdl hdr s s₁) :
      Processed hdl hdr payload via s .awaitHeader s'
  | noRoute {aid : ActorId} {sigs : List Bytes} {s₁ : Broker} (hv : hdr.valid = true)
      (ho : hdr.operation = .serverHandshake)
      (hi : handshakePayload hdr payload = .ok (aid, sigs))
      (hn : hdr.sourceNode.equals s.thisNode = false)
      (hk : s.tbl.connected hdr.sourceNode = false)
      (hq : Quiet (Turn.introduced hdl hdr) (s.bindDirect hdl hdr.sourceNode) s₁)
      (hr : s₁.tbl.route? hdr.sourceNode = none) :
      Processed hdl hdr payload via s .closeConnection (s₁.eraseDirect hdl)
  | client {s' : Broker} (hv : hdr.valid = true) (ho : hdr.operation = .clientHandshake)
      (hk : s.tbl.connected hdr.sourceNode = false)
      (hq : Quiet (Turn.introduced hdl hdr) (s.bindDirect hdl hdr.sourceNode) s') :
      Processed hdl hdr payload via s .awaitHeader s'

/-- A handshake that adds a direct route. -/
inductive Binding (hdr : Header) (payload : Option Bytes) (s : Broker) : Prop where
  | server {aid : ActorId} {sigs : List Bytes} (hv : hdr.valid = true)
      (ho : hdr.operation = .serverHandshake)
      (hi : handshakePayload hdr payload = .ok (aid, sigs))
      (hn : hdr.sourceNode.equals s.thisNode = false)
      (hk : s.tbl.connected hdr.sourceNode = false)
  | client (hv : hdr.valid = true) (ho : hdr.operation = .clientHandshake)
      (hk : s.tbl.connected hdr.sourceNode = false)

/-- The states in which an exception can end the processing of a message. -/
inductive Aborted (hdl : ConnectionHandle) (hdr : Header) (payload : Option Bytes)
    (via : List NodeId) (s : Broker) : Broker → Prop where
  | side {T : Turn} {s' : Broker} (hv : hdr.valid = true) (hT : Side hdl hdr payload via s T)
      (hq : Quiet T s s') : Aborted hdl hdr payload via s s'
  | refuse {aid : ActorId} {sigs : List Bytes} {s' : Broker} (hv : hdr.valid = true)
      (ho : hdr.operation = .serverHandshake)
      (hi : handshakePayload hdr payload = .ok (aid, sigs))
      (hq : Quiet (Turn.published s.process hdl hdr.sourceNode aid)
        ((s.identify hdl hdr.sourceNode).takeCallback hdl) s') :
      Aborted hdl hdr payload via s s'
  | bound {s' : Broker} (hb : Binding hdr payload s)
      (hq : Quiet (Turn.introduced hdl hdr) (s.bindDirect hdl hdr.sourceNode) s') :
      Aborted hdl hdr payload via s s'
  | answering {aid : ActorId} {s₁ s' : Broker} (hb : Binding hdr payload s)
      (hq : Quiet (Turn.introduced hdl hdr) (s.bindDirect hdl hdr.sourceNode) s₁)
      (hq' : Quiet (Turn.published s₁.process hdl hdr.sourceNode aid)
        ((s₁.identify hdl hdr.sourceNode).takeCallback hdl) s') :
      Aborted hdl hdr payload via s s'
  | finalized {aid : ActorId} {s₁ s₂ s' : Broker} (hb : Binding hdr payload s)
      (hq : Quiet (Turn.introduced hdl hdr) (s.bindDirect hdl hdr.sourceNode) s₁)
      (hf : Finalized hdl hdr.sourceNode aid s₁ s₂)
      (hq' : Quiet (Turn.introduced hdl hdr) s₂ s') :
      Aborted hdl hdr payload via s s'

variable {hdl : ConnectionHandle} {hdr : Header} {payload : Option Bytes} {via : List NodeId}
  {s : Broker}

/-! ### Contexts -/

/-- The current context is read as it is. -/
theorem after_context {c : ConnectionContext} {Q : ConnectionContext → Broker → Prop}
    {E : Fault → Broker → Prop} (h : s.context? = some c) : After context s Q E ↔ Q c s := by
  unfold context
  rw [after_bind, after_get, h]
  exact Iff.rfl

/-- A scribe that is there is found. -/
theorem after_byId {c : Scribe} {Q : Scribe → Broker → Prop} {E : Fault → Broker → Prop}
    (h : s.scribes.find? hdl = some c) : After (byId hdl) s Q E ↔ Q c s := by
  unfold byId
  rw [after_bind, after_get, h]
  exact Iff.rfl

/-- The handle of a connection that is closed. -/
theorem after_byId_closed {Q : Scribe → Broker → Prop} {E : Fault → Broker → Prop}
    (hc : s.scribes.find? hdl = none) :
    After (byId hdl) s Q E ↔ E (.invalidArgument "invalid handle") s := by
  simp [byId, hc]

/-- `by_id` returns the scribe of an open connection, and fails for any other handle. -/
theorem byId_spec (k : ConnectionHandle) :
    After (byId k) s (fun d s' => s' = s ∧ s.scribes.find? k = some d)
      fun _ s' => s' = s ∧ ¬ s.scribes.contains k = true := by
  cases hd : s.scribes.find? k with
  | none =>
    refine (after_byId_closed hd).mpr ⟨rfl, ?_⟩
    rw [UMap.contains, hd]
    exact Bool.false_ne_true
  | some d => exact (after_byId hd).mpr ⟨rfl, rfl⟩

/-- Changing the current context changes that of the connection. -/
theorem after_modifyContext {f : ConnectionContext → ConnectionContext}
    {Q : PUnit → Broker → Prop} {E : Fault → Broker → Prop} (h : s.thisContext = some hdl) :
    After (modifyContext f) s Q E ↔ Q () (s.modifyCtx hdl f) := by
  unfold modifyContext
  rw [after_modify, h]

theorem Broker.context?_eq (h : s.thisContext = some hdl) : s.context? = s.ctx.find? hdl := by
  rw [context?, h, Option.bind_some]

/-- The context of a handle after a change. -/
theorem Broker.find?_modifyCtx (f : ConnectionContext → ConnectionContext)
    (hdl hdl' : ConnectionHandle) : (s.modifyCtx hdl f).ctx.find? hdl' =
      if hdl = hdl' then (s.ctx.find? hdl').map f else s.ctx.find? hdl' := by
  show (s.ctx.adjust hdl f).find? hdl' = _
  rw [UMap.find?_adjust]
  by_cases h : hdl = hdl'
  · rw [if_pos (beq_iff_eq.mpr h), if_pos h]
  · rw [if_neg (by simpa using h), if_neg h]

theorem quiet_rememberRemote {T : Turn} (nid : NodeId) (port : UInt16) (addr : ActorAddr) :
    Within (Quiet T) (rememberRemote nid port addr) s fun _ _ => True :=
  within_get (within_ite (fun _ => within_modify (Act.remember nid port addr).quiet trivial)
    fun _ => within_pure trivial)

/-- `finalize_handshake`, when the context of `hdl` is the current one. -/
theorem finalizeHandshake_spec {nid : NodeId} {aid : ActorId} {sigs : List Bytes}
    {c : ConnectionContext} (ht : s.thisContext = some hdl) (hc : s.ctx.find? hdl = some c) :
    After (finalizeHandshake nid aid sigs) s (fun _ s' => Finalized hdl nid aid s s')
      (fun _ s' => Quiet (Turn.published s.process hdl nid aid)
        ((s.identify hdl nid).takeCallback hdl) s') := by
  have ht₁ : (s.identify hdl nid).thisContext = some hdl := ht
  have hctx : (s.identify hdl nid).context? = some { c with id := nid } := by
    rw [Broker.context?_eq ht₁, Broker.identify, Broker.find?_modifyCtx, if_pos rfl, hc]
    rfl
  refine after_bind.mpr ((after_modifyContext ht).mpr ?_)
  refine after_bind.mpr ((after_context hctx).mpr ?_)
  dsimp only
  split
  · next hcb => exact .silent hc hcb
  · next cb hcb =>
    refine after_bind.mpr ((after_modifyContext ht₁).mpr (after_ite.mpr ⟨?_, ?_⟩))
    · exact fun _ => Finalized.answer _ _ hc hcb .refl
    intro _
    have hres := quiet_resolve (T := Turn.published s.process hdl nid aid)
      (s := (s.identify hdl nid).takeCallback hdl) trivial
      fun hne => ⟨Eq.refl nid, Eq.refl aid, hne⟩
    refine after_bind.mpr (After.mono hres ?_ fun _ _ h => h)
    rintro addr s₁ ⟨h₁, -⟩
    refine after_bind.mpr (After.mono (quiet_rememberRemote nid _ addr) ?_ fun _ _ h => h₁.trans h)
    rintro _ s₂ ⟨h₂, -⟩
    exact Finalized.answer _ _ hc hcb (h₁.trans h₂)

/-! ### Direct routes -/

/-- What binding a connection to a node leaves in the history. -/
def Broker.bindEvents (s : Broker) (hdl : ConnectionHandle) (nid : NodeId) : List Event :=
  (if s.tbl.directByHdl.contains hdl then [.assertionFailed (.handleUnbound hdl)] else []) ++
    (if s.tbl.directByNid.contains nid then [.assertionFailed (.nodeUnbound nid)] else []) ++
    .newConnectionEstablished nid :: (s.tbl.hops nid).map (.routeLost · nid)

/-- Noting events in a loop appends them to the history. -/
theorem Broker.foldl_note {α : Type} (f : α → Event) (xs : List α) :
    xs.foldl (fun s x => s.note (f x)) s = { s with history := s.history ++ xs.map f } := by
  induction xs generalizing s with
  | nil => simp
  | cons x xs ih =>
    rw [List.foldl_cons, ih]
    simp [note]

/-- Binding a connection changes the routing table and adds to the history. -/
theorem Broker.bindDirect_eq (hdl : ConnectionHandle) (nid : NodeId) : s.bindDirect hdl nid =
    { s with
      tbl := (s.tbl.addDirect hdl nid).removeIndirect nid
      history := s.history ++ s.bindEvents hdl nid } := by
  unfold bindDirect eraseIndirect addDirect
  rw [foldl_note]
  unfold assert bindEvents
  by_cases hh : s.tbl.directByHdl.contains hdl = true
  · by_cases hn : s.tbl.directByNid.contains nid = true
    · simp [hh, hn, note, RoutingTable.hops, RoutingTable.addDirect]
    · simp [hh, hn, note, RoutingTable.hops, RoutingTable.addDirect]
  · by_cases hn : s.tbl.directByNid.contains nid = true
    · simp [hh, hn, note, RoutingTable.hops, RoutingTable.addDirect]
    · simp [hh, hn, note, RoutingTable.hops, RoutingTable.addDirect]

/-! ### Complete messages -/

/-- The rest of a server handshake, once its route is bound. -/
theorem bound_spec {c : ConnectionContext} {aid : ActorId} {sigs : List Bytes} {was : Bool}
    (ht : s.thisContext = some hdl) (hc : s.ctx.find? hdl = some c) (hv : hdr.valid = true)
    (ho : hdr.operation = .serverHandshake)
    (hi : handshakePayload hdr payload = .ok (aid, sigs))
    (hn : hdr.sourceNode.equals s.thisNode = false)
    (hk : s.tbl.connected hdr.sourceNode = false) :
    After (do
        match ← lookup hdr.sourceNode with
        | none => err hdl
        | some path =>
          writeClientHandshake path.hdl hdr.sourceNode
          learnedNewNodeDirectly hdr.sourceNode was
          finalizeHandshake hdr.sourceNode aid sigs
          flush path.hdl
          return .awaitHeader)
      (s.bindDirect hdl hdr.sourceNode) (Processed hdl hdr payload via s)
      (fun _ => Aborted hdl hdr payload via s) := by
  have hb : Binding hdr payload s := .server hv ho hi hn hk
  have hbind := Broker.bindDirect_eq (s := s) hdl hdr.sourceNode
  refine after_bind.mpr (After.mono (quiet_openLookup (T := Turn.introduced hdl hdr) _) ?_
    fun _ _ h => .bound hb h)
  -- the node is bound; what follows may throw at each call
  rintro path s₁ ⟨h₁, hpath, hopen⟩
  cases path with
  | none => exact .noRoute hv ho hi hn hk h₁ (by rw [hpath.1]; simp [← hpath.2])
  | some path =>
    refine after_bind.mpr (After.mono (within_get (quiet_write (T := Turn.introduced hdl
      hdr) (.clientHandshake ⟨rfl, ho⟩ (route?_of_lookup hpath)))) ?_ fun _ _ h => .bound hb
        (h₁.trans h))
    rintro _ s₂ ⟨h₂, hs₂⟩
    refine after_bind.mpr (After.mono (quiet_learnedNewNodeDirectly (T := Turn.introduced hdl
      hdr) (Or.inl rfl) was) ?_ fun _ _ h => .bound hb (h₁.trans (h₂.trans h)))
    rintro _ s₃ ⟨h₃, -⟩
    have hg : Greeted hdl hdr s s₃ := by
      refine ⟨s₁, path, hpath.1, route?_of_lookup hpath, ?_, ?_⟩
      · have ho := hopen path rfl
        rw [hbind] at ho
        exact ho
      · have hself : s₁.thisNode = s.thisNode := by
          rw [h₁.untouched.thisNode, hbind]
          rfl
        rw [hself] at hs₂
        rw [← hs₂]
        exact h₃
    -- after the client handshake and the lookup, the context is still there
    have hq := h₁.trans (h₂.trans h₃)
    have ht₃ : s₃.thisContext = some hdl := by rw [hq.untouched.thisContext, hbind, ht]
    have hc₃ : s₃.ctx.find? hdl = some c := by rw [hq.untouched.ctx, hbind, hc]
    refine after_bind.mpr ((finalizeHandshake_spec ht₃ hc₃).mono (fun _ s₄ hf => ?_)
      fun _ _ h => ?_)
    · refine after_bind.mpr (After.mono (quiet_flush (T := Turn.introduced hdl hdr) _)
        (fun _ _ h => ?_) fun _ _ h => ?_)
      · exact .server hv ho hi hn hk hq hf h.1 hg
      · exact .finalized hb hq hf h
    · exact .answering hb hq h

/-- A server handshake is processed or broken off as the cases say. -/
theorem serverHandshake_spec {c : ConnectionContext} (ht : s.thisContext = some hdl)
    (hc : s.ctx.find? hdl = some c) (hv : hdr.valid = true)
    (ho : hdr.operation = .serverHandshake) :
    After (serverHandshake hdl hdr payload) s (Processed hdl hdr payload via s)
      (fun _ => Aborted hdl hdr payload via s) := by
  refine after_bind.mpr ((ofExcept_spec (handshakePayload hdr payload)).mono ?_ ?_)
  · rintro ⟨aid, sigs⟩ s' ⟨hs', hi⟩
    rw [hs']
    refine after_bind.mpr (after_get.mpr (after_ite.mpr ⟨fun hk => ?_, fun hk => ?_⟩))
    · -- connection to self, or a second connection
      refine after_bind.mpr ((finalizeHandshake_spec ht hc).mono (fun _ s₁ hf => ?_)
        fun _ _ h => ?_)
      · exact .refuse hv ho hi (by simpa using hk) hf
      · exact .refuse hv ho hi h
    · simp only [Bool.or_eq_true, not_or, Bool.not_eq_true] at hk
      refine after_bind.mpr (after_modify.mpr ?_)
      exact bound_spec ht hc hv ho hi hk.1 hk.2
  · rintro e _ ⟨rfl, hi⟩
    exact .side hv (.unreadable ho hi) .refl

/-- A client handshake is processed or broken off as the cases say. -/
theorem clientHandshake_spec (hv : hdr.valid = true) (ho : hdr.operation = .clientHandshake) :
    After (clientHandshake hdl hdr) s (Processed hdl hdr payload via s)
      (fun _ => Aborted hdl hdr payload via s) := by
  refine after_bind.mpr (after_get.mpr (after_ite.mpr ⟨fun _ => ?_, fun hk => ?_⟩))
  · exact .side hv (.ignored ho) .refl fun ho' _ => by simp [ho] at ho'
  · rw [Bool.not_eq_true] at hk
    refine after_bind.mpr (after_modify.mpr ?_)
    refine after_bind.mpr (After.mono (quiet_learnedNewNodeDirectly (T := Turn.introduced hdl
      hdr) (Or.inl rfl) _) (fun _ _ h => ?_) fun _ _ h => ?_)
    · exact .client hv ho hk h.1
    · exact .bound (.client hv ho hk) h

/-- Dispatching a message is processed or broken off as the cases say. -/
theorem dispatchMessage_spec (hv : hdr.valid = true) (ho : hdr.operation = .dispatchMessage)
    (hd : hdr.destNode.equals s.thisNode = true) :
    After (dispatchMessage hdl hdr payload) s (Processed hdl hdr payload via s)
      (fun _ => Aborted hdl hdr payload via s) := by
  refine after_ite.mpr ⟨fun hp => ?_, fun hp => ?_⟩
  · exact .reject (Or.inr ⟨ho, by simpa using hp⟩)
  · simp only [Bool.not_eq_true', Bool.not_eq_false] at hp
    have hside : Side hdl hdr payload via s (Turn.dispatched s.process hdl hdr payload) :=
      .dispatched ho hp hd
    have hsrc : hdr.sourceNode.equals s.thisNode = false →
        named s.process hdr payload hdr.sourceNode hdr.sourceActor :=
      fun hne => Or.inl ⟨rfl, rfl, hne⟩
    -- learning the source, reading the message and delivering it are one turn
    have hall : Within (Quiet (Turn.dispatched s.process hdl hdr payload))
        (learnSource hdl hdr.sourceNode >>= fun _ => deserialize (payload.getD []) >>= fun _ =>
          deliver hdr.sourceNode hdr.sourceActor hdr.destNode hdr.destActor hdr.operationData)
        s fun _ _ => True := by
      refine (quiet_learnSource (T := Turn.dispatched s.process hdl hdr payload)
        (fun hne => ⟨rfl, hne⟩) hsrc).bind
        fun _ s₁ h₁ _ => ?_
      refine (quiet_deserialize trivial ?_).bind fun _ s₂ h₂ _ => quiet_deliver trivial ?_ ?_
      · intro a ha hf
        rw [h₁.untouched.process] at ha
        rw [h₁.untouched.thisNode] at hf
        exact Or.inr ⟨a, ha, hf, rfl, rfl⟩
      · rw [h₂.untouched.thisNode, h₁.untouched.thisNode]
        exact hsrc
      · rw [h₂.untouched.thisNode, h₁.untouched.thisNode, hd]
    have hprog : (learnSource hdl hdr.sourceNode >>= fun _ =>
          deserialize (payload.getD []) >>= fun _ =>
            deliver hdr.sourceNode hdr.sourceActor hdr.destNode hdr.destActor hdr.operationData
              >>= fun _ => pure ConnectionState.awaitHeader) =
        ((learnSource hdl hdr.sourceNode >>= fun _ => deserialize (payload.getD []) >>= fun _ =>
            deliver hdr.sourceNode hdr.sourceActor hdr.destNode hdr.destActor hdr.operationData)
          >>= fun _ => pure ConnectionState.awaitHeader) := by
      simp only [bind_assoc]
    show After (learnSource hdl hdr.sourceNode >>= fun _ => _) s _ _
    rw [hprog]
    refine after_bind.mpr (After.mono hall (fun _ _ h => ?_) fun _ _ h => ?_)
    · exact .side hv hside h.1 fun ho' _ => by simp [ho] at ho'
    · exact .side hv hside h

/-- What becomes of a complete message. -/
theorem processMessage_spec {c : ConnectionContext} (ht : s.thisContext = some hdl)
    (hc : s.ctx.find? hdl = some c) :
    After (processMessage hdl hdr payload via) s (Processed hdl hdr payload via s)
      (fun _ => Aborted hdl hdr payload via s) := by
  refine after_ite.mpr ⟨fun hv => ?_, fun hv => ?_⟩
  · -- the header is not valid, so that the message is rejected
    exact .reject (Or.inl (by simpa using hv))
  simp only [Bool.not_eq_true', Bool.not_eq_false] at hv
  refine after_bind.mpr (after_get.mpr (after_ite.mpr ⟨fun hf => ?_, fun hf => ?_⟩))
  · -- needs forwarding
    simp only [Bool.and_eq_true, Bool.not_eq_true'] at hf
    refine after_bind.mpr (After.mono (quiet_forwardMessage
      (T := Turn.relayed s hdl hdr payload via) ⟨rfl, rfl, rfl⟩
      (fun hs hd hr => ⟨rfl, hs, hd, hr⟩) hf.2 hf.1) (fun _ _ h => ?_) fun _ _ h => ?_)
    · exact .side hv (.relayed hf.1 hf.2) h.1 fun _ hd => by simp [hf.2] at hd
    · exact .side hv (.relayed hf.1 hf.2) h
  have hdest : hdr.isHandshake = false → hdr.destNode.equals s.thisNode = true := by
    intro hh
    simpa [hh] using hf
  split
  · next ho => exact serverHandshake_spec ht hc hv ho
  · next ho => exact clientHandshake_spec hv ho
  · next ho => exact dispatchMessage_spec hv ho (hdest (by simp [Header.isHandshake, ho]))
  · next ho =>
    have hd := hdest (by simp [Header.isHandshake, ho])
    refine after_bind.mpr (After.mono (quiet_proxyAnnounced (T := Turn.announced hdl hdr)
      fun _ hr => ⟨rfl, rfl, hr⟩)
      (fun _ _ h => ?_) fun _ _ h => ?_)
    · exact .side hv (.announced ho hd) h.1 fun _ _ => h.2
    · exact .side hv (.announced ho hd) h
  · next ho => exact .kill hv ho (hdest (by simp [Header.isHandshake, ho]))
  · next ho => simp [Header.valid, ho] at hv

end BoostActor
