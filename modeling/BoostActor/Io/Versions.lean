import BoostActor.Io.NoFaults

/-!
# Protocol versions

A server handshake carries the version of the protocol that its sender speaks, in the field for
operation data. `server_handshake_valid` only tests that the field is not zero; nothing compares it
with `basp::version`.

* `serverHandshake_refused` — a handshake that adds no route leaves the table as it is, up to the
  route of its own connection;
* `version_safe_iff` — which handshakes are treated as their version demands, in every reachable
  state;
* `version_ignored` — a handshake with another version that adds a direct route.
-/

namespace BoostActor

open Lib

variable {hdl : ConnectionHandle} {hdr : Header} {payload : Option Bytes} {via : List NodeId}
  {s s' : Broker} {dm : NewData}

-- -------------------------
-- Programs that do not touch the table
-- -------------------------

/-- The routing table stays as it is. -/
def SameTable (s s' : Broker) : Prop := s'.tbl = s.tbl

instance : Frame SameTable where
  refl _ := rfl
  trans h h' := Eq.trans h' h

/-- Flushing leaves the table alone. -/
theorem sameTable_flush (hdl : ConnectionHandle) :
    Within SameTable (flush hdl) s fun _ _ => True := by
  refine (within_byId hdl).bind ?_
  rintro _ _ - ⟨rfl, -⟩
  exact within_modify rfl trivial

/-- Announcing a proxy leaves the table alone. -/
theorem sameTable_announceProxy (c : ConnectionContext) (path : Route) (nid : NodeId)
    (aid : ActorId) : Within SameTable (announceProxy c path nid aid) s fun _ _ => True := by
  have hnew : Within SameTable (newProxy nid aid) s fun _ _ => True :=
    within_get (Within.bind (within_modify_eq rfl) fun _ _ _ _ => within_pure trivial)
  refine hnew.bind fun _ _ _ _ => (within_byId c.hdl).bind fun _ _ _ _ => ?_
  refine within_get (Within.bind (within_modify_eq rfl) fun _ _ _ _ => ?_)
  refine (sameTable_flush path.hdl).bind fun _ _ _ _ => ?_
  exact Within.bind (within_modify_eq rfl) fun _ _ _ _ => within_pure trivial

/-- Looking up a node with a direct route prunes nothing. -/
theorem sameTable_lookup {nid : NodeId} (hk : s.tbl.connected nid = true) :
    Within SameTable (lookup nid) s fun _ _ => True := by
  refine within_get (Within.bind (within_modify_eq ?_) fun _ _ _ _ => ?_)
  · exact if_pos hk
  · split
    · exact within_pure trivial
    · exact (within_byId _).bind fun _ _ _ _ => within_pure trivial

/-- A proxy of an actor on a node with a direct route. -/
theorem sameTable_makeProxy {nid : NodeId} (hk : s.tbl.connected nid = true) (aid : ActorId) :
    Within SameTable (makeProxy nid aid) s fun _ _ => True := by
  refine within_ite (fun _ => within_pure trivial) fun _ => ?_
  refine within_context.bind fun c s₁ _ hc => ?_
  rw [hc.1]
  have hlearn : Within SameTable (learnHandle c nid) s fun _ s' => s' = s := by
    refine within_get (within_ite (fun h => ?_) fun _ => within_pure rfl)
    simp [hk] at h
  refine hlearn.bind fun _ s₂ _ hs₂ => ?_
  rw [hs₂]
  refine (sameTable_lookup hk).bind fun path _ _ _ => ?_
  cases path with
  | none => exact within_pure trivial
  | some path =>
    exact (sameTable_announceProxy c path nid aid).bind fun _ _ _ _ => within_pure trivial

/-- `get_or_put` leaves the table alone for a node that is connected. -/
theorem sameTable_getOrPut {nid : NodeId} (hk : s.tbl.connected nid = true) (aid : ActorId) :
    Within SameTable (getOrPut nid aid) s fun _ _ => True := by
  refine Within.bind (within_modify_eq rfl) ?_
  rintro _ s₁ - rfl
  refine within_get ?_
  split
  · exact within_pure trivial
  · refine (sameTable_makeProxy (s := s.reserve nid aid) hk aid).bind fun r _ _ _ => ?_
    cases r with
    | none => exact within_pure trivial
    | some r => exact Within.bind (within_modify_eq rfl) fun _ _ _ _ => within_pure trivial

/-- Resolving an address leaves the table alone for a node that is connected. -/
theorem sameTable_resolve {nid : NodeId} (aid : ActorId)
    (hk : nid.equals s.thisNode = true ∨ s.tbl.connected nid = true) :
    Within SameTable (resolve nid aid) s fun _ _ => True := by
  refine within_get (within_ite (fun _ => within_pure trivial) fun hne => ?_)
  have hk : s.tbl.connected nid = true := hk.resolve_left hne
  refine (sameTable_getOrPut hk aid).bind fun r _ _ _ => ?_
  cases r with
  | none => exact within_pure trivial
  | some r => exact within_pure trivial

/-- Changing the context leaves the table alone. -/
theorem sameTable_modifyContext (f : ConnectionContext → ConnectionContext) :
    Within SameTable (modifyContext f) s fun _ s' => s'.thisNode = s.thisNode := by
  refine within_modify ?_ ?_
  · cases s.thisContext with
    | none => rfl
    | some hdl => rfl
  · cases s.thisContext with
    | none => rfl
    | some hdl => rfl

/-- The end of a handshake with this node, or with a node that has a direct route. -/
theorem sameTable_finalizeHandshake {nid : NodeId} (aid : ActorId) (sigs : List Bytes)
    (hk : nid.equals s.thisNode = true ∨ s.tbl.connected nid = true) :
    Within SameTable (finalizeHandshake nid aid sigs) s fun _ _ => True := by
  refine (sameTable_modifyContext _).bind fun _ s₁ h₁ hn₁ => ?_
  refine within_context.bind ?_
  rintro c _ - ⟨rfl, -⟩
  split
  · exact within_pure trivial
  · refine (sameTable_modifyContext _).bind fun _ s₂ h₂ hn₂ => ?_
    refine within_ite (fun _ => within_modify rfl trivial) fun _ => ?_
    have hk₂ : nid.equals s₂.thisNode = true ∨ s₂.tbl.connected nid = true := by
      rw [hn₂, hn₁, show s₂.tbl = s.tbl from h₂.trans h₁]
      exact hk
    refine (sameTable_resolve aid hk₂).bind fun addr s₃ _ _ => ?_
    have hremember : Within SameTable (rememberRemote nid c.remotePort addr) s₃ fun _ _ => True :=
      within_get (within_ite (fun _ => within_modify rfl trivial) fun _ => within_pure trivial)
    exact hremember.bind fun _ _ _ _ => within_modify rfl trivial

-- -------------------------
-- Handshakes that add no route
-- -------------------------

/-- The table without the direct route of a connection. -/
def RoutingTable.without (t : RoutingTable) (hdl : ConnectionHandle) : RoutingTable :=
  match t.directByHdl.find? hdl with
  | none => t
  | some nid => t.removeDirect hdl nid

/-- Erasing a direct route takes the connection out of the table. -/
theorem Broker.eraseDirect_tbl : (s.eraseDirect hdl).tbl = s.tbl.without hdl := by
  unfold RoutingTable.without
  cases hb : s.tbl.directByHdl.find? hdl with
  | none => rw [eraseDirect_of_unbound hb]
  | some nid => rw [eraseDirect_eq hb]

/-- Only a connection with a direct route makes a difference. -/
theorem RoutingTable.without_eq_iff {t : RoutingTable} :
    t.without hdl = t ↔ t.directByHdl.find? hdl = none := by
  unfold without
  cases hb : t.directByHdl.find? hdl with
  | none => simp
  | some nid =>
    refine ⟨fun heq => ?_, fun h => by cases h⟩
    have hsame : t.removeDirect hdl nid = t := heq
    have hnone : (t.removeDirect hdl nid).directByHdl.find? hdl = none := by simp [removeDirect]
    rw [hsame, hb] at hnone
    cases hnone

/-- A handshake that adds no direct route: it is invalid, or its source is this node or has a
direct route already. -/
def Broker.refuses (s : Broker) (hdr : Header) : Bool :=
  !hdr.valid || hdr.sourceNode.equals s.thisNode || s.tbl.connected hdr.sourceNode

/-- The payload of a valid handshake cannot be read. -/
def Header.unreadable (hdr : Header) (payload : Option Bytes) : Bool :=
  hdr.valid && match handshakePayload hdr payload with
    | .ok _ => false
    | .error _ => true

/-- What a server handshake that adds no direct route does to the table, if no exception is
thrown; one with a payload that cannot be read always ends with an exception. -/
theorem serverHandshake_refused (ho : hdr.operation = .serverHandshake) :
    After (processMessage hdl hdr payload via) s
      (fun next s' => hdr.unreadable payload = false ∧
        (s.refuses hdr = true → next = .closeConnection ∧ s'.tbl = s.tbl.without hdl))
      (fun _ _ => True) := by
  refine after_ite.mpr ⟨fun hv => ?_, fun hv => ?_⟩
  · simp only [Bool.not_eq_true'] at hv
    exact ⟨by simp [Header.unreadable, hv], fun _ => ⟨rfl, Broker.eraseDirect_tbl⟩⟩
  simp only [Bool.not_eq_true', Bool.not_eq_false] at hv
  -- the handshake is for this node, so nothing is forwarded
  refine after_bind.mpr (after_get.mpr (after_ite.mpr ⟨fun hf => ?_, fun _ => ?_⟩))
  · simp [Header.isHandshake, ho] at hf
  rw [ho]
  dsimp only
  refine after_bind.mpr ((ofExcept_spec (handshakePayload hdr payload)).mono ?_
    fun _ _ _ => trivial)
  rintro ⟨aid, sigs⟩ s' ⟨hs', hi⟩
  rw [hs']
  have hread : hdr.unreadable payload = false := by simp [Header.unreadable, hi]
  refine after_bind.mpr (after_get.mpr (after_ite.mpr ⟨fun hk => ?_, fun hk => ?_⟩))
  · refine after_bind.mpr (After.mono (sameTable_finalizeHandshake aid sigs
      (by simpa using hk)) ?_ fun _ _ _ => trivial)
    rintro _ s₁ ⟨h₁, -⟩
    -- the promise is kept, and then the route of the connection is erased
    refine ⟨hread, fun _ => ⟨rfl, ?_⟩⟩
    rw [Broker.eraseDirect_tbl, show s₁.tbl = s.tbl from h₁]
  · -- a new route: nothing to be shown here
    have hadd : s.refuses hdr = false := by
      simp only [Bool.or_eq_true, not_or, Bool.not_eq_true] at hk
      simp [Broker.refuses, hv, hk.1, hk.2]
    have hpost : ∀ (next : ConnectionState) (s₂ : Broker), hdr.unreadable payload = false ∧
        (s.refuses hdr = true → next = .closeConnection ∧ s₂.tbl = s.tbl.without hdl) :=
      fun _ _ => ⟨hread, fun h => by simp [hadd] at h⟩
    exact (after_final (P := fun _ => True)).mpr trivial |>.mono (fun next s₂ _ => hpost next s₂)
      fun _ _ _ => trivial

-- -------------------------
-- Steps
-- -------------------------

/-- Data that completes a server handshake is refused if its source is known already. -/
theorem handle_refused {c : ConnectionContext} (hm : s.completed dm = some (hdr, payload))
    (ho : hdr.operation = .serverHandshake) (ht : s.thisContext = some dm.handle)
    (hc : s.ctx.find? dm.handle = some c) :
    After (handle dm (c.cstate = .awaitPayload)) s
      (fun next s' => hdr.unreadable payload = false ∧
        (s.refuses hdr = true → next = .closeConnection ∧ s'.tbl = s.tbl.without dm.handle))
      (fun _ _ => True) := by
  have hctx : s.context? = some c := by rw [Broker.context?_eq ht, hc]
  simp only [Broker.completed, hc, Option.getD_some, completes] at hm
  refine after_ite.mpr ⟨fun hs => ?_, fun hs => ?_⟩
  · -- the payload arrives, the header has been stored
    rw [if_pos hs, Option.ite_none_right_eq_some, Option.some.injEq, Prod.mk.injEq] at hm
    obtain ⟨hl, hh, hp⟩ := hm
    refine after_bind.mpr ((after_context hctx).mpr (after_ite.mpr ⟨fun hne => ?_, fun _ => ?_⟩))
    · exact absurd hl hne
    · rw [hh, hp]
      exact serverHandshake_refused ho
  · -- a header without a payload arrives
    rw [if_neg hs] at hm
    refine after_bind.mpr ((ofExcept_spec (parse readHdr dm.buf)).mono ?_ fun _ _ _ => trivial)
    rintro hdr' s' ⟨hs', hr⟩
    rw [hr] at hm
    simp only [Option.ite_none_right_eq_some, Option.some.injEq, Prod.mk.injEq] at hm
    obtain ⟨hl, hh, hp⟩ := hm
    rw [hs', hh]
    refine after_bind.mpr ((after_modifyContext ht).mpr
      (after_ite.mpr ⟨fun hpos => ?_, fun _ => ?_⟩))
    · rw [← hh, hl] at hpos
      exact absurd hpos (by decide)
    · rw [hp]
      exact (serverHandshake_refused (s := s.storeHdr dm.handle hdr) ho)

/-- What a server handshake of a node with another version must not do. -/
structure VersionSafe (hdl : ConnectionHandle) (hdr : Header) (s s' : Broker) : Prop where
  /-- a direct route is added for this version only -/
  adds : ∀ nid, s.tbl.connected nid = false → s'.tbl.connected nid = true →
    hdr.operationData = version
  /-- any other version closes the connection and leaves the table as it is, unless an exception
  ends the broker -/
  closes : hdr.operationData ≠ version → s'.scribes.contains hdl = false ∧
    (s'.tbl = s.tbl ∨ s'.exitReason ≠ ExitReason.notExited)

/-- A server handshake that is treated as its version demands: it has the right one, or it is
refused for another reason on a connection without a direct route, or its payload cannot be
read. -/
def Broker.versionChecked (s : Broker) (hdl : ConnectionHandle) (hdr : Header)
    (payload : Option Bytes) : Prop :=
  hdr.operationData = version ∨ hdr.unreadable payload = true ∨
    s.tbl.directByHdl.find? hdl = none ∧ s.refuses hdr = true

/-- The state after a server handshake that adds no direct route. -/
theorem Broker.exec_refused (ho : (s.rdSize? dm.handle).isSome = true)
    (hm : s.completed dm = some (hdr, payload)) (hop : hdr.operation = .serverHandshake) :
    (∃ s₁ : Broker, s.exec (.newData dm) = s₁.terminate) ∨ hdr.unreadable payload = false ∧
      (s.refuses hdr = true → (s.exec (.newData dm)).scribes.contains dm.handle = false ∧
        (s.exec (.newData dm)).tbl = s.tbl.without dm.handle) := by
  have hm' : (s.enter dm.handle).completed dm = some (hdr, payload) := by
    rw [completed_enter, hm]
  have h := newDataMsg_spec (E := fun _ _ => True)
    (H := fun next s₁ => hdr.unreadable payload = false ∧
      (s.refuses hdr = true → next = .closeConnection ∧ s₁.tbl = s.tbl.without dm.handle))
    ho fun c hc => ((handle_spec dm rfl hc).and (handle_refused hm' hop rfl hc)).mono
      (fun _ _ h => h) fun _ _ _ => trivial
  unfold After at h
  unfold exec invoke
  dsimp only
  split
  · next hok =>
    rw [hok] at h
    obtain ⟨next, s₁, ⟨-, hread, hclose⟩, rfl⟩ := h
    refine Or.inr ⟨hread, fun hr => ?_⟩
    obtain ⟨hn, htbl⟩ := hclose hr
    rw [if_pos hn]
    refine ⟨?_, htbl⟩
    show ((s₁.scribes.erase dm.handle).adjust dm.handle _).contains dm.handle = false
    simp [UMap.contains, UMap.find?_adjust]
  · next hs' _ => exact Or.inl ⟨hs', rfl⟩

theorem Broker.terminate_exited : s.terminate.exitReason ≠ ExitReason.notExited := by
  rw [terminate_exitReason]
  decide

/-- A broker that has terminated takes part in nothing. -/
theorem Broker.terminate_versionSafe : VersionSafe hdl hdr s s'.terminate := by
  obtain ⟨_, _, he⟩ := s'.terminate_eq
  refine ⟨fun nid _ hk => ?_, fun _ => ⟨?_, Or.inr terminate_exited⟩⟩
  · rw [he] at hk
    simp [RoutingTable.connected, RoutingTable.lookupDirect, RoutingTable.empty] at hk
  · rw [he]
    simp [UMap.contains]

/-- A handshake that is not refused adds a direct route, whatever else its data does. -/
theorem Handled.connected_of_accepted (hw : Wired s) (ho : (s.rdSize? dm.handle).isSome = true)
    (hm : s.completed dm = some (hdr, payload)) (hop : hdr.operation = .serverHandshake)
    (hread : hdr.unreadable payload = false) (hr : s.refuses hdr = false)
    {next : ConnectionState} {s₁ : Broker} (hh : Handled dm (s.enter dm.handle) next s₁) :
    s₁.tbl.connected hdr.sourceNode = true ∧ next = .awaitHeader := by
  simp only [Broker.refuses, Bool.or_eq_false_iff, Bool.not_eq_false'] at hr
  obtain ⟨⟨hv, hn⟩, hk⟩ := hr
  have hval := hdr.sourceNode_valid hv (by simp [Header.isHandshake, hop])
  have hm' := Broker.completed_enter (s := s) dm
  rw [hm] at hm'
  cases hh with
  | mismatch hc hs hl => simp [Broker.completed, hc, completes, hs, hl] at hm'
  | @await _ hdr' hc hs hrd hl =>
    have hne : hdr'.payloadLen ≠ 0 := by
      intro h0
      rw [h0] at hl
      exact absurd hl (by decide)
    simp [Broker.completed, hc, completes, hs, hrd, hne] at hm'
  | @message s₂ _ hdr' payload' _ ha hp =>
    have heq := ha.completed
    rw [hm', Option.some.injEq, Prod.mk.injEq] at heq
    obtain ⟨rfl, rfl⟩ := heq
    obtain ⟨_, c₁, -, hc₁, -⟩ := ha.ctx
    have hw₂ : Wired s₂ := (hw.enter ho).arrived ha
    have htbl : s₂.tbl = s.tbl := ha.tbl.1
    have hnode : s₂.thisNode = s.thisNode := by rw [Broker.thisNode, ha.tbl.2]; rfl
    have hbound := hw₂.connected_of_bind hc₁ hval (by rw [htbl, hk])
    have hkept : ∀ {s₃ : Broker}, s₃.tbl.directByNid =
        (s₂.bindDirect dm.handle hdr.sourceNode).tbl.directByNid →
        s₃.tbl.connected hdr.sourceNode = true := by
      intro s₃ hs₃
      rw [RoutingTable.connected, RoutingTable.lookupDirect, hs₃]
      exact hbound
    -- the ways to process a server handshake; only one adds its source
    cases hp with
    | reject hr =>
      rcases hr with hr | hr
      · rw [hv] at hr
        cases hr
      · rw [hop] at hr
        cases hr.1
    | side _ hT _ _ =>
      cases hT with
      | dispatched h | announced h | ignored h => rw [hop] at h; cases h
      | relayed hh _ => simp [Header.isHandshake, hop] at hh
      | unreadable _ hi => simp [Header.unreadable, hv, hi] at hread
    | kill _ h _ | client _ h _ _ => rw [hop] at h; cases h
    | refuse _ _ _ hk' _ =>
      rw [hnode, htbl, hn, hk] at hk'
      simp at hk'
    | server _ _ _ _ _ hq hf hq' _ =>
      refine ⟨hkept ?_, rfl⟩
      rw [hq'.untouched.directByNid, ← hq.untouched.directByNid]
      cases hf with
      | silent => rfl
      | answer _ _ _ _ hq'' => exact hq''.untouched.directByNid
    | noRoute _ _ _ _ _ hq hnone =>
      have hroute := RoutingTable.route?_of_connected (hkept hq.untouched.directByNid)
      rw [hnone] at hroute
      cases hroute

/-- A handshake that is not refused adds a direct route. -/
theorem Broker.connected_of_accepted (hw : Wired s) (ho : (s.rdSize? dm.handle).isSome = true)
    (hm : s.completed dm = some (hdr, payload)) (hop : hdr.operation = .serverHandshake)
    (hread : hdr.unreadable payload = false) (hr : s.refuses hdr = false)
    (hlive : (s.exec (.newData dm)).exitReason = ExitReason.notExited) :
    (s.exec (.newData dm)).tbl.connected hdr.sourceNode = true := by
  have hhandled : ∀ {next : ConnectionState} {s₁ : Broker},
      Handled dm (s.enter dm.handle) next s₁ → s₁.tbl.connected hdr.sourceNode = true ∧
        next = .awaitHeader := fun hh => hh.connected_of_accepted hw ho hm hop hread hr
  have hcases := newData_cases dm ho
  generalize s.exec (.newData dm) = s' at hcases hlive ⊢
  cases hcases with
  | closed hh => exact absurd (hhandled hh).2 (by simp)
  | @«open» s₁ next _ hh =>
    have hsettle : (s₁.settle dm.handle next).tbl = s₁.tbl := by
      unfold settle
      split
      · rfl
      · split <;> rfl
    show (s₁.settle dm.handle next).tbl.connected hdr.sourceNode = true
    rw [hsettle]
    exact (hhandled hh).1
  | @terminated s₁ _ =>
    exact absurd hlive terminate_exited

/-- **In every reachable state, a server handshake adds a direct route for this node's version
only, and one with another version closes the connection and leaves the routing table as it is, if
the version is the right one, or the handshake is refused for another reason on a connection
without a direct route, or its payload cannot be read; if the broker survives the step, only
then.** -/
theorem version_safe_iff (h : Broker.Reachable anyStep s) (he : s.enabled (.newData dm) = true)
    (hm : s.completed dm = some (hdr, payload)) (hop : hdr.operation = .serverHandshake) :
    (s.versionChecked dm.handle hdr payload →
      VersionSafe dm.handle hdr s (s.exec (.newData dm))) ∧
    ((s.exec (.newData dm)).exitReason = ExitReason.notExited →
      VersionSafe dm.handle hdr s (s.exec (.newData dm)) →
        s.versionChecked dm.handle hdr payload) := by
  have hw := wired_of_reachable h
  have ho := rdSize?_of_enabled he
  constructor
  · rintro (hver | hread | ⟨hfree, hr⟩)
    · exact ⟨fun _ _ _ => hver, fun hne => absurd hver hne⟩
    · -- the payload cannot be read, so the broker ends
      rcases Broker.exec_refused ho hm hop with ⟨s₁, hs₁⟩ | ⟨hread', -⟩
      · rw [hs₁]
        exact Broker.terminate_versionSafe
      · rw [hread] at hread'
        cases hread'
    · rcases Broker.exec_refused ho hm hop with ⟨s₁, hs₁⟩ | ⟨-, hclose⟩
      · rw [hs₁]
        exact Broker.terminate_versionSafe
      · obtain ⟨hclosed, htbl⟩ := hclose hr
        rw [RoutingTable.without_eq_iff.mpr hfree] at htbl
        refine ⟨fun nid hk hk' => ?_, fun _ => ⟨hclosed, Or.inl htbl⟩⟩
        rw [htbl, hk] at hk'
        cases hk'
  · intro hlive hsafe
    by_cases hver : hdr.operationData = version
    · exact Or.inl hver
    obtain ⟨-, htbl⟩ := hsafe.closes hver
    have htbl : (s.exec (.newData dm)).tbl = s.tbl := htbl.resolve_right fun hne => hne hlive
    rcases Broker.exec_refused ho hm hop with ⟨s₁, hs₁⟩ | ⟨hread, hclose⟩
    · rw [hs₁] at hlive
      exact absurd hlive Broker.terminate_exited
    -- the payload is readable and the broker runs, so the handshake was refused or accepted
    refine Or.inr (Or.inr ?_)
    cases hr : s.refuses hdr with
    | true =>
      -- the table is the same, so the connection had no direct route
      rw [(hclose hr).2] at htbl
      exact ⟨RoutingTable.without_eq_iff.mp htbl, rfl⟩
    | false =>
      -- a direct route would have been added
      have hk' := Broker.connected_of_accepted hw ho hm hop hread hr hlive
      simp only [Broker.refuses, Bool.or_eq_false_iff] at hr
      rw [htbl, hr.2] at hk'
      cases hk'

namespace Sample

/-- A server handshake of node 2 with any version. -/
def speaks (operationData : UInt64) : Header := { serverHello (node 2) with operationData }

/-- Node 1 has asked for a connection. -/
def dialed : Broker := (broker 1).exec (dials 7)

theorem dialed_reachable : Broker.Reachable anyStep dialed :=
  (broker_reachable 1).exec trivial (by decide +kernel)

end Sample

open Sample in
/-- A server handshake with the right version. -/
theorem version_safe_dialed :
    (dialed.versionChecked (conn 7) (speaks version) none →
      VersionSafe (conn 7) (speaks version) dialed (dialed.exec (hears 7 (speaks version)))) ∧
    ((dialed.exec (hears 7 (speaks version))).exitReason = ExitReason.notExited →
      VersionSafe (conn 7) (speaks version) dialed (dialed.exec (hears 7 (speaks version))) →
        dialed.versionChecked (conn 7) (speaks version) none) :=
  have he : dialed.enabled (hears 7 (speaks version)) = true := by decide +kernel
  version_safe_iff dialed_reachable he (by decide +kernel) rfl

open Sample in
/-- A server handshake with version 2 adds a direct route, although this node speaks version 1. -/
theorem version_ignored : ¬ ∀ s dm hdr payload, Broker.Reachable anyStep s →
    s.enabled (.newData dm) = true → s.completed dm = some (hdr, payload) →
    hdr.operation = .serverHandshake → VersionSafe dm.handle hdr s (s.exec (.newData dm)) := by
  intro h
  have hsafe := h dialed (received 7 (writeHdr (speaks 2))) (speaks 2) none dialed_reachable
    (by decide +kernel) (by decide +kernel) rfl
  have hadds := hsafe.adds (node 2) (by decide +kernel) (by decide +kernel)
  exact absurd hadds (by decide)

end BoostActor
