import BoostActor.Io.DirectRoutes

/-!
# Connections, contexts and routes

The invariant that ties the connections of a broker together. It holds in every
run, whatever the peers do: a handle with a direct route has a context, a handle
with a context is open, and a node with a direct route has no indirect one.

* `Wired` — the invariant;
* `Wired.processed`, `Wired.data` — it survives messages;
* `wired_of_reachable` — it holds in every reachable state;
* `step_cases` — so a step is one of a few things: the inversion lemma that
  invariants of whole runs use.
-/

namespace BoostActor

open Lib

/-- How connections, contexts and routes fit together. -/
structure Wired (s : Broker) : Prop where
  /-- the node of a handle is bound to that handle -/
  half : ∀ {hdl nid}, s.tbl.directByHdl.find? hdl = some nid →
    s.tbl.directByNid.find? nid = some hdl
  /-- a handle with a direct route has a context -/
  bound : ∀ {hdl nid}, s.tbl.directByHdl.find? hdl = some nid → ∃ c, s.ctx.find? hdl = some c
  /-- only valid nodes have direct routes -/
  names : ∀ {hdl nid}, s.tbl.directByHdl.find? hdl = some nid → nid.valid = true
  /-- a handle with a context is open, and the context knows its handle -/
  opened : ∀ {hdl c}, s.ctx.find? hdl = some c → (s.rdSize? hdl).isSome = true ∧ c.hdl = hdl
  /-- the invalid handle is never open -/
  real : s.rdSize? ConnectionHandle.invalid = none
  /-- no node is bound to the invalid handle -/
  nids : ∀ {nid hdl}, s.tbl.directByNid.find? nid = some hdl → hdl ≠ ConnectionHandle.invalid
  /-- a node with a direct route has no indirect one -/
  direct : ∀ {nid hdl}, s.tbl.directByNid.find? nid = some hdl → s.tbl.indirect.find? nid = none

variable {hdl : ConnectionHandle} {hdr : Header} {payload : Option Bytes} {via : List NodeId}
  {s s' : Broker}

namespace Wired

/-- In a wired broker a node is connected exactly if it has a direct entry. -/
theorem connected_iff (h : Wired s) {nid : NodeId} :
    s.tbl.connected nid = true ↔ ∃ hdl, s.tbl.directByNid.find? nid = some hdl := by
  rw [RoutingTable.connected_iff]
  exact ⟨fun ⟨hdl, hf, _⟩ => ⟨hdl, hf⟩, fun ⟨hdl, hf⟩ => ⟨hdl, hf, h.nids hf⟩⟩

/-- In a wired broker a node that is not connected has no entry. -/
theorem find?_of_not_connected (h : Wired s) {nid : NodeId} (hc : s.tbl.connected nid = false) :
    s.tbl.directByNid.find? nid = none := by
  cases hf : s.tbl.directByNid.find? nid with
  | none => rfl
  | some hdl =>
    rw [h.connected_iff.mpr ⟨hdl, hf⟩] at hc
    cases hc

/-- The handle of the node that a handle is bound to. -/
theorem lookupDirect_of_bound (h : Wired s) {nid : NodeId}
    (hb : s.tbl.directByHdl.find? hdl = some nid) : s.tbl.lookupDirect nid = hdl := by
  rw [RoutingTable.lookupDirect, h.half hb]
  rfl

theorem connected_of_bound (h : Wired s) {nid : NodeId}
    (hb : s.tbl.directByHdl.find? hdl = some nid) : s.tbl.connected nid = true :=
  h.connected_iff.mpr ⟨hdl, h.half hb⟩

/-- Steps that change neither direct routes nor contexts nor connections, and give
indirect routes only to nodes without a direct one. -/
theorem of_eq (h : Wired s) (hh : s'.tbl.directByHdl = s.tbl.directByHdl)
    (hn : s'.tbl.directByNid = s.tbl.directByNid) (hc : s'.ctx = s.ctx)
    (hr : ∀ hdl, s'.rdSize? hdl = s.rdSize? hdl)
    (hi : ∀ nid hdl, s.tbl.directByNid.find? nid = some hdl → s.tbl.indirect.find? nid = none →
      s'.tbl.indirect.find? nid = none) : Wired s' := by
  refine ⟨?_, ?_, ?_, ?_, ?_, ?_, ?_⟩
  · rw [hh, hn]
    exact h.half
  · rw [hh, hc]
    exact h.bound
  · rw [hh]
    exact h.names
  · intro hdl c
    rw [hc, hr]
    exact h.opened
  · rw [hr]
    exact h.real
  · rw [hn]
    exact h.nids
  · intro nid hdl hf
    rw [hn] at hf
    exact hi nid hdl hf (h.direct hf)

/-- Learning a route to a node without connection. -/
theorem addHop (h : Wired s) {hop dest : NodeId} (hc : s.tbl.connected dest = false) :
    Wired (s.addHop hop dest) := by
  refine h.of_eq rfl rfl rfl (fun _ => rfl) fun nid hdl hf hi => ?_
  show (s.tbl.indirect.set _ _).find? nid = none
  rw [UMap.find?_set]
  split
  · next hk =>
    rw [← UMap.find?_congr _ hk, h.find?_of_not_connected hc] at hf
    cases hf
  · exact hi

/-- An act keeps the broker wired. -/
theorem act {T : Turn} (h : Wired s) (ha : Act T s s') : Wired s' := by
  refine h.of_eq ha.untouched.directByHdl ha.untouched.directByNid ha.untouched.ctx ha.rdSize?
    fun nid hdl hf hi => ?_
  cases ha with
  | prune target =>
    show (s.tbl.prune target).indirect.find? nid = none
    unfold RoutingTable.prune
    split
    · exact hi
    · rw [UMap.find?_adjust, hi]
      simp
  | learn _ _ _ hc => exact (h.addHop hc).direct hf
  | _ => exact hi

theorem quiet {T : Turn} (h : Wired s) (hq : Quiet T s s') : Wired s' :=
  hq.preserves (fun _ _ => act) h

theorem killsOnly (h : Wired s) (hk : KillsOnly s s') : Wired s' := by
  obtain ⟨_, _, _, rfl⟩ := hk
  exact h.of_eq rfl rfl rfl (fun _ => rfl) fun _ _ _ hi => hi

theorem note (h : Wired s) (e : Event) : Wired (s.note e) :=
  h.of_eq rfl rfl rfl (fun _ => rfl) fun _ _ _ hi => hi

/-- Changing the data of a context. -/
theorem modifyCtx (h : Wired s) {f : ConnectionContext → ConnectionContext}
    (hf : ∀ c, (f c).hdl = c.hdl) : Wired (s.modifyCtx hdl f) := by
  refine ⟨h.half, fun hb => ?_, h.names, fun {hdl' c} hc => ?_, h.real, h.nids, h.direct⟩
  · obtain ⟨c, hc⟩ := h.bound hb
    rw [Broker.find?_modifyCtx, hc]
    split
    · exact ⟨f c, rfl⟩
    · exact ⟨c, rfl⟩
  · rw [Broker.find?_modifyCtx] at hc
    split at hc
    · rw [Option.map_eq_some_iff] at hc
      obtain ⟨c₀, hc₀, rfl⟩ := hc
      rw [hf]
      exact h.opened hc₀
    · exact h.opened hc

/-- Binding a handle that is open and has a context. -/
theorem bind (h : Wired s) {nid : NodeId} {c : ConnectionContext}
    (hc : s.ctx.find? hdl = some c) (hval : nid.valid = true)
    (hk : s.tbl.connected nid = false) : Wired (s.bindDirect hdl nid) := by
  have hn := h.find?_of_not_connected hk
  have hv : hdl ≠ ConnectionHandle.invalid := by
    rintro rfl
    have := (h.opened hc).1
    rw [h.real] at this
    cases this
  rw [Broker.bindDirect_eq]
  refine ⟨fun {hdl' nid'} hb => ?_, fun {hdl' nid'} hb => ?_, fun {hdl' nid'} hb => ?_, h.opened,
    h.real, fun {nid' hdl'} hf => ?_, fun {nid' hdl'} hf => ?_⟩
  · -- the handles and nodes that were bound stay so, and the new pair is free
    show (s.tbl.directByNid.emplace nid hdl).find? nid' = some hdl'
    replace hb : (s.tbl.directByHdl.emplace hdl nid).find? hdl' = some nid' := hb
    rw [UMap.find?_emplace] at hb
    rw [UMap.find?_emplace_of_none hn]
    cases hf : s.tbl.directByHdl.find? hdl' with
    | some n =>
      rw [hf] at hb
      cases hb
      have hhalf := h.half hf
      have hne : ¬ (nid == nid') = true := by
        intro he
        rw [← UMap.find?_congr _ he, hn] at hhalf
        cases hhalf
      rw [if_neg hne, hhalf]
    | none =>
      rw [hf, Option.none_or] at hb
      split at hb
      · next he =>
        cases hb
        rw [if_pos BEq.rfl, beq_iff_eq.mp he]
      · cases hb
  · replace hb : (s.tbl.directByHdl.emplace hdl nid).find? hdl' = some nid' := hb
    rw [UMap.find?_emplace] at hb
    cases hf : s.tbl.directByHdl.find? hdl' with
    | some n => exact h.bound hf
    | none =>
      rw [hf, Option.none_or] at hb
      split at hb
      · next he =>
        rw [← beq_iff_eq.mp he]
        exact ⟨c, hc⟩
      · cases hb
  · replace hb : (s.tbl.directByHdl.emplace hdl nid).find? hdl' = some nid' := hb
    rw [UMap.find?_emplace] at hb
    cases hf : s.tbl.directByHdl.find? hdl' with
    | some n =>
      rw [hf] at hb
      cases hb
      exact h.names hf
    | none =>
      rw [hf, Option.none_or] at hb
      split at hb
      · cases hb
        exact hval
      · cases hb
  · replace hf : (s.tbl.directByNid.emplace nid hdl).find? nid' = some hdl' := hf
    rw [UMap.find?_emplace_of_none hn] at hf
    split at hf
    · cases hf
      exact hv
    · exact h.nids hf
  · show (s.tbl.indirect.erase nid).find? nid' = none
    replace hf : (s.tbl.directByNid.emplace nid hdl).find? nid' = some hdl' := hf
    rw [UMap.find?_emplace_of_none hn] at hf
    rw [UMap.find?_erase]
    split at hf
    · next he => rw [if_pos he]
    · next he =>
      rw [if_neg he]
      exact h.direct hf

/-- A node that has just been bound has a direct route. -/
theorem connected_of_bind (h : Wired s) {nid : NodeId} {c : ConnectionContext}
    (hc : s.ctx.find? hdl = some c) (hv : nid.valid = true) (hk : s.tbl.connected nid = false) :
    (s.bindDirect hdl nid).tbl.connected nid = true := by
  refine (h.bind hc hv hk).connected_iff.mpr ⟨hdl, ?_⟩
  rw [Broker.bindDirect_eq]
  show (s.tbl.directByNid.emplace nid hdl).find? nid = some hdl
  rw [UMap.find?_emplace_of_none (h.find?_of_not_connected hk), if_pos BEq.rfl]

end Wired

/-- What is left of a connection that has lost its direct route. -/
theorem Broker.purgeState_eq_of_bound (h : Wired s) {nid : NodeId}
    (hb : s.tbl.directByHdl.find? hdl = some nid) :
    ∃ heap tasks proxies, s.purgeState nid =
      { s with
        heap, tasks, proxies
        ctx := s.ctx.erase hdl
        knownRemotes := s.knownRemotes.erase nid } := by
  obtain ⟨heap, tasks, proxies, he⟩ := purgeState_eq (h.connected_of_bound hb)
  rw [h.lookupDirect_of_bound hb] at he
  exact ⟨heap, tasks, proxies, he⟩

/-- After `erase_direct`, the handle is not bound. -/
theorem Broker.eraseDirect_unbound : (s.eraseDirect hdl).tbl.directByHdl.find? hdl = none := by
  cases hb : s.tbl.directByHdl.find? hdl with
  | none => rw [eraseDirect_of_unbound hb, hb]
  | some nid =>
    rw [eraseDirect_eq hb]
    exact UMap.find?_erase_self _ _

namespace Wired

/-- The maps after the direct route of a bound handle has been removed. -/
theorem removeDirect (h : Wired s) {nid : NodeId} (hb : s.tbl.directByHdl.find? hdl = some nid)
    (ht : s'.tbl.directByHdl = s.tbl.directByHdl.erase hdl)
    (hn : s'.tbl.directByNid = s.tbl.directByNid.erase nid)
    (hi : ∀ n, s.tbl.indirect.find? n = none → s'.tbl.indirect.find? n = none)
    (hc : ∀ hdl', hdl' ≠ hdl → s'.ctx.find? hdl' = s.ctx.find? hdl')
    (hopen : ∀ hdl' c, s'.ctx.find? hdl' = some c → (s'.rdSize? hdl').isSome = true ∧ c.hdl = hdl')
    (hreal : s'.rdSize? ConnectionHandle.invalid = none) : Wired s' := by
  -- what is left of both maps was there before
  have hby : ∀ {hdl' nid'}, s'.tbl.directByHdl.find? hdl' = some nid' →
      hdl' ≠ hdl ∧ s.tbl.directByHdl.find? hdl' = some nid' := by
    intro hdl' nid' hf
    rw [ht, UMap.find?_erase] at hf
    split at hf
    · cases hf
    · next hne => exact ⟨fun he => hne (by simp [he]), hf⟩
  have hni : ∀ {nid' hdl'}, s'.tbl.directByNid.find? nid' = some hdl' →
      s.tbl.directByNid.find? nid' = some hdl' := by
    intro nid' hdl' hf
    rw [hn, UMap.find?_erase] at hf
    split at hf
    · cases hf
    · exact hf
  refine ⟨fun {hdl' nid'} hf => ?_, fun {hdl' nid'} hf => ?_, fun hf => h.names (hby hf).2,
    fun hf => hopen _ _ hf, hreal, fun hf => h.nids (hni hf), fun hf => hi _ (h.direct (hni hf))⟩
  · obtain ⟨hne, hf⟩ := hby hf
    have hhalf := h.half hf
    rw [hn, UMap.find?_erase, if_neg, hhalf]
    intro he
    rw [← UMap.find?_congr _ he, h.half hb] at hhalf
    cases hhalf
    exact hne rfl
  · obtain ⟨hne, hf⟩ := hby hf
    rw [hc hdl' hne]
    exact h.bound hf

/-- Erasing a direct route keeps the broker wired. -/
theorem eraseDirect (h : Wired s) : Wired (s.eraseDirect hdl) := by
  cases hb : s.tbl.directByHdl.find? hdl with
  | none =>
    rw [Broker.eraseDirect_of_unbound hb]
    exact h
  | some nid =>
    obtain ⟨_, _, _, he⟩ := Broker.purgeState_eq_of_bound h hb
    rw [Broker.eraseDirect_eq hb, he]
    refine h.removeDirect hb rfl rfl (fun _ hi => hi) (fun hdl' hne => ?_)
      (fun hdl' c hc => ?_) h.real
    · show (s.ctx.erase hdl).find? hdl' = _
      rw [UMap.find?_erase, if_neg (by simpa using Ne.symm hne)]
    · replace hc : (s.ctx.erase hdl).find? hdl' = some c := hc
      rw [UMap.find?_erase] at hc
      split at hc
      · cases hc
      · exact h.opened hc

theorem identify (h : Wired s) (nid : NodeId) : Wired (s.identify hdl nid) :=
  h.modifyCtx fun _ => rfl

theorem takeCallback (h : Wired s) : Wired (s.takeCallback hdl) := h.modifyCtx fun _ => rfl

/-- The end of a handshake keeps the broker wired. -/
theorem finalized {nid : NodeId} {aid : ActorId} (h : Wired s)
    (hf : Finalized hdl nid aid s s') : Wired s' := by
  cases hf with
  | silent => exact h.identify nid
  | answer _ _ _ _ hq => exact ((h.identify nid).takeCallback.quiet hq).note _

/-- Processing a message keeps the broker wired. -/
theorem processed {next : ConnectionState} {c : ConnectionContext} (h : Wired s)
    (hc : s.ctx.find? hdl = some c) (hp : Processed hdl hdr payload via s next s') : Wired s' := by
  cases hp with
  | reject => exact h.eraseDirect
  | side _ _ hq => exact h.quiet hq
  | kill => exact h.killsOnly (Broker.eraseProxy_killsOnly _ _ _)
  | refuse _ _ _ _ hf => exact (h.finalized hf).eraseDirect
  | server hv ho _ _ hk hq hf hq' =>
    have hval := hdr.sourceNode_valid hv (by simp [Header.isHandshake, ho])
    exact (((h.bind hc hval hk).quiet hq).finalized hf).quiet hq'
  | noRoute hv ho _ _ hk hq =>
    have hval := hdr.sourceNode_valid hv (by simp [Header.isHandshake, ho])
    exact ((h.bind hc hval hk).quiet hq).eraseDirect
  | client hv ho hk hq =>
    have hval := hdr.sourceNode_valid hv (by simp [Header.isHandshake, ho])
    exact (h.bind hc hval hk).quiet hq

/-- A closed connection is not bound any more. -/
theorem unbound_of_closed (hp : Processed hdl hdr payload via s .closeConnection s') :
    s'.tbl.directByHdl.find? hdl = none := by
  cases hp with
  | reject => exact Broker.eraseDirect_unbound
  | refuse => exact Broker.eraseDirect_unbound
  | noRoute => exact Broker.eraseDirect_unbound

/-! ## Data -/

/-- Entering a connection that is open keeps the broker wired. -/
theorem enter (h : Wired s) (ho : (s.rdSize? hdl).isSome = true) : Wired (s.enter hdl) := by
  have hfind : ∀ hdl', (s.enter hdl).ctx.find? hdl' =
      (s.ctx.find? hdl').or
        (if hdl == hdl' then some (ConnectionContext.initial hdl) else none) :=
    fun hdl' => UMap.find?_emplace _ _ _ _
  refine ⟨h.half, fun hb => ?_, h.names, fun {hdl' c} hc => ?_, h.real, h.nids, h.direct⟩
  · obtain ⟨c, hc⟩ := h.bound hb
    rw [hfind, hc]
    exact ⟨c, rfl⟩
  · rw [hfind] at hc
    cases hf : s.ctx.find? hdl' with
    | some c' =>
      rw [hf] at hc
      cases hc
      exact h.opened hf
    | none =>
      rw [hf, Option.none_or] at hc
      split at hc
      · next he =>
        cases hc
        rw [← beq_iff_eq.mp he]
        exact ⟨ho, rfl⟩
      · cases hc

/-- Reading a header or payload keeps the broker wired. -/
theorem arrived {dm : NewData} {s₁ : Broker} (h : Wired s)
    (ha : Arrived dm s s₁ hdr payload) : Wired s₁ := by
  cases ha with
  | payload => exact h
  | header => exact h.modifyCtx fun _ => rfl

/-- Handling data keeps the broker wired. -/
theorem handled {dm : NewData} {next : ConnectionState} (h : Wired s)
    (hh : Handled dm s next s') : Wired s' := by
  cases hh with
  | mismatch => exact h.eraseDirect
  | await => exact h.modifyCtx fun _ => rfl
  | message ha hp =>
    obtain ⟨_, _, _, hc₁, -⟩ := ha.ctx
    exact (h.arrived ha).processed hc₁ hp

/-- A connection that is to be closed has lost its node. -/
theorem unbound_of_handled {dm : NewData} (hh : Handled dm s .closeConnection s') :
    s'.tbl.directByHdl.find? dm.handle = none := by
  cases hh with
  | mismatch => exact Broker.eraseDirect_unbound
  | message _ hp => exact unbound_of_closed hp

/-- Closing a connection that has no direct route. -/
theorem drop (h : Wired s) (hb : s.tbl.directByHdl.find? hdl = none) : Wired (s.drop hdl) := by
  have hrd : ∀ hdl', (s.drop hdl).rdSize? hdl' = if hdl = hdl' then none else s.rdSize? hdl' := by
    intro hdl'
    show ((s.scribes.erase hdl).find? hdl').map _ = _
    rw [UMap.find?_erase]
    by_cases he : hdl = hdl'
    · rw [if_pos (beq_iff_eq.mpr he), if_pos he]
      rfl
    · rw [if_neg (by simpa using he), if_neg he]
      rfl
  have hctx : ∀ hdl', (s.drop hdl).ctx.find? hdl' =
      if hdl = hdl' then none else s.ctx.find? hdl' := by
    intro hdl'
    show (s.ctx.erase hdl).find? hdl' = _
    rw [UMap.find?_erase]
    by_cases he : hdl = hdl'
    · rw [if_pos (beq_iff_eq.mpr he), if_pos he]
    · rw [if_neg (by simpa using he), if_neg he]
  -- the closed handle has no node, so no other item mentions it
  refine ⟨h.half, fun {hdl' nid} hf => ?_, h.names, fun {hdl' c} hc => ?_, ?_, h.nids, h.direct⟩
  · have hne : ¬ hdl = hdl' := by
      rintro rfl
      rw [show (s.drop hdl).tbl = s.tbl from rfl, hb] at hf
      cases hf
    rw [hctx, if_neg hne]
    exact h.bound hf
  · rw [hctx] at hc
    split at hc
    · cases hc
    · next hne =>
      rw [hrd, if_neg hne]
      exact h.opened hc
  · rw [hrd]
    split
    · rfl
    · exact h.real

/-- Configuring a connection keeps the broker wired. -/
theorem configure (h : Wired s) (n : Nat) : Wired (s.configure hdl n) := by
  have hrd : ∀ hdl', ((s.configure hdl n).rdSize? hdl').isSome = (s.rdSize? hdl').isSome := by
    intro hdl'
    rw [Broker.rdSize?, Broker.rdSize?, Option.isSome_map, Option.isSome_map]
    exact UMap.contains_adjust _ hdl _ hdl'
  refine ⟨h.half, h.bound, h.names, fun hc => ?_, ?_, h.nids, h.direct⟩
  · rw [hrd]
    exact h.opened hc
  · rw [← Option.isNone_iff_eq_none, ← Option.not_isSome, hrd, h.real]
    rfl

/-- Going on to the next state keeps the broker wired. -/
theorem settle (h : Wired s) (next : ConnectionState) : Wired (s.settle hdl next) := by
  unfold Broker.settle
  split
  · exact h
  · split
    · exact (h.configure _).modifyCtx fun _ => rfl
    · exact h

theorem flush (h : Wired s) : Wired (s.flush hdl) :=
  h.act (T := Turn.registering) (Act.flush hdl)

end Wired

theorem Broker.terminate_wired : Wired s.terminate := by
  refine ⟨?_, ?_, ?_, ?_, ?_, ?_, ?_⟩ <;> simp [RoutingTable.empty, rdSize?]

/-! ## Other connections -/

/-- What belongs to connections other than `hdl` stays as it is. -/
structure OthersKept (hdl : ConnectionHandle) (s s' : Broker) : Prop where
  ctx : ∀ other, other ≠ hdl → s'.ctx.find? other = s.ctx.find? other
  route : ∀ other, other ≠ hdl →
    s'.tbl.directByHdl.find? other = s.tbl.directByHdl.find? other
  rdSize? : ∀ other, other ≠ hdl → s'.rdSize? other = s.rdSize? other

namespace OthersKept

/-- What keeps contexts, handles and read sizes keeps the other connections. -/
theorem of_eq (hc : s'.ctx = s.ctx) (ht : s'.tbl.directByHdl = s.tbl.directByHdl)
    (hr : ∀ other, s'.rdSize? other = s.rdSize? other) : OthersKept hdl s s' :=
  ⟨fun _ _ => by rw [hc], fun _ _ => by rw [ht], fun other _ => hr other⟩

/-- Keeping the other connections composes. -/
theorem trans {a b c : Broker} (h : OthersKept hdl a b) (h' : OthersKept hdl b c) :
    OthersKept hdl a c where
  ctx other hne := (h'.ctx other hne).trans (h.ctx other hne)
  route other hne := (h'.route other hne).trans (h.route other hne)
  rdSize? other hne := (h'.rdSize? other hne).trans (h.rdSize? other hne)

theorem quiet {T : Turn} (h : Quiet T s s') : OthersKept hdl s s' :=
  of_eq h.untouched.ctx h.untouched.directByHdl h.rdSize?

/-- Changing the context of a connection keeps the others. -/
theorem modifyCtx (f : ConnectionContext → ConnectionContext) :
    OthersKept hdl s (s.modifyCtx hdl f) := by
  refine ⟨fun other hne => ?_, fun _ _ => rfl, fun _ _ => rfl⟩
  rw [Broker.find?_modifyCtx, if_neg (Ne.symm hne)]

/-- Binding a node to a connection keeps the others. -/
theorem bindDirect (nid : NodeId) : OthersKept hdl s (s.bindDirect hdl nid) := by
  rw [Broker.bindDirect_eq]
  refine ⟨fun _ _ => rfl, fun other hne => ?_, fun _ _ => rfl⟩
  show (s.tbl.directByHdl.emplace hdl nid).find? other = _
  rw [UMap.find?_emplace, if_neg (by simpa using Ne.symm hne), Option.or_none]

/-- Erasing the direct route of a connection keeps the others. -/
theorem eraseDirect (h : Wired s) : OthersKept hdl s (s.eraseDirect hdl) := by
  cases hb : s.tbl.directByHdl.find? hdl with
  | none =>
    rw [Broker.eraseDirect_of_unbound hb]
    exact of_eq rfl rfl fun _ => rfl
  | some nid =>
    obtain ⟨_, _, _, he⟩ := Broker.purgeState_eq_of_bound h hb
    rw [Broker.eraseDirect_eq hb, he]
    refine ⟨fun other hne => ?_, fun other hne => ?_, fun _ _ => rfl⟩
    · show (s.ctx.erase hdl).find? other = _
      rw [UMap.find?_erase, if_neg (by simpa using Ne.symm hne)]
    · show (s.tbl.directByHdl.erase hdl).find? other = _
      rw [UMap.find?_erase, if_neg (by simpa using Ne.symm hne)]

/-- The end of a handshake keeps the other connections. -/
theorem finalized {nid : NodeId} {aid : ActorId} (h : Finalized hdl nid aid s s') :
    OthersKept hdl s s' := by
  cases h with
  | silent => exact modifyCtx _
  | answer _ _ _ _ hq =>
    exact (((modifyCtx _).trans (modifyCtx _)).trans (quiet hq)).trans
      (of_eq rfl rfl fun _ => rfl)

/-- Processing a message keeps the other connections. -/
theorem processed {next : ConnectionState} {c : ConnectionContext} (h : Wired s)
    (hc : s.ctx.find? hdl = some c) (hp : Processed hdl hdr payload via s next s') :
    OthersKept hdl s s' := by
  cases hp with
  | reject => exact eraseDirect h
  | side _ _ hq => exact quiet hq
  | kill =>
    obtain ⟨_, _, _, he⟩ := (Broker.eraseProxy_killsOnly (s := s) hdr.sourceNode hdr.sourceActor
      hdr.operationData.toUInt32).eq
    rw [he]
    exact of_eq rfl rfl fun _ => rfl
  | refuse _ _ _ _ hf => exact (finalized hf).trans (eraseDirect (h.finalized hf))
  | server _ _ _ _ _ hq hf hq' =>
    exact (((bindDirect _).trans (quiet hq)).trans (finalized hf)).trans (quiet hq')
  | noRoute hv ho _ _ hk hq =>
    have hval := hdr.sourceNode_valid hv (by simp [Header.isHandshake, ho])
    exact ((bindDirect _).trans (quiet hq)).trans (eraseDirect ((h.bind hc hval hk).quiet hq))
  | client _ _ _ hq => exact (bindDirect _).trans (quiet hq)

/-- Handling data keeps the other connections. -/
theorem handled {dm : NewData} {next : ConnectionState} (h : Wired s)
    (hh : Handled dm s next s') : OthersKept dm.handle s s' := by
  cases hh with
  | mismatch => exact eraseDirect h
  | await => exact modifyCtx _
  | message ha hp =>
    obtain ⟨_, _, _, hc₁, -⟩ := ha.ctx
    refine OthersKept.trans ?_ (processed (h.arrived ha) hc₁ hp)
    cases ha with
    | payload => exact of_eq rfl rfl fun _ => rfl
    | header => exact modifyCtx _

theorem enter : OthersKept hdl s (s.enter hdl) := by
  refine ⟨fun other hne => ?_, fun _ _ => rfl, fun _ _ => rfl⟩
  show (s.ctx.emplace hdl _).find? other = _
  rw [UMap.find?_emplace, if_neg (by simpa using Ne.symm hne), Option.or_none]

/-- Dropping a connection keeps the others. -/
theorem drop : OthersKept hdl s (s.drop hdl) := by
  refine ⟨fun other hne => ?_, fun _ _ => rfl, fun other hne => ?_⟩
  · show (s.ctx.erase hdl).find? other = _
    rw [UMap.find?_erase, if_neg (by simpa using Ne.symm hne)]
  · show ((s.scribes.erase hdl).find? other).map _ = _
    rw [UMap.find?_erase, if_neg (by simpa using Ne.symm hne)]
    rfl

/-- Configuring a connection keeps the others. -/
theorem configure (n : Nat) : OthersKept hdl s (s.configure hdl n) := by
  refine ⟨fun _ _ => rfl, fun _ _ => rfl, fun other hne => ?_⟩
  show ((s.scribes.adjust hdl _).find? other).map _ = _
  rw [UMap.find?_adjust, if_neg (by simpa using Ne.symm hne)]
  rfl

/-- Going on to the next state keeps the other connections. -/
theorem settle (next : ConnectionState) : OthersKept hdl s (s.settle hdl next) := by
  unfold Broker.settle
  split
  · exact of_eq rfl rfl fun _ => rfl
  · split
    · exact (configure _).trans (modifyCtx _)
    · exact of_eq rfl rfl fun _ => rfl

theorem flush (hdl' : ConnectionHandle) : OthersKept hdl s (s.flush hdl') :=
  quiet (Act.flush (T := Turn.registering) hdl').quiet

end OthersKept

/-! ## Closed connections -/

/-- What a lost connection answers: a connect request that is still pending. -/
def Broker.disconnectAnswers (s : Broker) (hdl : ConnectionHandle) : List Event :=
  match (s.ctx.find? hdl).bind (·.callback) with
  | some cb => [.answered cb (.error (ascii "disconnect during handshake"))]
  | none => []

/-- Erasing a context answers the request that is pending on it. -/
theorem Broker.eraseContext_eq : s.eraseContext hdl =
    { s with ctx := s.ctx.erase hdl, history := s.history ++ s.disconnectAnswers hdl } := by
  unfold eraseContext disconnectAnswers
  cases (s.ctx.find? hdl).bind (·.callback) with
  | none => simp
  | some cb => rfl

/-- The broker after a connection without direct route was lost. -/
theorem connectionClosed_unbound (hb : s.tbl.directByHdl.find? hdl = none) :
    s.exec (.connectionClosed hdl) =
      { s with
        scribes := s.scribes.erase hdl
        ctx := s.ctx.erase hdl
        history := s.history ++ s.disconnectAnswers hdl } := by
  have hnode : s.tbl.lookupNode hdl = NodeId.invalid := by rw [RoutingTable.lookupNode, hb]; rfl
  show Broker.connectionClosedMsg { s with scribes := s.scribes.erase hdl } hdl = _
  unfold Broker.connectionClosedMsg
  split
  · next hc =>
    have hc' : s.ctx.find? hdl = none := UMap.contains_eq_false.mp (by simpa using hc)
    rw [UMap.erase_of_none hc']
    simp [Broker.disconnectAnswers, hc']
  · rw [Broker.eraseContext_eq]
    dsimp only
    rw [hnode, if_pos (NodeId.equals_refl _)]
    rfl

/-- Erasing the routes of a node that has a direct one only. -/
theorem Broker.eraseRoutes_eq (nid : NodeId) (hl : s.tbl.lookupDirect nid = hdl)
    (hne : hdl ≠ ConnectionHandle.invalid) (hhops : s.tbl.hops nid = []) :
    Kills (fun n _ => (nid == n) = true) s (s.eraseRoutes nid) ∧
    ∃ heap tasks proxies, s.eraseRoutes nid =
      { s with
        heap, tasks, proxies
        tbl := (s.tbl.removeIndirect nid).removeDirect hdl nid
        ctx := s.ctx.erase hdl
        knownRemotes := s.knownRemotes.erase nid
        history := s.history ++ [.connectionLost nid] } := by
  have hk : s.tbl.connected nid = true := by simpa [RoutingTable.connected, hl] using hne
  have hkills := Kills.purgeState hk
  obtain ⟨heap, tasks, proxies, he⟩ := purgeState_eq hk
  rw [hl] at he
  have heq : s.eraseRoutes nid =
      { s with
        heap, tasks, proxies
        tbl := (s.tbl.removeIndirect nid).removeDirect hdl nid
        ctx := s.ctx.erase hdl
        knownRemotes := s.knownRemotes.erase nid
        history := s.history ++ [.connectionLost nid] } := by
    unfold eraseRoutes
    rw [he]
    dsimp only
    rw [hhops, List.foldl_nil]
    show (if s.tbl.lookupDirect nid = _ then _ else _ : Broker) = _
    rw [hl, if_neg hne]
    show { s with tbl := _, heap, tasks, proxies, ctx := _, knownRemotes := _, history := _ } = _
    rw [show (s.tbl.removeIndirect nid).lookupDirect nid = hdl from hl]
  refine ⟨?_, heap, tasks, proxies, heq⟩
  rw [he] at hkills
  rw [heq]
  exact hkills.congr rfl rfl rfl

/-- The broker after the connection to a node was lost. -/
theorem connectionClosed_bound (h : Wired s) {nid : NodeId}
    (hb : s.tbl.directByHdl.find? hdl = some nid) : ∃ heap tasks proxies,
    Kills (fun n _ => (nid == n) = true) s { s with heap, tasks, proxies } ∧
    s.exec (.connectionClosed hdl) =
      { s with
        heap, tasks, proxies
        tbl := (s.tbl.removeIndirect nid).removeDirect hdl nid
        scribes := s.scribes.erase hdl
        ctx := s.ctx.erase hdl
        knownRemotes := s.knownRemotes.erase nid
        history := s.history ++ s.disconnectAnswers hdl ++ [.connectionLost nid] } := by
  obtain ⟨c, hc⟩ := h.bound hb
  have hcont : s.ctx.contains hdl = true := UMap.contains_iff.mpr ⟨c, hc⟩
  have hnode : s.tbl.lookupNode hdl = nid := by rw [RoutingTable.lookupNode, hb]; rfl
  have hval : nid.equals NodeId.invalid = false := NodeId.valid_iff.mp (h.names hb)
  have hhops : s.tbl.hops nid = [] := by rw [RoutingTable.hops, h.direct (h.half hb)]; rfl
  -- the node has no indirect routes, so nothing else is purged
  obtain ⟨hk₁, _, _, _, he⟩ := Broker.eraseRoutes_eq nid
    (s := { s with
      scribes := s.scribes.erase hdl
      ctx := s.ctx.erase hdl
      history := s.history ++ s.disconnectAnswers hdl })
    (h.lookupDirect_of_bound hb) (h.nids (h.half hb)) hhops
  obtain ⟨heap, tasks, proxies, hk⟩ := (Broker.eraseNode_killsOnly (s := Broker.eraseRoutes _ nid)
    nid).eq
  have hkills := hk₁.trans (Kills.eraseNode nid)
  rw [hk] at hkills
  rw [he] at hk
  refine ⟨heap, tasks, proxies, ?_, ?_⟩
  · exact ⟨hkills.gone, hkills.kept, hkills.heap, hkills.tasks⟩
  show Broker.connectionClosedMsg { s with scribes := s.scribes.erase hdl } hdl = _
  unfold Broker.connectionClosedMsg
  rw [if_neg (by simp [hcont]), Broker.eraseContext_eq]
  dsimp only
  rw [hnode, hval, if_neg (by simp), Broker.handleNodeShutdown, hval, if_neg (by simp)]
  refine Eq.trans ?_ (hk.trans ?_)
  · rw [← he]
    rfl
  · have hgone : (s.ctx.erase hdl).erase hdl = s.ctx.erase hdl :=
      UMap.erase_of_none (UMap.find?_erase_self _ _)
    rw [hgone]

/-- New data keeps the broker wired. -/
theorem Wired.data {dm : NewData} (h : Wired s) (ho : (s.rdSize? dm.handle).isSome = true)
    (hd : DataStep dm s s') : Wired s' := by
  cases hd with
  | closed hh => exact (((h.enter ho).handled hh).drop (unbound_of_handled hh)).flush
  | «open» _ hh => exact (((h.enter ho).handled hh).settle _).flush
  | terminated => exact Broker.terminate_wired

/-- Losing the connection of a node keeps the broker wired. -/
theorem Wired.lostNode (h : Wired s) {nid : NodeId} {heap tasks proxies knownRemotes history}
    (hb : s.tbl.directByHdl.find? hdl = some nid) :
    Wired { s with
      heap, tasks, proxies, knownRemotes, history
      tbl := (s.tbl.removeIndirect nid).removeDirect hdl nid
      scribes := s.scribes.erase hdl
      ctx := s.ctx.erase hdl } := by
  refine h.removeDirect hb rfl rfl (fun n hi => ?_) (fun hdl' hne => ?_) (fun hdl' c hc => ?_) ?_
  · show (s.tbl.indirect.erase nid).find? n = none
    rw [UMap.find?_erase, hi]
    simp
  · show (s.ctx.erase hdl).find? hdl' = _
    rw [UMap.find?_erase, if_neg (by simpa using Ne.symm hne)]
  · replace hc : (s.ctx.erase hdl).find? hdl' = some c := hc
    show (((s.scribes.erase hdl).find? hdl').map _).isSome = true ∧ _
    rw [UMap.find?_erase] at hc ⊢
    split at hc
    · cases hc
    · next hne =>
      rw [if_neg hne]
      exact h.opened hc
  · show ((s.scribes.erase hdl).find? _).map _ = none
    rw [UMap.find?_erase]
    split
    · rfl
    · exact h.real

/-! ## New connections -/

/-- Opening a connection adds a scribe that reads nothing yet. -/
theorem Broker.opened_rdSize? {hdl' : ConnectionHandle} :
    (s.opened hdl).rdSize? hdl' = (s.rdSize? hdl').or (if hdl = hdl' then some 0 else none) := by
  show ((s.scribes.emplace hdl _).find? hdl').map _ = _
  rw [UMap.find?_emplace, rdSize?]
  by_cases he : hdl = hdl'
  · rw [if_pos (beq_iff_eq.mpr he), if_pos he]
    cases s.scribes.find? hdl' <;> rfl
  · rw [if_neg (by simpa using he), if_neg he]
    cases s.scribes.find? hdl' <;> rfl

/-- Opening a valid handle keeps the broker wired. -/
theorem Wired.opening (h : Wired s) (hv : hdl ≠ ConnectionHandle.invalid) :
    Wired (s.opened hdl) := by
  refine ⟨h.half, h.bound, h.names, fun hc => ⟨?_, (h.opened hc).2⟩, ?_, h.nids, h.direct⟩
  · rw [Broker.opened_rdSize?, Option.isSome_or, (h.opened hc).1, Bool.true_or]
  · rw [Broker.opened_rdSize?, h.real, if_neg hv]
    rfl

/-- A connect request stores a context for a connection that is open. -/
theorem Wired.request (h : Wired s) (ho : (s.rdSize? hdl).isSome = true) (port : UInt16) :
    Wired (s.requested hdl port) := by
  have hfind : ∀ hdl', (s.requested hdl port).ctx.find? hdl' =
      if hdl == hdl' then some _ else s.ctx.find? hdl' := fun hdl' => UMap.find?_set _ _ _ _
  refine ⟨h.half, fun hb => ?_, h.names, fun {hdl' c} hc => ?_, h.real, h.nids, h.direct⟩
  · rw [hfind]
    split
    · exact ⟨_, rfl⟩
    · exact h.bound hb
  · rw [hfind] at hc
    split at hc
    · next he =>
      cases hc
      rw [← beq_iff_eq.mp he]
      exact ⟨ho, rfl⟩
    · exact h.opened hc

/-- Calm steps keep the broker wired. -/
theorem Wired.calm (h : Wired s) (hc : Calm s s') : Wired s' := by
  refine h.of_eq hc.directByHdl hc.directByNid hc.ctx hc.rdSize? fun nid hdl _ hn => ?_
  cases hf : s'.tbl.indirect.find? nid with
  | none => rfl
  | some hops' =>
    obtain ⟨hops, hf', -⟩ := hc.fewer nid hops' hf
    rw [hn] at hf'
    cases hf'

theorem Wired.initial : s.isInitial → Wired s := by
  rintro ⟨process, order, rfl⟩
  refine ⟨?_, ?_, ?_, ?_, ?_, ?_, ?_⟩ <;> simp [Broker.initial, RoutingTable.empty, Broker.rdSize?]

/-! ## Steps -/

/-- What can happen to a broker in one step. -/
inductive Happened (s : Broker) : Input → Broker → Prop where
  | other {i : Input} {s' : Broker} (ho : Other s i s') : Happened s i s'
  | ended {i : Input} {s₁ : Broker} (ho : Other s i s₁) : Happened s i s₁.terminate
  | data {dm : NewData} {s' : Broker} (ho : (s.rdSize? dm.handle).isSome = true)
      (hd : DataStep dm s s') : Happened s (.newData dm) s'
  | accepted {hdl : ConnectionHandle} {source : AcceptHandle} {s₁ : Broker}
      (hv : hdl ≠ ConnectionHandle.invalid) (ho : s.rdSize? hdl = none)
      (hq : Quiet (Turn.accepting hdl (s.localPort source)) (s.opened hdl) s₁)
      (hw : Welcomed hdl (s.localPort source) s s₁) :
      Happened s (.newConnection hdl source) (s₁.configure hdl headerSize)
  | requested {hdl : ConnectionHandle} {port : UInt16} {failure : Option Bytes}
      (hv : hdl ≠ ConnectionHandle.invalid) (ho : s.rdSize? hdl = none) :
      Happened s (.connect hdl port failure)
        (((s.opened hdl).requested hdl port).configure hdl headerSize)
  | refused {hdl : ConnectionHandle} {port : UInt16} {failure : Option Bytes} (what : Bytes) :
      Happened s (.connect hdl port failure)
        ({ s with promises := s.promises + 1 }.note (.answered s.promises (.error what)))
  /-- a connection without direct route is lost -/
  | lost {hdl : ConnectionHandle} (hb : s.tbl.directByHdl.find? hdl = none) :
      Happened s (.connectionClosed hdl)
        { s with
          scribes := s.scribes.erase hdl
          ctx := s.ctx.erase hdl
          history := s.history ++ s.disconnectAnswers hdl }
  /-- the connection to a node is lost -/
  | lostNode {hdl : ConnectionHandle} {nid : NodeId} {heap tasks proxies}
      (hb : s.tbl.directByHdl.find? hdl = some nid)
      (hk : Kills (fun n _ => (nid == n) = true) s { s with heap, tasks, proxies }) :
      Happened s (.connectionClosed hdl)
        { s with
          heap, tasks, proxies
          tbl := (s.tbl.removeIndirect nid).removeDirect hdl nid
          scribes := s.scribes.erase hdl
          ctx := s.ctx.erase hdl
          knownRemotes := s.knownRemotes.erase nid
          history := s.history ++ s.disconnectAnswers hdl ++ [.connectionLost nid] }

/-- Inversion of a step. -/
theorem step_cases {i : Input} (h : Wired s) (hs : s.step i = some s') : Happened s i s' := by
  rw [Broker.step_eq_some] at hs
  obtain ⟨he, rfl⟩ := hs
  cases hi : i.aboutConnection with
  | false =>
    obtain ⟨s₁, ho, hend | hend⟩ := other_of_step hi he
    · rw [hend]
      exact .other ho
    · rw [hend]
      exact .ended ho
  | true =>
    -- a connection without a scribe reads nothing
    have hclosed : ∀ {hdl}, s.scribes.contains hdl = false → s.rdSize? hdl = none := by
      intro hdl hc
      rw [Broker.rdSize?, UMap.contains_eq_false.mp hc]
      rfl
    cases i with
    | newData dm => exact .data (rdSize?_of_enabled he) (newData_cases dm (rdSize?_of_enabled he))
    | connectionClosed hdl =>
      cases hb : s.tbl.directByHdl.find? hdl with
      | none =>
        rw [connectionClosed_unbound hb]
        exact .lost hb
      | some nid =>
        obtain ⟨_, _, _, hk, heq⟩ := connectionClosed_bound h hb
        rw [heq]
        exact .lostNode hb hk
    | newConnection hdl source =>
      simp only [Broker.enabled, Bool.and_eq_true, decide_eq_true_eq, Bool.not_eq_true'] at he
      obtain ⟨s₁, hw, heq⟩ := newConnection_cases source he.2.2
      rw [heq]
      exact .accepted he.2.1 (hclosed he.2.2) hw.quiet hw
    | connect hdl port failure =>
      simp only [Broker.enabled, Bool.and_eq_true, decide_eq_true_eq, Bool.not_eq_true'] at he
      rcases connect_cases port failure he.2.2 with ⟨what, heq⟩ | heq
      · rw [heq]
        exact .refused what
      · rw [heq]
        exact .requested he.2.1 (hclosed he.2.2)
    | _ => cases hi

/-- Every step keeps connections, contexts and routes together. -/
theorem Wired.step {i : Input} (h : Wired s) (hs : s.step i = some s') : Wired s' := by
  cases step_cases h hs with
  | other ho => exact h.calm ho.calm
  | ended => exact Broker.terminate_wired
  | data ho hd => exact h.data ho hd
  | accepted hv _ hq => exact ((h.opening hv).quiet hq).configure _
  | @requested hdl port _ hv _ =>
    have ho : ((s.opened hdl).rdSize? hdl).isSome = true := by
      rw [Broker.opened_rdSize?, if_pos rfl, Option.isSome_or]
      simp
    exact ((h.opening hv).request ho port).configure _
  | refused => exact h.of_eq rfl rfl rfl (fun _ => rfl) fun _ _ _ hn => hn
  | lost hb => exact (h.drop hb).of_eq rfl rfl rfl (fun _ => rfl) fun _ _ _ hi => hi
  | lostNode hb => exact h.lostNode hb

/-- Connections, contexts and routes fit together in every reachable state. -/
theorem wired_of_reachable {ok : Broker → Input → Prop} (h : Broker.Reachable ok s) : Wired s :=
  h.invariant (fun _ => Wired.initial) fun _ _ _ hw _ => hw.step

/-- **Exclusive routes.** In every reachable state, a node with an entry in one of the
direct maps has no entry in the indirect table. -/
theorem routes_exclusive (h : Broker.Reachable anyStep s) (nid : NodeId)
    (hd : s.tbl.directByNid.contains nid = true ∨
      ∃ hdl n, s.tbl.directByHdl.find? hdl = some n ∧ (n == nid) = true) :
    s.tbl.indirect.contains nid = false := by
  have hw := wired_of_reachable h
  rw [UMap.contains_eq_false]
  rcases hd with hd | ⟨hdl, n, hb, hn⟩
  · obtain ⟨hdl, hf⟩ := UMap.contains_iff.mp hd
    exact hw.direct hf
  · rw [← UMap.find?_congr _ hn]
    exact hw.direct (hw.half hb)

open Sample in
/-- A node that is first known indirectly and then connects. -/
theorem routes_exclusive_upgraded : ∃ s, Broker.Reachable anyStep s ∧
    s.tbl.directByNid.contains (node 3) = true ∧ s.tbl.indirect.contains (node 3) = false := by
  obtain ⟨s, hs, hc⟩ := exists_run Broker.step (broker 1)
    [accepts 7, hears 7 (clientHello (node 2) (node 1)),
      hears 7 (dispatches (node 3) (node 1) infoRequest), reads 7 infoRequest.bytes,
      accepts 8, hears 8 (clientHello (node 3) (node 1))]
    (fun s => s.tbl.directByNid.contains (node 3)) (by decide +kernel)
  have hreach := reach_of_run (broker_reachable 1) hs
  exact ⟨s, hreach, hc, routes_exclusive hreach _ (Or.inl hc)⟩

end BoostActor
