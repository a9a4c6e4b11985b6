import BoostActor.Io.Steps

/-!
# Direct routes

The two maps of direct routes are meant to be inverse to each other, and
`add_direct` asserts that neither of its arguments is bound yet. Both handshakes
check that the node is not bound, but not the handle: a peer that introduces
itself a second time, under another node id, breaks the maps apart. This is the
only way to do it.

* `DirectOk.processed`, `DirectOk.aborted` — a message keeps the maps inverse
  unless it binds a handle that is bound already;
* `directRoutes_inverse` — so they are inverse in every run without such messages.
-/

namespace BoostActor

open Lib

/-- No assertion has failed so far. -/
def Broker.assertionsHold (s : Broker) : Prop := ∀ what, Event.assertionFailed what ∉ s.history

/-- The direct routes are as `add_direct` expects them. -/
structure DirectOk (s : Broker) : Prop where
  sound : s.tbl.Sound
  asserts : s.assertionsHold

variable {hdl : ConnectionHandle} {hdr : Header} {payload : Option Bytes} {via : List NodeId}
  {s s' : Broker}

/-- Steps that change neither the maps nor the assertions. -/
theorem DirectOk.of_eq (h : DirectOk s) (hh : s'.tbl.directByHdl = s.tbl.directByHdl)
    (hn : s'.tbl.directByNid = s.tbl.directByNid)
    (he : ∃ es, s'.history = s.history ++ es ∧ ∀ what, Event.assertionFailed what ∉ es) :
    DirectOk s' := by
  obtain ⟨es, he, hes⟩ := he
  refine ⟨h.sound.congr hh hn, fun what hmem => ?_⟩
  rw [he, List.mem_append] at hmem
  rcases hmem with hmem | hmem
  · exact h.asserts what hmem
  · exact hes what hmem

theorem DirectOk.quiet {T : Turn} (h : DirectOk s) (hq : Quiet T s s') : DirectOk s' := by
  obtain ⟨es, he, hes⟩ := hq.history
  exact h.of_eq hq.untouched.directByHdl hq.untouched.directByNid
    ⟨es, he, fun what hmem => hes _ hmem⟩

theorem DirectOk.modifyCtx (h : DirectOk s) (f : ConnectionContext → ConnectionContext) :
    DirectOk (s.modifyCtx hdl f) :=
  h.of_eq rfl rfl ⟨[], by simp [Broker.modifyCtx], by simp⟩

/-- Noting an event other than a failed assertion keeps the direct routes in order. -/
theorem DirectOk.note (h : DirectOk s) {e : Event} (he : ∀ what, e ≠ .assertionFailed what) :
    DirectOk (s.note e) :=
  h.of_eq rfl rfl ⟨[e], rfl, fun what hmem => he what (List.mem_singleton.mp hmem).symm⟩

theorem DirectOk.killsOnly (h : DirectOk s) (hk : KillsOnly s s') : DirectOk s' := by
  obtain ⟨_, _, _, rfl⟩ := hk
  exact h.of_eq rfl rfl ⟨[], by simp, by simp⟩

/-- Binding a handle and a node that are both free. -/
theorem DirectOk.bind {nid : NodeId} (h : DirectOk s) (hh : s.tbl.directByHdl.find? hdl = none)
    (hk : s.tbl.connected nid = false) (hv : hdl ≠ ConnectionHandle.invalid) :
    DirectOk (s.bindDirect hdl nid) := by
  have hn := h.sound.find?_of_not_connected hk
  rw [Broker.bindDirect_eq]
  refine ⟨(h.sound.addDirect hh hn hv).congr rfl rfl, fun what hmem => ?_⟩
  have hes : s.bindEvents hdl nid =
      .newConnectionEstablished nid :: (s.tbl.hops nid).map (.routeLost · nid) := by
    simp [Broker.bindEvents, UMap.contains, hh, hn]
  rw [hes, List.mem_append] at hmem
  rcases hmem with hmem | hmem
  · exact h.asserts what hmem
  · simp at hmem

/-- Purging a node changes neither the table nor the history. -/
theorem Broker.purgeState_tbl (nid : NodeId) :
    (s.purgeState nid).tbl = s.tbl ∧ (s.purgeState nid).history = s.history := by
  cases hk : s.tbl.connected nid with
  | true =>
    obtain ⟨_, _, _, he⟩ := purgeState_eq hk
    rw [he]
    exact ⟨rfl, rfl⟩
  | false =>
    rw [purgeState_of_not_connected hk]
    exact ⟨rfl, rfl⟩

/-- Erasing a direct route keeps the other routes in order. -/
theorem DirectOk.eraseDirect (h : DirectOk s) : DirectOk (s.eraseDirect hdl) := by
  cases hb : s.tbl.directByHdl.find? hdl with
  | none =>
    rw [Broker.eraseDirect_of_unbound hb]
    exact h
  | some nid =>
    rw [Broker.eraseDirect_eq hb]
    refine ⟨h.sound.removeDirect (h.sound.lookup hb), fun what hmem => ?_⟩
    rcases List.mem_append.mp hmem with hmem | hmem
    · exact h.asserts what hmem
    · simp at hmem

/-! ## Losing a node -/

/-- What `routing_table::erase` does to the table. -/
theorem Broker.eraseRoutes_tbl (dest : NodeId) : (s.eraseRoutes dest).tbl =
    if s.tbl.lookupDirect dest = ConnectionHandle.invalid then s.tbl.removeIndirect dest
    else (s.tbl.removeIndirect dest).removeDirect (s.tbl.lookupDirect dest) dest := by
  have hfold : ∀ (hops : List NodeId) (s : Broker),
      (hops.foldl (fun s nid => (s.purgeState nid).note (.routeLost nid dest)) s).tbl = s.tbl := by
    intro hops
    induction hops with
    | nil => exact fun _ => rfl
    | cons hop hops ih => exact fun s => (ih _).trans (purgeState_tbl hop).1
  unfold eraseRoutes
  dsimp only
  rw [hfold, (purgeState_tbl dest).1]
  show (if s.tbl.lookupDirect dest = _ then _ else _ : Broker).tbl = _
  split
  · rfl
  · rfl

/-- Erasing the routes to a node notes plain events only. -/
theorem Broker.eraseRoutes_history (dest : NodeId) : ∃ es,
    (s.eraseRoutes dest).history = s.history ++ es ∧ ∀ e ∈ es, e.plain = true := by
  -- each node that was reached over the lost one is purged and noted
  have hfold : ∀ (hops : List NodeId) (s : Broker), ∃ es,
      (hops.foldl (fun s nid => (s.purgeState nid).note (.routeLost nid dest)) s).history =
        s.history ++ es ∧ ∀ e ∈ es, e.plain = true := by
    intro hops
    induction hops with
    | nil => exact fun _ => ⟨[], by simp, by simp⟩
    | cons hop hops ih =>
      intro s
      obtain ⟨es, he, hes⟩ := ih ((s.purgeState hop).note (.routeLost hop dest))
      refine ⟨.routeLost hop dest :: es, ?_, ?_⟩
      · rw [List.foldl_cons, he, note_history, (purgeState_tbl hop).2]
        simp
      · simpa [Event.plain] using hes
  unfold eraseRoutes
  dsimp only
  obtain ⟨es, he, hes⟩ := hfold ((s.purgeState dest).tbl.hops dest) (s.purgeState dest)
  rw [(purgeState_tbl dest).2] at he
  split
  · exact ⟨es, he, hes⟩
  · refine ⟨es ++ [.connectionLost dest], ?_, ?_⟩
    · rw [note_history, he, List.append_assoc]
    · simpa [Event.plain, or_imp, forall_and] using hes

/-- Erasing the routes to a node keeps the direct routes in order. -/
theorem DirectOk.eraseRoutes (h : DirectOk s) (dest : NodeId) : DirectOk (s.eraseRoutes dest) := by
  obtain ⟨es, he, hes⟩ := Broker.eraseRoutes_history (s := s) dest
  refine ⟨?_, fun what hmem => ?_⟩
  · rw [Broker.eraseRoutes_tbl]
    split
    · exact h.sound.congr rfl rfl
    · next hne =>
      -- the erased handle is the one that the node is bound to
      have hb : s.tbl.directByNid.find? dest = some (s.tbl.lookupDirect dest) := by
        rw [RoutingTable.lookupDirect] at hne ⊢
        cases hf : s.tbl.directByNid.find? dest with
        | none => simp [hf] at hne
        | some hdl => rfl
      exact (h.sound.removeDirect hb).congr rfl rfl
  · rw [he, List.mem_append] at hmem
    rcases hmem with hmem | hmem
    · exact h.asserts what hmem
    · cases hes _ hmem

/-! ## Messages -/

/-- The end of a handshake keeps the direct routes in order. -/
theorem DirectOk.finalized {nid : NodeId} {aid : ActorId} (h : DirectOk s)
    (hf : Finalized hdl nid aid s s') : DirectOk s' := by
  cases hf with
  | silent => exact h.modifyCtx _
  | answer _ _ _ _ hq => exact (((h.modifyCtx _).modifyCtx _).quiet hq).note (by simp)

/-- The handle that a handshake is about to bind is a real one and not bound yet. -/
def BindsFreeHandle (hdl : ConnectionHandle) (hdr : Header) (payload : Option Bytes)
    (s : Broker) : Prop :=
  Binding hdr payload s →
    s.tbl.directByHdl.find? hdl = none ∧ hdl ≠ ConnectionHandle.invalid

/-- Processing a message keeps the direct routes in order if it binds a free handle. -/
theorem DirectOk.processed {next : ConnectionState} (h : DirectOk s)
    (hp : Processed hdl hdr payload via s next s') (hb : BindsFreeHandle hdl hdr payload s) :
    DirectOk s' := by
  cases hp with
  | reject => exact h.eraseDirect
  | side _ _ hq => exact h.quiet hq
  | kill => exact h.killsOnly (Broker.eraseProxy_killsOnly _ _ _)
  | refuse _ _ _ _ hf => exact (h.finalized hf).eraseDirect
  | server hv ho hi hn hk hq hf hq' =>
    obtain ⟨hh, hne⟩ := hb (.server hv ho hi hn hk)
    exact (((h.bind hh hk hne).quiet hq).finalized hf).quiet hq'
  | noRoute hv ho hi hn hk hq =>
    obtain ⟨hh, hne⟩ := hb (.server hv ho hi hn hk)
    exact ((h.bind hh hk hne).quiet hq).eraseDirect
  | client hv ho hk hq =>
    obtain ⟨hh, hne⟩ := hb (.client hv ho hk)
    exact (h.bind hh hk hne).quiet hq

/-- A node that a message binds was not connected. -/
theorem Binding.not_connected (h : Binding hdr payload s) :
    s.tbl.connected hdr.sourceNode = false := by
  cases h with
  | server _ _ _ _ hk => exact hk
  | client _ _ hk => exact hk

/-- A message that is broken off keeps the direct routes in order if it binds a free handle. -/
theorem DirectOk.aborted (h : DirectOk s) (hp : Aborted hdl hdr payload via s s')
    (hb : BindsFreeHandle hdl hdr payload s) : DirectOk s' := by
  have hbind : Binding hdr payload s → DirectOk (s.bindDirect hdl hdr.sourceNode) := by
    intro hbi
    obtain ⟨hh, hne⟩ := hb hbi
    exact h.bind hh hbi.not_connected hne
  cases hp with
  | side _ _ hq => exact h.quiet hq
  | refuse _ _ _ hq => exact ((h.modifyCtx _).modifyCtx _).quiet hq
  | bound hbi hq => exact (hbind hbi).quiet hq
  | answering hbi hq hq' =>
    exact ((((hbind hbi).quiet hq).modifyCtx _).modifyCtx _).quiet hq'
  | finalized hbi hq hf hq' => exact (((hbind hbi).quiet hq).finalized hf).quiet hq'

/-- Bindings look at the routing table and the node only. -/
theorem Binding.congr {t : Broker} (hp : t.process = s.process)
    (hn : t.tbl.directByNid = s.tbl.directByNid) (h : Binding hdr payload t) :
    Binding hdr payload s := by
  have hk : s.tbl.connected hdr.sourceNode = t.tbl.connected hdr.sourceNode := by
    rw [RoutingTable.connected, RoutingTable.connected, RoutingTable.lookupDirect,
      RoutingTable.lookupDirect, hn]
  cases h with
  | server hv ho hi hs hk' =>
    refine .server hv ho hi ?_ (hk.trans hk')
    rw [Broker.thisNode, ← hp]
    exact hs
  | client hv ho hk' => exact .client hv ho (hk.trans hk')

/-- Reading a header or payload keeps the direct routes in order. -/
theorem DirectOk.arrived {dm : NewData} (h : DirectOk s) (ha : Arrived dm s s' hdr payload) :
    DirectOk s' := by
  cases ha with
  | payload => exact h
  | header => exact h.modifyCtx _

/-- Whether a handle is free is a matter of the table and of this node. -/
theorem BindsFreeHandle.congr (hb : BindsFreeHandle hdl hdr payload s) (ht : s'.tbl = s.tbl)
    (hp : s'.process = s.process) : BindsFreeHandle hdl hdr payload s' := by
  intro hbi
  rw [ht]
  exact hb (hbi.congr hp (by rw [ht]))

/-- Data that completes no handshake on a bound handle. -/
theorem DirectOk.handled {dm : NewData} {next : ConnectionState} (h : DirectOk s)
    (hb : ∀ hdr payload, s.completed dm = some (hdr, payload) →
      BindsFreeHandle dm.handle hdr payload s) (hh : Handled dm s next s') : DirectOk s' := by
  cases hh with
  | mismatch => exact h.eraseDirect
  | await => exact h.modifyCtx _
  | message ha hp =>
    exact (h.arrived ha).processed hp ((hb _ _ ha.completed).congr ha.tbl.1 ha.tbl.2)

/-- Data that cannot be handled keeps the direct routes in order. -/
theorem DirectOk.failed {dm : NewData} (h : DirectOk s)
    (hb : ∀ hdr payload, s.completed dm = some (hdr, payload) →
      BindsFreeHandle dm.handle hdr payload s) (hf : Failed dm s s') : DirectOk s' := by
  cases hf with
  | unreadable => exact h
  | message ha hp => exact (h.arrived ha).aborted hp ((hb _ _ ha.completed).congr ha.tbl.1 ha.tbl.2)

/-! ## Runs of the instance -/

/-- A call of the protocol instance: data on any handle, with any header in the
context and in either state, a closed connection, or a node that is down. -/
inductive InstanceCall where
  | newData (dm : NewData) (hdr : Header) (isPayload : Bool)
  | connectionClosed (hdl : ConnectionHandle)
  | nodeShutdown (nid : NodeId)

namespace Broker

/-- The state in which the instance is called with data. -/
def called (s : Broker) (dm : NewData) (hdr : Header) (isPayload : Bool) : Broker :=
  (s.enter dm.handle).modifyCtx dm.handle fun c =>
    { c with hdr := hdr, cstate := if isPayload then .awaitPayload else .awaitHeader }

/-- A call, however it ends. -/
def call (s : Broker) : InstanceCall → Option Broker
  | .newData dm hdr isPayload => some (final (handle dm isPayload) (s.called dm hdr isPayload))
  | .connectionClosed hdl => some (s.eraseDirect hdl)
  | .nodeShutdown nid => some (s.handleNodeShutdown nid)

/-- A broker whose instance has not been called yet. -/
def isFresh (s : Broker) : Prop := (∃ order, s.tbl = RoutingTable.empty order) ∧ s.history = []

end Broker

/-- No call completes a handshake that binds a handle which is bound already. -/
def bindsFreeHandle (s : Broker) : InstanceCall → Prop
  | .newData dm hdr isPayload => ∀ hdr' payload, completes dm hdr isPayload = some (hdr', payload) →
      BindsFreeHandle dm.handle hdr' payload s
  | _ => True

/-- Before a call, the context holds the header and state that the call is made with. -/
theorem Broker.called_ctx (dm : NewData) (hdr : Header) (isPayload : Bool) :
    ∃ c, (s.called dm hdr isPayload).ctx.find? dm.handle = some c ∧ c.hdr = hdr ∧
      c.cstate = if isPayload then .awaitPayload else .awaitHeader := by
  obtain ⟨c, hc⟩ := enter_ctx (s := s) dm.handle
  refine ⟨{ c with
    hdr := hdr, cstate := if isPayload then .awaitPayload else .awaitHeader }, ?_, rfl, rfl⟩
  rw [called, find?_modifyCtx, if_pos rfl, hc]
  rfl

/-- Every call that binds free handles only keeps the direct routes in order. -/
theorem directOk_call {i : InstanceCall} (h : DirectOk s) (hi : bindsFreeHandle s i)
    (hs : s.call i = some s') : DirectOk s' := by
  cases i with
  | connectionClosed hdl =>
    cases hs
    exact h.eraseDirect
  | nodeShutdown nid =>
    cases hs
    unfold Broker.handleNodeShutdown
    split
    · exact h
    · exact h.eraseRoutes nid
  | newData dm hdr isPayload =>
    cases hs
    have h₀ : DirectOk (s.called dm hdr isPayload) :=
      DirectOk.modifyCtx (h.of_eq rfl rfl ⟨[], by simp [Broker.enter], by simp⟩ :
        DirectOk (s.enter dm.handle)) _
    obtain ⟨c, hc, hhdr, hst⟩ := Broker.called_ctx (s := s) dm hdr isPayload
    -- the state of the connection says whether a payload is awaited
    have hpay : isPayload = decide (c.cstate = .awaitPayload) := by
      rw [hst]
      cases isPayload <;> rfl
    have hbinds : ∀ hdr' payload, (s.called dm hdr isPayload).completed dm = some (hdr', payload) →
        BindsFreeHandle dm.handle hdr' payload (s.called dm hdr isPayload) := by
      intro hdr' payload hcompl
      rw [Broker.completed, hc] at hcompl
      exact BindsFreeHandle.congr (hi _ _ (by simpa [hhdr, ← hpay] using hcompl)) rfl rfl
    have hspec := handle_spec (s := s.called dm hdr isPayload) dm rfl hc
    rw [← hpay] at hspec
    exact after_final.mp (hspec.mono (fun _ _ hh => h₀.handled hbinds hh)
      fun _ _ hf => h₀.failed hbinds hf)

/-- **The two direct maps are inverse and no assertion of `add_direct` fails**, in
every run of the instance in which no handshake binds a handle twice. -/
theorem directRoutes_inverse (h : Reach Broker.isFresh Broker.call bindsFreeHandle s) :
    s.tbl.Inverse ∧ s.assertionsHold := by
  have hok : DirectOk s := by
    refine h.invariant (I := DirectOk) ?_ fun _ _ _ => directOk_call
    rintro s ⟨⟨order, ht⟩, hh⟩
    refine ⟨by rw [ht]; exact RoutingTable.sound_empty order, ?_⟩
    intro what
    rw [hh]
    simp
  exact ⟨hok.sound.inverse, hok.asserts⟩

namespace Sample

/-- A broker with one open connection. -/
def connected : Broker := (broker 1).opened (conn 7)

/-- The peer on that connection introduces itself as node `b`. -/
def introduces (b : UInt8) : InstanceCall :=
  .newData (received 7 (writeHdr (clientHello (node b) (node 1)))) Header.initial false

theorem connected_isFresh : connected.isFresh := ⟨⟨order, rfl⟩, rfl⟩

end Sample

open Sample in
/-- One handshake on a fresh connection. -/
theorem directRoutes_inverse_first :
    ∃ s, Reach Broker.isFresh Broker.call bindsFreeHandle s ∧
      s.tbl.directByNid.find? (node 2) = some (conn 7) ∧ s.tbl.Inverse ∧ s.assertionsHold := by
  have hfree : bindsFreeHandle connected (introduces 2) := fun _ _ _ _ => ⟨rfl, by decide⟩
  obtain ⟨s, hs, hc⟩ := exists_run Broker.call connected [introduces 2]
    (fun s => s.tbl.directByNid.find? (node 2) = some (conn 7)) (by decide +kernel)
  rw [runAll, Option.bind_eq_some_iff] at hs
  obtain ⟨s₁, hs₁, hs⟩ := hs
  cases hs
  have hr : Reach Broker.isFresh Broker.call bindsFreeHandle s :=
    .step (.init connected_isFresh) hfree hs₁
  exact ⟨s, hr, by simpa using hc, directRoutes_inverse hr⟩

open Sample in
/-- The same peer introduces itself twice, as two different nodes: the second node
is bound to the handle, the handle stays bound to the first. -/
theorem directRoutes_diverge :
    ¬ ∀ s, Reach Broker.isFresh Broker.call anyStep s → s.tbl.Inverse ∧ s.assertionsHold := by
  intro h
  obtain ⟨s, hs, hc⟩ := exists_run Broker.call connected [introduces 2, introduces 3]
    (fun s => s.tbl.directByHdl.find? (conn 7) = some (node 2) ∧
      s.tbl.directByNid.find? (node 3) = some (conn 7)) (by decide +kernel)
  rw [decide_eq_true_iff] at hc
  obtain ⟨hinv, -⟩ := h s (reach_of_run (.init connected_isFresh) hs)
  obtain ⟨n, hn, he⟩ := (hinv (conn 7) (node 3)).mpr hc.2
  rw [hc.1] at hn
  cases hn
  exact absurd he (by decide)

end BoostActor
