import BoostActor.Io.LocalActors

/-!
# Handles stay valid

A node never forgets an actor or a proxy that a handle may refer to: local actors and
proxies are created, exit and are destroyed, but they keep their place, and a proxy keeps
the node and the actor it stands for.

* `Grown.step` — one step of the broker;
* `Grown.holds`, `Grown.addrNode` — what this means for an address.
-/

namespace BoostActor

open Lib

variable {hdl : ConnectionHandle} {hdr : Header} {payload : Option Bytes} {via : List NodeId}
  {s s' : Broker}

/-- The process is the same, and what was there is still there. -/
structure Grown (s s' : Broker) : Prop where
  process : s'.process = s.process
  actors : s.actors.length ≤ s'.actors.length
  heap : ∀ {r : ProxyRef} {p : Proxy}, s.heap[r]? = some p →
    ∃ p', s'.heap[r]? = some p' ∧ p'.nid = p.nid ∧ p'.aid = p.aid

namespace Grown

theorem of_heap (hp : s'.process = s.process) (ha : s.actors.length ≤ s'.actors.length)
    (hh : s'.heap = s.heap) : Grown s s' :=
  ⟨hp, ha, fun {r p} h => ⟨p, by rw [hh, h], rfl, rfl⟩⟩

theorem refl (s : Broker) : Grown s s := of_heap rfl (Nat.le_refl _) rfl

theorem trans {a b c : Broker} (h : Grown a b) (h' : Grown b c) : Grown a c := by
  refine ⟨h'.process.trans h.process, Nat.le_trans h.actors h'.actors, fun hp => ?_⟩
  obtain ⟨p₁, hp₁, hn₁, ha₁⟩ := h.heap hp
  obtain ⟨p₂, hp₂, hn₂, ha₂⟩ := h'.heap hp₁
  exact ⟨p₂, hp₂, hn₂.trans hn₁, ha₂.trans ha₁⟩

-- -------------------------
-- Addresses
-- -------------------------

theorem thisNode (h : Grown s s') : s'.thisNode = s.thisNode := by
  rw [Broker.thisNode, h.process, Broker.thisNode]

/-- A handle that is held is held later as well. -/
theorem holds (h : Grown s s') {addr : ActorAddr} (hh : s.holds addr = true) :
    s'.holds addr = true := by
  cases addr with
  | invalid => rfl
  | localActor r =>
    simp only [Broker.holds, decide_eq_true_eq] at hh ⊢
    exact Nat.lt_of_lt_of_le hh h.actors
  | proxy r =>
    simp only [Broker.holds, decide_eq_true_eq] at hh ⊢
    obtain ⟨p', hp', -⟩ := h.heap (List.getElem?_eq_getElem hh)
    exact (List.getElem?_eq_some_iff.mp hp').1

/-- The node of a handle stays the same. -/
theorem addrNode (h : Grown s s') {addr : ActorAddr} (hh : s.holds addr = true) :
    s'.addrNode addr = s.addrNode addr := by
  cases addr with
  | invalid => rfl
  | localActor r => exact h.thisNode
  | proxy r =>
    simp only [Broker.holds, decide_eq_true_eq] at hh
    have hp := List.getElem?_eq_getElem hh
    obtain ⟨p', hp', hn, -⟩ := h.heap hp
    rw [Broker.addrNode, Broker.addrNode, hp, hp', Option.map_some, Option.map_some, hn]

theorem isRemote (h : Grown s s') {addr : ActorAddr} (hh : s.holds addr = true) :
    s'.isRemote addr = s.isRemote addr := by
  rw [Broker.isRemote, h.addrNode hh, h.thisNode, Broker.isRemote]

-- -------------------------
-- Activities and kills
-- -------------------------

theorem quiet {T : Turn} (h : Quiet T s s') : Grown s s' := by
  refine ⟨h.untouched.process, h.actors, fun {r p} hp => ⟨p, ?_, rfl, rfl⟩⟩
  obtain ⟨rest, hrest⟩ := h.heap
  have hr := (List.getElem?_eq_some_iff.mp hp).1
  rw [← hrest, List.getElem?_append_left hr, hp]

/-- Killing proxies grows nothing but keeps their addresses. -/
theorem kills {keys : NodeId → ActorId → Prop} (h : Kills keys s s')
    (hp : s'.process = s.process) (ha : s'.actors = s.actors) : Grown s s' := by
  refine ⟨hp, Nat.le_of_eq (by rw [ha]), fun {r p} hr => ?_⟩
  rcases h.heap r with he | ⟨_, _, p₀, p', -, -, hp₀, hp', hk⟩
  · exact ⟨p, by rw [he, hr], rfl, rfl⟩
  · rw [hr] at hp₀
    cases hp₀
    exact ⟨p', hp', hk.nid, hk.aid⟩

theorem eraseProxy (nid : NodeId) (aid : ActorId) (rsn : ExitReason) :
    Grown s (s.eraseProxy nid aid rsn) := by
  obtain ⟨_, _, _, he⟩ := (Broker.eraseProxy_killsOnly (s := s) nid aid rsn).eq
  exact kills (Kills.eraseProxy nid aid rsn) (by rw [he]) (by rw [he])

theorem terminate : Grown s s.terminate := by
  obtain ⟨_, _, he⟩ := Broker.terminate_eq (s := s)
  exact kills Kills.terminate (by rw [he]) (by rw [he])

/-- Erasing a direct route keeps the addresses. -/
theorem eraseDirect : Grown s (s.eraseDirect hdl) := by
  have hkept : Kept s (s.eraseDirect hdl) := Broker.eraseDirect_kept
  have hsame : ActorsKept s (s.eraseDirect hdl) := Broker.eraseDirect_actorsKept
  cases hb : s.tbl.directByHdl.find? hdl with
  | none =>
    rw [Broker.eraseDirect_of_unbound hb]
    exact refl s
  | some nid =>
    cases hk : s.tbl.connected nid with
    | true => exact kills (Kills.eraseDirect hb hk) hkept.process hsame.actors
    | false =>
      refine of_heap hkept.process (Nat.le_of_eq (by rw [hsame.actors])) ?_
      rw [Broker.eraseDirect_eq hb, Broker.purgeState_of_not_connected hk]

theorem bindDirect (hdl : ConnectionHandle) (nid : NodeId) : Grown s (s.bindDirect hdl nid) := by
  rw [Broker.bindDirect_eq]
  exact of_heap rfl (Nat.le_refl _) rfl

-- -------------------------
-- Data
-- -------------------------

theorem finalized {nid : NodeId} {aid : ActorId} (h : Finalized hdl nid aid s s') :
    Grown s s' := by
  cases h with
  | silent => exact of_heap rfl (Nat.le_refl _) rfl
  | answer _ _ _ _ hq =>
    have h₁ : Grown s ((s.identify hdl nid).takeCallback hdl) := of_heap rfl (Nat.le_refl _) rfl
    exact h₁.trans ((quiet hq).trans (of_heap rfl (Nat.le_refl _) rfl))

/-- Processing a message grows. -/
theorem processed {next : ConnectionState} (h : Processed hdl hdr payload via s next s') :
    Grown s s' := by
  have hbind := bindDirect (s := s) hdl hdr.sourceNode
  cases h with
  | reject => exact eraseDirect
  | side _ _ hq => exact quiet hq
  | kill => exact eraseProxy _ _ _
  | refuse _ _ _ _ hf => exact (finalized hf).trans eraseDirect
  | server _ _ _ _ _ hq hf hq' =>
    exact hbind.trans ((quiet hq).trans ((finalized hf).trans (quiet hq')))
  | noRoute _ _ _ _ _ hq => exact hbind.trans ((quiet hq).trans eraseDirect)
  | client _ _ _ hq => exact hbind.trans (quiet hq)

/-- A message that is broken off grows. -/
theorem aborted (h : Aborted hdl hdr payload via s s') : Grown s s' := by
  have hbind := bindDirect (s := s) hdl hdr.sourceNode
  have hid : ∀ {s : Broker}, Grown s ((s.identify hdl hdr.sourceNode).takeCallback hdl) :=
    of_heap rfl (Nat.le_refl _) rfl
  cases h with
  | side _ _ hq => exact quiet hq
  | refuse _ _ _ hq => exact hid.trans (quiet hq)
  | bound _ hq => exact hbind.trans (quiet hq)
  | answering _ hq hq' => exact hbind.trans ((quiet hq).trans (hid.trans (quiet hq')))
  | finalized _ hq hf hq' =>
    exact hbind.trans ((quiet hq).trans ((finalized hf).trans (quiet hq')))

theorem arrived {dm : NewData} (h : Arrived dm s s' hdr payload) : Grown s s' := by
  cases h with
  | payload => exact refl s
  | header => exact of_heap rfl (Nat.le_refl _) rfl

/-- New data grows. -/
theorem data {dm : NewData} (h : DataStep dm s s') : Grown s s' := by
  have henter : Grown s (s.enter dm.handle) := of_heap rfl (Nat.le_refl _) rfl
  have hhandled : ∀ {next s₁}, Handled dm (s.enter dm.handle) next s₁ → Grown s s₁ := by
    intro next s₁ hh
    cases hh with
    | mismatch => exact henter.trans eraseDirect
    | await => exact henter.trans (of_heap rfl (Nat.le_refl _) rfl)
    | message ha hp => exact henter.trans ((arrived ha).trans (processed hp))
  -- the state after handling, then closing, going on or ending
  cases h with
  | closed hh => exact (hhandled hh).trans (of_heap rfl (Nat.le_refl _) rfl)
  | @«open» s₁ next _ hh =>
    refine (hhandled hh).trans ?_
    show Grown s₁ ((s₁.settle dm.handle next).flush dm.handle)
    unfold Broker.settle
    split
    · exact of_heap rfl (Nat.le_refl _) rfl
    · split <;> exact of_heap rfl (Nat.le_refl _) rfl
  | terminated hf =>
    refine henter.trans (trans ?_ terminate)
    cases hf with
    | unreadable => exact refl _
    | message ha hp => exact (arrived ha).trans (aborted hp)

-- -------------------------
-- Steps
-- -------------------------

theorem ports (h : PortsOnly s s') : Grown s s' := by
  obtain ⟨_, _, _, _, rfl⟩ := h.eq
  exact of_heap rfl (Nat.le_refl _) rfl

/-- Calling an attachable grows. -/
theorem callAttachable (ref : ActorRef) : Grown s (s.callAttachable ref) := by
  unfold Broker.callAttachable
  split
  · exact refl s
  · split
    · exact refl s
    · split
      · exact of_heap rfl (Nat.le_of_eq (List.length_set ..).symm) rfl
      · exact of_heap rfl (Nat.le_of_eq (List.length_set ..).symm) rfl

/-- Destroying a proxy keeps the addresses of the others. -/
theorem destroyProxy (r : ProxyRef) : Grown s (s.destroyProxy r) := by
  unfold Broker.destroyProxy
  split
  · exact refl s
  · next p hp =>
    refine ⟨rfl, Nat.le_refl _, fun {r' p'} hp' => ?_⟩
    show ∃ q, (s.heap.set r _)[r']? = some q ∧ _
    by_cases he : r = r'
    · subst he
      rw [hp] at hp'
      cases hp'
      exact ⟨_, List.getElem?_set_self (List.getElem?_eq_some_iff.mp hp).1, rfl, rfl⟩
    · exact ⟨p', by rw [List.getElem?_set_ne he, hp'], rfl, rfl⟩

theorem task {t : Task} (h : TaskDone s t s') : Grown s s' := by
  cases h with
  | eraseProxy => exact eraseProxy _ _ _
  | sendKillProxyInstance hq => exact quiet hq
  | deleteProxy => exact eraseProxy _ _ _

/-- Every other input grows. -/
theorem other {i : Input} (h : Other s i s') : Grown s s' := by
  cases h with
  | ports _ hp => exact ports hp
  | publish _ _ hp hq => exact (ports hp).trans ((quiet hq).trans (of_heap rfl (Nat.le_refl _) rfl))
  | forward _ _ hq => exact quiet hq
  | @task index _ _ _ hd =>
    have h₁ : Grown s { s with tasks := s.tasks.eraseIdx index } := of_heap rfl (Nat.le_refl _) rfl
    exact h₁.trans (task hd)
  | spawn =>
    refine of_heap rfl ?_ rfl
    show s.actors.length ≤ (s.actors ++ [_]).length
    simp
  | @exit ref =>
    refine of_heap rfl ?_ rfl
    show s.actors.length ≤ (s.actors.modify ref _).length
    simp
  | attachable ref => exact callAttachable ref
  | destroy => exact destroyProxy _

/-- Whatever happens to a node, its handles stay valid. -/
theorem step {i : Input} (hw : Wired s) (hs : s.step i = some s') : Grown s s' := by
  cases step_cases hw hs with
  | other ho => exact other ho
  | ended ho => exact (other ho).trans terminate
  | data _ hd => exact data hd
  | @accepted hdl _ _ _ _ hq =>
    have h₁ : Grown s (s.opened hdl) := of_heap rfl (Nat.le_refl _) rfl
    exact h₁.trans ((quiet hq).trans (of_heap rfl (Nat.le_refl _) rfl))
  | requested => exact of_heap rfl (Nat.le_refl _) rfl
  | refused => exact of_heap rfl (Nat.le_refl _) rfl
  | lost => exact of_heap rfl (Nat.le_refl _) rfl
  | lostNode _ hk =>
    have h₁ := kills hk rfl rfl
    exact h₁.trans (of_heap rfl (Nat.le_refl _) rfl)

end Grown

end BoostActor
