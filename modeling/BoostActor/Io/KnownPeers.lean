import BoostActor.Io.Wiring

/-!
# Peers that contexts know

The context of a connection learns its peer from a server handshake only. When it is
written, the route to the peer has just been added, or the connection is about to be
closed. So between two messages, a context that knows a node belongs to the connection
that is the direct route to this node.

* `KnowsPeer.processed`, `KnowsPeer.processed_other` — what a message does to the
  context of its own connection, and to the others;
* `knowsPeer_of_reachable` — it is so in every reachable state.
-/

namespace BoostActor

open Lib

variable {hdl k : ConnectionHandle} {hdr : Header} {payload : Option Bytes} {via : List NodeId}
  {s s' : Broker}

/-- If the context of a handle knows its node, the handle is the direct route to it. -/
def KnowsPeer (s : Broker) (hdl : ConnectionHandle) : Prop :=
  ∀ c, s.ctx.find? hdl = some c → c.id.valid = true → s.tbl.directByNid.find? c.id = some hdl

/-- The end of a handshake leaves the direct connections alone. -/
theorem Finalized.directByNid {nid : NodeId} {aid : ActorId} (h : Finalized hdl nid aid s s') :
    s'.tbl.directByNid = s.tbl.directByNid := by
  cases h with
  | silent => rfl
  | answer _ _ _ _ hq => exact hq.untouched.directByNid

namespace KnowsPeer

/-- The context and the direct connections decide what is known. -/
theorem of_eq (h : KnowsPeer s k) (hc : s'.ctx.find? k = s.ctx.find? k)
    (hn : s'.tbl.directByNid = s.tbl.directByNid) : KnowsPeer s' k := by
  unfold KnowsPeer
  rw [hc, hn]
  exact h

/-- There is nothing to know without a context. -/
theorem of_none (hc : s.ctx.find? k = none) : KnowsPeer s k := by
  intro c hc'
  rw [hc] at hc'
  cases hc'

theorem quiet {T : Turn} (h : KnowsPeer s k) (hq : Quiet T s s') : KnowsPeer s' k :=
  h.of_eq (by rw [hq.untouched.ctx]) hq.untouched.directByNid

theorem killsOnly (h : KnowsPeer s k) (hk : KillsOnly s s') : KnowsPeer s' k := by
  obtain ⟨_, _, _, rfl⟩ := hk
  exact h.of_eq rfl rfl

/-- Changing anything but the node id of a context. -/
theorem modifyCtx (h : KnowsPeer s k) {f : ConnectionContext → ConnectionContext}
    (hf : ∀ c, (f c).id = c.id) : KnowsPeer (s.modifyCtx hdl f) k := by
  intro c' hc' hv
  rw [Broker.find?_modifyCtx] at hc'
  split at hc'
  · rw [Option.map_eq_some_iff] at hc'
    obtain ⟨c, hc, rfl⟩ := hc'
    rw [hf] at hv ⊢
    exact h c hc hv
  · exact h c' hc' hv

/-- A new direct route replaces none. -/
theorem bind (h : KnowsPeer s k) (nid : NodeId) : KnowsPeer (s.bindDirect hdl nid) k := by
  rw [Broker.bindDirect_eq]
  intro c hc hv
  show (s.tbl.directByNid.emplace nid hdl).find? c.id = some k
  rw [UMap.find?_emplace, h c hc hv]
  rfl

/-- A connection loses its direct route and its context. -/
theorem removeDirect {nid : NodeId} (h : KnowsPeer s k) (hw : Wired s)
    (hb : s.tbl.directByHdl.find? hdl = some nid) (hc : s'.ctx = s.ctx.erase hdl)
    (hn : s'.tbl.directByNid = s.tbl.directByNid.erase nid) : KnowsPeer s' k := by
  by_cases hne : hdl = k
  · subst hne
    exact of_none (by rw [hc, UMap.find?_erase_self])
  · intro c hc' hv
    rw [hc, UMap.find?_erase_of_ne hne] at hc'
    have hf := h c hc' hv
    rw [hn, UMap.find?_erase, if_neg, hf]
    -- the node whose route is erased is bound to the other handle
    intro hnid
    rw [← UMap.find?_congr _ hnid, hw.half hb] at hf
    cases hf
    exact hne rfl

/-- Erasing a direct route keeps what other connections know. -/
theorem eraseDirect (h : KnowsPeer s k) (hw : Wired s) : KnowsPeer (s.eraseDirect hdl) k := by
  cases hb : s.tbl.directByHdl.find? hdl with
  | none =>
    rw [Broker.eraseDirect_of_unbound hb]
    exact h
  | some nid =>
    obtain ⟨_, _, _, he⟩ := Broker.purgeState_eq_of_bound hw hb
    rw [Broker.eraseDirect_eq hb, he]
    exact h.removeDirect hw hb rfl rfl

/-- A handshake on one connection does not concern the others. -/
theorem finalized {nid : NodeId} {aid : ActorId} (h : KnowsPeer s k)
    (hf : Finalized hdl nid aid s s') (hne : hdl ≠ k) : KnowsPeer s' k := by
  obtain ⟨-, -, -, hother⟩ := hf.ctx
  exact h.of_eq (hother k hne.symm) hf.directByNid

/-- The handshake of the node that has just been bound. -/
theorem identified {nid : NodeId} {aid : ActorId} (hb : s.tbl.directByNid.find? nid = some hdl)
    (hf : Finalized hdl nid aid s s') : KnowsPeer s' hdl := by
  obtain ⟨c, -, hc, -⟩ := hf.ctx
  intro c' hc' _
  rw [hc] at hc'
  cases hc'
  rw [hf.directByNid]
  exact hb

/-! ## Messages -/

/-- Another connection than that of the message. -/
theorem processed_other {next : ConnectionState} {c : ConnectionContext} (h : KnowsPeer s k)
    (hw : Wired s) (hc : s.ctx.find? hdl = some c)
    (hp : Processed hdl hdr payload via s next s') (hne : hdl ≠ k) : KnowsPeer s' k := by
  cases hp with
  | reject => exact h.eraseDirect hw
  | side _ _ hq => exact h.quiet hq
  | kill => exact h.killsOnly (Broker.eraseProxy_killsOnly _ _ _)
  | refuse _ _ _ _ hf => exact (h.finalized hf hne).eraseDirect (hw.finalized hf)
  | server _ _ _ _ _ hq hf hq' => exact (((h.bind _).quiet hq).finalized hf hne).quiet hq'
  | noRoute hv ho _ _ hk hq =>
    have hval := hdr.sourceNode_valid hv (by simp [Header.isHandshake, ho])
    exact ((h.bind _).quiet hq).eraseDirect ((hw.bind hc hval hk).quiet hq)
  | client _ _ _ hq => exact (h.bind _).quiet hq

/-- The connection of the message, if it stays open. -/
theorem processed {next : ConnectionState} (h : KnowsPeer s hdl) (hw : Wired s)
    (hp : Processed hdl hdr payload via s next s') (hn : next ≠ .closeConnection) :
    KnowsPeer s' hdl := by
  cases hp with
  | side _ _ hq => exact h.quiet hq
  | kill => exact h.killsOnly (Broker.eraseProxy_killsOnly _ _ _)
  | server _ _ _ _ hk hq hf hq' =>
    -- the context is written after the route was added
    refine (identified ?_ hf).quiet hq'
    rw [hq.untouched.directByNid, Broker.bindDirect_eq]
    show (s.tbl.directByNid.emplace hdr.sourceNode hdl).find? hdr.sourceNode = some hdl
    rw [UMap.find?_emplace_of_none (hw.find?_of_not_connected hk), if_pos BEq.rfl]
  | client _ _ _ hq => exact (h.bind _).quiet hq
  | reject | refuse | noRoute => exact absurd rfl hn

/-- Reading a header or payload keeps what is known. -/
theorem arrived {dm : NewData} (h : KnowsPeer s k) (ha : Arrived dm s s' hdr payload) :
    KnowsPeer s' k := by
  cases ha with
  | payload => exact h
  | header => exact h.modifyCtx fun _ => rfl

/-- Handling data keeps what the other connections know. -/
theorem handled_other {dm : NewData} {next : ConnectionState} (h : KnowsPeer s k)
    (hw : Wired s) (hh : Handled dm s next s') (hne : dm.handle ≠ k) : KnowsPeer s' k := by
  cases hh with
  | mismatch => exact h.eraseDirect hw
  | await => exact h.modifyCtx fun _ => rfl
  | message ha hp =>
    obtain ⟨_, _, _, hc₁, -⟩ := ha.ctx
    exact (h.arrived ha).processed_other (hw.arrived ha) hc₁ hp hne

/-- Handling data keeps what the connection knows, unless it is to be closed. -/
theorem handled {dm : NewData} {next : ConnectionState} (h : KnowsPeer s dm.handle) (hw : Wired s)
    (hh : Handled dm s next s') (hn : next ≠ .closeConnection) : KnowsPeer s' dm.handle := by
  cases hh with
  | mismatch => exact absurd rfl hn
  | await => exact h.modifyCtx fun _ => rfl
  | message ha hp => exact (h.arrived ha).processed (hw.arrived ha) hp hn

/-! ## Steps -/

/-- A connection without a context, besides others that have not changed. -/
theorem erase (h : KnowsPeer s k) (hc : s'.ctx = s.ctx.erase hdl)
    (hn : s'.tbl.directByNid = s.tbl.directByNid) : KnowsPeer s' k := by
  by_cases hne : hdl = k
  · subst hne
    exact of_none (by rw [hc, UMap.find?_erase_self])
  · exact h.of_eq (by rw [hc, UMap.find?_erase_of_ne hne]) hn

/-- Entering a connection creates a context without a node. -/
theorem enter (h : KnowsPeer s k) : KnowsPeer (s.enter hdl) k := by
  intro c hc hv
  replace hc : (s.ctx.emplace hdl (ConnectionContext.initial hdl)).find? k = some c := hc
  rw [UMap.find?_emplace] at hc
  cases hf : s.ctx.find? k with
  | some c' =>
    rw [hf, Option.some_or] at hc
    cases hc
    exact h _ hf hv
  | none =>
    -- a new context knows no node
    rw [hf, Option.none_or] at hc
    split at hc
    · cases hc
      cases hv
    · cases hc

/-- Going on to the next state keeps what is known. -/
theorem settle (h : KnowsPeer s k) (next : ConnectionState) : KnowsPeer (s.settle hdl next) k := by
  unfold Broker.settle
  split
  · exact h
  · split
    · exact modifyCtx (h.of_eq rfl rfl : KnowsPeer (s.configure hdl _) k) fun _ => rfl
    · exact h

/-- New data keeps what every connection knows. -/
theorem data {dm : NewData} (h : ∀ k, KnowsPeer s k) (hw : Wired s)
    (ho : (s.rdSize? dm.handle).isSome = true) (hd : DataStep dm s s') (k : ConnectionHandle) :
    KnowsPeer s' k := by
  have hw₀ : Wired (s.enter dm.handle) := hw.enter ho
  have h₀ : ∀ k, KnowsPeer (s.enter dm.handle) k := fun k => (h k).enter
  cases hd with
  | @closed s₁ hh =>
    by_cases hne : dm.handle = k
    · subst hne
      refine of_none ?_
      show (s₁.ctx.erase dm.handle).find? dm.handle = none
      exact UMap.find?_erase_self _ _
    · exact ((h₀ k).handled_other hw₀ hh hne).erase rfl rfl
  | @«open» s₁ next hn hh =>
    have h₁ : KnowsPeer s₁ k := by
      by_cases hne : dm.handle = k
      · subst hne
        exact (h₀ _).handled hw₀ hh hn
      · exact (h₀ k).handled_other hw₀ hh hne
    exact (h₁.settle _).of_eq rfl rfl
  | terminated => exact of_none rfl

/-- Every step keeps what every connection knows. -/
theorem step {i : Input} (h : ∀ k, KnowsPeer s k) (hw : Wired s) (hs : s.step i = some s')
    (k : ConnectionHandle) : KnowsPeer s' k := by
  cases step_cases hw hs with
  | other ho => exact (h k).of_eq (by rw [ho.calm.ctx]) ho.calm.directByNid
  | ended => exact of_none rfl
  | data ho hd => exact data h hw ho hd k
  | @accepted hdl _ _ _ _ hq =>
    exact (((h k).of_eq rfl rfl : KnowsPeer (s.opened hdl) k).quiet hq).of_eq rfl rfl
  | @requested hdl port =>
    intro c hc hv
    replace hc : (s.ctx.set hdl _).find? k = some c := hc
    rw [UMap.find?_set] at hc
    split at hc
    · next hk =>
      -- the context is a new one, or that of the same handle
      rw [← beq_iff_eq.mp hk]
      cases hc
      cases hf : s.ctx.find? hdl with
      | none =>
        have hid : ((s.ctx.find? hdl).getD (ConnectionContext.initial hdl)).id.valid = true := hv
        rw [hf] at hid
        cases hid
      | some c₀ =>
        have hid : ((s.opened hdl).ctx.find? hdl).getD (ConnectionContext.initial hdl) = c₀ := by
          show (s.ctx.find? hdl).getD _ = c₀
          rw [hf]
          rfl
        rw [hid] at hv ⊢
        exact h hdl c₀ hf hv
    · exact h k c hc hv
  | refused => exact (h k).of_eq rfl rfl
  | lost => exact (h k).erase rfl rfl
  | lostNode hb => exact (h k).removeDirect hw hb rfl rfl

end KnowsPeer

/-- In every reachable state, a context that knows its node belongs to the connection
that is the direct route to it. -/
theorem knowsPeer_of_reachable {ok : Broker → Input → Prop} (h : Broker.Reachable ok s)
    (hdl : ConnectionHandle) : KnowsPeer s hdl := by
  have hinv : Wired s ∧ ∀ k, KnowsPeer s k := by
    refine h.invariant (I := fun s => Wired s ∧ ∀ k, KnowsPeer s k)
      (fun s hi => ⟨.initial hi, ?_⟩)
      fun _ _ _ hi _ hs => ⟨hi.1.step hs, KnowsPeer.step hi.2 hi.1 hs⟩
    obtain ⟨process, order, rfl⟩ := hi
    exact fun k => .of_none rfl
  exact hinv.2 hdl

end BoostActor
