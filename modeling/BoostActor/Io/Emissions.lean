import BoostActor.Io.DirectRoutes
import BoostActor.Io.WellFormed

/-!
# What a broker tells others

The messages that a step of the broker puts on its connections: those of the node itself, and one
that has arrived and is passed on. A handshake is always a message of the node itself and carries
its id. What a step learns about direct routes comes from a handshake that has arrived.

* `emits_of_step` — where the messages of a step come from;
* `bound_of_step` — where the direct routes of a step come from.
-/

namespace BoostActor

open Lib

variable {dm : NewData} {hdl : ConnectionHandle} {p : Packet} {T : Turn} {relay : Packet → Prop}
  {s s' a b : Broker}

/-! ## Messages -/

/-- A message that the node `nid` may originate. -/
structure Packet.Own (nid : NodeId) (p : Packet) : Prop where
  payloadLen : p.payload.length < 2 ^ 32 → p.hdr.payloadLen.toNat = p.payload.length
  sourceNode : p.hdr.isHandshake = true → p.hdr.sourceNode = nid

/-- `payload_len` is the length of the payload, modulo `2 ^ 32`. -/
theorem Origin.own {hdr : Header} {pw : Option Bytes} (h : Origin T s hdl hdr pw) :
    Packet.Own s.thisNode ⟨hdr.withPayload pw, pw.getD [], []⟩ := by
  refine ⟨fun hlt => ?_, fun hh => ?_⟩
  · show (castUInt32 (pw.getD []).length).toNat = _
    rw [castUInt32, UInt32.toNat_ofNat']
    exact Nat.mod_eq_of_lt hlt
  · cases h with
    | clientHandshake | serverHandshake | publishedHandshake => rfl
    | request | announce | kill | dispatchError | dispatch => cases hh

/-- A message that has arrived with `dm` and is passed on. -/
def PassedOn (dm : NewData) (s : Broker) (p : Packet) : Prop :=
  ∃ hdr payload, s.completed dm = some (hdr, payload) ∧ hdr.isHandshake = false ∧
    p = ⟨hdr, payload.getD [], dm.via ++ [s.thisNode]⟩

/-- Between `s` and `b`, the broker writes messages of its own and those in `relay`. -/
structure Emits (relay : Packet → Prop) (s b : Broker) : Prop where
  process : b.process = s.process
  history : s.history <+: b.history
  stream : ∀ hdl, ∀ p ∈ b.stream hdl,
    p ∈ s.stream hdl ∨ (∃ hdl', Event.wrote hdl' p ∈ b.history) ∨ relay p
  wrote : ∀ hdl p, Event.wrote hdl p ∈ b.history →
    Event.wrote hdl p ∈ s.history ∨ p.Own s.thisNode

/-- A message that an activity puts on a connection is noted as written, or passed on. -/
theorem Act.stream_wrote (h : Act T s s') (hp : p ∈ s'.stream hdl) : p ∈ s.stream hdl ∨
    (∃ hdl', Event.wrote hdl' p ∈ s'.history) ∨ ∃ hdr payload via,
      T.relays hdr payload via ∧ hdr.isHandshake = false ∧
        p = ⟨hdr, payload, via ++ [s.thisNode]⟩ := by
  -- what is appended to one stream is a packet of that stream
  have happ : ∀ {hdl' q}, p ∈ (s.append hdl' q).stream hdl → p ∈ s.stream hdl ∨ p = q := by
    intro hdl' q hp
    rw [Broker.stream_append, List.mem_append] at hp
    refine hp.imp_right fun hp => ?_
    split at hp
    · exact List.mem_singleton.mp hp
    · cases hp
  cases h with
  | @write hdl' hdr pw =>
    refine (happ hp).imp_right fun hp => .inl ⟨hdl', ?_⟩
    rw [hp]
    exact List.mem_append_right _ (List.mem_singleton_self _)
  | relay hT _ _ hh => exact (happ hp).imp_right fun hp => .inr ⟨_, _, _, hT, hh, hp⟩
  | flush hdl' =>
    rw [Broker.stream_flush] at hp
    exact .inl hp
  | @adopt _ _ c =>
    rw [Broker.stream_adopted] at hp
    refine (happ hp).imp_right fun hp => .inl ⟨c.hdl, ?_⟩
    rw [hp]
    exact List.mem_append_right _ List.mem_cons_self
  | _ => exact .inl hp

namespace Emits

theorem refl : Emits relay s s :=
  ⟨rfl, List.prefix_rfl, fun _ _ hp => .inl hp, fun _ _ hm => .inl hm⟩

theorem thisNode (h : Emits relay s b) : b.thisNode = s.thisNode := congrArg Process.id h.process

/-- Nothing more is written. -/
theorem silent (h : Emits relay s a) (hs : Silent a b) (hh : a.history <+: b.history) :
    Emits relay s b where
  process := hs.process.trans h.process
  history := h.history.trans hh
  stream hdl p hp := by
    refine (h.stream hdl p (hs.stream hdl hp)).imp_right (Or.imp_left ?_)
    rintro ⟨hdl', hm⟩
    exact ⟨hdl', hh.subset hm⟩
  wrote hdl p hm := h.wrote hdl p (hs.wrote hdl p hm)

/-- An act emits what the turn may write or pass on. -/
theorem act (h : Emits relay s a) (ha : Act T a b)
    (hr : ∀ hdr payload via, T.relays hdr payload via → hdr.isHandshake = false →
      relay ⟨hdr, payload, via ++ [s.thisNode]⟩) : Emits relay s b where
  process := ha.untouched.process.trans h.process
  history := by
    obtain ⟨es, he, -⟩ := ha.history
    exact h.history.trans ⟨es, he.symm⟩
  stream hdl p hp := by
    have hgrows : a.history <+: b.history := by
      obtain ⟨es, he, -⟩ := ha.history
      exact ⟨es, he.symm⟩
    rcases ha.stream_wrote hp with hp | hm | ⟨hdr, payload, via, hT, hh, rfl⟩
    · refine (h.stream hdl p hp).imp_right (Or.imp_left ?_)
      rintro ⟨hdl', hm⟩
      exact ⟨hdl', hgrows.subset hm⟩
    · exact .inr (.inl hm)
    · rw [h.thisNode]
      exact .inr (.inr (hr hdr payload via hT hh))
  wrote hdl p hm := by
    rcases ha.wrote hm with hm | ⟨hdr, pw, ho, rfl⟩
    · exact h.wrote hdl p hm
    · rw [← h.thisNode]
      exact .inr ho.own

/-- Quiet steps emit what the turn may write or pass on. -/
theorem quiet (h : Emits relay s a) (hq : Quiet T a b)
    (hr : ∀ hdr payload via, T.relays hdr payload via → hdr.isHandshake = false →
      relay ⟨hdr, payload, via ++ [s.thisNode]⟩) : Emits relay s b := by
  induction hq with
  | refl => exact h
  | tail _ hlast ih => exact ih.act hlast hr

theorem killsOnly (h : Emits relay s a) (hk : KillsOnly a b) : Emits relay s b := by
  refine h.silent (Silent.killsOnly hk) ?_
  obtain ⟨_, _, _, rfl⟩ := hk.eq
  exact List.prefix_rfl

/-- Erasing a direct route emits nothing. -/
theorem eraseDirect (h : Emits relay s a) : Emits relay s (a.eraseDirect hdl) := by
  refine h.silent Silent.eraseDirect ?_
  cases hb : a.tbl.directByHdl.find? hdl with
  | none =>
    have he := congrArg Broker.history (Broker.eraseDirect_of_unbound hb)
    exact ⟨[], by rw [List.append_nil, he]⟩
  | some nid =>
    rw [Broker.eraseDirect_eq hb]
    exact List.prefix_append _ _

/-- Binding a node to a handle emits nothing. -/
theorem bindDirect (h : Emits relay s a) (nid : NodeId) :
    Emits relay s (a.bindDirect hdl nid) := by
  have hevents : ∀ hdl' p, Event.wrote hdl' p ∉ a.bindEvents hdl nid := by
    intro hdl' p hm
    simp only [Broker.bindEvents, List.mem_append, List.mem_cons, List.mem_map] at hm
    rcases hm with (hm | hm) | hm | ⟨_, _, hm⟩
    · split at hm <;> simp at hm
    · split at hm <;> simp at hm
    · cases hm
    · cases hm
  rw [Broker.bindDirect_eq]
  refine ⟨h.process, h.history.trans (List.prefix_append _ _), fun hdl' p hp => ?_,
    fun hdl' p hm => ?_⟩
  · refine (h.stream hdl' p hp).imp_right (Or.imp_left ?_)
    rintro ⟨hdl'', hm⟩
    exact ⟨hdl'', List.mem_append_left _ hm⟩
  · exact h.wrote hdl' p ((List.mem_append.mp hm).resolve_right (hevents hdl' p))

theorem terminate (h : Emits relay s a) : Emits relay s a.terminate := by
  refine h.silent Silent.terminate ?_
  exact ⟨[], by rw [List.append_nil, Broker.terminate_history]⟩

/-- Bookkeeping emits nothing. -/
theorem bookkept {dm : NewData} (h : Emits relay s a) (hb : Bookkept dm a b) :
    Emits relay s b := by
  obtain ⟨es, he, hes⟩ := hb.history
  have hgrows : a.history <+: b.history := ⟨es, he.symm⟩
  refine ⟨?_, h.history.trans hgrows, fun hdl p hp => ?_, fun hdl p hm => ?_⟩
  · obtain ⟨_, _, _, _, rfl⟩ := hb.eq
    exact h.process
  · refine (h.stream hdl p (hb.stream hdl hp)).imp_right (Or.imp_left ?_)
    rintro ⟨hdl', hm⟩
    exact ⟨hdl', hgrows.subset hm⟩
  · rw [he, List.mem_append] at hm
    refine h.wrote hdl p (hm.resolve_right fun hm => ?_)
    obtain ⟨_, _, heq⟩ := hes _ hm
    cases heq

/-- Only a message for another node is passed on. -/
theorem piece (h : Emits (PassedOn dm s) s a) (hp : Piece dm s a b) :
    Emits (PassedOn dm s) s b := by
  cases hp with
  | act hT ha =>
    refine h.act ha fun hdr payload via hr hh => ?_
    cases hT with
    | relayed hm =>
      obtain ⟨rfl, rfl, rfl⟩ := hr
      exact ⟨_, _, hm, hh, rfl⟩
    | dispatched | announced | introduced | published | plain => exact hr.elim
  | bind => exact h.bindDirect _
  | unbind => exact h.eraseDirect
  | kill => exact h.killsOnly (Broker.eraseProxy_killsOnly _ _ _)
  | book hb => exact h.bookkept hb
  | terminate => exact h.terminate

/-- An input that is not about a connection. -/
theorem other {i : Input} (ho : Other s i s') : Emits relay s s' := by
  have hcalm := ho.calm.history
  have hgrows : s.history <+: s'.history := by
    obtain ⟨es, he, -⟩ := hcalm
    exact ⟨es, he.symm⟩
  -- inputs other than data, one constructor each: none passes anything on
  cases ho with
  | ports _ hp => exact refl.silent (Silent.ports hp) hgrows
  | @publish _ _ _ _ _ s₁ s₂ _ _ hp hq =>
    have h₁ : Emits relay s s₁ := by
      refine refl.silent (Silent.ports hp) ?_
      obtain ⟨_, _, _, _, rfl⟩ := hp.eq
      exact List.prefix_rfl
    have h₂ := h₁.quiet hq fun _ _ _ hr => hr.elim
    exact h₂.silent (Silent.of_eq rfl rfl (fun _ => List.Subset.refl _) ⟨[_], rfl, by simp⟩)
      (List.prefix_append _ _)
  | forward _ _ hq => exact refl.quiet hq fun _ _ _ hr => hr.elim
  | @task index t _ _ hd =>
    have h₁ : Emits relay s { s with tasks := s.tasks.eraseIdx index } :=
      refl.silent (Silent.of_same rfl rfl rfl rfl) List.prefix_rfl
    cases hd with
    | eraseProxy => exact h₁.killsOnly (Broker.eraseProxy_killsOnly _ _ _)
    | sendKillProxyInstance hq => exact h₁.quiet hq fun _ _ _ hr => hr.elim
    | deleteProxy => exact h₁.killsOnly (Broker.eraseProxy_killsOnly _ _ _)
  | spawn => exact refl.silent (Silent.of_same rfl rfl rfl rfl) hgrows
  | exit => exact refl.silent (Silent.of_same rfl rfl rfl rfl) hgrows
  | attachable ref => exact refl.silent (Silent.callAttachable ref) hgrows
  | destroy => exact refl.silent (Silent.destroyProxy _) hgrows

end Emits

/-- **Where messages come from.** What a step puts on a connection is a message of the node itself,
or one that has just arrived. -/
theorem emits_of_step {i : Input} (hw : Wired s) (hs : s.step i = some s') :
    Emits (fun p => ∃ dm, i = .newData dm ∧ PassedOn dm s p) s s' := by
  cases step_cases hw hs with
  | other ho => exact .other ho
  | ended ho => exact (Emits.other ho).terminate
  | data _ hd =>
    have h : Emits (PassedOn _ s) s s' := hd.preserves (fun h hp => h.piece hp) .refl
    exact ⟨h.process, h.history, fun hdl p hp => (h.stream hdl p hp).imp_right
      (Or.imp_right fun hr => ⟨_, rfl, hr⟩), h.wrote⟩
  | accepted _ hnew hq =>
    refine Emits.silent ?_ (Silent.configure _) List.prefix_rfl
    exact (Emits.refl.silent (Silent.opened hnew) List.prefix_rfl).quiet hq fun _ _ _ hr => hr.elim
  | requested _ hnew =>
    refine Emits.silent ?_ (Silent.configure _) List.prefix_rfl
    refine Emits.silent ?_ (Silent.requested _) (List.prefix_append _ _)
    exact Emits.refl.silent (Silent.opened hnew) List.prefix_rfl
  | refused =>
    exact Emits.refl.silent (Silent.of_eq rfl rfl (fun _ => List.Subset.refl _) ⟨[_], rfl, by simp⟩)
      (List.prefix_append _ _)
  | lost => exact Emits.refl.silent Silent.lost (List.prefix_append _ _)
  | lostNode =>
    refine Emits.refl.silent Silent.lostNode ?_
    exact (List.prefix_append _ _).trans (List.prefix_append _ _)

/-! ## Direct routes -/

/-- A handshake of the node `nid` has arrived with `dm`. -/
def Introduces (dm : NewData) (s : Broker) (nid : NodeId) : Prop :=
  ∃ hdr payload, s.completed dm = some (hdr, payload) ∧ hdr.isHandshake = true ∧
    hdr.sourceNode = nid

/-- The direct routes of `b` are those of `s`, or the one of a handshake. -/
def BoundBy (dm : NewData) (s b : Broker) : Prop :=
  ∀ hdl nid, b.tbl.directByHdl.find? hdl = some nid →
    s.tbl.directByHdl.find? hdl = some nid ∨ hdl = dm.handle ∧ Introduces dm s nid

/-- A piece of a turn binds handles by introductions only. -/
theorem Piece.boundBy (h : BoundBy dm s a) (hp : Piece dm s a b) : BoundBy dm s b := by
  intro hdl nid hb
  cases hp with
  | act _ ha =>
    rw [ha.untouched.directByHdl] at hb
    exact h hdl nid hb
  | @bind hdr payload _ hm hbi =>
    rw [Broker.bindDirect_eq] at hb
    replace hb : (a.tbl.directByHdl.emplace dm.handle hdr.sourceNode).find? hdl = some nid := hb
    rw [UMap.find?_emplace] at hb
    -- a handle that is bound keeps its node, a free one gets the one of the introduction
    cases hf : a.tbl.directByHdl.find? hdl with
    | some n =>
      rw [hf] at hb
      exact h hdl nid (hf.trans hb)
    | none =>
      rw [hf, Option.none_or] at hb
      split at hb
      · next he =>
        cases hb
        exact .inr ⟨(eq_of_beq he).symm, hdr, payload, hm, hbi.isHandshake.2, rfl⟩
      · cases hb
  | unbind =>
    cases hf : a.tbl.directByHdl.find? dm.handle with
    | none =>
      rw [Broker.eraseDirect_of_unbound hf] at hb
      exact h hdl nid hb
    | some n =>
      rw [Broker.eraseDirect_eq hf] at hb
      exact h hdl nid (Tame.find?_of_erase hb)
  | @kill hdr =>
    obtain ⟨_, _, _, he⟩ := (Broker.eraseProxy_killsOnly (s := a) hdr.sourceNode hdr.sourceActor
      hdr.operationData.toUInt32).eq
    rw [he] at hb
    exact h hdl nid hb
  | book hbk =>
    obtain ⟨_, _, _, _, rfl⟩ := hbk.eq
    exact h hdl nid hb
  | terminate =>
    rw [Broker.terminate_tbl] at hb
    cases hb

/-- **Where direct routes come from.** A step binds a handle only when a handshake arrives on it. -/
theorem bound_of_step {i : Input} (hw : Wired s) (hs : s.step i = some s') {nid : NodeId}
    (hb : s'.tbl.directByHdl.find? hdl = some nid) : s.tbl.directByHdl.find? hdl = some nid ∨
      ∃ dm, i = .newData dm ∧ dm.handle = hdl ∧ Introduces dm s nid := by
  cases step_cases hw hs with
  | other ho =>
    rw [ho.calm.directByHdl] at hb
    exact .inl hb
  | ended =>
    rw [Broker.terminate_tbl] at hb
    cases hb
  | @data dm _ _ hd =>
    have h : BoundBy dm s s' := hd.preserves (fun h hp => hp.boundBy h) fun _ _ h => .inl h
    exact (h hdl nid hb).imp_right fun ⟨he, hi⟩ => ⟨dm, rfl, he.symm, hi⟩
  | accepted _ _ hq =>
    rw [show (Broker.configure _ _ _).tbl.directByHdl = _ from hq.untouched.directByHdl] at hb
    exact .inl hb
  | requested | refused | lost => exact .inl hb
  | lostNode => exact .inl (Tame.find?_of_erase hb)

end BoostActor
