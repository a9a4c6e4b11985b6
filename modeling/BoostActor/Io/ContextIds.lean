import BoostActor.Io.Wiring

/-!
# The two copies of a peer's node id

The node at the other end of a connection is kept in the routing table and in the
connection context. A server handshake writes both. A client handshake writes the
routing table only, so the context of an accepted connection never learns its
peer; and a second server handshake on a bound connection changes the context
only. Without these two the copies agree.

* `IdsAgree.handled` — data keeps them in agreement;
* `contextIds_agree` — they agree in every run without such handshakes.
-/

namespace BoostActor

open Lib

variable {hdl : ConnectionHandle} {hdr : Header} {payload : Option Bytes} {via : List NodeId}
  {s s' : Broker}

/-- Where there are two copies, they are the same. -/
def IdsAgree (s : Broker) : Prop :=
  ∀ hdl nid c, s.tbl.directByHdl.find? hdl = some nid → s.ctx.find? hdl = some c → c.id = nid

/-- The same, for every handle but one. -/
def IdsAgreeBut (hdl : ConnectionHandle) (s : Broker) : Prop :=
  ∀ hdl' nid c, hdl' ≠ hdl → s.tbl.directByHdl.find? hdl' = some nid →
    s.ctx.find? hdl' = some c → c.id = nid

/-- A handshake on `hdl` that adds a direct route writes both copies or none: it is
a server handshake on a free handle, or a client handshake on a bound one. -/
def BindsBoth (s : Broker) (hdl : ConnectionHandle) (hdr : Header) (payload : Option Bytes) :
    Prop :=
  Binding hdr payload s →
    (hdr.operation = .serverHandshake ↔ s.tbl.directByHdl.find? hdl = none)

/-- Data does not complete a handshake that writes one of the copies only. -/
def bindsBoth (s : Broker) : Input → Prop
  | .newData dm => ∀ hdr payload, s.completed dm = some (hdr, payload) →
      BindsBoth s dm.handle hdr payload
  | _ => True

/-- What is left after `erase_direct` was there before. -/
theorem Broker.eraseDirect_fewer {hdl' : ConnectionHandle} {nid : NodeId} {c : ConnectionContext}
    (hb : (s.eraseDirect hdl).tbl.directByHdl.find? hdl' = some nid)
    (hc : (s.eraseDirect hdl).ctx.find? hdl' = some c) :
    s.tbl.directByHdl.find? hdl' = some nid ∧ s.ctx.find? hdl' = some c := by
  -- what is found after erasing a handle was there before
  have herase : ∀ {V : Type} {m : UMap ConnectionHandle V} {k : ConnectionHandle} {v : V},
      (m.erase k).find? hdl' = some v → m.find? hdl' = some v := by
    intro V m k v hf
    rw [UMap.find?_erase] at hf
    split at hf
    · cases hf
    · exact hf
  cases hbound : s.tbl.directByHdl.find? hdl with
  | none =>
    rw [eraseDirect_of_unbound hbound] at hb hc
    exact ⟨hb, hc⟩
  | some n =>
    rw [eraseDirect_eq hbound] at hb hc
    refine ⟨herase hb, ?_⟩
    cases hk : s.tbl.connected n with
    | false =>
      rw [purgeState_of_not_connected hk] at hc
      exact hc
    | true =>
      obtain ⟨_, _, _, he⟩ := purgeState_eq hk
      rw [he] at hc
      exact herase hc

namespace IdsAgree

/-- Routes and contexts may go away. -/
theorem of_fewer (h : IdsAgree s)
    (ht : ∀ hdl nid, s'.tbl.directByHdl.find? hdl = some nid →
      s.tbl.directByHdl.find? hdl = some nid)
    (hc : ∀ hdl c', s'.ctx.find? hdl = some c' → ∃ c, s.ctx.find? hdl = some c ∧ c.id = c'.id) :
    IdsAgree s' := by
  intro hdl nid c' hb hc'
  obtain ⟨c, hfind, hid⟩ := hc hdl c' hc'
  rw [← hid]
  exact h _ _ _ (ht hdl nid hb) hfind

/-- What leaves table and contexts alone keeps the ids in agreement. -/
theorem of_eq (h : IdsAgree s) (ht : s'.tbl.directByHdl = s.tbl.directByHdl)
    (hc : s'.ctx = s.ctx) : IdsAgree s' := by
  unfold IdsAgree
  rw [ht, hc]
  exact h

theorem quiet {T : Turn} (h : IdsAgree s) (hq : Quiet T s s') : IdsAgree s' :=
  h.of_eq hq.untouched.directByHdl hq.untouched.ctx

theorem killsOnly (h : IdsAgree s) (hk : KillsOnly s s') : IdsAgree s' := by
  obtain ⟨_, _, _, rfl⟩ := hk
  exact h.of_eq rfl rfl

/-- Changing anything but the node id of a context. -/
theorem modifyCtx (h : IdsAgree s) {f : ConnectionContext → ConnectionContext}
    (hf : ∀ c, (f c).id = c.id) : IdsAgree (s.modifyCtx hdl f) := by
  refine h.of_fewer (fun _ _ hb => hb) fun hdl' c' hc' => ?_
  rw [Broker.find?_modifyCtx] at hc'
  split at hc'
  · rw [Option.map_eq_some_iff] at hc'
    obtain ⟨c, hc, rfl⟩ := hc'
    exact ⟨c, hc, (hf c).symm⟩
  · exact ⟨c', hc', rfl⟩

/-- Erasing a direct route keeps the ids in agreement. -/
theorem eraseDirect (h : IdsAgree s) : IdsAgree (s.eraseDirect hdl) := by
  intro hdl' nid' c' hb' hc'
  obtain ⟨hb, hc⟩ := Broker.eraseDirect_fewer hb' hc'
  exact h _ _ _ hb hc

/-- Binding a handle does not concern the others. -/
theorem bind (h : IdsAgree s) (nid : NodeId) : IdsAgreeBut hdl (s.bindDirect hdl nid) := by
  rw [Broker.bindDirect_eq]
  intro hdl' nid' c hne hb hc
  replace hb : (s.tbl.directByHdl.emplace hdl nid).find? hdl' = some nid' := hb
  rw [UMap.find?_emplace, if_neg (by simpa using Ne.symm hne), Option.or_none] at hb
  exact h _ _ _ hb hc

end IdsAgree

namespace IdsAgreeBut

/-- Quiet steps keep the agreement of the other connections. -/
theorem quiet {T : Turn} (h : IdsAgreeBut hdl s) (hq : Quiet T s s') : IdsAgreeBut hdl s' := by
  unfold IdsAgreeBut
  rw [hq.untouched.directByHdl, hq.untouched.ctx]
  exact h

/-- The end of a handshake keeps the agreement of the other connections. -/
theorem finalized {nid : NodeId} {aid : ActorId} (h : IdsAgreeBut hdl s)
    (hf : Finalized hdl nid aid s s') : IdsAgreeBut hdl s' := by
  obtain ⟨-, -, -, hother⟩ := hf.ctx
  intro hdl' nid' c hne hb hc
  rw [hf.directByHdl] at hb
  rw [hother hdl' hne] at hc
  exact h _ _ _ hne hb hc

/-- A handle without direct route has nothing to agree on. -/
theorem eraseDirect (h : IdsAgreeBut hdl s) : IdsAgree (s.eraseDirect hdl) := by
  intro hdl' nid' c hb' hc'
  have hne : hdl' ≠ hdl := by
    rintro rfl
    rw [Broker.eraseDirect_unbound] at hb'
    cases hb'
  obtain ⟨hb, hc⟩ := Broker.eraseDirect_fewer hb' hc'
  exact h _ _ _ hne hb hc

/-- Finishing the handshake of the node that the handle is bound to. -/
theorem identified {nid : NodeId} {aid : ActorId} (h : IdsAgreeBut hdl s)
    (hb : s.tbl.directByHdl.find? hdl = some nid) (hf : Finalized hdl nid aid s s') :
    IdsAgree s' := by
  obtain ⟨c, -, hc, -⟩ := hf.ctx
  intro hdl' nid' c' hb' hc'
  by_cases hne : hdl' = hdl
  · subst hne
    rw [hf.directByHdl, hb] at hb'
    rw [hc] at hc'
    cases hb'
    cases hc'
    rfl
  · exact h.finalized hf _ _ _ hne hb' hc'

end IdsAgreeBut

namespace IdsAgree

theorem but (h : IdsAgree s) : IdsAgreeBut hdl s := fun _ _ _ _ => h _ _ _

/-- Processing a message keeps the agreement if the message binds both ids or none. -/
theorem processed {next : ConnectionState} (h : IdsAgree s)
    (hp : Processed hdl hdr payload via s next s') (hb : BindsBoth s hdl hdr payload) :
    IdsAgree s' := by
  have hbind := Broker.bindDirect_eq (s := s) hdl hdr.sourceNode
  cases hp with
  | reject => exact h.but.eraseDirect
  | side _ _ hq => exact h.quiet hq
  | kill => exact h.killsOnly (Broker.eraseProxy_killsOnly _ _ _)
  | refuse _ _ _ _ hf => exact (h.but.finalized hf).eraseDirect
  | server hv ho hi hn hk hq hf hq' =>
    have hfree := (hb (.server hv ho hi hn hk)).mp ho
    refine quiet (((h.bind _).quiet hq).identified ?_ hf) hq'
    rw [hq.untouched.directByHdl, hbind]
    show (s.tbl.directByHdl.emplace hdl hdr.sourceNode).find? hdl = _
    rw [UMap.find?_emplace_of_none hfree, if_pos BEq.rfl]
  | noRoute _ _ _ _ _ hq => exact ((h.bind _).quiet hq).eraseDirect
  | client hv ho hk hq =>
    -- the handle is bound already, and stays bound to the same node
    have hbound := mt (hb (.client hv ho hk)).mpr (by simp [ho])
    refine quiet (h.of_eq ?_ (by rw [hbind])) hq
    rw [hbind]
    exact UMap.emplace_of_contains _
      (by simpa [UMap.contains, Option.ne_none_iff_isSome] using hbound)

/-! ## Runs -/

/-- A broker that has terminated has no ids that could differ. -/
theorem terminated : IdsAgree s.terminate := by
  intro hdl nid c hf
  simp [RoutingTable.empty] at hf

/-- Entering a connection creates a context without a node. -/
theorem enter (h : IdsAgree s) (hw : Wired s) : IdsAgree (s.enter hdl) := by
  intro hdl' nid c hb hc
  obtain ⟨c₀, hc₀⟩ := hw.bound hb
  replace hc : (s.ctx.emplace hdl (ConnectionContext.initial hdl)).find? hdl' = some c := hc
  rw [UMap.find?_emplace, hc₀] at hc
  cases hc
  exact h _ _ _ hb hc₀

/-- Reading a header or payload does not change the ids. -/
theorem arrived {dm : NewData} (h : IdsAgree s) (ha : Arrived dm s s' hdr payload) :
    IdsAgree s' := by
  cases ha with
  | payload => exact h
  | header => exact h.modifyCtx fun _ => rfl

/-- Handling data keeps the ids in agreement. -/
theorem handled {dm : NewData} {next : ConnectionState} (h : IdsAgree s)
    (hh : Handled dm s next s') (hb : ∀ hdr payload, s.completed dm = some (hdr, payload) →
      BindsBoth s dm.handle hdr payload) : IdsAgree s' := by
  cases hh with
  | mismatch => exact h.but.eraseDirect
  | await => exact h.modifyCtx fun _ => rfl
  | message ha hp =>
    refine (h.arrived ha).processed hp fun hbi => ?_
    rw [ha.tbl.1]
    exact hb _ _ ha.completed (hbi.congr ha.tbl.2 (by rw [ha.tbl.1]))

/-- Going on to the next state keeps the ids in agreement. -/
theorem settle (h : IdsAgree s) (next : ConnectionState) : IdsAgree (s.settle hdl next) := by
  unfold Broker.settle
  split
  · exact h
  · split
    · exact IdsAgree.modifyCtx (h.of_eq rfl rfl : IdsAgree (s.configure hdl _)) fun _ => rfl
    · exact h

/-- Closing a connection. -/
theorem drop (h : IdsAgree s) : IdsAgree (s.drop hdl) := by
  refine h.of_fewer (fun _ _ hb => hb) fun hdl' c' hc' => ⟨c', ?_, rfl⟩
  replace hc' : (s.ctx.erase hdl).find? hdl' = some c' := hc'
  rw [UMap.find?_erase] at hc'
  split at hc'
  · cases hc'
  · exact hc'

/-- New data keeps the ids in agreement if what it completes binds both ids or none. -/
theorem data {dm : NewData} (h : IdsAgree s) (hw : Wired s) (hd : DataStep dm s s')
    (hb : bindsBoth s (.newData dm)) : IdsAgree s' := by
  have hhandled : ∀ {next s'}, Handled dm (s.enter dm.handle) next s' → IdsAgree s' := by
    intro next s' hh
    refine (h.enter hw).handled hh fun hdr payload hm hbi => ?_
    rw [Broker.completed_enter] at hm
    exact hb hdr payload hm (Binding.congr (t := s.enter dm.handle) rfl rfl hbi)
  cases hd with
  | closed hh => exact (hhandled hh).drop.of_eq rfl rfl
  | «open» _ hh => exact ((hhandled hh).settle _).of_eq rfl rfl
  | terminated => exact terminated

/-- A connect request comes with a new connection. -/
theorem request (h : IdsAgree s) (hw : Wired s) (ho : s.rdSize? hdl = none) (port : UInt16) :
    IdsAgree (((s.opened hdl).requested hdl port).configure hdl headerSize) := by
  intro hdl' nid c hb hc
  replace hb : s.tbl.directByHdl.find? hdl' = some nid := hb
  obtain ⟨c₀, hc₀⟩ := hw.bound hb
  have hne : hdl ≠ hdl' := by
    rintro rfl
    have := (hw.opened hc₀).1
    rw [ho] at this
    cases this
  replace hc : (s.ctx.set hdl _).find? hdl' = some c := hc
  rw [UMap.find?_set, if_neg (by simpa using hne)] at hc
  exact h _ _ _ hb hc

/-- Every step in which both ids are bound keeps them in agreement. -/
theorem step {i : Input} (h : IdsAgree s) (hw : Wired s) (hi : bindsBoth s i)
    (hs : s.step i = some s') : IdsAgree s' := by
  cases step_cases hw hs with
  | other ho => exact h.of_eq ho.calm.directByHdl ho.calm.ctx
  | ended => exact terminated
  | data _ hd => exact h.data hw hd hi
  | @accepted hdl _ _ _ _ hq =>
    exact (quiet (h.of_eq rfl rfl : IdsAgree (s.opened hdl)) hq).of_eq rfl rfl
  | requested _ ho => exact h.request hw ho _
  | refused => exact h.of_eq rfl rfl
  | lost => exact h.drop.of_eq rfl rfl
  | @lostNode hdl =>
    refine (h.drop : IdsAgree (s.drop hdl)).of_fewer (fun hdl' nid' hf => ?_)
      fun hdl' c hc => ⟨c, hc, rfl⟩
    replace hf : (s.tbl.directByHdl.erase hdl).find? hdl' = some nid' := hf
    rw [UMap.find?_erase] at hf
    split at hf
    · cases hf
    · exact hf

end IdsAgree

/-- The context of every connection with a direct route exists and has the id of
its node. -/
def Broker.contextsKnowPeers (s : Broker) : Prop :=
  ∀ hdl nid, s.tbl.directByHdl.find? hdl = some nid →
    ∃ c, s.ctx.find? hdl = some c ∧ (c.id == nid) = true

/-- **Contexts and routing table agree on the peers of all connections**, in every
run whose handshakes write both copies or none. -/
theorem contextIds_agree (h : Broker.Reachable bindsBoth s) : s.contextsKnowPeers := by
  have hinv : Wired s ∧ IdsAgree s := by
    refine h.invariant (I := fun s => Wired s ∧ IdsAgree s) (fun s hi => ⟨.initial hi, ?_⟩) ?_
    · obtain ⟨process, order, rfl⟩ := hi
      intro hdl nid c hf
      simp [Broker.initial, RoutingTable.empty] at hf
    · exact fun _ _ _ hi hok hs => ⟨hi.1.step hs, hi.2.step hi.1 hok hs⟩
  intro hdl nid hb
  obtain ⟨c, hc⟩ := hinv.1.bound hb
  exact ⟨c, hc, by rw [hinv.2 _ _ _ hb hc]; exact BEq.rfl⟩

open Sample in
/-- We connect to node 2, and it introduces itself. -/
theorem contextIds_agree_dialed : ∃ s, Broker.Reachable bindsBoth s ∧
    s.tbl.directByHdl.find? (conn 7) = some (node 2) ∧ s.contextsKnowPeers := by
  let s₁ := (broker 1).exec (dials 7)
  have hs₁ : Broker.Reachable bindsBoth s₁ :=
    (broker_reachable 1).exec trivial (by decide +kernel)
  have hm : s₁.completed (received 7 (writeHdr (serverHello (node 2)))) =
      some (serverHello (node 2), none) := by decide +kernel
  have hok : bindsBoth s₁ (hears 7 (serverHello (node 2))) := by
    intro hdr payload hm' _
    rw [hm] at hm'
    cases hm'
    exact ⟨fun _ => by decide +kernel, fun _ => rfl⟩
  have hs := hs₁.exec hok (by decide +kernel)
  exact ⟨_, hs, by decide +kernel, contextIds_agree hs⟩

open Sample in
/-- A peer that connects to us is not known to its context. -/
theorem contextIds_differ :
    ¬ ∀ s, Broker.Reachable anyStep s → s.contextsKnowPeers := by
  intro h
  obtain ⟨s, hs, hc⟩ := exists_run Broker.step (broker 1)
    [accepts 7, hears 7 (clientHello (node 2) (node 1))]
    (fun s => s.tbl.directByHdl.find? (conn 7) = some (node 2) ∧
      (s.ctx.find? (conn 7)).map (·.id) = some NodeId.invalid) (by decide +kernel)
  rw [decide_eq_true_iff] at hc
  obtain ⟨c, hfind, hid⟩ := h s (reach_of_run (broker_reachable 1) hs) _ _ hc.1
  rw [hfind, Option.map_some, Option.some_inj] at hc
  rw [hc.2] at hid
  exact absurd hid (by decide)

end BoostActor
