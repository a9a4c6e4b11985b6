import BoostActor.Io.Hops
import BoostActor.Io.Streams

/-!
# Routes to this node

A node does not talk to itself over a connection: the branch for server handshakes
drops connections to this node, and the branch for dispatched messages learns no route
to it. A client handshake is not compared with this node, though, and a handle in a
payload only byte by byte, while node ids are equal up to the first zero byte of the
host. `sparesSelf` rules these two out.

* `Quiet.noSelfRoute` — side activities, when no offered route leads to this node;
* `self_unrouted` — this node is no key of the table, and no message for it is
  written, in runs of `sparesSelf`.
-/

namespace BoostActor

open Lib

variable {hdl : ConnectionHandle} {hdr : Header} {payload : Option Bytes} {via : List NodeId}
  {s s' : Broker}

/-- No node that compares equal to this one is a key of the routing table, and no
connection carries a message for it. -/
structure NoSelfRoute (s : Broker) : Prop where
  direct : ∀ nid, nid.equals s.thisNode = true → s.tbl.directByNid.find? nid = none
  indirect : ∀ nid, nid.equals s.thisNode = true → s.tbl.indirect.find? nid = none
  stream : ∀ hdl, ∀ p ∈ s.stream hdl, p.hdr.destNode.equals s.thisNode = false
  wrote : ∀ hdl p, Event.wrote hdl p ∈ s.history → p.hdr.destNode.equals s.thisNode = false

/-- A message is not a client handshake of this node, and names no actor of this node
that would get a proxy. -/
def SparesSelf (s : Broker) (hdl : ConnectionHandle) (hdr : Header) (payload : Option Bytes) :
    Prop :=
  hdr.valid = true →
    (hdr.operation = .clientHandshake → hdr.sourceNode.equals s.thisNode = false) ∧
    (hdr.operation = .dispatchMessage → payloadValid hdr payload = true →
      hdr.destNode.equals s.thisNode = true →
      ∀ nid aid, named s.process hdr payload nid aid → aid ≠ 0 → s.liveProxy nid aid = none →
        nid.equals (s.contextId hdl) = false → nid.equals s.thisNode = false)

/-- Data does not complete a message that routes this node. -/
def sparesSelf (s : Broker) : Input → Prop
  | .newData dm => ∀ hdr payload, s.completed dm = some (hdr, payload) →
      SparesSelf s dm.handle hdr payload
  | _ => True

/-- No route that a turn offers leads to this node. -/
def OffersOthers (T : Turn) (s : Broker) : Prop :=
  ∀ dest aid hop, T.names dest aid → Offers T s dest aid hop → dest.equals s.thisNode = false

-- -------------------------
-- Side activities
-- -------------------------

namespace NoSelfRoute

/-- A node with a route is another one. -/
theorem other (h : NoSelfRoute s) {nid : NodeId} (hr : (s.tbl.route? nid).isSome = true) :
    nid.equals s.thisNode = false := by
  rw [Bool.eq_false_iff]
  intro hself
  rw [RoutingTable.route?_isSome_iff] at hr
  rcases hr with hc | ⟨hop, hmem, -⟩
  · rw [RoutingTable.not_connected_of_none (h.direct nid hself)] at hc
    cases hc
  · rw [RoutingTable.hops, h.indirect nid hself] at hmem
    cases hmem

/-- Whatever is written is for another node. -/
theorem written (h : NoSelfRoute s) {T : Turn} {p : Packet} (hw : Written T s hdl p) :
    p.hdr.destNode.equals s.thisNode = false := by
  have hother : ∀ {nid : NodeId} {path : Route}, s.tbl.route? nid = some path →
      nid.equals s.thisNode = false := fun hr => h.other (by rw [hr]; rfl)
  cases hw with
  | relayed _ _ hd => exact hd
  | original ho =>
    cases ho with
    | clientHandshake _ hr => exact hother hr
    | request _ _ hr => exact hother hr
    | announce _ _ _ _ hr => exact h.other hr
    | kill _ hr => exact hother hr
    | dispatchError _ hr => exact hother hr
    | dispatch _ hr => exact hother hr
    | serverHandshake | publishedHandshake =>
      -- handshakes of an acceptor are for whoever connected
      show NodeId.invalid.equals s.thisNode = false
      rw [NodeId.equals_comm]
      exact NodeId.valid_iff.mp s.process.id_valid

/-- An act keeps this node without a route if the turn offers other nodes only. -/
theorem act (h : NoSelfRoute s) {T : Turn} (ho : OffersOthers T s) (ha : Act T s s') :
    NoSelfRoute s' := by
  have hu := ha.untouched
  -- one item for each part of the invariant: both maps, the streams and the history
  refine ⟨?_, fun nid hself => ?_, fun hdl p hp => ?_, fun hdl p hm => ?_⟩
  · rw [hu.thisNode, hu.directByNid]
    exact h.direct
  · rw [hu.thisNode] at hself
    cases ha with
    | prune target =>
      cases hf : (s.tbl.prune target).indirect.find? nid with
      | none => rfl
      | some hops =>
        obtain ⟨hops', hf', -⟩ := FewerHops.prune target nid hops hf
        rw [h.indirect nid hself] at hf'
        cases hf'
    | @learn hop dest aid hn hoff =>
      -- the new key does not compare equal to this node, so it is not `nid`
      have hne : ¬ (dest == nid) = true := NodeId.ne_key_of_equals (ho dest aid hop hn hoff) hself
      show (s.tbl.indirect.set dest _).find? nid = none
      rw [UMap.find?_set, if_neg hne]
      exact h.indirect nid hself
    | _ => exact h.indirect nid hself
  · rw [hu.thisNode]
    obtain ⟨new, he, hnew⟩ := ha.stream hdl
    rw [he, List.mem_append] at hp
    rcases hp with hp | hp
    · exact h.stream hdl p hp
    · exact h.written (hnew p hp)
  · rw [hu.thisNode]
    rcases ha.wrote hm with hm | ⟨hdr, pw, ho, rfl⟩
    · exact h.wrote hdl p hm
    · exact h.written (.original ho)

end NoSelfRoute

/-- What is offered later in a turn was offered at its beginning. -/
theorem OffersOthers.quiet {T : Turn} (h : OffersOthers T s) (hq : Quiet T s s') :
    OffersOthers T s' := by
  intro dest aid hop hn ho
  rw [hq.untouched.thisNode]
  cases ho with
  | lastHop hs hne =>
    rw [hq.untouched.lookupNode] at hne
    exact h dest aid _ hn (.lastHop hs hne)
  | context hctx hne ha hl =>
    rw [hq.untouched.context?] at hctx
    exact h dest aid _ hn (.context hctx hne ha (hq.liveProxy hl))

/-- Quiet steps keep this node without a route. -/
theorem Quiet.noSelfRoute {T : Turn} (h : Quiet T s s') (ho : OffersOthers T s)
    (hs : NoSelfRoute s) : NoSelfRoute s' := by
  induction h with
  | refl => exact hs
  | tail hq hlast ih => exact ih.act (ho.quiet hq) hlast

theorem offersOthers_of_no_names {T : Turn} (hn : ∀ nid aid, ¬ T.names nid aid) :
    OffersOthers T s := fun dest aid _ h => absurd h (hn dest aid)

/-- The actor that a server handshake publishes gets a proxy only if it is remote. -/
theorem offersOthers_published {nid : NodeId} {aid : ActorId} :
    OffersOthers (Turn.published s.process hdl nid aid)
      ((s.identify hdl nid).takeCallback hdl) := by
  rintro dest aid' hop ⟨rfl, -, hne⟩ -
  exact hne

/-- A dispatched message, with what its condition says about it. -/
theorem offersOthers_dispatched (ht : s.thisContext = some hdl)
    (h : SparesSelf s hdl hdr payload) (hv : hdr.valid = true)
    (ho : hdr.operation = .dispatchMessage) (hp : payloadValid hdr payload = true)
    (hd : hdr.destNode.equals s.thisNode = true) :
    OffersOthers (Turn.dispatched s.process hdl hdr payload) s := by
  intro dest aid hop hn hoff
  cases hoff with
  | lastHop hs =>
    obtain ⟨rfl, hself⟩ := hs
    exact hself
  | @context c hctx hne ha hl =>
    have hid : s.contextId hdl = c.id := by
      rw [Broker.context?_eq ht] at hctx
      rw [Broker.contextId, hctx]
      rfl
    exact (h hv).2 ho hp hd dest aid hn ha hl (by rw [hid, hne])

/-- A side of a message that spares this node offers other nodes only. -/
theorem Side.offersOthers {T : Turn} (h : Side hdl hdr payload via s T)
    (ht : s.thisContext = some hdl) (hok : SparesSelf s hdl hdr payload)
    (hv : hdr.valid = true) : OffersOthers T s := by
  cases h with
  | dispatched ho hp hd => exact offersOthers_dispatched ht hok hv ho hp hd
  | relayed | announced | ignored | unreadable => exact offersOthers_of_no_names fun _ _ => id

-- -------------------------
-- Messages
-- -------------------------

namespace NoSelfRoute

/-- Silent steps keep this node without a route. -/
theorem silent (h : NoSelfRoute s) (hs : Silent s s') : NoSelfRoute s' := by
  refine ⟨?_, ?_, fun hdl p hp => ?_, fun hdl p hm => ?_⟩
  · rw [hs.thisNode]
    exact fun nid hself => hs.direct nid (h.direct nid hself)
  · rw [hs.thisNode]
    exact fun nid hself => hs.indirect nid (h.indirect nid hself)
  · rw [hs.thisNode]
    exact h.stream hdl p (hs.stream hdl hp)
  · rw [hs.thisNode]
    exact h.wrote hdl p (hs.wrote hdl p hm)

/-- Binding another node keeps this node without a route. -/
theorem bind (h : NoSelfRoute s) {nid : NodeId} (hn : nid.equals s.thisNode = false) :
    NoSelfRoute (s.bindDirect hdl nid) := by
  obtain ⟨hproc, hdirect, hindirect, hstream, hwrote⟩ :=
    Silent.bindDirect (s := s) hdl nid
  have hself : (s.bindDirect hdl nid).thisNode = s.thisNode := by
    rw [Broker.thisNode, hproc, Broker.thisNode]
  refine ⟨fun n hsame => ?_, fun n hsame => ?_, fun hdl' p hp => ?_, fun hdl' p hm => ?_⟩
  · rw [hself] at hsame
    exact hdirect n (NodeId.ne_key_of_equals hn hsame) (h.direct n hsame)
  · rw [hself] at hsame
    exact hindirect n (h.indirect n hsame)
  · rw [hself]
    rw [hstream] at hp
    exact h.stream hdl' p hp
  · rw [hself]
    exact h.wrote hdl' p (hwrote hdl' p hm)

/-- The id of the peer and its callback make no route. -/
theorem identified (h : NoSelfRoute s) (nid : NodeId) :
    NoSelfRoute ((s.identify hdl nid).takeCallback hdl) :=
  h.silent (Frame.trans (Silent.modifyCtx _) (Silent.modifyCtx _))

/-- The end of a handshake keeps this node without a route. -/
theorem finalized {nid : NodeId} {aid : ActorId} (h : NoSelfRoute s)
    (hf : Finalized hdl nid aid s s') : NoSelfRoute s' := by
  cases hf with
  | silent => exact h.silent (Silent.modifyCtx _)
  | answer _ _ _ _ hq =>
    have h₁ := hq.noSelfRoute offersOthers_published (h.identified nid)
    exact h₁.silent (Silent.note (by simp))

/-- A handshake that adds a direct route is not one of this node. -/
theorem binding (hb : Binding hdr payload s) (hok : SparesSelf s hdl hdr payload) :
    hdr.sourceNode.equals s.thisNode = false := by
  cases hb with
  | server _ _ _ hn => exact hn
  | client hv ho => exact (hok hv).1 ho

/-- Processing a message that spares this node keeps it without a route. -/
theorem processed {next : ConnectionState} (h : NoSelfRoute s)
    (hp : Processed hdl hdr payload via s next s') (ht : s.thisContext = some hdl)
    (hok : SparesSelf s hdl hdr payload) : NoSelfRoute s' := by
  have hnone : ∀ {s : Broker}, OffersOthers (Turn.introduced hdl hdr) s :=
    offersOthers_of_no_names fun _ _ => id
  cases hp with
  | reject => exact h.silent Silent.eraseDirect
  | side hv hT hq => exact hq.noSelfRoute (hT.offersOthers ht hok hv) h
  | kill => exact h.silent (Silent.eraseProxy _ _ _)
  | refuse _ _ _ _ hf => exact (h.finalized hf).silent Silent.eraseDirect
  | server _ _ _ hn _ hq hf hq' =>
    exact hq'.noSelfRoute hnone ((hq.noSelfRoute hnone (h.bind hn)).finalized hf)
  | noRoute _ _ _ hn _ hq => exact (hq.noSelfRoute hnone (h.bind hn)).silent Silent.eraseDirect
  | client hv ho _ hq => exact hq.noSelfRoute hnone (h.bind ((hok hv).1 ho))

/-- A message that is broken off keeps this node without a route if it spares it. -/
theorem aborted (h : NoSelfRoute s) (hp : Aborted hdl hdr payload via s s')
    (ht : s.thisContext = some hdl) (hok : SparesSelf s hdl hdr payload) : NoSelfRoute s' := by
  have hnone : ∀ {s : Broker}, OffersOthers (Turn.introduced hdl hdr) s :=
    offersOthers_of_no_names fun _ _ => id
  cases hp with
  | side hv hT hq => exact hq.noSelfRoute (hT.offersOthers ht hok hv) h
  | refuse _ _ _ hq =>
    exact hq.noSelfRoute offersOthers_published (h.identified _)
  | bound hb hq => exact hq.noSelfRoute hnone (h.bind (binding hb hok))
  | answering hb hq hq' =>
    have h₁ := hq.noSelfRoute hnone (h.bind (binding hb hok))
    exact hq'.noSelfRoute offersOthers_published (h₁.identified _)
  | finalized hb hq hf hq' =>
    have h₁ := hq.noSelfRoute hnone (h.bind (binding hb hok))
    exact hq'.noSelfRoute hnone (h₁.finalized hf)

end NoSelfRoute

-- -------------------------
-- Runs
-- -------------------------

/-- The condition on a message looks at parts of the state that its arrival does not
change. -/
theorem Arrived.sparesSelf {dm : NewData} {s₁ : Broker}
    (ha : Arrived dm (s.enter dm.handle) s₁ hdr payload)
    (hok : sparesSelf s (.newData dm)) : SparesSelf s₁ dm.handle hdr payload := by
  have hm := ha.completed
  rw [Broker.completed_enter] at hm
  obtain ⟨-, hproc, hlive, hid⟩ := ha.same
  rw [SparesSelf, Broker.thisNode, hproc, hid]
  simp only [hlive]
  exact hok hdr payload hm

namespace NoSelfRoute

/-- New data that spares this node keeps it without a route. -/
theorem data {dm : NewData} (h : NoSelfRoute s) (hd : DataStep dm s s')
    (hok : sparesSelf s (.newData dm)) : NoSelfRoute s' := by
  have h₀ : NoSelfRoute (s.enter dm.handle) := h.silent Silent.enter
  have harr : ∀ {s₁ hdr payload}, Arrived dm (s.enter dm.handle) s₁ hdr payload →
      s₁.thisContext = some dm.handle ∧ NoSelfRoute s₁ := by
    intro s₁ hdr payload ha
    refine ⟨ha.kept.thisContext, ?_⟩
    cases ha with
    | payload => exact h₀
    | header => exact h₀.silent (Silent.modifyCtx _)
  have hhandled : ∀ {next s₁}, Handled dm (s.enter dm.handle) next s₁ → NoSelfRoute s₁ := by
    intro next s₁ hh
    cases hh with
    | mismatch => exact h₀.silent Silent.eraseDirect
    | await => exact h₀.silent (Silent.modifyCtx _)
    | message ha hp =>
      obtain ⟨ht₁, h₁⟩ := harr ha
      exact h₁.processed hp ht₁ (ha.sparesSelf hok)
  cases hd with
  | closed hh => exact ((hhandled hh).silent Silent.drop).silent Silent.flush
  | «open» _ hh => exact ((hhandled hh).silent (Silent.settle _)).silent Silent.flush
  | terminated hf =>
    refine NoSelfRoute.silent ?_ Silent.terminate
    cases hf with
    | unreadable => exact h₀
    | message ha hp =>
      obtain ⟨ht₁, h₁⟩ := harr ha
      exact h₁.aborted hp ht₁ (ha.sparesSelf hok)

/-- Inputs that are not about a connection name no actors of other nodes. -/
theorem other_input {i : Input} (h : NoSelfRoute s) (ho : Other s i s') : NoSelfRoute s' := by
  cases ho with
  | ports _ hp => exact h.silent (Silent.ports hp)
  | @publish _ _ _ _ _ s₁ s₂ _ _ hp hq =>
    have h₂ := hq.noSelfRoute (offersOthers_of_no_names fun _ _ => id) (h.silent (Silent.ports hp))
    refine h₂.silent (Silent.of_eq rfl rfl (fun _ => List.Subset.refl _) ⟨[_], rfl, by simp⟩)
  | forward _ _ hq => exact hq.noSelfRoute (offersOthers_of_no_names fun _ _ => id) h
  | @task index t _ _ hd =>
    have h₁ : NoSelfRoute { s with tasks := s.tasks.eraseIdx index } :=
      h.silent (Silent.of_same rfl rfl rfl rfl)
    cases hd with
    | eraseProxy => exact h₁.silent (Silent.eraseProxy _ _ _)
    | sendKillProxyInstance hq => exact hq.noSelfRoute (offersOthers_of_no_names fun _ _ => id) h₁
    | deleteProxy => exact h₁.silent (Silent.eraseProxy _ _ _)
  | spawn => exact h.silent (Silent.of_same rfl rfl rfl rfl)
  | exit => exact h.silent (Silent.of_same rfl rfl rfl rfl)
  | attachable ref => exact h.silent (Silent.callAttachable ref)
  | destroy => exact h.silent (Silent.destroyProxy _)

/-- Every step that spares this node keeps it without a route. -/
theorem step {i : Input} (hw : Wired s) (h : NoSelfRoute s) (hok : sparesSelf s i)
    (hs : s.step i = some s') : NoSelfRoute s' := by
  cases step_cases hw hs with
  | other ho => exact h.other_input ho
  | ended ho => exact (h.other_input ho).silent Silent.terminate
  | data _ hd => exact h.data hd hok
  | accepted _ hnew hq =>
    have h₁ := hq.noSelfRoute (offersOthers_of_no_names fun _ _ => id)
      (h.silent (Silent.opened hnew))
    exact h₁.silent (Silent.configure _)
  | requested _ hnew =>
    exact ((h.silent (Silent.opened hnew)).silent (Silent.requested _)).silent (Silent.configure _)
  | refused =>
    exact h.silent (Silent.of_eq rfl rfl (fun _ => List.Subset.refl _) ⟨[_], rfl, by simp⟩)
  | lost => exact h.silent Silent.lost
  | lostNode => exact h.silent Silent.lostNode

/-- A broker starts without routes. -/
theorem initial (hi : s.isInitial) : NoSelfRoute s := by
  obtain ⟨process, order, rfl⟩ := hi
  refine ⟨fun _ _ => rfl, fun _ _ => rfl, fun hdl p hp => ?_, fun hdl p hm => ?_⟩
  · cases hp
  · cases hm

end NoSelfRoute

/-- **This node is never routed**, in every run whose messages spare it: it is no key
of the direct or of the indirect table, nor is any node that compares equal to it, and
no message for it is written to any connection. -/
theorem self_unrouted (h : Broker.Reachable sparesSelf s) :
    (∀ nid, nid.equals s.thisNode = true →
      s.tbl.directByNid.contains nid = false ∧ s.tbl.indirect.contains nid = false) ∧
    (∀ hdl, ∀ p ∈ s.stream hdl, p.hdr.destNode.equals s.thisNode = false) ∧
    ∀ hdl p, Event.wrote hdl p ∈ s.history → p.hdr.destNode.equals s.thisNode = false := by
  have hinv : Wired s ∧ NoSelfRoute s :=
    h.invariant (I := fun s => Wired s ∧ NoSelfRoute s) (fun s hi => ⟨.initial hi, .initial hi⟩)
      fun _ _ _ hi hok hs => ⟨hi.1.step hs, hi.2.step hi.1 hok hs⟩
  exact ⟨fun nid hself => ⟨UMap.contains_eq_false.mpr (hinv.2.direct nid hself),
      UMap.contains_eq_false.mpr (hinv.2.indirect nid hself)⟩,
    hinv.2.stream, hinv.2.wrote⟩

open Sample in
/-- A node that we connected to is greeted; this node is not routed. -/
theorem self_unrouted_greeting : ∃ s, Broker.Reachable sparesSelf s ∧
    s.tbl.directByNid.contains (node 2) = true ∧ (s.stream (conn 7)).length = 2 ∧
    s.tbl.directByNid.contains s.thisNode = false := by
  let s₁ := (broker 1).exec (dials 7)
  let s₂ := s₁.exec (hears 7 (serverHello (node 2)))
  have hs₁ : Broker.Reachable sparesSelf s₁ :=
    (broker_reachable 1).exec trivial (by decide +kernel)
  have hs₂ : Broker.Reachable sparesSelf s₂ := by
    refine hs₁.exec (fun hdr payload hm _ => ?_) (by decide +kernel)
    have hm₁ : s₁.completed (received 7 (writeHdr (serverHello (node 2)))) =
        some (serverHello (node 2), none) := by decide +kernel
    rw [hm₁] at hm
    cases hm
    refine ⟨fun ho => ?_, fun ho => ?_⟩ <;> cases ho
  exact ⟨s₂, hs₂, by decide +kernel, by decide +kernel,
    ((self_unrouted hs₂).1 _ (NodeId.equals_refl _)).1⟩

open Sample in
/-- A peer introduces itself as this node. The connection is bound to this node, and
the messages to its own actors go out over it. -/
theorem self_routed : ∃ s, Broker.Reachable anyStep s ∧
    s.tbl.directByNid.contains s.thisNode = true ∧
    ∃ hdl, ∃ p ∈ s.stream hdl, p.hdr.destNode.equals s.thisNode = true ∧
      p.hdr.operation = .dispatchMessage := by
  obtain ⟨s, hs, hc⟩ := exists_run Broker.step (broker 1)
    [accepts 7, hears 7 (clientHello (node 1) (node 2))]
    (fun s => s.tbl.directByNid.contains s.thisNode ∧ (s.stream (conn 7)).any fun p =>
      p.hdr.destNode.equals s.thisNode && p.hdr.operation == .dispatchMessage)
    (by decide +kernel)
  simp only [decide_eq_true_eq, List.any_eq_true, Bool.and_eq_true, beq_iff_eq] at hc
  obtain ⟨hd, p, hp, hself, hop⟩ := hc
  exact ⟨s, reach_of_run (broker_reachable 1) hs, hd, conn 7, p, hp, hself, hop⟩

end BoostActor
