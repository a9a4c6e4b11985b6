import BoostActor.Io.KnownPeers
import BoostActor.Io.Namespace

/-!
# Hops of indirect routes

A dispatched message teaches routes: its sender is reached through the node that
the connection is bound to, and every actor it names through the node that the
connection context belongs to. Neither is checked: before the handshake, or on an
accepted connection, whose context does not know its peer, the hop is the invalid
node id. A hop that is valid is connected, since a context that knows a node belongs to
the connection to this node.

* `Quiet.hopsConnected` — side activities add connected hops when every offered
  hop is connected;
* `hops_connected` — every hop is valid and connected at the moment of its
  insertion, in runs whose dispatched messages teach through known peers.
-/

namespace BoostActor

open Lib

variable {hdl : ConnectionHandle} {hdr : Header} {payload : Option Bytes} {via : List NodeId}
  {s s' : Broker}

/-- Every hop that was ever added is valid and had a connection then. -/
def Broker.hopsConnected (s : Broker) : Prop :=
  ∀ hop dest conn, Event.newRouteAdded hop dest conn ∈ s.history →
    hop.valid = true ∧ conn = true

/-- The node that the context of a connection belongs to, as far as it knows. -/
def Broker.contextId (s : Broker) (hdl : ConnectionHandle) : NodeId :=
  ((s.ctx.find? hdl).map (·.id)).getD NodeId.invalid

/-- A dispatched message for this node teaches routes through known nodes only: if its
sender has to be learned, the connection is bound; if another node has to be learned
for a proxy, the context of the connection knows its node. -/
def TeachesKnown (s : Broker) (hdl : ConnectionHandle) (hdr : Header)
    (payload : Option Bytes) : Prop :=
  hdr.valid = true → hdr.operation = .dispatchMessage → payloadValid hdr payload = true →
  hdr.destNode.equals s.thisNode = true →
    (hdr.sourceNode.valid = true → hdr.sourceNode.equals s.thisNode = false →
      s.tbl.connected hdr.sourceNode = false → s.tbl.directByHdl.find? hdl ≠ none) ∧
    ∀ nid aid, named s.process hdr payload nid aid → nid.valid = true → aid ≠ 0 →
      s.tbl.connected nid = false → s.liveProxy nid aid = none →
      nid.equals (s.contextId hdl) = false → (s.contextId hdl).valid = true

/-- Data does not complete a message that teaches a route through an unknown peer. -/
def teachesKnown (s : Broker) : Input → Prop
  | .newData dm => ∀ hdr payload, s.completed dm = some (hdr, payload) →
      TeachesKnown s dm.handle hdr payload
  | _ => True

/-- The hops that a turn offers are valid and connected. -/
def OffersConnected (T : Turn) (s : Broker) : Prop :=
  ∀ dest aid hop, T.names dest aid → dest.valid = true → s.tbl.connected dest = false →
    Offers T s dest aid hop → hop.valid = true ∧ s.tbl.connected hop = true

namespace Broker

/-- Events other than new routes keep the hops connected. -/
theorem hopsConnected_of_history (h : s.hopsConnected) (hh : ∃ es, s'.history = s.history ++ es ∧
    ∀ hop dest conn, Event.newRouteAdded hop dest conn ∉ es) : s'.hopsConnected := by
  obtain ⟨es, he, hes⟩ := hh
  intro hop dest conn hmem
  rw [he, List.mem_append] at hmem
  rcases hmem with hmem | hmem
  · exact h hop dest conn hmem
  · exact absurd hmem (hes hop dest conn)

theorem hopsConnected_of_eq (h : s.hopsConnected) (hh : s'.history = s.history) :
    s'.hopsConnected :=
  hopsConnected_of_history h ⟨[], by simpa using hh, by simp⟩

end Broker

/-- An act keeps the hops connected if the turn offers connected nodes. -/
theorem Act.hopsConnected {T : Turn} (h : Act T s s') (ho : OffersConnected T s)
    (hs : s.hopsConnected) : s'.hopsConnected := by
  cases h with
  | note e he =>
    refine Broker.hopsConnected_of_history hs ⟨[e], rfl, fun hop dest conn hmem => ?_⟩
    rw [← List.mem_singleton.mp hmem] at he
    cases he
  | write => exact Broker.hopsConnected_of_history hs ⟨[_], rfl, by simp⟩
  | adopt => exact Broker.hopsConnected_of_history hs ⟨[_, _], rfl, by simp⟩
  | @learn hop dest aid hn hoff hv hc =>
    intro hop' dest' conn hmem
    rcases List.mem_append.mp hmem with hmem | hmem
    · exact hs hop' dest' conn hmem
    · cases List.mem_singleton.mp hmem
      exact ho dest aid hop hn hv hc hoff
  | _ => exact Broker.hopsConnected_of_eq hs rfl

/-- What is offered later in a turn was offered at its beginning. -/
theorem OffersConnected.quiet {T : Turn} (h : OffersConnected T s) (hq : Quiet T s s') :
    OffersConnected T s' := by
  intro dest aid hop hn hv hc ho
  rw [hq.untouched.connected] at hc ⊢
  refine h dest aid hop hn hv hc ?_
  cases ho with
  | lastHop hs hne =>
    rw [hq.untouched.lookupNode] at hne ⊢
    exact .lastHop hs hne
  | context hctx hne ha hl =>
    rw [hq.untouched.context?] at hctx
    exact .context hctx hne ha (hq.liveProxy hl)

/-- Quiet steps keep the hops connected if the turn offers connected nodes. -/
theorem Quiet.hopsConnected {T : Turn} (h : Quiet T s s') (ho : OffersConnected T s)
    (hs : s.hopsConnected) : s'.hopsConnected := by
  induction h with
  | refl => exact hs
  | tail hq hlast ih => exact hlast.hopsConnected (ho.quiet hq) ih

theorem offersConnected_of_no_names {T : Turn} (hn : ∀ nid aid, ¬ T.names nid aid) :
    OffersConnected T s := fun dest aid _ h => absurd h (hn dest aid)

/-! ## Messages -/

/-- A server handshake names its own node only, and that is what the context says. -/
theorem offersConnected_published {nid : NodeId} {aid : ActorId} (ht : s.thisContext = some hdl) :
    OffersConnected (Turn.published s.process hdl nid aid)
      ((s.identify hdl nid).takeCallback hdl) := by
  rintro dest aid' hop ⟨rfl, rfl, -⟩ hv hcon ho
  cases ho with
  | lastHop hs => exact hs.elim
  | @context c hctx hne =>
    have ht' : ((s.identify hdl dest).takeCallback hdl).thisContext = some hdl := ht
    rw [Broker.context?_eq ht', Broker.takeCallback, Broker.find?_modifyCtx, if_pos rfl,
      Broker.identify, Broker.find?_modifyCtx, if_pos rfl, Option.map_map,
      Option.map_eq_some_iff] at hctx
    obtain ⟨c₀, -, rfl⟩ := hctx
    simp at hne

/-- A dispatched message, with what its condition says about it. -/
theorem offersConnected_dispatched (hw : Wired s) (hk : KnowsPeer s hdl)
    (ht : s.thisContext = some hdl) (h : TeachesKnown s hdl hdr payload) (hv : hdr.valid = true)
    (ho : hdr.operation = .dispatchMessage) (hp : payloadValid hdr payload = true)
    (hd : hdr.destNode.equals s.thisNode = true) :
    OffersConnected (Turn.dispatched s.process hdl hdr payload) s := by
  obtain ⟨hsource, hnamed⟩ := h hv ho hp hd
  intro dest aid hop hn hval hcon hoff
  cases hoff with
  | lastHop hs hne =>
    -- the connection is bound, so its node is valid and connected
    obtain ⟨rfl, hself⟩ := hs
    cases hb : s.tbl.directByHdl.find? hdl with
    | none => exact absurd hb (hsource hval hself hcon)
    | some nid =>
      have hnode : s.tbl.lookupNode hdl = nid := by
        rw [RoutingTable.lookupNode, hb]
        rfl
      show (s.tbl.lookupNode hdl).valid = true ∧ s.tbl.connected (s.tbl.lookupNode hdl) = true
      rw [hnode]
      exact ⟨hw.names hb, hw.connected_of_bound hb⟩
  | @context c hctx hne ha hl =>
    -- the context knows its node, so the connection leads there
    rw [Broker.context?_eq ht] at hctx
    have hid : s.contextId hdl = c.id := by
      rw [Broker.contextId, hctx]
      rfl
    have hknown : c.id.valid = true := by
      rw [← hid]
      exact hnamed dest aid hn hval ha hcon hl (by rw [hid, hne])
    exact ⟨hknown, hw.connected_iff.mpr ⟨hdl, hk c hctx hknown⟩⟩

namespace Broker

/-- The end of a handshake keeps the hops connected. -/
theorem hopsConnected_finalized {nid : NodeId} {aid : ActorId} (ht : s.thisContext = some hdl)
    (h : s.hopsConnected) (hf : Finalized hdl nid aid s s') : s'.hopsConnected := by
  cases hf with
  | silent => exact hopsConnected_of_eq h rfl
  | answer _ _ _ _ hq =>
    refine hopsConnected_of_history (hq.hopsConnected (offersConnected_published ht)
      (hopsConnected_of_eq h rfl)) ⟨[_], rfl, by simp⟩

/-- Binding a node keeps the hops connected. -/
theorem hopsConnected_bind {nid : NodeId} (h : s.hopsConnected) :
    (s.bindDirect hdl nid).hopsConnected := by
  rw [bindDirect_eq]
  refine hopsConnected_of_history h ⟨s.bindEvents hdl nid, rfl, fun hop dest conn hmem => ?_⟩
  simp only [bindEvents, List.mem_append, List.mem_cons, List.mem_map] at hmem
  rcases hmem with (hmem | hmem) | hmem | ⟨_, _, hmem⟩
  · split at hmem <;> simp at hmem
  · split at hmem <;> simp at hmem
  · cases hmem
  · cases hmem

/-- Erasing a direct route keeps the hops connected. -/
theorem hopsConnected_eraseDirect (h : s.hopsConnected) : (s.eraseDirect hdl).hopsConnected := by
  cases hb : s.tbl.directByHdl.find? hdl with
  | none =>
    rw [eraseDirect_of_unbound hb]
    exact h
  | some nid =>
    rw [eraseDirect_eq hb]
    exact hopsConnected_of_history h ⟨[_], rfl, by simp⟩

end Broker

/-- A side of a message offers connected nodes if it teaches known ones. -/
theorem Side.offersConnected {T : Turn} (h : Side hdl hdr payload via s T) (hw : Wired s)
    (hk : KnowsPeer s hdl) (ht : s.thisContext = some hdl) (hok : TeachesKnown s hdl hdr payload)
    (hv : hdr.valid = true) : OffersConnected T s := by
  cases h with
  | dispatched ho hp hd => exact offersConnected_dispatched hw hk ht hok hv ho hp hd
  | relayed | announced | ignored | unreadable => exact offersConnected_of_no_names fun _ _ => id

/-- A complete message adds connected hops only. -/
theorem Processed.hopsConnected {next : ConnectionState}
    (hp : Processed hdl hdr payload via s next s') (hw : Wired s) (hk : KnowsPeer s hdl)
    (ht : s.thisContext = some hdl) (hok : TeachesKnown s hdl hdr payload)
    (h : s.hopsConnected) : s'.hopsConnected := by
  have hnone : ∀ {s : Broker}, OffersConnected (Turn.introduced hdl hdr) s :=
    offersConnected_of_no_names fun _ _ => id
  have hbind := Broker.bindDirect_eq (s := s) hdl hdr.sourceNode
  cases hp with
  -- each way to process a message; only a dispatched one teaches hops
  | reject => exact Broker.hopsConnected_eraseDirect h
  | side hv hT hq => exact hq.hopsConnected (hT.offersConnected hw hk ht hok hv) h
  | kill =>
    obtain ⟨_, _, _, he⟩ := (Broker.eraseProxy_killsOnly (s := s) hdr.sourceNode hdr.sourceActor
      hdr.operationData.toUInt32).eq
    rw [he]
    exact Broker.hopsConnected_of_eq h rfl
  | refuse _ _ _ _ hf =>
    exact Broker.hopsConnected_eraseDirect (Broker.hopsConnected_finalized ht h hf)
  | server _ _ _ _ _ hq hf hq' =>
    have ht₁ := hq.untouched.thisContext
    rw [hbind] at ht₁
    exact hq'.hopsConnected hnone (Broker.hopsConnected_finalized (ht₁.trans ht)
      (hq.hopsConnected hnone (Broker.hopsConnected_bind h)) hf)
  | noRoute _ _ _ _ _ hq =>
    exact Broker.hopsConnected_eraseDirect (hq.hopsConnected hnone (Broker.hopsConnected_bind h))
  | client _ _ _ hq => exact hq.hopsConnected hnone (Broker.hopsConnected_bind h)

/-- So does a message that ends with an exception. -/
theorem Aborted.hopsConnected (hp : Aborted hdl hdr payload via s s') (hw : Wired s)
    (hk : KnowsPeer s hdl) (ht : s.thisContext = some hdl) (hok : TeachesKnown s hdl hdr payload)
    (h : s.hopsConnected) : s'.hopsConnected := by
  have hnone : ∀ {s : Broker}, OffersConnected (Turn.introduced hdl hdr) s :=
    offersConnected_of_no_names fun _ _ => id
  have ht₁ : ∀ {s₁}, Quiet (Turn.introduced hdl hdr)
      (s.bindDirect hdl hdr.sourceNode) s₁ → s₁.thisContext = some hdl ∧ s₁.hopsConnected := by
    intro s₁ hq
    refine ⟨?_, hq.hopsConnected hnone (Broker.hopsConnected_bind h)⟩
    rw [hq.untouched.thisContext, Broker.bindDirect_eq]
    exact ht
  cases hp with
  | side hv hT hq => exact hq.hopsConnected (hT.offersConnected hw hk ht hok hv) h
  | refuse _ _ _ hq =>
    exact hq.hopsConnected (offersConnected_published ht) (Broker.hopsConnected_of_eq h rfl)
  | bound _ hq => exact (ht₁ hq).2
  | answering _ hq hq' =>
    exact hq'.hopsConnected (offersConnected_published (ht₁ hq).1)
      (Broker.hopsConnected_of_eq (ht₁ hq).2 rfl)
  | finalized _ hq hf hq' =>
    exact hq'.hopsConnected hnone (Broker.hopsConnected_finalized (ht₁ hq).1 (ht₁ hq).2 hf)

/-! ## Runs -/

/-- The arrival of a message leaves alone what conditions on messages look at. -/
theorem Arrived.same {dm : NewData} {s₁ : Broker}
    (ha : Arrived dm (s.enter dm.handle) s₁ hdr payload) :
    s₁.tbl = s.tbl ∧ s₁.process = s.process ∧
    (∀ nid aid, s₁.liveProxy nid aid = s.liveProxy nid aid) ∧
    s₁.contextId dm.handle = s.contextId dm.handle := by
  have hsame : s₁.tbl = s.tbl ∧ s₁.process = s.process ∧ s₁.proxies = s.proxies ∧
      s₁.heap = s.heap := by
    cases ha with
    | payload => exact ⟨rfl, rfl, rfl, rfl⟩
    | header => exact ⟨rfl, rfl, rfl, rfl⟩
  refine ⟨hsame.1, hsame.2.1, fun nid aid => ?_, ?_⟩
  · rw [Broker.liveProxy, Broker.liveProxy, Broker.anchor_of_proxies hsame.2.2.1]
    congr 1
    funext r
    rw [Broker.live, Broker.live, hsame.2.2.2]
  · -- a context that is new does not know its peer either
    obtain ⟨c, c₁, hc, hc₁, -, rfl, -⟩ := ha.ctx
    rw [Broker.contextId, hc₁, Broker.contextId]
    replace hc : (s.ctx.emplace dm.handle _).find? dm.handle = some c := hc
    rw [UMap.find?_emplace, if_pos BEq.rfl] at hc
    cases hf : s.ctx.find? dm.handle with
    | none =>
      rw [hf] at hc
      cases hc
      rfl
    | some c' =>
      rw [hf] at hc
      cases hc
      rfl

/-- What a connection teaches is not changed by reading the message. -/
theorem Arrived.teachesKnown {dm : NewData} {s₁ : Broker}
    (ha : Arrived dm (s.enter dm.handle) s₁ hdr payload)
    (hok : teachesKnown s (.newData dm)) : TeachesKnown s₁ dm.handle hdr payload := by
  have hm := ha.completed
  rw [Broker.completed_enter] at hm
  obtain ⟨htbl, hproc, hlive, hid⟩ := ha.same
  intro hv ho hp hd
  rw [Broker.thisNode, hproc] at hd ⊢
  rw [hid, htbl]
  simp only [hlive]
  exact hok hdr payload hm hv ho hp hd

/-- New data keeps the hops connected if it teaches known nodes. -/
theorem DataStep.hopsConnected {dm : NewData} (hd : DataStep dm s s') (hw : Wired s)
    (hk : KnowsPeer s dm.handle) (ho : (s.rdSize? dm.handle).isSome = true)
    (hok : teachesKnown s (.newData dm))
    (h : s.hopsConnected) : s'.hopsConnected := by
  have h₀ : (s.enter dm.handle).hopsConnected := Broker.hopsConnected_of_eq h rfl
  have harr : ∀ {s₁ hdr payload}, Arrived dm (s.enter dm.handle) s₁ hdr payload →
      Wired s₁ ∧ KnowsPeer s₁ dm.handle ∧ s₁.thisContext = some dm.handle ∧
        s₁.hopsConnected := by
    intro s₁ hdr payload ha
    refine ⟨(hw.enter ho).arrived ha, hk.enter.arrived ha, ha.kept.thisContext, ?_⟩
    cases ha with
    | payload => exact h₀
    | header => exact Broker.hopsConnected_of_eq h₀ rfl
  -- reading adds no route, so only complete messages matter
  have hhandled : ∀ {next s₁}, Handled dm (s.enter dm.handle) next s₁ → s₁.hopsConnected := by
    intro next s₁ hh
    cases hh with
    | mismatch => exact Broker.hopsConnected_eraseDirect h₀
    | await => exact Broker.hopsConnected_of_eq h₀ rfl
    | message ha hp =>
      obtain ⟨hw₁, hk₁, ht₁, h₁⟩ := harr ha
      exact hp.hopsConnected hw₁ hk₁ ht₁ (ha.teachesKnown hok) h₁
  cases hd with
  | closed hh => exact Broker.hopsConnected_of_eq (hhandled hh) rfl
  | @«open» s₁ next _ hh =>
    refine Broker.hopsConnected_of_eq (hhandled hh) ?_
    show (s₁.settle dm.handle next).history = _
    unfold Broker.settle
    split
    · rfl
    · split <;> rfl
  | terminated hf =>
    refine Broker.hopsConnected_of_eq ?_ Broker.terminate_history
    cases hf with
    | unreadable => exact h₀
    | message ha hp =>
      obtain ⟨hw₁, hk₁, ht₁, h₁⟩ := harr ha
      exact hp.hopsConnected hw₁ hk₁ ht₁ (ha.teachesKnown hok) h₁

theorem Calm.hopsConnected (hc : Calm s s') (h : s.hopsConnected) : s'.hopsConnected := by
  obtain ⟨es, he, hes⟩ := hc.history
  refine Broker.hopsConnected_of_history h ⟨es, he, fun hop dest conn hmem => ?_⟩
  cases hes _ hmem

/-- Answers to promises add no routes. -/
theorem Broker.disconnectAnswers_answered {e : Event} (h : e ∈ s.disconnectAnswers hdl) :
    ∃ p r, e = .answered p r := by
  unfold disconnectAnswers at h
  split at h
  · exact ⟨_, _, List.mem_singleton.mp h⟩
  · cases h

/-- Every step that teaches known nodes keeps the hops connected. -/
theorem hopsConnected_step {i : Input} (hw : Wired s) (hk : ∀ hdl, KnowsPeer s hdl)
    (hok : teachesKnown s i)
    (hs : s.step i = some s') (h : s.hopsConnected) : s'.hopsConnected := by
  have hanswers : ∀ {hdl hop dest conn},
    .newRouteAdded hop dest conn ∉ s.disconnectAnswers hdl := by
    intro hdl hop dest conn hmem
    obtain ⟨p, r, he⟩ := Broker.disconnectAnswers_answered hmem
    cases he
  cases step_cases hw hs with
  | other ho => exact ho.calm.hopsConnected h
  | ended ho =>
    exact Broker.hopsConnected_of_eq (ho.calm.hopsConnected h) Broker.terminate_history
  | @data dm _ ho hd => exact hd.hopsConnected hw (hk dm.handle) ho hok h
  | @accepted hdl _ _ _ _ hq =>
    refine Broker.hopsConnected_of_eq (hq.hopsConnected
      (offersConnected_of_no_names fun _ _ => id) ?_) rfl
    exact Broker.hopsConnected_of_eq h rfl
  | requested => exact Broker.hopsConnected_of_history h ⟨[_], rfl, by simp⟩
  | refused => exact Broker.hopsConnected_of_history h ⟨[_], rfl, by simp⟩
  | lost => exact Broker.hopsConnected_of_history h ⟨_, rfl, fun _ _ _ => hanswers⟩
  | @lostNode hdl nid =>
    refine Broker.hopsConnected_of_history h ⟨s.disconnectAnswers hdl ++ [.connectionLost nid],
      List.append_assoc _ _ _, fun hop dest conn hmem => ?_⟩
    rcases List.mem_append.mp hmem with hmem | hmem
    · exact hanswers hmem
    · cases List.mem_singleton.mp hmem

/-- **Every hop is a valid node with a direct connection when it is inserted**, in
every run whose dispatched messages teach routes through known peers only. -/
theorem hops_connected (h : Broker.Reachable teachesKnown s) : s.hopsConnected := by
  induction h with
  | init hi =>
    obtain ⟨process, order, rfl⟩ := hi
    intro hop dest conn hmem
    cases hmem
  | step hr hok hs ih =>
    exact hopsConnected_step (wired_of_reachable hr) (knowsPeer_of_reachable hr) hok hs ih

open Sample in
/-- A node that we connected to tells us about an actor of a third node. -/
theorem hops_connected_handle : ∃ s, Broker.Reachable teachesKnown s ∧
    .newRouteAdded (node 2) (node 3) true ∈ s.history ∧ s.hopsConnected := by
  let msg := carries 3 5
  let s₁ := (broker 1).exec (dials 7)
  let s₂ := s₁.exec (hears 7 (serverHello (node 2)))
  let s₃ := s₂.exec (hears 7 (dispatches (node 2) (node 1) msg))
  have hs₁ : Broker.Reachable teachesKnown s₁ :=
    (broker_reachable 1).exec trivial (by decide +kernel)
  have hs₂ : Broker.Reachable teachesKnown s₂ := by
    refine hs₁.exec (fun hdr payload hm _ ho => ?_) (by decide +kernel)
    have hm₁ : s₁.completed (received 7 (writeHdr (serverHello (node 2)))) =
        some (serverHello (node 2), none) := by decide +kernel
    rw [hm₁] at hm
    cases hm
    cases ho
  have hs₃ : Broker.Reachable teachesKnown s₃ := by
    refine hs₂.exec (fun hdr payload hm => ?_) (by decide +kernel)
    have hm₂ : s₂.completed (received 7 (writeHdr (dispatches (node 2) (node 1) msg))) = none := by
      decide +kernel
    rw [hm₂] at hm
    cases hm
  -- the context knows node 2, which is connected
  have hok : teachesKnown s₃ (reads 7 msg.bytes) := fun _ _ _ _ _ _ _ =>
    ⟨fun _ _ _ => by decide +kernel, fun _ _ _ _ _ _ _ _ => by decide +kernel⟩
  have hs := hs₃.exec hok (by decide +kernel)
  exact ⟨_, hs, by decide +kernel, hops_connected hs⟩

open Sample in
/-- A peer dispatches a message before any handshake: the route to its sender goes
over the invalid node. -/
theorem hops_invalid : ¬ ∀ s, Broker.Reachable anyStep s → s.hopsConnected := by
  intro h
  obtain ⟨s, hs, hc⟩ := exists_run Broker.step (broker 1)
    [accepts 7, hears 7 (dispatches (node 2) (node 1) infoRequest),
      reads 7 infoRequest.bytes]
    (fun s => .newRouteAdded NodeId.invalid (node 2) false ∈ s.history)
    (by decide +kernel)
  rw [decide_eq_true_iff] at hc
  cases (h s (reach_of_run (broker_reachable 1) hs) _ _ _ hc).1

end BoostActor
