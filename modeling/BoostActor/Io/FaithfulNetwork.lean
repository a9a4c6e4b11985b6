import BoostActor.Io.BrokerNetwork

/-!
# Faithful connections

What the nodes of a network can rely on, in every interleaving of brokers, connections and whatever
else happens, as long as no payload is too long for a header.

* `Base.act` — what a step of one broker preserves;
* `network_faithful` — messages arrive in order, each one was written by the broker of some node,
  none gets stuck, and a handshake comes from the node that it names;
* `network_routes` — a direct route leads to the node that it is meant for.
-/

namespace BoostActor

open Lib

namespace BrokerNetwork

variable {n n' : BrokerNetwork} {i k : Nat} {input : Input} {e e' f : ConnectionEnd}
  {last : List (ConnectionHandle × Packet)} {p : Packet}

/-! ## What is preserved -/

/-- A message that node `i` sends: some node has written it, and a handshake names `i`. -/
structure Genuine (brokers : Nat → Broker) (i : Nat) (p : Packet) : Prop where
  written : ∃ j hdl q, Event.wrote hdl q ∈ (brokers j).history ∧ q.message = p.message
  sized : p.payload.length < 2 ^ 32 → p.Sized
  sourceNode : p.hdr.isHandshake = true → p.hdr.sourceNode = (brokers i).thisNode

/-- What holds of brokers and connections. -/
structure Base (n : BrokerNetwork) : Prop where
  wired : ∀ i, Wired (n.brokers i)
  framed : ∀ i, Framed (n.brokers i)
  wrote : ∀ i hdl p, Event.wrote hdl p ∈ (n.brokers i).history → p.Own (n.brokers i).thisNode
  streams : ∀ i hdl, ∀ p ∈ (n.brokers i).stream hdl, Genuine n.brokers i p
  sent : ∀ (k : Nat) e, n.ends[k]? = some e → ∀ p ∈ e.sent, Genuine n.brokers e.node p
  peers : ∀ (k : Nat) e, n.ends[k]? = some e → e.peer ≠ k ∧ ∃ f, n.ends[e.peer]? = some f
  unused : ∀ (k : Nat) e, n.ends[k]? = some e → e.state.unused = true →
    e.sent = [] ∧ e.received = 0 ∧ e.messages = []
  opened : ∀ (k : Nat) e hdl, n.ends[k]? = some e → e.state = .isOpen hdl →
    (n.brokers e.node).scribes.contains hdl = true
  unique : ∀ (k k' : Nat) e e' hdl, n.ends[k]? = some e → n.ends[k']? = some e' → e.node = e'.node →
    e.state = .isOpen hdl → e'.state = .isOpen hdl → k = k'
  routes : ∀ i hdl nid, (n.brokers i).tbl.directByHdl.find? hdl = some nid →
    ∃ (k : Nat) (e f : ConnectionEnd), n.ends[k]? = some e ∧ e.node = i ∧ e.state = .isOpen hdl ∧
      n.ends[e.peer]? = some f ∧ nid = (n.brokers f.node).thisNode

/-- How far the end `k` has come with what the other end has sent. -/
def ReadsAt (n : BrokerNetwork) (k : Nat) : Prop := ∀ e f, n.ends[k]? = some e →
  n.ends[e.peer]? = some f → ∃ done rest, f.sent = done ++ rest ∧
    e.messages = done.map Packet.message ∧
    ∀ hdl, e.state = .isOpen hdl → Reads hdl (n.brokers e.node) e.received done rest

structure Inv (n : BrokerNetwork) : Prop where
  base : Base n
  reads : ∀ k, n.ReadsAt k

/-- The brokers of `n'` are those of `n` some time later. -/
structure Grows (brokers brokers' : Nat → Broker) : Prop where
  thisNode : ∀ i, (brokers' i).thisNode = (brokers i).thisNode
  history : ∀ i, (brokers i).history <+: (brokers' i).history

/-- What is genuine stays so while the histories grow. -/
theorem Genuine.mono {brokers brokers' : Nat → Broker} (h : Genuine brokers i p)
    (hg : Grows brokers brokers') : Genuine brokers' i p := by
  obtain ⟨j, hdl, q, hq, hm⟩ := h.written
  refine ⟨⟨j, hdl, q, (hg.history j).subset hq, hm⟩, h.sized, fun hh => ?_⟩
  rw [hg.thisNode]
  exact h.sourceNode hh

/-- The id of a node survives the wire. -/
theorem Genuine.sourceNode_normalize {brokers : Nat → Broker} (h : Genuine brokers i p)
    (hh : p.hdr.isHandshake = true) : p.hdr.normalize.sourceNode = (brokers i).thisNode := by
  show p.hdr.sourceNode.normalize = _
  rw [h.sourceNode hh, Broker.normalize_thisNode]

/-- What data completes has been sent by the other end of the connection. -/
def Arrives (n : BrokerNetwork) (i : Nat) (input : Input) : Prop :=
  ∀ dm, input = .newData dm → ∀ hdr payload, (n.brokers i).completed dm = some (hdr, payload) →
    ∃ (k : Nat) (e f : ConnectionEnd) (p : Packet), n.ends[k]? = some e ∧ e.node = i ∧
      e.state = .isOpen dm.handle ∧ n.ends[e.peer]? = some f ∧ p ∈ f.sent ∧
        p.message = (hdr, payload.getD [])

/-! ## A step of one broker -/

/-- The brokers of the other nodes stay as they are. -/
theorem Acts.forall_broker (ha : Acts n n' i input last) {P : Nat → Broker → Prop}
    (hi : P i (n'.brokers i)) (hj : ∀ j, j ≠ i → P j (n.brokers j)) (j : Nat) :
    P j (n'.brokers j) := by
  by_cases he : j = i
  · rw [he]
    exact hi
  · rw [ha.others j he]
    exact hj j he

/-- The histories of the brokers only grow. -/
theorem Acts.grows (ha : Acts n n' i input last) (h : Base n) : Grows n.brokers n'.brokers := by
  have hemits := emits_of_step (h.wired i) ha.step
  refine ⟨ha.forall_broker (P := fun j s => s.thisNode = (n.brokers j).thisNode) hemits.thisNode
    fun _ _ => rfl, ha.forall_broker (P := fun j s => (n.brokers j).history <+: s.history)
    hemits.history fun _ _ => List.prefix_refl _⟩

/-- A packet that a broker wrote with its own id is genuine. -/
theorem Genuine.of_wrote {brokers : Nat → Broker} {hdl : ConnectionHandle}
    (hm : Event.wrote hdl p ∈ (brokers i).history) (hown : p.Own (brokers i).thisNode) :
    Genuine brokers i p :=
  ⟨⟨i, hdl, p, hm, rfl⟩, hown.payloadLen, hown.sourceNode⟩

/-- A message that has arrived and is passed on. -/
theorem Base.passedOn (h : Base n) {dm : NewData} (harr : n.Arrives i (.newData dm))
    (hp : PassedOn dm (n.brokers i) p) : Genuine n.brokers i p := by
  obtain ⟨hdr, payload, hc, hh, rfl⟩ := hp
  obtain ⟨k, e, f, q, -, -, -, hf, hq, hmsg⟩ := harr dm rfl hdr payload hc
  obtain ⟨j, hdl', r, hr, hrm⟩ := (h.sent _ f hf q hq).written
  refine ⟨⟨j, hdl', r, hr, hrm.trans (hmsg.trans ?_)⟩, fun _ => Broker.completed_payloadLen hc,
    fun hh' => ?_⟩
  · -- what has been read from the wire is in normal form
    have hhdr : q.hdr.normalize = hdr := congrArg Prod.fst hmsg
    rw [Packet.message, ← hhdr, Header.normalize_normalize]
  · rw [hh] at hh'
    cases hh'

/-- Every packet that is noted as written is the broker's own. -/
theorem Base.act_wrote (h : Base n) (ha : Acts n n' i input last) : ∀ j hdl p,
    Event.wrote hdl p ∈ (n'.brokers j).history → p.Own (n'.brokers j).thisNode := by
  have hemits := emits_of_step (h.wired i) ha.step
  refine ha.forall_broker (P := fun _ s => ∀ hdl p, Event.wrote hdl p ∈ s.history →
    p.Own s.thisNode) (fun hdl p hm => ?_) fun j _ => h.wrote j
  rw [hemits.thisNode]
  exact (hemits.wrote hdl p hm).elim (h.wrote i hdl p) id

/-- Every packet in a stream is genuine. -/
theorem Base.act_streams (h : Base n) (harr : n.Arrives i input) (ha : Acts n n' i input last) :
    ∀ j hdl, ∀ p ∈ (n'.brokers j).stream hdl, Genuine n'.brokers j p := by
  have hg := ha.grows h
  refine ha.forall_broker (P := fun j s => ∀ hdl, ∀ p ∈ s.stream hdl, Genuine n'.brokers j p)
    (fun hdl p hp => ?_) fun j _ hdl p hp => (h.streams j hdl p hp).mono hg
  rcases (emits_of_step (h.wired i) ha.step).stream hdl p hp with hold | ⟨hdl', hm⟩ |
    ⟨dm, rfl, hpassed⟩
  · exact (h.streams i hdl p hold).mono hg
  · exact .of_wrote hm (h.act_wrote ha i hdl' p hm)
  · exact (h.passedOn harr hpassed).mono hg

/-- What has been given to the network. -/
theorem Base.act_sent (h : Base n) (harr : n.Arrives i input) (ha : Acts n n' i input last)
    (he' : n'.ends[k]? = some e') : ∀ p ∈ e'.sent, Genuine n'.brokers e'.node p := by
  intro p hp
  obtain ⟨e, he, hm⟩ := ha.before k e' he'
  obtain ⟨more, hmore, hfrom⟩ := hm.sent
  rw [hm.node]
  rw [hmore, List.mem_append] at hp
  rcases hp with hp | hp
  · exact (h.sent k e he p hp).mono (ha.grows h)
  · obtain ⟨hn, hdl, hp | hp⟩ := hfrom p hp
    · rw [hn]
      exact h.act_streams harr ha i hdl p hp
    · rw [hn]
      exact .of_wrote (ha.written hdl p hp) (h.act_wrote ha i hdl p (ha.written hdl p hp))

/-- A route was there before, or a handshake has arrived. -/
theorem Base.act_routes (h : Base n) (harr : n.Arrives i input) (ha : Acts n n' i input last)
    {j : Nat} {hdl : ConnectionHandle} {nid : NodeId}
    (hb : (n'.brokers j).tbl.directByHdl.find? hdl = some nid) :
    ∃ (k : Nat) (e f : ConnectionEnd), n.ends[k]? = some e ∧ e.node = j ∧ e.state = .isOpen hdl ∧
      n.ends[e.peer]? = some f ∧ nid = (n.brokers f.node).thisNode := by
  by_cases hj : j = i
  · rw [hj] at hb ⊢
    rcases bound_of_step (h.wired i) ha.step hb with hold |
      ⟨dm, rfl, rfl, hdr, payload, hc, hh, rfl⟩
    · exact h.routes i hdl nid hold
    · obtain ⟨k, e, f, p, he, hn, hst, hf, hp, hmsg⟩ := harr dm rfl hdr payload hc
      have hhdr : p.hdr.normalize = hdr := congrArg Prod.fst hmsg
      refine ⟨k, e, f, he, hn, hst, hf, ?_⟩
      rw [← hhdr] at hh ⊢
      exact (h.sent _ f hf p hp).sourceNode_normalize hh
  · rw [ha.others j hj] at hb
    exact h.routes j hdl nid hb

/-- **What a step of one broker preserves**, apart from the order of messages. -/
theorem Base.act (h : Base n) (harr : n.Arrives i input) (ha : Acts n n' i input last) :
    Base n' := by
  have hwired : ∀ j, Wired (n'.brokers j) :=
    ha.forall_broker (P := fun _ s => Wired s) ((h.wired i).step ha.step) fun j _ => h.wired j
  refine ⟨hwired, ?_, h.act_wrote ha, h.act_streams harr ha, fun k e' he' => h.act_sent harr ha he',
    fun k e' he' => ?_, fun k e' he' hu => ?_, fun k e' hdl he' hst => ?_,
    fun k k' e' e'' hdl he' he'' hn hst hst' => ?_, fun j hdl nid hb => ?_⟩
  · exact ha.forall_broker (P := fun _ s => Framed s) ((h.framed i).step (h.wired i) ha.step)
      fun j _ => h.framed j
  · -- both ends of a connection stay
    obtain ⟨e, he, hm⟩ := ha.before k e' he'
    obtain ⟨hne, f, hf⟩ := h.peers k e he
    obtain ⟨f', hf', -⟩ := ha.after _ f hf
    rw [hm.peer]
    exact ⟨hne, f', hf'⟩
  · obtain ⟨e, he, hm⟩ := ha.before k e' he'
    obtain rfl := hm.unused (.inr hu)
    exact h.unused k e' he hu
  · -- an end is closed when its broker gives the connection up
    obtain ⟨e, he, hm⟩ := ha.before k e' he'
    obtain ⟨hst, hc⟩ := (hm.isOpen hdl).mp hst
    rw [hm.node]
    by_cases hn : e.node = i
    · rw [hn]
      exact hc hn
    · rw [ha.others _ hn]
      exact h.opened k e hdl he hst
  · obtain ⟨e, he, hm⟩ := ha.before k e' he'
    obtain ⟨f, hf, hmf⟩ := ha.before k' e'' he''
    rw [hm.node, hmf.node] at hn
    exact h.unique k k' e f hdl he hf hn ((hm.isOpen hdl).mp hst).1 ((hmf.isOpen hdl).mp hst').1
  · -- the connection that brought the direct route stays, with both of its ends
    obtain ⟨k, e, f, he, hn, hst, hf, hnid⟩ := h.act_routes harr ha hb
    obtain ⟨e', he', hm⟩ := ha.after k e he
    obtain ⟨f', hf', hmf⟩ := ha.after _ f hf
    refine ⟨k, e', f', he', hm.node.trans hn, (hm.isOpen hdl).mpr ⟨hst, fun hi => ?_⟩, ?_, ?_⟩
    · -- a connection with a direct route is open
      obtain ⟨c, hc⟩ := (hwired j).bound hb
      rw [← Broker.rdSize?_isSome, ← hi, hn]
      exact ((hwired j).opened hc).1
    · rw [hm.peer]
      exact hf'
    · rw [hmf.node, (ha.grows h).thisNode]
      exact hnid

/-- What a step of one broker leaves alone. -/
theorem ReadsAt.act (h : n.ReadsAt k) (hw : Wired (n.brokers i)) (ha : Acts n n' i input last)
    (hfree : ∀ e hdl, n.ends[k]? = some e → e.node = i → e.state = .isOpen hdl →
      input.uses hdl = false) : n'.ReadsAt k := by
  intro e' f' he' hf'
  obtain ⟨e, he, hm⟩ := ha.before k e' he'
  rw [hm.peer] at hf'
  obtain ⟨f, hf, hmf⟩ := ha.before _ f' hf'
  obtain ⟨done, rest, hsent, hmessages, hreads⟩ := h e f he hf
  obtain ⟨more, hmore, -⟩ := hmf.sent
  refine ⟨done, rest ++ more, by rw [hmore, hsent, List.append_assoc],
    by rw [hm.messages, hmessages], fun hdl hst => ?_⟩
  obtain ⟨hst, hc⟩ := (hm.isOpen hdl).mp hst
  rw [hm.node, hm.received]
  refine ((hreads hdl hst).of_context ?_).append more
  by_cases hi : e.node = i
  · rw [hi]
    refine (Broker.frame_of_step hw ha.step (hfree e hdl he hi hst) ?_).2
    rw [Broker.rdSize?_isSome]
    exact hc hi
  · rw [ha.others _ hi]

/-- An input that brings no data is not about the connections that are there. -/
theorem Base.free (h : Base n) (ha : Acts n n' i input last) (hdata : ∀ dm, input ≠ .newData dm)
    {hdl : ConnectionHandle} (he : n.ends[k]? = some e) (hn : e.node = i)
    (hst : e.state = .isOpen hdl) : input.uses hdl = false := by
  by_contra hu
  rw [Bool.not_eq_false] at hu
  rcases uses_cases ha.step hu with ⟨dm, rfl, -⟩ | hc
  · exact hdata dm rfl
  · have hopen := h.opened k e hdl he hst
    rw [hn, hc] at hopen
    cases hopen

/-- An input that brings no data. -/
theorem Inv.act (h : Inv n) (ha : Acts n n' i input last) (hdata : ∀ dm, input ≠ .newData dm) :
    Inv n' :=
  ⟨h.base.act (fun dm hdm => absurd hdm (hdata dm)) ha, fun k => (h.reads k).act (h.base.wired i) ha
    fun _ _ he hn hst => h.base.free ha hdata he hn hst⟩

/-! ## New connections -/

/-- An end after its broker has got the connection, or has terminated. -/
structure Attached (s : Broker) (hdl : ConnectionHandle) (e e' : ConnectionEnd) : Prop where
  node : e'.node = e.node
  peer : e'.peer = e.peer
  received : e'.received = e.received
  messages : e'.messages = e.messages
  sent : ∀ p ∈ e'.sent, p ∈ e.sent ∨ p ∈ s.stream hdl
  used : e'.state.unused = false
  isOpen : ∀ hdl', e'.state = .isOpen hdl' → hdl' = hdl ∧ s.scribes.contains hdl = true

/-- Attaching a handle changes the end it is for and nothing else. -/
theorem attach_ends (n : BrokerNetwork) (k : Nat) (hdl : ConnectionHandle) (j : Nat) :
    (∀ e', (n.attach k hdl).ends[j]? = some e' → ∃ e, n.ends[j]? = some e ∧
      (j ≠ k ∧ e' = e ∨ j = k ∧ Attached (n.brokers e.node) hdl e e')) ∧
    ∀ e, n.ends[j]? = some e → ∃ e', (n.attach k hdl).ends[j]? = some e' ∧
      (j ≠ k ∧ e' = e ∨ j = k ∧ Attached (n.brokers e.node) hdl e e') := by
  have hattached : ∀ e : ConnectionEnd, Attached (n.brokers e.node) hdl e
      (if (n.brokers e.node).scribes.contains hdl then
        { e with state := .isOpen hdl, sent := (n.brokers e.node).sentOn hdl }
      else { e with state := .closed }) := by
    intro e
    split
    · next hc =>
      refine ⟨rfl, rfl, rfl, rfl, fun p hp => .inr (sentOn_subset hp), rfl, fun hdl' h => ?_⟩
      cases h
      exact ⟨rfl, hc⟩
    · exact ⟨rfl, rfl, rfl, rfl, fun p hp => .inl hp, rfl, nofun⟩
  simp only [attach, List.getElem?_modify, Option.map_eq_map, Option.map_eq_some_iff]
  by_cases hj : k = j
  · subst hj
    refine ⟨?_, fun e he => ⟨_, ⟨e, he, rfl⟩, .inr ⟨rfl, ?_⟩⟩⟩
    · rintro e' ⟨e, he, rfl⟩
      rw [if_pos rfl]
      exact ⟨e, he, .inr ⟨rfl, hattached e⟩⟩
    · rw [if_pos rfl]
      exact hattached e
  · refine ⟨?_, fun e he => ⟨_, ⟨e, he, rfl⟩, .inl ⟨Ne.symm hj, ?_⟩⟩⟩
    · rintro e' ⟨e, he, rfl⟩
      rw [if_neg hj]
      exact ⟨e, he, .inl ⟨Ne.symm hj, rfl⟩⟩
    · rw [if_neg hj]

/-- The end `k` is attached to a broker that has a new connection. -/
theorem Base.attach (hb : Base n) {hdl : ConnectionHandle} (hk : n.ends[k]? = some e)
    (hu : e.state.unused = true)
    (hnew : ∀ (j : Nat) f, n.ends[j]? = some f → f.node = e.node → f.state ≠ .isOpen hdl) :
    Base (n.attach k hdl) := by
  refine ⟨hb.wired, hb.framed, hb.wrote, hb.streams, fun j e' he' p hp => ?_, fun j e' he' => ?_,
    fun j e' he' hu' => ?_, fun j e' hdl' he' hst => ?_,
    fun j j' e' f' hdl' he' hf' hn hst hst' => ?_, fun i hdl' nid hbound => ?_⟩
  · -- the scribe may have sent something already
    obtain ⟨a, ha, ⟨-, rfl⟩ | ⟨rfl, hat⟩⟩ := (attach_ends n k hdl j).1 e' he'
    · exact hb.sent j _ ha p hp
    · rw [hat.node]
      exact (hat.sent p hp).elim (hb.sent j a ha p) (hb.streams a.node hdl p)
  · obtain ⟨a, ha, hat⟩ := (attach_ends n k hdl j).1 e' he'
    have hpeer : e'.peer = a.peer := hat.elim (fun h => by rw [h.2]) fun h => h.2.peer
    obtain ⟨hne, f, hf⟩ := hb.peers j a ha
    obtain ⟨f', hf', -⟩ := (attach_ends n k hdl a.peer).2 f hf
    rw [hpeer]
    exact ⟨hne, f', hf'⟩
  · -- the end that was unused is used now
    obtain ⟨a, ha, ⟨-, rfl⟩ | ⟨rfl, hat⟩⟩ := (attach_ends n k hdl j).1 e' he'
    · exact hb.unused j _ ha hu'
    · rw [hat.used] at hu'
      cases hu'
  · obtain ⟨a, ha, ⟨-, rfl⟩ | ⟨rfl, hat⟩⟩ := (attach_ends n k hdl j).1 e' he'
    · exact hb.opened j _ hdl' ha hst
    · obtain ⟨rfl, hc⟩ := hat.isOpen hdl' hst
      rw [hat.node]
      exact hc
  · obtain ⟨a, ha, ⟨-, rfl⟩ | ⟨hj, hat⟩⟩ := (attach_ends n k hdl j).1 e' he' <;>
      obtain ⟨b, hb', ⟨-, rfl⟩ | ⟨hj', hbt⟩⟩ := (attach_ends n k hdl j').1 f' hf'
    · exact hb.unique j j' _ _ hdl' ha hb' hn hst hst'
    · -- the handle is new
      rw [hj', hk] at hb'
      cases hb'
      obtain ⟨rfl, -⟩ := hbt.isOpen hdl' hst'
      rw [hbt.node] at hn
      exact absurd hst (hnew j _ ha hn)
    · rw [hj, hk] at ha
      cases ha
      obtain ⟨rfl, -⟩ := hat.isOpen hdl' hst
      rw [hat.node] at hn
      exact absurd hst' (hnew j' _ hb' hn.symm)
    · rw [hj, hj']
  · obtain ⟨j, a, b, ha, hn, hst, hpeer, hnid⟩ := hb.routes i hdl' nid hbound
    obtain ⟨a', ha', ⟨-, rfl⟩ | ⟨rfl, -⟩⟩ := (attach_ends n k hdl j).2 a ha
    · obtain ⟨b', hb', hbt⟩ := (attach_ends n k hdl a'.peer).2 b hpeer
      have hnode : b'.node = b.node := hbt.elim (fun h => by rw [h.2]) fun h => h.2.node
      refine ⟨j, a', b', ha', hn, hst, hb', ?_⟩
      rw [hnode]
      exact hnid
    · -- there is no route by a connection that the broker has just got
      rw [hk] at ha
      cases ha
      rw [hst] at hu
      cases hu

/-- A new end starts with the first message of its peer, which may have been attached before. -/
theorem ReadsAt.attach {j : Nat} (h : n.ReadsAt j) (hb : Base n) {hdl : ConnectionHandle}
    (hk : n.ends[k]? = some e) (hu : e.state.unused = true)
    (hawait : (n.brokers e.node).scribes.contains hdl = true →
      ((n.brokers e.node).contextOf hdl).cstate = .awaitHeader) : (n.attach k hdl).ReadsAt j := by
  obtain ⟨hsent, hreceived, hmessages⟩ := hb.unused k e hk hu
  intro e' f' he' hf'
  obtain ⟨a, ha, hat⟩ := (attach_ends n k hdl j).1 e' he'
  have hpeer : e'.peer = a.peer := hat.elim (fun h => by rw [h.2]) fun h => h.2.peer
  rw [hpeer] at hf'
  obtain ⟨b, hb', hbt⟩ := (attach_ends n k hdl a.peer).1 f' hf'
  obtain ⟨done, rest, hdone, hmsgs, hreads⟩ := h a b ha hb'
  -- the other end may have got its connection now
  have hgrows : ∃ more, f'.sent = b.sent ++ more := by
    rcases hbt with ⟨-, rfl⟩ | ⟨hj, -⟩
    · exact ⟨[], (List.append_nil _).symm⟩
    · rw [hj, hk] at hb'
      cases hb'
      exact ⟨f'.sent, by rw [hsent, List.nil_append]⟩
  obtain ⟨more, hmore⟩ := hgrows
  refine ⟨done, rest ++ more, by rw [hmore, hdone, List.append_assoc], ?_, fun hdl' hst => ?_⟩
  · rcases hat with ⟨-, rfl⟩ | ⟨-, hat⟩
    · exact hmsgs
    · rw [hat.messages]
      exact hmsgs
  · rcases hat with ⟨-, rfl⟩ | ⟨rfl, hat⟩
    · exact (hreads hdl' hst).append more
    · rw [hk] at ha
      cases ha
      obtain ⟨rfl, hc⟩ := hat.isOpen hdl' hst
      have hnil : done = [] := by
        rw [hmessages] at hmsgs
        exact List.map_eq_nil_iff.mp hmsgs.symm
      rw [hat.node, hat.received, hreceived, hnil]
      exact .header (hawait hc) rfl

/-- The ends that are there when a node connects to another one. -/
theorem getElem?_of_establish {client server : Nat} {j : Nat}
    (hs : n.step (.establish client server) = some n') (he : n.ends[j]? = some e) :
    n'.ends[j]? = some e := by
  cases hs
  dsimp only
  rw [List.getElem?_append_left (List.getElem?_eq_some_iff.mp he).1]
  exact he

/-- Two of them are new. -/
theorem ends_of_establish {client server : Nat} {j : Nat}
    (hs : n.step (.establish client server) = some n') (he : n'.ends[j]? = some e) :
    n.ends[j]? = some e ∨ (e.peer ≠ j ∧ ∃ f, n'.ends[e.peer]? = some f) ∧
      e.state.unused = true ∧ e.sent = [] ∧ e.received = 0 ∧ e.messages = [] := by
  cases hs
  dsimp only at he ⊢
  rw [List.getElem?_append] at he
  split at he
  · exact .inl he
  · next hj =>
    obtain ⟨m, rfl⟩ : ∃ m, j = n.ends.length + m := ⟨j - n.ends.length, by omega⟩
    rw [Nat.add_sub_cancel_left] at he
    match m with
    -- the end of the client
    | 0 =>
      cases he
      refine .inr ⟨⟨Nat.succ_ne_self _, ?_⟩, rfl, rfl, rfl, rfl⟩
      rw [List.getElem?_append_right (Nat.le_add_right _ 1), Nat.add_sub_cancel_left]
      exact ⟨_, rfl⟩
    -- the end of the server
    | 1 =>
      cases he
      refine .inr ⟨⟨(Nat.succ_ne_self _).symm, ?_⟩, rfl, rfl, rfl, rfl⟩
      rw [List.getElem?_append_right (Nat.le_refl _), Nat.sub_self]
      exact ⟨_, rfl⟩
    | m + 2 => cases he

theorem ne_isOpen_of_unused {st : EndState} {hdl : ConnectionHandle} (hu : st.unused = true) :
    st ≠ .isOpen hdl := by
  rintro rfl
  cases hu

/-- A node connects to another one. -/
theorem Inv.establish (h : Inv n) {client server : Nat}
    (hs : n.step (.establish client server) = some n') : Inv n' := by
  -- the two new ends are unused, and nothing else has changed
  have hb := h.base
  have hold : ∀ {j : Nat} {e}, n.ends[j]? = some e → n'.ends[j]? = some e :=
    getElem?_of_establish hs
  have hnew : ∀ {j : Nat} {e}, n'.ends[j]? = some e → n.ends[j]? = some e ∨
      (e.peer ≠ j ∧ ∃ f, n'.ends[e.peer]? = some f) ∧ e.state.unused = true ∧ e.sent = [] ∧
        e.received = 0 ∧ e.messages = [] := ends_of_establish hs
  cases hs
  refine ⟨⟨hb.wired, hb.framed, hb.wrote, hb.streams, fun j e he p hp => ?_, fun j e he => ?_,
    fun j e he hu => ?_, fun j e hdl he hst => ?_, fun j j' e f hdl he hf hn hst hst' => ?_,
    fun i hdl nid hbound => ?_⟩, fun j e f he hf => ?_⟩
  · rcases hnew he with he | ⟨-, -, hsent, -⟩
    · exact hb.sent j e he p hp
    · rw [hsent] at hp
      cases hp
  · rcases hnew he with he | ⟨hpeers, -⟩
    · obtain ⟨hne, f, hf⟩ := hb.peers j e he
      exact ⟨hne, f, hold hf⟩
    · exact hpeers
  · rcases hnew he with he | ⟨-, -, hunused⟩
    · exact hb.unused j e he hu
    · exact hunused
  · rcases hnew he with he | ⟨-, hu, -⟩
    · exact hb.opened j e hdl he hst
    · exact absurd hst (ne_isOpen_of_unused hu)
  · rcases hnew he with he | ⟨-, hu, -⟩
    · rcases hnew hf with hf | ⟨-, hu, -⟩
      · exact hb.unique j j' e f hdl he hf hn hst hst'
      · exact absurd hst' (ne_isOpen_of_unused hu)
    · exact absurd hst (ne_isOpen_of_unused hu)
  · obtain ⟨j, e, f, he, hn, hst, hf, hnid⟩ := hb.routes i hdl nid hbound
    exact ⟨j, e, f, hold he, hn, hst, hold hf, hnid⟩
  · rcases hnew he with he | ⟨-, hu, -, -, hmessages⟩
    · obtain ⟨-, f', hf'⟩ := hb.peers j e he
      have hsame := (hold hf').symm.trans hf
      cases hsame
      exact h.reads j e f he hf'
    · exact ⟨[], f.sent, rfl, hmessages, fun hdl hst => absurd hst (ne_isOpen_of_unused hu)⟩

/-! ## Data -/

/-- Receiving changes what one end has received. -/
theorem receive_ends (n : BrokerNetwork) (k len : Nat) (messages : List (Header × Bytes)) (j : Nat)
    (e : ConnectionEnd) : (n.receive k len messages).ends[j]? = some e ↔ ∃ a, n.ends[j]? = some a ∧
      e = if k = j then { a with received := a.received + len, messages := a.messages ++ messages }
        else a := by
  simp only [receive, List.getElem?_modify, Option.map_eq_map, Option.map_eq_some_iff]
  constructor
  · rintro ⟨a, ha, rfl⟩
    exact ⟨a, ha, rfl⟩
  · rintro ⟨a, ha, rfl⟩
    exact ⟨a, ha, rfl⟩

/-- What `receive` leaves alone. -/
theorem of_receive_ends {len : Nat} {messages : List (Header × Bytes)} {j : Nat}
    (he : (n.receive k len messages).ends[j]? = some e) : ∃ a, n.ends[j]? = some a ∧
      e.node = a.node ∧ e.peer = a.peer ∧ e.state = a.state ∧ e.sent = a.sent := by
  obtain ⟨a, ha, rfl⟩ := (receive_ends n k len messages j e).mp he
  refine ⟨a, ha, ?_⟩
  split <;> exact ⟨rfl, rfl, rfl, rfl⟩

/-- After receiving, every end is still there. -/
theorem exists_receive_ends {j : Nat} (k len : Nat) (messages : List (Header × Bytes))
    (he : n.ends[j]? = some e) : ∃ e', (n.receive k len messages).ends[j]? = some e' ∧
      e'.node = e.node ∧ e'.peer = e.peer ∧ e'.state = e.state := by
  refine ⟨_, (receive_ends n k len messages j _).mpr ⟨e, he, rfl⟩, ?_⟩
  split <;> exact ⟨rfl, rfl, rfl⟩

/-- Receiving keeps the basic facts, provided that the end is in use. -/
theorem Base.receive {len : Nat} {messages : List (Header × Bytes)} (hb : Base n)
    (hused : ∀ e, n.ends[k]? = some e → e.state.unused = false) :
    Base (n.receive k len messages) := by
  refine ⟨hb.wired, hb.framed, hb.wrote, hb.streams, fun j e he p hp => ?_, fun j e he => ?_,
    fun j e he hu => ?_, fun j e hdl he hst => ?_, fun j j' e f hdl he hf hn hst hst' => ?_,
    fun i hdl nid hbound => ?_⟩
  · obtain ⟨a, ha, hn, -, -, hsent⟩ := of_receive_ends he
    rw [hn]
    rw [hsent] at hp
    exact hb.sent j a ha p hp
  · obtain ⟨a, ha, -, hpeer, -⟩ := of_receive_ends he
    obtain ⟨hne, f, hf⟩ := hb.peers j a ha
    obtain ⟨f', hf', -⟩ := exists_receive_ends k len messages hf
    rw [hpeer]
    exact ⟨hne, f', hf'⟩
  · obtain ⟨a, ha, rfl⟩ := (receive_ends n k len messages j e).mp he
    by_cases hj : k = j
    · rw [if_pos hj] at hu
      replace hu : a.state.unused = true := hu
      rw [hused a (hj ▸ ha)] at hu
      cases hu
    · rw [if_neg hj] at hu ⊢
      exact hb.unused j a ha hu
  · obtain ⟨a, ha, hn, -, hstate, -⟩ := of_receive_ends he
    rw [hn]
    exact hb.opened j a hdl ha (hstate.symm.trans hst)
  · obtain ⟨a, ha, hna, -, hsa, -⟩ := of_receive_ends he
    obtain ⟨b, hb', hnb, -, hsb, -⟩ := of_receive_ends hf
    exact hb.unique j j' a b hdl ha hb' (by rw [← hna, hn, hnb]) (hsa.symm.trans hst)
      (hsb.symm.trans hst')
  · obtain ⟨j, a, b, ha, hn, hst, hpeer, hnid⟩ := hb.routes i hdl nid hbound
    obtain ⟨e, he, hne, hpe, hse⟩ := exists_receive_ends k len messages ha
    obtain ⟨f, hf, hnf, -⟩ := exists_receive_ends k len messages hpeer
    refine ⟨j, e, f, he, hne.trans hn, hse.trans hst, by rw [hpe]; exact hf, ?_⟩
    rw [hnf]
    exact hnid

/-- The end `k` has received its next piece. -/
theorem Inv.receive {len : Nat} {messages : List (Header × Bytes)} (hb : Base n)
    (hreads : ∀ j, j ≠ k → n.ReadsAt j) (hused : ∀ e, n.ends[k]? = some e → e.state.unused = false)
    (hk : ∀ e f, n.ends[k]? = some e → n.ends[e.peer]? = some f → ∃ done rest,
      f.sent = done ++ rest ∧ e.messages ++ messages = done.map Packet.message ∧
        ∀ hdl, e.state = .isOpen hdl →
          Reads hdl (n.brokers e.node) (e.received + len) done rest) :
    Inv (n.receive k len messages) := by
  refine ⟨hb.receive hused, fun j e f he hf => ?_⟩
  obtain ⟨b, hb', -, -, -, hsent⟩ := of_receive_ends hf
  obtain ⟨a, ha, rfl⟩ := (receive_ends n k len messages j e).mp he
  rw [hsent]
  by_cases hj : k = j
  · rw [if_pos hj] at hb' ⊢
    exact hk a b (hj ▸ ha) hb'
  · rw [if_neg hj] at hb' ⊢
    exact hreads j (Ne.symm hj) a b ha hb'

/-- Every packet that was sent fits the length field of its header. -/
theorem Base.sized (h : Base n) (hfits : n.Fits) (hf : n.ends[k]? = some f) :
    ∀ p ∈ f.sent, p.Sized := fun p hp =>
  (h.sent k f hf p hp).sized (hfits f (List.mem_of_getElem? hf) p hp)

/-- A read takes a full block of the connection and handles it as data. -/
theorem read_eq_some (hs : n.read k last = some n') : ∃ e f hdl len dm n₁, n.ends[k]? = some e ∧
    n.ends[e.peer]? = some f ∧ e.state = .isOpen hdl ∧
    (n.brokers e.node).rdSize? hdl = some len ∧ len ≤ (wire e f).length ∧ dm.handle = hdl ∧
    dm.buf = (wire e f).take len ∧ n.act e.node (.newData dm) last = some n₁ ∧
    n' = n₁.receive k len ((n.brokers e.node).processed dm) := by
  unfold read at hs
  obtain ⟨e, he, hs⟩ := Option.bind_eq_some_iff.mp hs
  obtain ⟨f, hf, hs⟩ := Option.bind_eq_some_iff.mp hs
  obtain ⟨hdl, hhdl, hs⟩ := Option.bind_eq_some_iff.mp hs
  obtain ⟨len, hlen, hs⟩ := Option.bind_eq_some_iff.mp hs
  split_ifs at hs with hle
  obtain ⟨n₁, hact, hs⟩ := Option.bind_eq_some_iff.mp hs
  have hst : e.state = .isOpen hdl := by
    unfold EndState.handle? at hhdl
    split at hhdl
    · next hst =>
      cases hhdl
      exact hst
    · cases hhdl
  exact ⟨e, f, hdl, len, _, n₁, he, hf, hst, hlen, hle, rfl, rfl, hact, (Option.some.inj hs).symm⟩

/-- **A scribe reads its next piece.** -/
theorem Inv.read (h : Inv n) (hfits : n.Fits) (hs : n.read k last = some n') : Inv n' := by
  obtain ⟨e, f, hdl, len, dm, n₁, he, hf, hst, hlen, hle, hhandle, hbuf, hact, rfl⟩ :=
    read_eq_some hs
  have hb := h.base
  have ha := acts_of_act hact
  -- what the end has read so far is what the other end sent first
  obtain ⟨done, rest, hsent, hmessages, hreads⟩ := h.reads k e f he hf
  have hsized : ∀ p ∈ rest, p.Sized := by
    intro p hp
    refine hb.sized hfits hf p ?_
    rw [hsent]
    exact List.mem_append_right _ hp
  have hopen : ((n.brokers e.node).rdSize? dm.handle).isSome = true := by
    rw [hhandle, hlen]
    rfl
  have hd := newData_cases dm hopen
  rw [← (Broker.step_eq_some.mp ha.step).2] at hd
  rw [wire, hsent] at hle hbuf
  have hnext := (hreads hdl hst).next (hb.framed _) hlen hsized hle hhandle hbuf hd
  obtain ⟨done', rest', hsplit, hprocessed, hreads'⟩ := hnext.split
  -- a message that is completed by this block was sent by the other end
  have harr : n.Arrives e.node (.newData dm) := by
    intro dm' hdm' hdr payload hc
    cases hdm'
    obtain ⟨p, hp, hmsg⟩ := hnext.message hdr payload hc
    refine ⟨k, e, f, p, he, rfl, by rw [hhandle, hst], hf, ?_, hmsg⟩
    rw [hsent]
    exact List.mem_append_right _ hp
  refine Inv.receive (hb.act harr ha) (fun j hj => ?_) (fun e' he' => ?_) fun e' f' he' hf' => ?_
  · -- the other connections of the node have other handles
    refine (h.reads j).act (hb.wired _) ha fun a hdl' ha' hn hst' => decide_eq_false ?_
    intro hsame
    rw [← hsame, hhandle] at hst'
    exact hj (hb.unique j k a e hdl ha' he hn hst' hst)
  · obtain ⟨a, ha', hm⟩ := ha.before k e' he'
    rw [he] at ha'
    cases ha'
    rw [Bool.eq_false_iff]
    intro hu
    rw [hm.unused (.inr hu), hst] at hu
    cases hu
  · -- the other end may be one of the same node, and have sent more
    obtain ⟨a, ha', hm⟩ := ha.before k e' he'
    rw [he] at ha'
    cases ha'
    rw [hm.peer] at hf'
    obtain ⟨b, hb', hmb⟩ := ha.before _ f' hf'
    rw [hf] at hb'
    cases hb'
    obtain ⟨more, hmore, -⟩ := hmb.sent
    refine ⟨done', rest' ++ more, ?_, ?_, fun hdl' hst' => ?_⟩
    · rw [hmore, hsent, hsplit, List.append_assoc]
    · rw [hm.messages, hmessages]
      exact hprocessed
    · obtain ⟨hst', hc⟩ := (hm.isOpen hdl').mp hst'
      rw [hst] at hst'
      cases hst'
      rw [hm.node, hm.received]
      refine (hreads' ?_).append more
      rw [Broker.rdSize?_isSome]
      exact hc rfl

/-! ## Runs -/

/-- A broker gets the connection of the end `k`. -/
theorem Inv.connected (h : Inv n) {hdl : ConnectionHandle} (he : n.ends[k]? = some e)
    (hu : e.state.unused = true) (hact : n.act e.node input [] = some n')
    (huses : input.uses hdl = true) (hdata : ∀ dm, input ≠ .newData dm) :
    Inv (n'.attach k hdl) := by
  have ha := acts_of_act hact
  have hclosed : (n.brokers e.node).scribes.contains hdl = false := by
    rcases uses_cases ha.step huses with ⟨dm, hdm, -⟩ | hc
    · exact absurd hdm (hdata dm)
    · exact hc
  obtain ⟨e', he', hm⟩ := ha.after k e he
  obtain rfl := hm.unused (.inl hu)
  have h' := h.act ha hdata
  refine ⟨h'.base.attach he' hu fun j f hf hn hst => ?_,
    fun j => (h'.reads j).attach h'.base he' hu fun hnew => ?_⟩
  · -- nobody had the handle before
    obtain ⟨a, ha', hma⟩ := ha.before j f hf
    have hopen := h.base.opened j a hdl ha' ((hma.isOpen hdl).mp hst).1
    rw [← hma.node, hn, hclosed] at hopen
    cases hopen
  · exact (awaits_of_new (h.base.wired _) ha.step hclosed hnew).1

/-- Every action keeps the invariant. -/
theorem Inv.step (h : Inv n) (hfits : n.Fits) {a : NetworkAction} (hs : n.step a = some n') :
    Inv n' := by
  cases a with
  | establish client server => exact h.establish hs
  | connect k hdl port =>
    obtain ⟨e, he, hs⟩ := Option.bind_eq_some_iff.mp hs
    split_ifs at hs with hst
    obtain ⟨n₁, hact, hs⟩ := Option.bind_eq_some_iff.mp hs
    cases hs
    -- the new connection waits for a header
    exact h.connected he (by rw [hst]; rfl) hact (decide_eq_true rfl) nofun
  | accept k hdl source =>
    obtain ⟨e, he, hs⟩ := Option.bind_eq_some_iff.mp hs
    split_ifs at hs with hst
    obtain ⟨n₁, hact, hs⟩ := Option.bind_eq_some_iff.mp hs
    cases hs
    exact h.connected he (by rw [hst]; rfl) hact (decide_eq_true rfl) nofun
  | read k last => exact h.read hfits hs
  | other i input last =>
    rw [BrokerNetwork.step] at hs
    split_ifs at hs with hnet
    refine h.act (acts_of_act hs) fun dm hdm => hnet ?_
    rw [hdm]
    rfl

/-- A network without connections satisfies the invariant. -/
theorem Inv.init (h : n.isInitial) : Inv n := by
  obtain ⟨hbrokers, hends⟩ := h
  have hnone : ∀ {j : Nat} {e}, n.ends[j]? ≠ some e := by
    intro j e he
    rw [hends] at he
    cases he
  refine ⟨⟨fun i => .initial (hbrokers i), fun i => ?_, fun i hdl p hm => ?_, fun i hdl p hp => ?_,
    fun _ _ he => absurd he hnone, fun _ _ he => absurd he hnone, fun _ _ he => absurd he hnone,
    fun _ _ _ he => absurd he hnone, fun _ _ _ _ _ he => absurd he hnone,
    fun i hdl nid hbound => ?_⟩, fun _ _ _ he => absurd he hnone⟩
  · have hreach : Broker.Reachable anyStep (n.brokers i) := .init (hbrokers i)
    exact framed_of_reachable hreach
  · obtain ⟨process, order, hi⟩ := hbrokers i
    rw [hi] at hm
    cases hm
  · obtain ⟨process, order, hi⟩ := hbrokers i
    rw [hi] at hp
    cases hp
  · obtain ⟨process, order, hi⟩ := hbrokers i
    rw [hi] at hbound
    cases hbound

/-- Every reachable network satisfies the invariant. -/
theorem inv_of_reach (hreach : Reach isInitial step fits n) : Inv n ∧ n.Fits := by
  refine hreach.invariant (I := fun n => Inv n ∧ n.Fits) (fun n hi => ⟨.init hi, ?_⟩)
    fun _ _ _ h hfits hs => ⟨h.1.step h.2 hs, hfits _ hs⟩
  intro e he
  rw [hi.2] at he
  cases he

/-- A scribe that finds its next piece reads it. -/
theorem read_isSome {hdl : ConnectionHandle} {len : Nat} (he : n.ends[k]? = some e)
    (hf : n.ends[e.peer]? = some f) (hst : e.state = .isOpen hdl)
    (hrun : (n.brokers e.node).exitReason = ExitReason.notExited)
    (hlen : (n.brokers e.node).rdSize? hdl = some len) (hle : len ≤ (wire e f).length) :
    (n.read k []).isSome = true := by
  generalize hdm : (⟨hdl, (wire e f).take len,
    ((f.sent[e.messages.length]?).map (·.via)).getD []⟩ : NewData) = dm
  have hen : (n.brokers e.node).enabled (.newData dm) = true := by
    obtain ⟨c, hc, rfl⟩ := Option.map_eq_some_iff.mp hlen
    rw [← hdm]
    simp only [Broker.enabled, hrun, hc, decide_true, Bool.true_and, decide_eq_true_eq]
    exact List.length_take_of_le hle
  have hact : (n.act e.node (.newData dm) []).isSome = true := by
    rw [BrokerNetwork.act, Broker.step, if_pos hen]
    rfl
  obtain ⟨n', hact⟩ := Option.isSome_iff_exists.mp hact
  unfold BrokerNetwork.read
  simp only [he, hf, hst, EndState.handle?, hlen, Option.bind_eq_bind, Option.bind_some, if_pos hle,
    hdm, hact]
  rfl

/-- An end that has nothing more to read has processed all messages. -/
theorem Inv.complete (h : Inv n) {hdl : ConnectionHandle} (hfits : n.Fits)
    (he : n.ends[k]? = some e) (hf : n.ends[e.peer]? = some f) (hst : e.state = .isOpen hdl)
    (hrun : (n.brokers e.node).exitReason = ExitReason.notExited) (hread : n.read k [] = none) :
    e.messages = f.sent.map Packet.message := by
  have hopen := h.base.opened k e hdl he hst
  rw [← Broker.rdSize?_isSome] at hopen
  obtain ⟨len, hlen⟩ := Option.isSome_iff_exists.mp hopen
  have hstuck : (wire e f).length < len := by
    rw [← Nat.not_le]
    intro hle
    have hsome := read_isSome he hf hst hrun hlen hle
    rw [hread] at hsome
    cases hsome
  obtain ⟨done, rest, hsent, hmessages, hreads⟩ := h.reads k e f he hf
  rw [wire, hsent] at hstuck
  have hsized : ∀ p ∈ rest, p.Sized := by
    intro p hp
    refine h.base.sized hfits hf p ?_
    rw [hsent]
    exact List.mem_append_right _ hp
  have hrest := (hreads hdl hst).rest_eq_nil (h.base.framed _) hlen hsized hstuck
  rw [hmessages, hsent, hrest, List.append_nil]

/-- What the nodes can rely on. -/
structure Faithful (n : BrokerNetwork) : Prop where
  /-- the messages of a connection arrive in order, none twice and none changed -/
  inOrder : ∀ (k : Nat) (e f : ConnectionEnd), n.ends[k]? = some e → n.ends[e.peer]? = some f →
    e.messages <+: f.sent.map Packet.message
  /-- none is left over when a broker that is running has nothing more to read -/
  complete : ∀ (k : Nat) (e f : ConnectionEnd) (hdl : ConnectionHandle), n.ends[k]? = some e →
    n.ends[e.peer]? = some f → e.state = .isOpen hdl →
    (n.brokers e.node).exitReason = ExitReason.notExited → n.read k [] = none →
    e.messages = f.sent.map Packet.message
  /-- each of them has been written by the broker of some node -/
  written : ∀ e ∈ n.ends, ∀ m ∈ e.messages,
    ∃ i hdl p, Event.wrote hdl p ∈ (n.brokers i).history ∧ p.message = m
  /-- a handshake names the node at the other end -/
  handshakes : ∀ (k : Nat) (e f : ConnectionEnd), n.ends[k]? = some e → n.ends[e.peer]? = some f →
    ∀ m ∈ e.messages, m.1.isHandshake = true →
      m.1.sourceNode = (n.brokers f.node).thisNode

/-- **Faithful connections.** For any number of nodes and connections, in every interleaving. -/
theorem network_faithful (hreach : Reach isInitial step fits n) : Faithful n := by
  obtain ⟨h, hfits⟩ := inv_of_reach hreach
  have hfrom : ∀ (k : Nat) (e f : ConnectionEnd), n.ends[k]? = some e → n.ends[e.peer]? = some f →
      ∀ m ∈ e.messages, ∃ p ∈ f.sent, p.message = m := by
    intro k e f he hf m hm
    obtain ⟨done, rest, hsent, hmessages, -⟩ := h.reads k e f he hf
    rw [hmessages] at hm
    obtain ⟨p, hp, rfl⟩ := List.mem_map.mp hm
    rw [hsent]
    exact ⟨p, List.mem_append_left _ hp, rfl⟩
  refine ⟨fun k e f he hf => ?_, fun k e f hdl he hf hst hrun => h.complete hfits he hf hst hrun,
    fun e he m hm => ?_, fun k e f he hf m hm hh => ?_⟩
  · obtain ⟨done, rest, hsent, hmessages, -⟩ := h.reads k e f he hf
    rw [hmessages, hsent, List.map_append]
    exact List.prefix_append _ _
  · obtain ⟨k, he⟩ := List.mem_iff_getElem?.mp he
    obtain ⟨-, f, hf⟩ := h.base.peers k e he
    obtain ⟨p, hp, rfl⟩ := hfrom k e f he hf m hm
    exact (h.base.sent _ f hf p hp).written
  · obtain ⟨p, hp, rfl⟩ := hfrom k e f he hf m hm
    exact (h.base.sent _ f hf p hp).sourceNode_normalize hh

open Sample in
/-- Node 1 and node 2, and others that do nothing. -/
def twoNodes : BrokerNetwork := ⟨fun i => broker (if i = 0 then 1 else 2), []⟩

open Sample in
/-- A connection, and the handshakes of both nodes. -/
def greetings : List NetworkAction :=
  [.establish 0 1, .connect 0 (conn 7) 80, .accept 1 (conn 7) ⟨100⟩, .read 0 [], .read 1 []]

/-- Running the greetings reaches what the run ends with. -/
theorem greetings_reach {P : BrokerNetwork → Prop} [DecidablePred P]
    (h : (runAll (fun n a => if n.fits a then n.step a else none) twoNodes greetings).any
      (fun n => decide (P n)) = true) : ∃ n, Reach isInitial step fits n ∧ P n := by
  obtain ⟨n, hrun, hcheck⟩ := exists_run _ _ _ _ h
  exact ⟨n, reach_of_checked_run (.init ⟨fun i => ⟨_, _, rfl⟩, rfl⟩) hrun, of_decide_eq_true hcheck⟩

/-- The request that the client sends after its handshake is still on its way. -/
theorem network_faithful_greetings : ∃ n, n.ends.map (fun e => e.messages.map (·.1.operation)) =
    [[.serverHandshake], [.clientHandshake]] ∧ Faithful n := by
  obtain ⟨n, hreach, h⟩ := greetings_reach (P := fun n => n.ends.map (fun e =>
    e.messages.map (·.1.operation)) = [[.serverHandshake], [.clientHandshake]]) (by decide +kernel)
  exact ⟨n, h, network_faithful hreach⟩

/-- **Genuine routes.** A direct route of a node belongs to a connection, and leads to the node at
the other end of it. -/
theorem network_routes (hreach : Reach isInitial step fits n) (i : Nat) (hdl : ConnectionHandle)
    (nid : NodeId) (hbound : (n.brokers i).tbl.directByHdl.find? hdl = some nid) :
    (n.brokers i).tbl.directByNid.find? nid = some hdl ∧ ∃ e ∈ n.ends, e.node = i ∧
      e.state = .isOpen hdl ∧ ∃ f, n.ends[e.peer]? = some f ∧
        nid = (n.brokers f.node).thisNode := by
  obtain ⟨h, -⟩ := inv_of_reach hreach
  obtain ⟨k, e, f, he, hn, hst, hf, hnid⟩ := h.base.routes i hdl nid hbound
  exact ⟨(h.base.wired i).half hbound, e, List.mem_of_getElem? he, hn, hst, f, hf, hnid⟩

open Sample in
/-- The route of the server to the client. -/
theorem network_routes_greetings : ∃ n, Reach isInitial step fits n ∧ ∃ e ∈ n.ends, e.node = 1 ∧
    e.state = .isOpen (conn 7) ∧ ∃ f, n.ends[e.peer]? = some f ∧
      node 1 = (n.brokers f.node).thisNode := by
  obtain ⟨n, hreach, h⟩ := greetings_reach (P := fun n =>
    (n.brokers 1).tbl.directByHdl.find? (conn 7) = some (node 1)) (by decide +kernel)
  exact ⟨n, hreach, (network_routes hreach 1 (conn 7) (node 1) h).2⟩

end BrokerNetwork

end BoostActor
