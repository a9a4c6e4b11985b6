import BoostActor.Io.LocalActors
import BoostActor.Io.Pieces

/-!
# Well-formed headers

Seven functions of a node write messages of its own, and five predicates of its peer decide
which headers are valid. This module compares the two for every message that a broker ever
writes (`Event.wrote`).

Most writers only write headers that the peer accepts. `write_dispatch_error` never does:
it uses the type of a message that kills a proxy, without an actor and with a payload. Some
others depend on their input: a handle can name a node that does not survive the wire or
that compares equal to this one, and a length of 32 bits can overflow.

* `Origin.valid` — a header is valid if the turn in which it is written is proper;
* `headers_valid` — in every run whose inputs cause proper turns, all headers are valid;
* `header_invalid` — a message that cannot be passed on.
-/

namespace BoostActor

open Lib

variable {hdl : ConnectionHandle} {hdr : Header} {payload : Option Bytes} {T : Turn}
  {s s' a b : Broker}

-- -------------------------
-- Node ids on the wire
-- -------------------------

/-- A valid node id that is still valid after it was sent. -/
def NodeId.proper (n : NodeId) : Bool := n.valid && !n.allZero

theorem NodeId.normalize_proper {n : NodeId} (h : n.proper = true) : n.normalize = n := by
  simp only [proper, Bool.and_eq_true, Bool.not_eq_true'] at h
  exact normalize_eq fun _ => h.2

theorem NodeId.valid_proper {n : NodeId} (h : n.proper = true) : n.valid = true := by
  simp only [proper, Bool.and_eq_true] at h
  exact h.1

/-- The process id of a process is not zero. -/
theorem Process.id_proper (process : Process) : process.id.proper = true := by
  have hpid := process.pid_ne_zero
  simp [NodeId.proper, process.id_valid, NodeId.allZero, hpid]

/-- A header that has come over the wire: its node ids are invalid or proper. -/
structure Header.Received (hdr : Header) : Prop where
  source : hdr.sourceNode.valid = true → hdr.sourceNode.proper = true
  dest : hdr.destNode.valid = true → hdr.destNode.proper = true

/-- The header of a new context may have been received. -/
theorem Header.received_initial : Header.initial.Received := ⟨by decide, by decide⟩

/-- Whatever is read as a header has come over the wire. -/
theorem Header.received_of_parse {bs : Bytes} (h : parse readHdr bs = .ok hdr) : hdr.Received := by
  have hread : ∃ rest, readHdr bs = .ok (hdr, rest) := by
    unfold parse at h
    cases hr : readHdr bs with
    | error e =>
      rw [hr] at h
      cases h
    | ok x =>
      rw [hr] at h
      cases h
      exact ⟨x.2, rfl⟩
  obtain ⟨rest, hread⟩ := hread
  -- reading once more what was read normalizes nothing
  have hnorm : hdr.normalize = hdr := by
    have hagain := readHdr_writeHdr hdr rest
    rw [undoes_readHdr _ _ _ hread, hread] at hagain
    injection hagain with hpair
    exact (Prod.mk.injEq .. ▸ hpair).1.symm
  have hproper : ∀ {n : NodeId}, n.normalize = n → n.valid = true → n.proper = true := by
    intro n hn hv
    simp only [NodeId.proper, hv, Bool.true_and, Bool.not_eq_true']
    cases hz : n.allZero with
    | false => rfl
    | true =>
      rw [NodeId.normalize, if_pos hz] at hn
      rw [← hn] at hv
      cases hv
  exact ⟨hproper (congrArg Header.sourceNode hnorm), hproper (congrArg Header.destNode hnorm)⟩

-- -------------------------
-- Proper states and turns
-- -------------------------

/-- Some actor will tell the node `nid` about the exit of the actor `aid`, or is about to. -/
def Broker.watching (s : Broker) (nid : NodeId) (aid : ActorId) : Prop :=
  (∃ act ∈ s.actors, .sendKillProxyInstance nid aid ∈ act.attachables ∨
    .sendKillProxyInstance nid aid ∈ act.exiting) ∨
  ∃ rsn, .sendKillProxyInstance nid aid rsn ∈ s.tasks

/-- The header that the peer decodes is valid. -/
def Packet.accepted (p : Packet) : Bool := p.hdr.normalize.valid

/-- Everything in the state that ends up in a header is fit for it. -/
structure Proper (s : Broker) : Prop where
  heap : ∀ {r : ProxyRef} {p : Proxy}, s.heap[r]? = some p → p.nid.proper = true ∧ p.aid ≠ 0
  hdr : ∀ {hdl c}, s.ctx.find? hdl = some c → c.hdr.Received
  watching : ∀ {nid aid}, s.watching nid aid →
    nid.proper = true ∧ nid.equals s.thisNode = false ∧ aid ≠ 0
  tasks : ∀ {nid aid rsn}, .sendKillProxyInstance nid aid rsn ∈ s.tasks →
    rsn ≠ ExitReason.notExited
  wrote : ∀ {hdl p}, Event.wrote hdl p ∈ s.history → p.accepted = true

/-- Everything that a turn puts into a header is fit for it. -/
structure Turn.Proper (T : Turn) (s : Broker) : Prop where
  names : ∀ {nid aid}, T.names nid aid → nid.valid = true → aid ≠ 0 →
    nid.proper = true ∧ nid.equals s.thisNode = false
  knows : ∀ {nid}, T.knows nid → nid.proper = true
  greets : ∀ {nid}, T.greets nid → nid.proper = true ∧ nid.equals s.thisNode = false
  watches : ∀ {nid aid rsn}, T.watches nid aid rsn → nid.proper = true ∧
    nid.equals s.thisNode = false ∧ aid ≠ 0 ∧ rsn ≠ ExitReason.notExited
  bounces : ∀ nid, ¬ T.bounces nid
  sends : ∀ {sender receiver msg}, T.sends sender receiver msg →
    castUInt32 msg.bytes.length ≠ 0 ∧ ∃ r, receiver = .proxy r ∧ r < s.heap.length
  accepts : ∀ port, ¬ T.accepts port

/-- A proper turn stays proper while it acts. -/
theorem Turn.Proper.quiet (h : T.Proper s) (hq : Quiet T s s') : T.Proper s' := by
  have hnode : s'.thisNode = s.thisNode := hq.untouched.thisNode
  refine ⟨?_, h.knows, ?_, ?_, h.bounces, fun hs => ?_, h.accepts⟩
  · rw [hnode]
    exact h.names
  · rw [hnode]
    exact h.greets
  · rw [hnode]
    exact h.watches
  · obtain ⟨hlen, r, hr, hlt⟩ := h.sends hs
    exact ⟨hlen, r, hr, Nat.lt_of_lt_of_le hlt hq.heap.length_le⟩

-- -------------------------
-- Side activities
-- -------------------------

/-- The length field of a message without payload. -/
theorem castUInt32_zero : castUInt32 0 = 0 := by decide

theorem castUInt32_request {msg : Message} (h : msg = infoRequest ∨ msg = connectivityRequest) :
    castUInt32 msg.bytes.length ≠ 0 := by
  rcases h with rfl | rfl <;> decide

/-- An exit reason is the data of a message. -/
theorem toUInt64_ne_zero {rsn : ExitReason} (h : rsn ≠ ExitReason.notExited) :
    rsn.toUInt64 ≠ 0 := by
  intro hz
  refine h (UInt32.toNat_inj.mp ?_)
  have hnat := congrArg UInt64.toNat hz
  rw [UInt32.toNat_toUInt64] at hnat
  exact hnat

/-- **What a proper turn writes, the peer accepts.** -/
theorem Origin.valid {pw : Option Bytes} (h : Origin T s hdl hdr pw) (hT : T.Proper s)
    (hs : Proper s) : (hdr.withPayload pw).normalize.valid = true := by
  have hself : s.thisNode.proper = true := s.process.id_proper
  have hsv := NodeId.valid_proper hself
  have hsn := NodeId.normalize_proper hself
  have hother : ∀ {nid : NodeId}, nid.equals s.thisNode = false →
      s.thisNode.equals nid = false := by
    intro nid hne
    rw [NodeId.equals_comm, hne]
  -- one case for each origin of a header, with the check of that operation
  cases h with
  | clientHandshake hg =>
    obtain ⟨hp, hne⟩ := hT.greets hg
    simp [Header.withPayload, Header.normalize, Header.valid, clientHandshakeValid, hsn, hsv,
      NodeId.normalize_proper hp, NodeId.valid_proper hp, hother hne, castUInt32_zero]
  | request hk hm =>
    have hp := hT.knows hk
    have hlen := castUInt32_request hm
    simp [Header.withPayload, Header.normalize, Header.valid, dispatchMessageValid,
      NodeId.normalize_proper hp, NodeId.valid_proper hp, hlen, namedActorId]
  | announce hn hv ha =>
    obtain ⟨hp, hne⟩ := hT.names hn hv ha
    simp [Header.withPayload, Header.normalize, Header.valid, announceProxyInstanceValid, hsn, hsv,
      NodeId.normalize_proper hp, hv, hother hne, ha, castUInt32_zero]
  | kill hw =>
    obtain ⟨hp, hne, ha, hr⟩ := hT.watches hw
    have hdata := toUInt64_ne_zero hr
    simp [Header.withPayload, Header.normalize, Header.valid, killProxyInstanceValid, hsn, hsv,
      NodeId.normalize_proper hp, NodeId.valid_proper hp, hother hne, ha, hdata, castUInt32_zero]
  | dispatchError hb => exact absurd hb (hT.bounces _)
  | dispatch hsend =>
    obtain ⟨hlen, r, rfl, hr⟩ := hT.sends hsend
    have hp := List.getElem?_eq_getElem hr
    obtain ⟨hnid, haid⟩ := hs.heap hp
    have hnode : s.addrNode (.proxy r) = s.heap[r].nid := by
      rw [Broker.addrNode, hp]
      rfl
    have hid : s.addrId (.proxy r) = s.heap[r].aid := by
      rw [Broker.addrId, hp]
      rfl
    simp [Header.withPayload, Header.normalize, Header.valid, dispatchMessageValid, hnode, hid,
      NodeId.normalize_proper hnid, NodeId.valid_proper hnid, haid, hlen]
  | serverHandshake ha => exact absurd ha (hT.accepts _)
  | publishedHandshake ha => exact absurd ha (hT.accepts _)

/-- Activities only add actors and attachables that their turn allows. -/
theorem Act.watching (h : Act T s s') {nid : NodeId} {aid : ActorId}
    (hw : s'.watching nid aid) : s.watching nid aid ∨
      T.attaches (.sendKillProxyInstance nid aid) := by
  have hsame : s'.actors = s.actors → s'.tasks = s.tasks → s.watching nid aid := by
    intro ha ht
    rw [Broker.watching, ha, ht] at hw
    exact hw
  -- acts that attach nothing watch nothing new
  cases h with
  | spawn =>
    refine .inl ?_
    rcases hw with ⟨act, hmem, hatt⟩ | htask
    · rcases List.mem_append.mp hmem with hmem | hmem
      · exact .inl ⟨act, hmem, hatt⟩
      · rw [List.mem_singleton.mp hmem] at hatt
        simp at hatt
    · exact .inr htask
  | @attach ref att act ha he hT =>
    rcases hw with ⟨act', hmem, hatt⟩ | htask
    · obtain ⟨r, hr⟩ := List.mem_iff_getElem?.mp hmem
      replace hr : (s.actors.modify ref _)[r]? = some act' := hr
      rw [List.getElem?_modify, Option.map_eq_map, Option.map_eq_some_iff] at hr
      obtain ⟨act₀, hact₀, heq⟩ := hr
      have hmem₀ := List.mem_of_getElem? hact₀
      split at heq
      · rw [← heq] at hatt
        rcases hatt with hatt | hatt
        · rcases List.mem_cons.mp hatt with hatt | hatt
          · exact .inr (hatt ▸ hT)
          · exact .inl (.inl ⟨act₀, hmem₀, .inl hatt⟩)
        · exact .inl (.inl ⟨act₀, hmem₀, .inr hatt⟩)
      · rw [← heq] at hatt
        exact .inl (.inl ⟨act₀, hmem₀, hatt⟩)
    · exact .inl (.inr htask)
  | _ => exact .inl (hsame rfl rfl)

/-- Acts of a proper turn keep the state proper. -/
theorem Proper.act (h : Proper s) (hT : T.Proper s) (ha : Act T s s') : Proper s' := by
  have hu := ha.untouched
  refine ⟨fun {r p} hp => ?_, ?_, fun hw => ?_, ?_, fun hm => ?_⟩
  · -- a proxy that is new stands for an actor that the turn names
    have hnew : ∀ {nid aid}, T.names nid aid → nid.valid = true → aid ≠ 0 →
        (s.heap ++ [⟨nid, aid, true, ExitReason.notExited, true, false⟩])[r]? = some p →
        p.nid.proper = true ∧ p.aid ≠ 0 := by
      intro nid aid hn hv hz hp
      rw [List.getElem?_append] at hp
      split at hp
      · exact h.heap hp
      · rw [List.getElem?_singleton] at hp
        split at hp
        · cases hp
          exact ⟨(hT.names hn hv hz).1, hz⟩
        · cases hp
    cases ha with
    | addProxy hn hv hz => exact hnew hn hv hz hp
    | adopt _ _ hn hv hz => exact hnew hn hv hz hp
    | _ => exact h.heap hp
  · rw [hu.ctx]
    exact h.hdr
  · rw [hu.thisNode]
    rcases ha.watching hw with hw | hatt
    · exact h.watching hw
    · obtain ⟨hp, hne, hz, -⟩ := hT.watches (hatt ExitReason.normal (by decide))
      exact ⟨hp, hne, hz⟩
  · rw [hu.tasks]
    exact h.tasks
  · rcases ha.wrote hm with hm | ⟨hdr, pw, ho, rfl⟩
    · exact h.wrote hm
    · exact ho.valid hT h

/-- Quiet steps of a proper turn keep the state proper. -/
theorem Quiet.proper (h : Quiet T s s') (hT : T.Proper s) (hs : Proper s) : Proper s' := by
  induction h with
  | refl => exact hs
  | tail hq hlast ih => exact ih.act (hT.quiet hq) hlast

-- -------------------------
-- Everything else
-- -------------------------

/-- Nothing is added that could end up in a header. -/
structure Tame (s s' : Broker) : Prop where
  process : s'.process = s.process
  heap : ∀ {r : ProxyRef} {p' : Proxy}, s'.heap[r]? = some p' →
    ∃ p, s.heap[r]? = some p ∧ p'.nid = p.nid ∧ p'.aid = p.aid
  hdr : ∀ {hdl c'}, s'.ctx.find? hdl = some c' →
    (∃ c, s.ctx.find? hdl = some c ∧ c'.hdr = c.hdr) ∨ c'.hdr.Received
  watching : ∀ {nid aid}, s'.watching nid aid → s.watching nid aid
  tasks : ∀ {nid aid rsn}, .sendKillProxyInstance nid aid rsn ∈ s'.tasks →
    .sendKillProxyInstance nid aid rsn ∈ s.tasks
  wrote : ∀ {hdl p}, Event.wrote hdl p ∈ s'.history → Event.wrote hdl p ∈ s.history

/-- A tame step keeps the state proper. -/
theorem Proper.tame (h : Proper s) (ht : Tame s s') : Proper s' := by
  have hnode : s'.thisNode = s.thisNode := congrArg Process.id ht.process
  refine ⟨fun hp => ?_, fun hc => ?_, fun hw => ?_, fun hm => h.tasks (ht.tasks hm),
    fun hm => h.wrote (ht.wrote hm)⟩
  · obtain ⟨p, hp, hn, ha⟩ := ht.heap hp
    rw [hn, ha]
    exact h.heap hp
  · rcases ht.hdr hc with ⟨c, hc, he⟩ | hr
    · rw [he]
      exact h.hdr hc
    · exact hr
  · rw [hnode]
    exact h.watching (ht.watching hw)

namespace Tame

/-- Proxies, actors and tasks stay. -/
theorem of_eq (hp : s'.process = s.process) (hh : s'.heap = s.heap) (ha : s'.actors = s.actors)
    (ht : s'.tasks = s.tasks) (hc : ∀ {hdl c'}, s'.ctx.find? hdl = some c' →
      (∃ c, s.ctx.find? hdl = some c ∧ c'.hdr = c.hdr) ∨ c'.hdr.Received)
    (hw : ∀ {hdl p}, Event.wrote hdl p ∈ s'.history → Event.wrote hdl p ∈ s.history) :
    Tame s s' := by
  refine ⟨hp, fun {r p'} hp' => ⟨p', by rw [← hh, hp'], rfl, rfl⟩, hc, fun hwatch => ?_, ?_, hw⟩
  · rw [Broker.watching, ha, ht] at hwatch
    exact hwatch
  · rw [ht]
    exact id

theorem of_same (hp : s'.process = s.process) (hh : s'.heap = s.heap) (ha : s'.actors = s.actors)
    (ht : s'.tasks = s.tasks) (hc : s'.ctx = s.ctx) (hw : s'.history = s.history) : Tame s s' :=
  of_eq hp hh ha ht (fun {_ c'} h => .inl ⟨c', by rw [← hc, h], rfl⟩) (by rw [hw]; exact id)

/-- Killing proxies posts erase callbacks only. -/
theorem kills {keys : NodeId → ActorId → Prop} (h : Kills keys s s')
    (hp : s'.process = s.process) (ha : s'.actors = s.actors)
    (hc : ∀ {hdl c}, s'.ctx.find? hdl = some c → s.ctx.find? hdl = some c)
    (hw : ∀ {hdl p}, Event.wrote hdl p ∈ s'.history → Event.wrote hdl p ∈ s.history) :
    Tame s s' := by
  have htasks : ∀ {nid aid rsn}, .sendKillProxyInstance nid aid rsn ∈ s'.tasks →
      .sendKillProxyInstance nid aid rsn ∈ s.tasks := by
    intro nid aid rsn hm
    obtain ⟨ts, ht, hts⟩ := h.tasks
    rw [ht, List.mem_append] at hm
    rcases hm with hm | hm
    · exact hm
    · obtain ⟨_, _, _, heq, -⟩ := hts _ hm
      cases heq
  refine ⟨hp, fun {r p'} hp' => ?_, fun {_ c} hc' => .inl ⟨c, hc hc', rfl⟩, fun hwatch => ?_,
    htasks, hw⟩
  · rcases h.heap r with he | ⟨_, _, p, p₁, -, -, hp₀, hp₁, hk⟩
    · exact ⟨p', by rw [← he, hp'], rfl, rfl⟩
    · rw [hp'] at hp₁
      cases hp₁
      exact ⟨p, hp₀, hk.nid, hk.aid⟩
  · rcases hwatch with hact | ⟨rsn, hm⟩
    · rw [ha] at hact
      exact .inl hact
    · exact .inr ⟨rsn, htasks hm⟩

/-- Erasing a proxy is tame. -/
theorem eraseProxy (nid : NodeId) (aid : ActorId) (rsn : ExitReason) :
    Tame s (s.eraseProxy nid aid rsn) := by
  obtain ⟨_, _, _, he⟩ := (Broker.eraseProxy_killsOnly (s := s) nid aid rsn).eq
  refine kills (Kills.eraseProxy nid aid rsn) ?_ ?_ ?_ ((Silent.eraseProxy nid aid rsn).wrote _ _)
  · rw [he]
  · rw [he]
  · rw [he]
    exact id

theorem terminate : Tame s s.terminate := by
  obtain ⟨_, _, he⟩ := Broker.terminate_eq (s := s)
  refine kills Kills.terminate ?_ ?_ (fun hc => ?_) (Silent.terminate.wrote _ _)
  · rw [he]
  · rw [he]
  · rw [Broker.terminate_ctx] at hc
    simp at hc

/-- Contexts may be erased. -/
theorem find?_of_erase {V : Type} {m : UMap ConnectionHandle V} {k k' : ConnectionHandle} {v : V}
    (h : (m.erase k).find? k' = some v) : m.find? k' = some v := by
  rw [UMap.find?_erase] at h
  split at h
  · cases h
  · exact h

/-- Erasing a direct route is tame. -/
theorem eraseDirect : Tame s (s.eraseDirect hdl) := by
  have hkept : Kept s (s.eraseDirect hdl) := Broker.eraseDirect_kept
  have hsame : ActorsKept s (s.eraseDirect hdl) := Broker.eraseDirect_actorsKept
  have hwrote := (Silent.eraseDirect : Silent s (s.eraseDirect hdl)).wrote
  cases hb : s.tbl.directByHdl.find? hdl with
  | none =>
    rw [Broker.eraseDirect_of_unbound hb]
    exact of_same rfl rfl rfl rfl rfl rfl
  | some nid =>
    cases hk : s.tbl.connected nid with
    | true =>
      refine kills (Kills.eraseDirect hb hk) hkept.process hsame.actors (fun hc => ?_) (hwrote _ _)
      obtain ⟨_, _, _, he⟩ := Broker.purgeState_eq hk
      rw [Broker.eraseDirect_eq hb, he] at hc
      exact find?_of_erase hc
    | false =>
      rw [Broker.eraseDirect_eq hb, Broker.purgeState_of_not_connected hk] at hwrote ⊢
      exact of_eq rfl rfl rfl rfl (fun {_ c} hc => .inl ⟨c, hc, rfl⟩) (hwrote _ _)

/-- Binding a node is tame. -/
theorem bindDirect (nid : NodeId) : Tame s (s.bindDirect hdl nid) := by
  rw [Broker.bindDirect_eq]
  refine of_eq rfl rfl rfl rfl (fun {_ c} hc => .inl ⟨c, hc, rfl⟩) fun hm => ?_
  rcases List.mem_append.mp hm with hm | hm
  · exact hm
  · simp only [Broker.bindEvents, List.mem_append, List.mem_cons, List.mem_map] at hm
    rcases hm with (hm | hm) | hm | ⟨_, _, hm⟩
    · split at hm <;> simp at hm
    · split at hm <;> simp at hm
    · cases hm
    · cases hm

/-- Bookkeeping is tame. -/
theorem bookkept {dm : NewData} (h : Bookkept dm a b) : Tame a b := by
  have hwrote : ∀ {hdl p}, Event.wrote hdl p ∈ b.history → Event.wrote hdl p ∈ a.history := by
    intro hdl p hm
    obtain ⟨es, he, hes⟩ := h.history
    rw [he, List.mem_append] at hm
    rcases hm with hm | hm
    · exact hm
    · obtain ⟨_, _, heq⟩ := hes _ hm
      cases heq
  have hhdr : ∀ {hdl c'}, b.ctx.find? hdl = some c' →
      (∃ c, a.ctx.find? hdl = some c ∧ c'.hdr = c.hdr) ∨ c'.hdr.Received := by
    intro hdl c' hc
    rcases h.hdr hdl c' hc with hc | hc | hc
    · exact .inl hc
    · rw [hc]
      exact .inr Header.received_initial
    · exact .inr (Header.received_of_parse hc)
  obtain ⟨_, _, _, _, rfl⟩ := h.eq
  exact of_eq rfl rfl rfl rfl hhdr hwrote

end Tame

-- -------------------------
-- Data
-- -------------------------

/-- Data completes no message that is for another node without a route to it, unless there
is no route back either; and every handle in a message for this node names another node,
also to `operator==`, that survives the wire. -/
def ProperMessage (s : Broker) (hdr : Header) (payload : Option Bytes) : Prop :=
  (hdr.isHandshake = false → hdr.destNode.equals s.thisNode = false →
    (s.tbl.route? hdr.destNode).isSome = true ∨ hdr.sourceNode.equals s.thisNode = true ∨
      s.tbl.route? hdr.sourceNode = none) ∧
  (hdr.operation = .dispatchMessage → hdr.destNode.equals s.thisNode = true →
    ∀ x ∈ (Message.deserialize s.process.types (payload.getD [])).addrs, x.foreign s.thisNode →
      x.aid ≠ 0 → x.node.allZero = false ∧ x.node.equals s.thisNode = false)

/-- Inputs that lead to valid headers only. A connection is accepted at a port where no actor
is published, or one with an id and with an interface whose length fits into the header; the
payload of a message that is sent has a length that fits into the header. -/
def properInput (s : Broker) : Input → Prop
  | .newData dm => ∀ hdr payload, s.completed dm = some (hdr, payload) → hdr.valid = true →
      ProperMessage s hdr payload
  | .newConnection _ source => ∀ whom sigs,
      s.publishedActors.find? (s.localPort source) = some (whom, sigs) → s.addrId whom ≠ 0 ∧
        castUInt32 (writeUInt32 (s.addrId whom) ++ writeStrings sigs).length ≠ 0
  | .forward _ _ _ msg => castUInt32 msg.bytes.length ≠ 0
  | _ => True

/-- The header of a message that data completes has come over the wire. -/
theorem Proper.received {dm : NewData} (h : Proper s)
    (hm : s.completed dm = some (hdr, payload)) : hdr.Received := by
  unfold Broker.completed completes at hm
  dsimp only at hm
  split at hm
  · split at hm
    · cases hm
      cases hc : s.ctx.find? dm.handle with
      | none => exact Header.received_initial
      | some c => exact h.hdr hc
    · cases hm
  · split at hm
    · next hr =>
      split at hm
      · cases hm
        exact Header.received_of_parse hr
      · cases hm
    · cases hm

/-- A turn that is about no other node asks none for its named actors. -/
theorem Turn.not_knows {nid : NodeId} (hp : ∀ n, ¬ T.peer n) (hs : ∀ n, ¬ T.sender n)
    (hn : ∀ n aid, ¬ T.names n aid) : ¬ T.knows nid := by
  rintro (hpeer | ⟨_, hsend | ⟨aid, hname, _⟩⟩)
  · exact hp nid hpeer
  · exact hs nid hsend
  · exact hn nid aid hname

/-- The turns of a message are proper. -/
theorem Caused.proper {dm : NewData} (hT : Caused dm s T) (h : Proper s)
    (hok : properInput s (.newData dm)) (hp : a.process = s.process) : T.Proper a := by
  have hnode : a.thisNode = s.thisNode := congrArg Process.id hp
  have hno : ∀ {P : Prop}, False → P := False.elim
  -- a turn is proper if the message that causes it was received from another node
  cases hT with
  | @dispatched hdr payload hm hv ho _ hd =>
    have hrec := h.received hm
    have hnames : ∀ {nid aid}, named s.process hdr payload nid aid → nid.valid = true → aid ≠ 0 →
        nid.proper = true ∧ nid.equals s.thisNode = false := by
      rintro nid aid (⟨rfl, rfl, hne⟩ | ⟨x, hx, hf, rfl, rfl⟩) hvalid hz
      · exact ⟨hrec.source hvalid, hne⟩
      · obtain ⟨hzero, hne⟩ := (hok _ _ hm hv).2 ho hd x hx hf hz
        refine ⟨?_, hne⟩
        simp [NodeId.proper, hvalid, hzero]
    refine ⟨?_, ?_, hno, hno, fun _ => id, hno, fun _ => id⟩
    · rw [hnode]
      exact hnames
    · rintro nid (hpeer | ⟨hvalid, ⟨rfl, -⟩ | ⟨aid, hn, hz⟩⟩)
      · exact hpeer.elim
      · exact hrec.source hvalid
      · exact (hnames hn hvalid hz).1
  | @relayed hdr payload hm hv hh hd =>
    refine ⟨hno, fun hk => absurd hk (Turn.not_knows (fun _ => id) (fun _ => id) fun _ _ => id),
      hno, hno, fun nid hb => ?_, hno, fun _ => id⟩
    · -- without a route to the destination, there is none back to the source
      obtain ⟨-, hne, hnone, hback⟩ := hb
      rcases (hok _ _ hm hv).1 hh hd with hroute | hself | hnoback
      · rw [hnone] at hroute
        cases hroute
      · rw [hself] at hne
        cases hne
      · rw [hnoback] at hback
        cases hback
  | @announced hdr payload hm hv ho hd =>
    have hrec := h.received hm
    refine ⟨hno, fun hk => absurd hk (Turn.not_knows (fun _ => id) (fun _ => id) fun _ _ => id),
      hno, ?_, fun _ => id, hno, fun _ => id⟩
    · rintro nid aid rsn ⟨rfl, rfl, hr⟩
      simp only [Header.valid, ho, announceProxyInstanceValid, Bool.and_eq_true] at hv
      obtain ⟨⟨⟨⟨⟨⟨hsrc, _⟩, hne⟩, _⟩, hz⟩, _⟩, _⟩ := hv
      refine ⟨hrec.source hsrc, ?_, by simpa using hz, hr⟩
      -- the announcement is for this node
      rw [hnode]
      rw [NodeId.equals_congr_right hd] at hne
      simpa using hne
  | @introduced hdr payload hm hb =>
    obtain ⟨hv, hh⟩ := hb.isHandshake
    have hp' := (h.received hm).source (hdr.sourceNode_valid hv hh)
    refine ⟨hno, ?_, ?_, hno, fun _ => id, hno, fun _ => id⟩
    · rintro nid (rfl | ⟨_, hs | ⟨_, hn, _⟩⟩)
      · exact hp'
      · exact hs.elim
      · exact hn.elim
    · rintro nid ⟨rfl, ho⟩
      rw [hnode]
      cases hb with
      | server _ _ _ hn => exact ⟨hp', hn⟩
      | client _ ho' =>
        rw [ho] at ho'
        cases ho'
  | @published hdr payload aid hm hv hh =>
    have hp' := (h.received hm).source (hdr.sourceNode_valid hv hh)
    refine ⟨?_, ?_, hno, hno, fun _ => id, hno, fun _ => id⟩
    · rw [hnode]
      rintro nid aid' ⟨rfl, rfl, hne⟩ _ _
      exact ⟨hp', hne⟩
    · rintro nid (hpeer | ⟨_, hs | ⟨_, ⟨rfl, _⟩, _⟩⟩)
      · exact hpeer.elim
      · exact hs.elim
      · exact hp'
  | plain =>
    exact ⟨hno, fun hk => absurd hk (Turn.not_knows (fun _ => id) (fun _ => id) fun _ _ => id),
      hno, hno, fun _ => id, hno, fun _ => id⟩

/-- New data with proper messages keeps the state proper. -/
theorem Proper.data {dm : NewData} (h : Proper s) (hd : DataStep dm s s')
    (hok : properInput s (.newData dm)) : Proper s' := by
  have hall : Proper s' ∧ s'.process = s.process := by
    refine hd.preserves (P := fun a => Proper a ∧ a.process = s.process) ?_ ⟨h, rfl⟩
    rintro a b ⟨ha, hp⟩ hpiece
    have htame : Tame a b → Proper b ∧ b.process = s.process :=
      fun ht => ⟨ha.tame ht, ht.process.trans hp⟩
    cases hpiece with
    | act hT hact => exact ⟨ha.act (hT.proper h hok hp) hact, hact.untouched.process.trans hp⟩
    | bind => exact htame (Tame.bindDirect _)
    | unbind => exact htame Tame.eraseDirect
    | kill => exact htame (Tame.eraseProxy _ _ _)
    | book hb => exact htame (Tame.bookkept hb)
    | terminate => exact htame Tame.terminate
  exact hall.1

-- -------------------------
-- Other inputs
-- -------------------------

namespace Tame

theorem ports (h : PortsOnly s s') : Tame s s' := by
  obtain ⟨_, _, _, _, rfl⟩ := h.eq
  exact of_same rfl rfl rfl rfl rfl rfl

/-- Spawning an actor is tame. -/
theorem spawn : Tame s s.addActor := by
  refine ⟨rfl, fun {_ p} hp => ⟨p, hp, rfl, rfl⟩, fun {_ c} hc => .inl ⟨c, hc, rfl⟩, ?_, id, id⟩
  rintro nid aid (⟨act, hmem, hatt⟩ | htask)
  · rcases List.mem_append.mp hmem with hmem | hmem
    · exact .inl ⟨act, hmem, hatt⟩
    · rw [List.mem_singleton.mp hmem] at hatt
      simp at hatt
  · exact .inr htask

/-- An actor that exits moves its attachables. -/
theorem exitActor (ref : ActorRef) (rsn : ExitReason) : Tame s (s.exitActor ref rsn) := by
  refine ⟨rfl, fun {_ p} hp => ⟨p, hp, rfl, rfl⟩, fun {_ c} hc => .inl ⟨c, hc, rfl⟩, ?_, id, id⟩
  rintro nid aid (⟨act', hmem, hatt⟩ | htask)
  · obtain ⟨r, hr⟩ := List.mem_iff_getElem?.mp hmem
    replace hr : (s.actors.modify ref _)[r]? = some act' := hr
    rw [List.getElem?_modify, Option.map_eq_map, Option.map_eq_some_iff] at hr
    obtain ⟨act, hact, heq⟩ := hr
    have hmem₀ := List.mem_of_getElem? hact
    split at heq
    · rw [← heq] at hatt
      rcases hatt with hatt | hatt
      · cases hatt
      · exact .inl ⟨act, hmem₀, .inl hatt⟩
    · rw [← heq] at hatt
      exact .inl ⟨act, hmem₀, hatt⟩
  · exact .inr htask

/-- Destroying a proxy is tame. -/
theorem destroyProxy (r : ProxyRef) : Tame s (s.destroyProxy r) := by
  unfold Broker.destroyProxy
  split
  · exact of_same rfl rfl rfl rfl rfl rfl
  · next p hp =>
    have htasks : ∀ {nid aid rsn}, .sendKillProxyInstance nid aid rsn ∈
        s.tasks ++ (if p.manager then [Task.deleteProxy p.nid p.aid] else []) →
        .sendKillProxyInstance nid aid rsn ∈ s.tasks := by
      intro nid aid rsn hm
      rcases List.mem_append.mp hm with hm | hm
      · exact hm
      · split at hm <;> simp at hm
    refine ⟨rfl, fun {r' p'} hp' => ?_, fun {_ c} hc => .inl ⟨c, hc, rfl⟩, ?_, htasks, id⟩
    · replace hp' : (s.heap.set r _)[r']? = some p' := hp'
      rw [List.getElem?_set] at hp'
      split at hp'
      · next he =>
        subst he
        split at hp'
        · cases hp'
          exact ⟨p, hp, rfl, rfl⟩
        · cases hp'
      · exact ⟨p', hp', rfl, rfl⟩
    · rintro nid aid (hact | ⟨rsn, hm⟩)
      · exact .inl hact
      · exact .inr ⟨rsn, htasks hm⟩

/-- Taking a task off the queue is tame. -/
theorem eraseTask (index : Nat) : Tame s { s with tasks := s.tasks.eraseIdx index } := by
  refine ⟨rfl, fun {_ p} hp => ⟨p, hp, rfl, rfl⟩, fun {_ c} hc => .inl ⟨c, hc, rfl⟩, ?_,
    List.mem_of_mem_eraseIdx, id⟩
  rintro nid aid (hact | ⟨rsn, hm⟩)
  · exact .inl hact
  · exact .inr ⟨rsn, List.mem_of_mem_eraseIdx hm⟩

end Tame

/-- The next attachable of an actor that has exited: what it has to report was watched
before, and there is a reason. -/
theorem Proper.callAttachable (h : Proper s) (hreg : Registered s) (ref : ActorRef) :
    Proper (s.callAttachable ref) := by
  unfold Broker.callAttachable
  split
  · exact h
  · next act hact =>
    split
    · exact h
    · next x rest hex =>
      have hmem := List.mem_of_getElem? hact
      -- the actor has exited, so it has attachables to call
      have hne : act.exitReason ≠ ExitReason.notExited := by
        intro he
        rw [hreg.exiting hact he] at hex
        cases hex
      have hset : Tame s { s with actors := s.actors.set ref { act with exiting := rest } } := by
        refine ⟨rfl, fun {_ p} hp => ⟨p, hp, rfl, rfl⟩, fun {_ c} hc => .inl ⟨c, hc, rfl⟩, ?_,
          id, id⟩
        rintro nid aid (⟨act', hmem', hatt⟩ | htask)
        · rcases List.mem_or_eq_of_mem_set hmem' with hmem' | rfl
          · exact .inl ⟨act', hmem', hatt⟩
          · refine .inl ⟨act, hmem, ?_⟩
            rcases hatt with hatt | hatt
            · exact .inl hatt
            · rw [hex]
              exact .inr (List.mem_cons_of_mem _ hatt)
        · exact .inr htask
      have h₁ := h.tame hset
      cases x with
      | eraseEntry key =>
        have ht : Tame { s with actors := s.actors.set ref { act with exiting := rest } }
            (Broker.eraseEntry { s with actors := s.actors.set ref { act with exiting := rest } }
              key act.exitReason) := .of_same rfl rfl rfl rfl rfl rfl
        exact h₁.tame ht
      | sendKillProxyInstance nid aid =>
        have hwatch : s.watching nid aid := by
          refine .inl ⟨act, hmem, .inr ?_⟩
          rw [hex]
          exact List.mem_cons_self ..
        have hnew := h.watching hwatch
        refine ⟨h₁.heap, h₁.hdr, ?_, ?_, h₁.wrote⟩
        · rintro nid' aid' (hatt | ⟨rsn, hm⟩)
          · exact h₁.watching (.inl hatt)
          · rcases List.mem_append.mp hm with hm | hm
            · exact h₁.watching (.inr ⟨rsn, hm⟩)
            · cases List.mem_singleton.mp hm
              exact hnew
        · intro nid' aid' rsn hm
          rcases List.mem_append.mp hm with hm | hm
          · exact h₁.tasks hm
          · cases List.mem_singleton.mp hm
            exact hne

/-- Inputs that are not about a connection. -/
theorem Proper.other {i : Input} (h : Proper s) (hreg : Registered s) (hok : properInput s i)
    (ho : Other s i s') : Proper s' := by
  have hno : ∀ {P : Prop}, False → P := False.elim
  -- turns without a peer, a sender and names know no node
  have hknows : ∀ {T : Turn} {nid : NodeId}, (∀ n, ¬ T.peer n) → (∀ n, ¬ T.sender n) →
      (∀ n aid, ¬ T.names n aid) → T.knows nid → nid.proper = true :=
    fun hp hs hn hk => absurd hk (Turn.not_knows hp hs hn)
  cases ho with
  | ports _ hp => exact h.tame (Tame.ports hp)
  | @publish _ _ _ _ _ s₁ _ _ _ hp hq =>
    have h₁ := h.tame (Tame.ports hp)
    have hT : Turn.registering.Proper s₁ :=
      ⟨hno, hknows (fun _ => id) (fun _ => id) fun _ _ => id, hno, hno, fun _ => id, hno,
        fun _ => id⟩
    refine (hq.proper hT h₁).tame (.of_eq rfl rfl rfl rfl (fun {_ c} hc => .inl ⟨c, hc, rfl⟩) ?_)
    intro hdl p hm
    rcases List.mem_append.mp hm with hm | hm
    · exact hm
    · cases List.mem_singleton.mp hm
  | @forward sender receiver mid msg _ _ hr hq =>
    refine hq.proper ?_ h
    refine ⟨hno, hknows (fun _ => id) (fun _ => id) fun _ _ => id, hno, hno, fun _ => id, ?_,
      fun _ => id⟩
    rintro _ _ _ ⟨rfl, rfl, rfl, r, rfl⟩
    simp only [Broker.holds, decide_eq_true_eq] at hr
    exact ⟨hok, r, rfl, hr⟩
  | @task index t _ ht hd =>
    have h₁ := h.tame (Tame.eraseTask index)
    cases hd with
    | eraseProxy => exact h₁.tame (Tame.eraseProxy _ _ _)
    | sendKillProxyInstance hq =>
      refine hq.proper ?_ h₁
      refine ⟨hno, hknows (fun _ => id) (fun _ => id) fun _ _ => id, hno, ?_, fun _ => id, hno,
        fun _ => id⟩
      rintro _ _ _ ⟨rfl, rfl, rfl⟩
      have hmem := List.mem_of_getElem? ht
      obtain ⟨hp, hne, hz⟩ := h.watching (.inr ⟨_, hmem⟩)
      exact ⟨hp, hne, hz, h.tasks hmem⟩
    | deleteProxy => exact h₁.tame (Tame.eraseProxy _ _ _)
  | spawn => exact h.tame Tame.spawn
  | exit => exact h.tame (Tame.exitActor _ _)
  | attachable ref => exact h.callAttachable hreg ref
  | destroy => exact h.tame (Tame.destroyProxy _)

/-- A connection that is accepted is greeted with a valid header. -/
theorem Proper.welcomed {port : UInt16} (h : Proper s)
    (hok : ∀ whom sigs, s.publishedActors.find? port = some (whom, sigs) → s.addrId whom ≠ 0 ∧
      castUInt32 (writeUInt32 (s.addrId whom) ++ writeStrings sigs).length ≠ 0)
    (hw : Welcomed hdl port s s') : Proper s' := by
  obtain ⟨hdr, pw, ho, rfl⟩ := hw
  have hself : s.thisNode.proper = true := s.process.id_proper
  have hsv := NodeId.valid_proper hself
  have hsn := NodeId.normalize_proper hself
  have hinv : NodeId.invalid.normalize = NodeId.invalid := NodeId.normalize_eq (by decide)
  have hversion : version ≠ 0 := by decide
  have hopened : (s.opened hdl).thisNode = s.thisNode := rfl
  have hvalid : (hdr.withPayload pw).normalize.valid = true := by
    cases ho with
    | clientHandshake hp => exact hp.elim
    | request hk => exact absurd hk (Turn.not_knows (fun _ => id) (fun _ => id) fun _ _ => id)
    | announce hn => exact hn.elim
    | kill hw => exact hw.elim
    | dispatchError hb => exact hb.elim
    | dispatch hs => exact hs.elim
    | serverHandshake =>
      simp [Header.withPayload, Header.normalize, Header.valid, serverHandshakeValid, hopened, hsn,
        hsv, hinv, hversion, castUInt32_zero]
    | @publishedHandshake _ _ whom sigs ha hfind =>
      cases ha
      obtain ⟨hz, hlen⟩ := hok whom sigs hfind
      have haddr : (s.opened hdl).addrId whom = s.addrId whom := by cases whom <;> rfl
      rw [haddr]
      simp only [List.length_append, length_writeUInt32] at hlen
      simp [Header.withPayload, Header.normalize, Header.valid, serverHandshakeValid, hopened, hsn,
        hsv, hinv, hversion, hz, hlen]
  have h₁ : Proper ((s.opened hdl).write hdl hdr pw) := by
    refine ⟨h.heap, h.hdr, h.watching, h.tasks, fun hm => ?_⟩
    rcases List.mem_append.mp hm with hm | hm
    · exact h.wrote hm
    · cases List.mem_singleton.mp hm
      exact hvalid
  exact h₁.tame (.of_same rfl rfl rfl rfl rfl rfl)

/-- Every step with proper inputs keeps the state proper. -/
theorem Proper.step {i : Input} (h : Proper s) (hw : Wired s) (hreg : Registered s)
    (hok : properInput s i) (hs : s.step i = some s') : Proper s' := by
  cases step_cases hw hs with
  | other ho => exact h.other hreg hok ho
  | ended ho => exact (h.other hreg hok ho).tame Tame.terminate
  | data _ hd => exact h.data hd hok
  | accepted _ _ _ hwel => exact (h.welcomed hok hwel).tame (.of_same rfl rfl rfl rfl rfl rfl)
  | @requested hdl port =>
    refine h.tame (.of_eq rfl rfl rfl rfl (fun {hdl' c'} hc => ?_) fun {_ _} hm => ?_)
    · replace hc : (s.ctx.set hdl _).find? hdl' = some c' := hc
      rw [UMap.find?_set] at hc
      split at hc
      · next he =>
        cases hc
        cases hf : s.ctx.find? hdl with
        | none =>
          refine .inr ?_
          show ((s.ctx.find? hdl).getD (ConnectionContext.initial hdl)).hdr.Received
          rw [hf]
          exact Header.received_initial
        | some c => exact .inl ⟨c, by rw [← beq_iff_eq.mp he, hf], by simp [Broker.opened, hf]⟩
      · exact .inl ⟨c', hc, rfl⟩
    · rcases List.mem_append.mp hm with hm | hm
      · exact hm
      · cases List.mem_singleton.mp hm
  | refused =>
    refine h.tame (.of_eq rfl rfl rfl rfl (fun {_ c} hc => .inl ⟨c, hc, rfl⟩) fun hm => ?_)
    rcases List.mem_append.mp hm with hm | hm
    · exact hm
    · cases List.mem_singleton.mp hm
  | lost =>
    refine h.tame (.of_eq rfl rfl rfl rfl
      (fun {_ c} hc => .inl ⟨c, Tame.find?_of_erase hc, rfl⟩) ?_)
    exact (Silent.lost : Silent s _).wrote _ _
  | lostNode _ hk =>
    refine h.tame (Tame.kills (hk.congr rfl rfl rfl) rfl rfl Tame.find?_of_erase ?_)
    exact (Silent.lostNode : Silent s _).wrote _ _

/-- A broker starts proper. -/
theorem Proper.initial (hi : s.isInitial) : Proper s := by
  obtain ⟨process, order, rfl⟩ := hi
  refine ⟨fun hp => ?_, fun hc => ?_, ?_, fun hm => ?_, fun hm => ?_⟩
  · simp [Broker.initial] at hp
  · simp [Broker.initial] at hc
  · rintro nid aid (⟨act, hmem, -⟩ | ⟨rsn, hm⟩)
    · cases hmem
    · cases hm
  · cases hm
  · cases hm

/-- The peer decodes a valid header from every message that the broker has written. -/
def Broker.headersAccepted (s : Broker) : Prop := ∀ hdl p, Event.wrote hdl p ∈ s.history →
  ∃ hdr, readHdr p.bytes = .ok (hdr, p.payload) ∧ hdr.valid = true

end BoostActor
