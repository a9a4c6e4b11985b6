import BoostActor.Io.Wiring

/-!
# Messages on the wire

What a step of the broker writes. Only side activities write messages: `Written` lists
the messages of a turn, and everything else that a step does is `Silent`, that is, it
writes nothing and gives no node a route.

* `Act.stream`, `Act.wrote` — the messages that an activity appends;
* `Silent` — no message, no route; one lemma for each operation.
-/

namespace BoostActor

open Lib

variable {hdl : ConnectionHandle} {s s' : Broker}

-- -------------------------
-- Side activities
-- -------------------------

/-- The messages that a turn can put on a connection: those of the node itself, and
those it passes on. -/
inductive Written (T : Turn) (s : Broker) : ConnectionHandle → Packet → Prop where
  | original {hdl : ConnectionHandle} {hdr : Header} {pw : Option Bytes}
      (ho : Origin T s hdl hdr pw) : Written T s hdl ⟨hdr.withPayload pw, pw.getD [], []⟩
  | relayed {path : Route} {hdr : Header} {payload : Bytes} {via : List NodeId}
      (hT : T.relays hdr payload via) (hp : s.tbl.route? hdr.destNode = some path)
      (hd : hdr.destNode.equals s.thisNode = false) (hh : hdr.isHandshake = false) :
      Written T s path.hdl ⟨hdr, payload, via ++ [s.thisNode]⟩

/-- The announcement of a proxy is a message of the node itself. -/
theorem announcement_eq (self nid : NodeId) (aid : ActorId) : announcement self nid aid =
    ⟨Header.withPayload ⟨.announceProxyInstance, 0, 0, self, nid, 0, aid⟩ none,
      (none : Option Bytes).getD [], []⟩ := by
  have hlen : castUInt32 0 = 0 := by decide
  simp [announcement, Header.withPayload, hlen]

/-- Appending to a write buffer appends to the stream, if the connection is open. -/
theorem Broker.stream_append (hdl' : ConnectionHandle) (p : Packet) :
    (s.append hdl p).stream hdl' = s.stream hdl' ++
      if hdl = hdl' ∧ s.scribes.contains hdl = true then [p] else [] := by
  show (((s.scribes.adjust hdl _).find? hdl').map _).getD [] = _
  rw [UMap.find?_adjust, stream]
  by_cases he : hdl = hdl'
  · subst he
    cases hc : s.scribes.find? hdl with
    | none => simp [UMap.contains, hc]
    | some c => simp [UMap.contains, hc]
  · simp [he]

theorem Broker.stream_of_scribes (h : s'.scribes = s.scribes) (hdl : ConnectionHandle) :
    s'.stream hdl = s.stream hdl := by
  rw [stream, h, stream]

theorem Broker.stream_adopted (hdl hdl' hdl'' : ConnectionHandle) (nid : NodeId) (aid : ActorId) :
    (s.adopted hdl hdl' nid aid).stream hdl'' =
      (s.append hdl (announcement s.thisNode nid aid)).stream hdl'' :=
  Broker.stream_flush (s := s.append hdl (announcement s.thisNode nid aid)) hdl'' hdl'

/-- What an activity appends to a connection. -/
theorem Act.stream {T : Turn} (h : Act T s s') (hdl : ConnectionHandle) :
    ∃ new, s'.stream hdl = s.stream hdl ++ new ∧ ∀ p ∈ new, Written T s hdl p := by
  have hsame : s'.stream hdl = s.stream hdl →
      ∃ new, s'.stream hdl = s.stream hdl ++ new ∧ ∀ p ∈ new, Written T s hdl p :=
    fun he => ⟨[], by simpa using he, by simp⟩
  -- every act that appends does so to one connection
  have happ : ∀ (hdl' : ConnectionHandle) (p : Packet), Written T s hdl' p →
      (∀ hdl, s'.stream hdl = (s.append hdl' p).stream hdl) →
      ∃ new, s'.stream hdl = s.stream hdl ++ new ∧ ∀ p ∈ new, Written T s hdl p := by
    intro hdl' p hp hs
    rw [hs, Broker.stream_append]
    refine ⟨_, rfl, fun q hq => ?_⟩
    split at hq
    · next hcond =>
      rw [List.mem_singleton.mp hq, ← hcond.1]
      exact hp
    · cases hq
  cases h with
  | write ho => exact happ _ _ (.original ho) fun _ => rfl
  | relay hT hp hd hh => exact happ _ _ (.relayed hT hp hd hh) fun _ => rfl
  | flush hdl' => exact hsame (Broker.stream_flush hdl hdl')
  | adopt hdl' _ hn hv hz _ hc _ hr =>
    refine happ _ _ ?_ (fun hdl => Broker.stream_adopted _ hdl' hdl _ _)
    rw [announcement_eq]
    exact .original (.announce hn hv hz hc hr)
  | _ => exact hsame rfl

/-- What an activity notes as written is a message of the node itself. -/
theorem Act.wrote {T : Turn} (h : Act T s s') {p : Packet}
    (hm : Event.wrote hdl p ∈ s'.history) : Event.wrote hdl p ∈ s.history ∨
      ∃ hdr pw, Origin T s hdl hdr pw ∧ p = ⟨hdr.withPayload pw, pw.getD [], []⟩ := by
  cases h with
  | note e he =>
    rcases List.mem_append.mp hm with hm | hm
    · exact Or.inl hm
    · rw [← List.mem_singleton.mp hm] at he
      cases he
  | write ho =>
    rcases List.mem_append.mp hm with hm | hm
    · exact Or.inl hm
    · cases List.mem_singleton.mp hm
      exact Or.inr ⟨_, _, ho, rfl⟩
  | learn =>
    rcases List.mem_append.mp hm with hm | hm
    · exact Or.inl hm
    · cases List.mem_singleton.mp hm
  | adopt hdl' _ hn hv hz _ hc _ hr =>
    rcases List.mem_append.mp hm with hm | hm
    · exact Or.inl hm
    · rcases List.mem_cons.mp hm with hm | hm
      · cases hm
        exact Or.inr ⟨_, _, .announce hn hv hz hc hr, announcement_eq _ _ _⟩
      · cases List.mem_singleton.mp hm
  | _ => exact Or.inl hm

-- -------------------------
-- Everything else
-- -------------------------

/-- No message is written, and no node gets a route. -/
structure Silent (s s' : Broker) : Prop where
  process : s'.process = s.process
  direct : ∀ nid, s.tbl.directByNid.find? nid = none → s'.tbl.directByNid.find? nid = none
  indirect : ∀ nid, s.tbl.indirect.find? nid = none → s'.tbl.indirect.find? nid = none
  stream : ∀ hdl, s'.stream hdl ⊆ s.stream hdl
  wrote : ∀ hdl p, Event.wrote hdl p ∈ s'.history → Event.wrote hdl p ∈ s.history

instance : Frame Silent where
  refl _ := ⟨rfl, fun _ h => h, fun _ h => h, fun _ => List.Subset.refl _, fun _ _ h => h⟩
  trans h h' :=
    ⟨h'.process.trans h.process, fun n hn => h'.direct n (h.direct n hn),
      fun n hn => h'.indirect n (h.indirect n hn),
      fun hdl => List.Subset.trans (h'.stream hdl) (h.stream hdl),
      fun hdl p hm => h.wrote hdl p (h'.wrote hdl p hm)⟩

namespace Silent

theorem thisNode (h : Silent s s') : s'.thisNode = s.thisNode := by
  rw [Broker.thisNode, h.process, Broker.thisNode]

/-- Changes to other parts of the broker, with events that are not messages. -/
theorem of_eq (hp : s'.process = s.process) (ht : s'.tbl = s.tbl)
    (hs : ∀ hdl, s'.stream hdl ⊆ s.stream hdl)
    (hh : ∃ es, s'.history = s.history ++ es ∧ ∀ hdl p, Event.wrote hdl p ∉ es) :
    Silent s s' := by
  refine ⟨hp, fun n hn => by rw [ht, hn], fun n hn => by rw [ht, hn], hs, fun hdl p hm => ?_⟩
  obtain ⟨es, he, hes⟩ := hh
  rw [he, List.mem_append] at hm
  exact hm.resolve_right (hes hdl p)

/-- Changes that concern neither routes nor connections nor the history. -/
theorem of_same (hp : s'.process = s.process) (ht : s'.tbl = s.tbl) (hs : s'.scribes = s.scribes)
    (hh : s'.history = s.history) : Silent s s' :=
  of_eq hp ht (fun hdl => by rw [Broker.stream_of_scribes hs]; exact List.Subset.refl _)
    ⟨[], by simpa using hh, by simp⟩

theorem modifyCtx (f : ConnectionContext → ConnectionContext) : Silent s (s.modifyCtx hdl f) :=
  of_same rfl rfl rfl rfl

theorem enter : Silent s (s.enter hdl) := of_same rfl rfl rfl rfl

theorem note {e : Event} (he : ∀ hdl p, e ≠ .wrote hdl p) : Silent s (s.note e) := by
  refine of_eq rfl rfl (fun _ => List.Subset.refl _) ⟨[e], rfl, fun hdl p hm => ?_⟩
  exact he hdl p (List.mem_singleton.mp hm).symm

theorem killsOnly (h : KillsOnly s s') : Silent s s' := by
  obtain ⟨_, _, _, rfl⟩ := h.eq
  exact of_same rfl rfl rfl rfl

theorem ports (h : PortsOnly s s') : Silent s s' := by
  obtain ⟨_, _, _, _, rfl⟩ := h.eq
  exact of_same rfl rfl rfl rfl

/-- The stream of a connection after its buffers or its configuration were changed. -/
theorem stream_adjust {f : Scribe → Scribe}
    (hf : ∀ c, (f c).sent ++ (f c).wrBuf = c.sent ++ c.wrBuf)
    (hdl hdl' : ConnectionHandle) :
    (((s.scribes.adjust hdl f).find? hdl').map fun c => c.sent ++ c.wrBuf).getD [] =
      s.stream hdl' := by
  rw [UMap.find?_adjust, Broker.stream]
  split
  · cases s.scribes.find? hdl' with
    | none => rfl
    | some c => simp [hf]
  · rfl

/-- Configuring a connection is silent. -/
theorem configure (n : Nat) : Silent s (s.configure hdl n) := by
  refine of_eq rfl rfl (fun hdl' => ?_) ⟨[], by simp [Broker.configure], by simp⟩
  have hs : (s.configure hdl n).stream hdl' = s.stream hdl' :=
    stream_adjust (f := fun c => { c with rdSize := n }) (fun _ => rfl) hdl hdl'
  rw [hs]
  exact List.Subset.refl _

/-- Flushing is silent: the stream has the bytes before and after. -/
theorem flush : Silent s (s.flush hdl) := by
  refine of_eq rfl rfl (fun hdl' => ?_) ⟨[], by simp [Broker.flush], by simp⟩
  rw [Broker.stream_flush]
  exact List.Subset.refl _

/-- Closing a connection. -/
theorem stream_erase (hdl hdl' : ConnectionHandle) :
    (((s.scribes.erase hdl).find? hdl').map fun c => c.sent ++ c.wrBuf).getD [] ⊆
      s.stream hdl' := by
  rw [UMap.find?_erase]
  split
  · exact List.nil_subset _
  · exact List.Subset.refl _

theorem drop : Silent s (s.drop hdl) :=
  of_eq rfl rfl (fun hdl' => stream_erase hdl hdl') ⟨[], by simp [Broker.drop], by simp⟩

/-- Going on to the next state is silent. -/
theorem settle (next : ConnectionState) : Silent s (s.settle hdl next) := by
  unfold Broker.settle
  split
  · exact Frame.refl s
  · split
    · exact Frame.trans (configure _) (modifyCtx _)
    · exact Frame.refl s

/-- A connection that was not open has written nothing. -/
theorem opened (h : s.rdSize? hdl = none) : Silent s (s.opened hdl) := by
  have hnone : s.scribes.find? hdl = none := by
    rw [Broker.rdSize?, Option.map_eq_none_iff] at h
    exact h
  refine of_eq rfl rfl (fun hdl' => ?_) ⟨[], by simp [Broker.opened], by simp⟩
  show (((s.scribes.emplace hdl _).find? hdl').map _).getD [] ⊆ _
  rw [UMap.find?_emplace_of_none hnone]
  split
  · exact List.nil_subset _
  · exact List.Subset.refl _

theorem requested (port : UInt16) : Silent s (s.requested hdl port) :=
  of_eq rfl rfl (fun _ => List.Subset.refl _) ⟨[_], rfl, by simp⟩

theorem erase_none {V : Type} {m : UMap NodeId V} (dest : NodeId) {nid : NodeId}
    (h : m.find? nid = none) : (m.erase dest).find? nid = none := by
  rw [UMap.find?_erase, h]
  split <;> rfl

/-- Erasing a direct route is silent. -/
theorem eraseDirect : Silent s (s.eraseDirect hdl) := by
  cases hb : s.tbl.directByHdl.find? hdl with
  | none =>
    rw [Broker.eraseDirect_of_unbound hb]
    exact Frame.refl s
  | some nid =>
    have hproc : (s.purgeState nid).process = s.process := (Broker.purgeState_kept nid).process
    rw [Broker.eraseDirect_eq hb]
    refine ⟨hproc, fun n hn => erase_none nid hn, fun _ hn => hn, fun hdl' => ?_,
      fun hdl' p hm => ?_⟩
    · have hs : (s.purgeState nid).stream hdl' = s.stream hdl' :=
        Broker.stream_of_scribes (Broker.purgeState_scribes nid) hdl'
      exact List.Subset.trans (List.Subset.refl _) (hs ▸ List.Subset.refl _)
    · rcases List.mem_append.mp hm with hm | hm
      · exact hm
      · cases List.mem_singleton.mp hm

theorem terminate : Silent s s.terminate := by
  obtain ⟨_, _, he⟩ := Broker.terminate_eq (s := s)
  rw [he]
  exact ⟨rfl, fun _ _ => rfl, fun _ _ => rfl, fun _ => List.nil_subset _, fun _ _ hm => hm⟩

theorem eraseProxy (nid : NodeId) (aid : ActorId) (rsn : ExitReason) :
    Silent s (s.eraseProxy nid aid rsn) := killsOnly (Broker.eraseProxy_killsOnly nid aid rsn)

/-- A connection without route is lost. -/
theorem lost : Silent s
    { s with
      scribes := s.scribes.erase hdl
      ctx := s.ctx.erase hdl
      history := s.history ++ s.disconnectAnswers hdl } := by
  refine of_eq rfl rfl (fun hdl' => stream_erase hdl hdl') ⟨_, rfl, fun hdl' p hm => ?_⟩
  unfold Broker.disconnectAnswers at hm
  split at hm
  · cases List.mem_singleton.mp hm
  · cases hm

/-- The connection to a node is lost. -/
theorem lostNode {nid : NodeId} {heap tasks proxies knownRemotes} : Silent s
    { s with
      heap, tasks, proxies, knownRemotes
      tbl := (s.tbl.removeIndirect nid).removeDirect hdl nid
      scribes := s.scribes.erase hdl
      ctx := s.ctx.erase hdl
      history := s.history ++ s.disconnectAnswers hdl ++ [.connectionLost nid] } := by
  refine ⟨rfl, fun n hn => erase_none nid hn, fun n hn => erase_none nid hn,
    fun hdl' => stream_erase hdl hdl', fun hdl' p hm => ?_⟩
  rcases List.mem_append.mp hm with hm | hm
  · exact lost.wrote hdl' p hm
  · cases List.mem_singleton.mp hm

/-- Calling an attachable is silent. -/
theorem callAttachable (ref : ActorRef) : Silent s (s.callAttachable ref) := by
  unfold Broker.callAttachable
  split
  · exact Frame.refl s
  · split
    · exact Frame.refl s
    · split
      · exact of_same rfl rfl rfl rfl
      · exact of_same rfl rfl rfl rfl

theorem destroyProxy (r : ProxyRef) : Silent s (s.destroyProxy r) := by
  unfold Broker.destroyProxy
  split
  · exact Frame.refl s
  · exact of_same rfl rfl rfl rfl

/-- Binding a connection gives a route to the node that it is bound to only. -/
theorem bindDirect (hdl : ConnectionHandle) (nid : NodeId) :
    (s.bindDirect hdl nid).process = s.process ∧
    (∀ n, ¬ (nid == n) = true → s.tbl.directByNid.find? n = none →
      (s.bindDirect hdl nid).tbl.directByNid.find? n = none) ∧
    (∀ n, s.tbl.indirect.find? n = none → (s.bindDirect hdl nid).tbl.indirect.find? n = none) ∧
    (∀ hdl', (s.bindDirect hdl nid).stream hdl' = s.stream hdl') ∧
    (∀ hdl' p, Event.wrote hdl' p ∈ (s.bindDirect hdl nid).history →
      Event.wrote hdl' p ∈ s.history) := by
  rw [Broker.bindDirect_eq]
  refine ⟨rfl, fun n hn hf => ?_, fun n hf => erase_none nid hf, fun _ => rfl,
    fun hdl' p hm => ?_⟩
  · show (s.tbl.directByNid.emplace nid hdl).find? n = none
    rw [UMap.find?_emplace, hf, if_neg hn]
    rfl
  · rcases List.mem_append.mp hm with hm | hm
    · exact hm
    · simp only [Broker.bindEvents, List.mem_append, List.mem_cons, List.mem_map] at hm
      rcases hm with (hm | hm) | hm | ⟨_, _, hm⟩
      · split at hm <;> simp at hm
      · split at hm <;> simp at hm
      · cases hm
      · cases hm

end Silent

end BoostActor
