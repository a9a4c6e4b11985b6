import BoostActor.Io.PacketStream
import BoostActor.Io.StreamOutput

/-!
# A connection from end to end

One node writes BASP messages to a connection (`instance::write`), its stream passes the bytes on
in asynchronous writes, the network keeps their order, and the broker of the other node reads them
piece by piece. In between, anything can happen at that broker: other connections, local actors,
tasks of the multiplexer.

* `Broker.frame_of_step` — what happens elsewhere does not touch what a connection waits for;
* `Inv.next` — a piece that is read is the next one that was written;
* `link_delivers` — the messages arrive in order, none twice and none that was not sent, and all of
  them as soon as nothing is left to be done.
-/

namespace BoostActor

open Lib Network

/-! ## Both ends of a connection -/

/-- A connection, from the stream of the sender to the broker of the receiver. -/
structure Link where
  sender : Stream
  /-- the calls of `instance::write` so far -/
  calls : List WriteCall
  receiver : Broker
  /-- how many bytes the receiver has read -/
  received : Nat
  /-- the messages that the receiver has processed -/
  messages : List (Header × Bytes)

/-- What can happen. -/
inductive LinkInput where
  | write (w : WriteCall)
  | flush
  /-- the `i`th outstanding write hands `n` bytes to the network -/
  | transmit (i n : Nat)
  | complete (i : Nat) (ec : Bool)
  /-- the scribe of the receiver has read the next piece -/
  | read
  /-- anything else that happens to the receiver -/
  | receiver (i : Input)

/-- Whether an input is about the connection itself: its data, or a new connection with its
handle. -/
def Input.uses (hdl : ConnectionHandle) : Input → Bool
  | .newData dm => dm.handle = hdl
  | .newConnection hdl' _ => hdl' = hdl
  | .connect hdl' _ _ => hdl' = hdl
  | _ => false

namespace Link

variable {hdl : ConnectionHandle} {l l' : Link}

/-- The bytes that the sender has handed to the network and the receiver has not read. -/
def wire (l : Link) : Bytes := l.sender.handed.drop l.received

/-- The message that a piece completes, if it does. -/
def processed (hdl : ConnectionHandle) (s : Broker) (piece : Bytes) : List (Header × Bytes) :=
  ((s.completed ⟨hdl, piece, []⟩).map fun m => (m.1, m.2.getD [])).toList

/-- The scribe reads as many bytes as it was configured for, and the broker handles them. -/
def read (hdl : ConnectionHandle) (l : Link) : Option Link :=
  match l.receiver.rdSize? hdl with
  | none => none
  | some n =>
    if n ≤ l.wire.length then
      let piece := l.wire.take n
      (l.receiver.step (.newData ⟨hdl, piece, []⟩)).map fun receiver => { l with
        receiver, received := l.received + n
        messages := l.messages ++ processed hdl l.receiver piece }
    else none

def step (hdl : ConnectionHandle) (l : Link) : LinkInput → Option Link
  | .write w => some { l with
      sender := l.sender.write (writeMessage w.placeholder [] w.hdr w.payload)
      calls := l.calls ++ [w] }
  | .flush => some { l with sender := l.sender.flush }
  | .transmit i n => (l.sender.transmit i n).map fun sender => { l with sender }
  | .complete i ec => (l.sender.complete i ec).map fun sender => { l with sender }
  | .read => l.read hdl
  | .receiver i =>
    if i.uses hdl then none
    else (l.receiver.step i).map fun receiver => { l with receiver }

/-- Nothing has been written yet, and the receiver, which may have been running for a while, waits
for a header. -/
def isInitial (hdl : ConnectionHandle) (l : Link) : Prop :=
  l.sender = .initial ∧ l.calls = [] ∧ l.received = 0 ∧ l.messages = [] ∧
    Broker.Reachable anyStep l.receiver ∧ (l.receiver.rdSize? hdl).isSome = true ∧
    (l.receiver.contextOf hdl).cstate = .awaitHeader

end Link

/-! ## What happens elsewhere -/

variable {hdl : ConnectionHandle} {s s' : Broker}

/-- Data of one connection does not touch the others, unless the broker terminates. -/
theorem DataStep.othersKept {dm : NewData} (hd : DataStep dm s s') (hw : Wired s)
    (ho : (s.rdSize? dm.handle).isSome = true) :
    OthersKept dm.handle s s' ∨ s'.scribes = UMap.empty := by
  cases hd with
  | closed hh =>
    exact .inl (((OthersKept.enter.trans (.handled (hw.enter ho) hh)).trans .drop).trans (.flush _))
  | «open» _ hh =>
    exact .inl (((OthersKept.enter.trans (.handled (hw.enter ho) hh)).trans (.settle _)).trans
      (.flush _))
  | terminated => exact .inr Broker.terminate_scribes

/-- A new connection does not touch the others. -/
theorem OthersKept.opened : OthersKept hdl s (s.opened hdl) := by
  refine ⟨fun _ _ => rfl, fun _ _ => rfl, fun other hne => ?_⟩
  rw [Broker.opened_rdSize?, if_neg (Ne.symm hne), Option.or_none]

theorem OthersKept.requested (port : UInt16) : OthersKept hdl s (s.requested hdl port) := by
  refine ⟨fun other hne => ?_, fun _ _ => rfl, fun _ _ => rfl⟩
  show (s.ctx.set hdl _).find? other = _
  rw [UMap.find?_set_of_ne _ (Ne.symm hne)]

/-- A connection that is lost leaves the contexts and the scribes of the others. -/
theorem Broker.kept_of_erase {other : ConnectionHandle} (hne : other ≠ hdl)
    (hs : s'.scribes = s.scribes.erase other) (hc : s'.ctx = s.ctx.erase other) :
    s'.rdSize? hdl = s.rdSize? hdl ∧ s'.contextOf hdl = s.contextOf hdl := by
  rw [rdSize?, contextOf, hs, hc, UMap.find?_erase_of_ne hne, UMap.find?_erase_of_ne hne]
  exact ⟨rfl, rfl⟩

/-- What a connection waits for changes only with its own data. -/
theorem Broker.frame_of_step {i : Input} (hw : Wired s) (hs : s.step i = some s')
    (hi : i.uses hdl = false) (ho : (s'.rdSize? hdl).isSome = true) :
    s'.rdSize? hdl = s.rdSize? hdl ∧ s'.contextOf hdl = s.contextOf hdl := by
  have hother : ∀ {other}, other ≠ hdl → OthersKept other s s' →
      s'.rdSize? hdl = s.rdSize? hdl ∧ s'.contextOf hdl = s.contextOf hdl := by
    intro other hne hk
    refine ⟨hk.rdSize? hdl (Ne.symm hne), ?_⟩
    rw [contextOf, contextOf, hk.ctx hdl (Ne.symm hne)]
  -- a broker without scribes has no open connection
  have hopen : s'.scribes ≠ UMap.empty := by
    intro hempty
    rw [rdSize?, hempty] at ho
    cases ho
  -- an input about another connection, or about none
  cases step_cases hw hs with
  | other ho' =>
    refine ⟨ho'.calm.rdSize? hdl, ?_⟩
    rw [contextOf, contextOf, ho'.calm.ctx]
  | ended => exact absurd terminate_scribes hopen
  | data hdata hd =>
    rcases hd.othersKept hw hdata with hk | hempty
    · exact hother (of_decide_eq_false hi) hk
    · exact absurd hempty hopen
  | accepted hv hclosed hq =>
    exact hother (of_decide_eq_false hi) ((OthersKept.opened.trans (.quiet hq)).trans
      (.configure _))
  | requested hv hclosed =>
    exact hother (of_decide_eq_false hi) ((OthersKept.opened.trans (.requested _)).trans
      (.configure _))
  | refused => exact ⟨rfl, rfl⟩
  | @lost other hb =>
    by_cases hne : other = hdl
    · subst hne
      replace ho : (((s.scribes.erase other).find? other).map (·.rdSize)).isSome = true := ho
      rw [UMap.find?_erase_self] at ho
      cases ho
    · exact kept_of_erase hne rfl rfl
  | @lostNode other nid _ _ _ hb =>
    by_cases hne : other = hdl
    · subst hne
      replace ho : (((s.scribes.erase other).find? other).map (·.rdSize)).isSome = true := ho
      rw [UMap.find?_erase_self] at ho
      cases ho
    · exact kept_of_erase hne rfl rfl

/-! ## What is preserved -/

namespace Link

variable {l l' : Link}

/-- The message of a call, as the receiver sees it. -/
def packet (w : WriteCall) : Packet := ⟨w.header, w.body, []⟩

/-- What holds between two steps. -/
structure Inv (hdl : ConnectionHandle) (l : Link) : Prop where
  wired : Wired l.receiver
  framed : Framed l.receiver
  stream : l.sender.InOrder
  flushed : l.sender.flushed ≤ l.sender.written.length
  written : l.sender.written = writeAll l.calls
  received : l.received ≤ l.sender.handed.length
  inOrder : l.sender.cutShort = false → l.messages <+: l.calls.map WriteCall.message
  progress : l.sender.cutShort = false → (l.receiver.rdSize? hdl).isSome = true →
    ∃ done rest, l.calls.map packet = done ++ rest ∧ l.messages = done.map Packet.message ∧
      Reads hdl l.receiver l.received done rest

theorem writeAll_append (ws ws' : List WriteCall) :
    writeAll (ws ++ ws') = writeAll ws ++ writeAll ws' := by
  rw [writeAll_eq, writeAll_eq, writeAll_eq, List.flatMap_append]

/-- The bytes of the calls are those of their packets. -/
theorem writeAll_eq_bytesOf (ws : List WriteCall) : writeAll ws = bytesOf (ws.map packet) := by
  rw [writeAll_eq, bytesOf, List.flatMap_map]
  rfl

theorem message_packet (w : WriteCall) : (packet w).message = w.message := by
  show (w.header.normalize, w.body) = _
  rw [w.header_normalize]
  rfl

theorem sized_packet (w : WriteCall) : (packet w).Sized := w.header_payloadLen

/-- The messages of the packets are those of the calls. -/
theorem map_message_packet (ws : List WriteCall) :
    (ws.map packet).map Packet.message = ws.map WriteCall.message := by
  rw [List.map_map]
  exact List.map_congr_left fun w _ => message_packet w

/-- What is on the wire has been written, and comes next. -/
theorem Inv.wire_isPrefix (h : Inv hdl l) (hc : l.sender.cutShort = false) :
    l.wire <+: (writeAll l.calls).drop l.received := by
  have hpre : l.sender.handed <+: writeAll l.calls := by
    refine ⟨l.sender.inTransit ++ l.sender.wrOfflineBuf, ?_⟩
    rw [← List.append_assoc, h.stream.handed hc, h.stream.split, h.written]
  obtain ⟨more, hmore⟩ := hpre
  refine ⟨more, ?_⟩
  rw [wire, ← hmore, List.drop_append_of_le_length h.received]

/-- The next piece. -/
theorem take_of_isPrefix {n : Nat} {bs cs : Bytes} (h : bs <+: cs) (hn : n ≤ bs.length) :
    bs.take n = cs.take n := by
  obtain ⟨more, rfl⟩ := h
  rw [List.take_append_of_le_length hn]

/-- The messages that are left have the length that their headers say. -/
theorem sized_of_calls {done rest : List Packet} (hcalls : l.calls.map packet = done ++ rest) :
    ∀ p ∈ rest, p.Sized := by
  intro p hp
  have hmem : p ∈ l.calls.map packet := by
    rw [hcalls]
    exact List.mem_append_right _ hp
  obtain ⟨w, -, rfl⟩ := List.mem_map.mp hmem
  exact sized_packet w

/-- The piece that is read is the next one that was written. -/
theorem Inv.next (h : Inv hdl l) (hc : l.sender.cutShort = false) {n : Nat}
    (hn : l.receiver.rdSize? hdl = some n) (hle : n ≤ l.wire.length)
    (hd : DataStep ⟨hdl, l.wire.take n, []⟩ l.receiver s') : ∃ done rest,
      l.calls.map packet = done ++ rest ∧
      l.messages ++ processed hdl l.receiver (l.wire.take n) = done.map Packet.message ∧
      ((s'.rdSize? hdl).isSome = true → Reads hdl s' (l.received + n) done rest) := by
  have hopen : (l.receiver.rdSize? hdl).isSome = true := by rw [hn]; rfl
  obtain ⟨done, rest, hcalls, hmessages, hreads⟩ := h.progress hc hopen
  have hpre := h.wire_isPrefix hc
  rw [writeAll_eq_bytesOf, hcalls] at hpre
  have hnext := hreads.next h.framed hn (sized_of_calls hcalls) (Nat.le_trans hle hpre.length_le)
    rfl (take_of_isPrefix hpre hle) hd
  rw [hcalls, hmessages]
  exact hnext.split

/-- Reading from the wire keeps the invariant. -/
theorem Inv.read (h : Inv hdl l) (hs : l.read hdl = some l') : Inv hdl l' := by
  rw [Link.read] at hs
  split at hs
  · cases hs
  next n hn =>
  split_ifs at hs with hle
  obtain ⟨receiver, hstep, rfl⟩ := Option.map_eq_some_iff.mp hs
  have hopen : (l.receiver.rdSize? hdl).isSome = true := by rw [hn]; rfl
  have hd : DataStep ⟨hdl, l.wire.take n, []⟩ l.receiver receiver := by
    obtain ⟨-, rfl⟩ := Broker.step_eq_some.mp hstep
    exact newData_cases _ hopen
  refine ⟨h.wired.data hopen hd, h.framed.data h.wired hopen hd, h.stream, h.flushed, h.written, ?_,
    fun hc => ?_, fun hc ho => ?_⟩
  · have hreceived := h.received
    -- the receiver does not read more than was handed over
    rw [wire, List.length_drop] at hle
    dsimp only
    omega
  · obtain ⟨done, rest, hcalls, hmessages, -⟩ := h.next hc hn hle hd
    dsimp only
    rw [hmessages, ← map_message_packet, hcalls, List.map_append]
    exact List.prefix_append _ _
  · obtain ⟨done, rest, hcalls, hmessages, hprogress⟩ := h.next hc hn hle hd
    exact ⟨done, rest, hcalls, hmessages, hprogress ho⟩

/-- What the stream does on its own: nothing more is written, and bytes are handed over. -/
theorem stream_grows {u u' : Stream} {i : StreamInput} (hs : u.step i = some u')
    (hi : ∀ bytes, i ≠ .write bytes) : u'.written = u.written ∧
      u.handed.length ≤ u'.handed.length ∧ (u'.cutShort = false → u.cutShort = false) := by
  have hloop : ∀ v : Stream, v.writeLoop.written = v.written ∧ v.writeLoop.handed = v.handed ∧
      v.writeLoop.cutShort = v.cutShort := by
    intro v
    unfold Stream.writeLoop
    split <;> exact ⟨rfl, rfl, rfl⟩
  -- only the write loop and its completions hand bytes over
  cases i with
  | write bytes => exact absurd rfl (hi bytes)
  | flush =>
    cases hs
    unfold Stream.flush
    dsimp only
    split
    · obtain ⟨hw, hh, hc⟩ := hloop { u with flushed := u.written.length, writing := true }
      exact ⟨hw, Nat.le_of_eq (congrArg List.length hh.symm), fun h => by rw [hc] at h; exact h⟩
    · exact ⟨rfl, Nat.le_refl _, id⟩
  | transmit i n =>
    rw [Stream.step, Stream.transmit] at hs
    split at hs
    · cases hs
    · split_ifs at hs
      cases hs
      refine ⟨rfl, ?_, id⟩
      dsimp only
      rw [List.length_append]
      exact Nat.le_add_right _ _
  | complete i ec =>
    rw [Stream.step, Stream.complete] at hs
    split at hs
    · cases hs
    · next op _ =>
      cases hs
      have hcut : (u.cutShort || decide (op.sent < op.content.length)) = false →
          u.cutShort = false := fun h => (Bool.or_eq_false_iff.mp h).1
      split
      · exact ⟨rfl, Nat.le_refl _, hcut⟩
      · obtain ⟨hw, hh, hc⟩ := hloop { u with
          pending := u.pending.eraseIdx i
          cutShort := u.cutShort || decide (op.sent < op.content.length) }
        refine ⟨hw, Nat.le_of_eq (congrArg List.length hh.symm), fun h => hcut ?_⟩
        rw [hc] at h
        exact h

/-- A step of the stream other than a write keeps the invariant. -/
theorem Inv.streamStep (h : Inv hdl l) {i : StreamInput} {sender : Stream}
    (hs : l.sender.step i = some sender) (hi : ∀ bytes, i ≠ .write bytes) :
    Inv hdl { l with sender } := by
  obtain ⟨hwritten, hhanded, hcut⟩ := stream_grows hs hi
  exact ⟨h.wired, h.framed, h.stream.step h.flushed hs, Stream.flushed_le_step h.flushed hs,
    hwritten.trans h.written, Nat.le_trans h.received hhanded, fun hc => h.inOrder (hcut hc),
    fun hc => h.progress (hcut hc)⟩

/-- A write adds its bytes at the end of the stream. -/
theorem Inv.write (h : Inv hdl l) (w : WriteCall) : Inv hdl { l with
    sender := l.sender.write (writeMessage w.placeholder [] w.hdr w.payload)
    calls := l.calls ++ [w] } := by
  refine ⟨h.wired, h.framed, h.stream.write _, ?_, ?_, h.received, fun hc => ?_, fun hc ho => ?_⟩
  · exact Stream.flushed_le_step (i := .write _) h.flushed rfl
  · show l.sender.written ++ _ = _
    rw [h.written, writeAll_append]
    rfl
  · dsimp only
    rw [List.map_append]
    exact (h.inOrder hc).trans (List.prefix_append _ _)
  · obtain ⟨done, rest, hcalls, hmessages, hprogress⟩ := h.progress hc ho
    refine ⟨done, rest ++ [packet w], ?_, hmessages, hprogress.append _⟩
    rw [List.map_append, hcalls, List.append_assoc]
    rfl

/-- Something else happens to the receiver. -/
theorem Inv.receiver (h : Inv hdl l) {i : Input} (hi : i.uses hdl = false)
    (hs : l.receiver.step i = some s') : Inv hdl { l with receiver := s' } := by
  refine ⟨h.wired.step hs, h.framed.step h.wired hs, h.stream, h.flushed, h.written, h.received,
    h.inOrder, fun hc ho => ?_⟩
  obtain ⟨hrd, hctx⟩ := Broker.frame_of_step h.wired hs hi ho
  have ho' : (l.receiver.rdSize? hdl).isSome = true := by
    rw [← hrd]
    exact ho
  obtain ⟨done, rest, hcalls, hmessages, hprogress⟩ := h.progress hc ho'
  exact ⟨done, rest, hcalls, hmessages, hprogress.of_context hctx⟩

/-- Every step of the link keeps the invariant. -/
theorem Inv.step (h : Inv hdl l) {i : LinkInput} (hs : l.step hdl i = some l') : Inv hdl l' := by
  cases i with
  | write w =>
    cases hs
    exact h.write w
  | flush =>
    cases hs
    exact h.streamStep (i := .flush) rfl nofun
  | transmit i n =>
    obtain ⟨sender, hsender, rfl⟩ := Option.map_eq_some_iff.mp hs
    exact h.streamStep (i := .transmit i n) hsender nofun
  | complete i ec =>
    obtain ⟨sender, hsender, rfl⟩ := Option.map_eq_some_iff.mp hs
    exact h.streamStep (i := .complete i ec) hsender nofun
  | read => exact h.read hs
  | receiver i =>
    rw [Link.step] at hs
    split_ifs at hs with hi
    obtain ⟨receiver, hreceiver, rfl⟩ := Option.map_eq_some_iff.mp hs
    exact h.receiver (Bool.eq_false_iff.mpr hi) hreceiver

/-- A link without data satisfies the invariant. -/
theorem Inv.init (h : l.isInitial hdl) : Inv hdl l := by
  obtain ⟨hsender, hcalls, hreceived, hmessages, hreach, -, hst⟩ := h
  refine ⟨wired_of_reachable hreach, framed_of_reachable hreach, ?_, ?_, ?_, ?_, fun _ => ?_,
    fun _ _ => ⟨[], [], by rw [hcalls]; rfl, hmessages, .header hst hreceived⟩⟩
  · rw [hsender]
    exact .initial
  · rw [hsender]
    exact Nat.le_refl 0
  · rw [hsender, hcalls]
    rfl
  · rw [hreceived]
    exact Nat.zero_le _
  · rw [hmessages]
    exact List.nil_prefix

/-! ## Delivery -/

/-- Nothing is left to be done: everything has been flushed, the sender has nothing more to send,
and the receiver, which is still there, does not find its next piece on the wire. -/
structure Quiescent (hdl : ConnectionHandle) (l : Link) : Prop where
  flushed : l.sender.written.length ≤ l.sender.flushed
  idle : l.sender.pending = []
  sent : l.sender.failed = false
  running : l.receiver.exitReason = ExitReason.notExited
  isOpen : (l.receiver.rdSize? hdl).isSome = true
  waits : l.read hdl = none

/-- A receiver that finds its next piece reads it. -/
theorem read_isSome {n : Nat} (hrun : l.receiver.exitReason = ExitReason.notExited)
    (hn : l.receiver.rdSize? hdl = some n) (hle : n ≤ l.wire.length) :
    (l.read hdl).isSome = true := by
  have hen : l.receiver.enabled (.newData ⟨hdl, l.wire.take n, []⟩) = true := by
    obtain ⟨d, hd, rfl⟩ := Option.map_eq_some_iff.mp hn
    simp only [Broker.enabled, hrun, hd, decide_true, Bool.true_and, decide_eq_true_eq]
    exact List.length_take_of_le hle
  rw [Link.read, hn]
  dsimp only
  rw [if_pos hle, Option.isSome_map, Broker.step, if_pos hen]
  rfl

/-- All that has been written is on the wire or has been read. -/
theorem Inv.wire_of_quiescent (h : Inv hdl l) (hc : l.sender.cutShort = false)
    (hq : Quiescent hdl l) : l.wire = (writeAll l.calls).drop l.received := by
  have hidle : l.sender.Idle := by
    rcases h.stream.shape with hi | ⟨op, hop, -⟩
    · exact hi
    · have hidle := hq.idle
      rw [hop] at hidle
      cases hidle
  have hlen := h.stream.flushed hidle hq.sent
  have hsplit := congrArg List.length h.stream.split
  rw [List.length_append] at hsplit
  have hflushed := hq.flushed
  have hempty : l.sender.wrOfflineBuf = [] := List.length_eq_zero_iff.mp (by omega)
  have hall := h.stream.split
  rw [hempty, List.append_nil] at hall
  rw [wire, h.stream.handed_of_idle hidle.1 hc, hall, h.written]

/-- What sender and receiver can rely on. -/
structure Delivered (hdl : ConnectionHandle) (l : Link) : Prop where
  /-- the messages come in the order of the calls, none twice, none changed, and none that was not
  sent -/
  inOrder : l.messages <+: l.calls.map WriteCall.message
  /-- and all of them come -/
  complete : Quiescent hdl l → l.messages = l.calls.map WriteCall.message

/-- A link that is not cut short has delivered what its receiver read. -/
theorem Inv.delivered (h : Inv hdl l) (hc : l.sender.cutShort = false) : Delivered hdl l := by
  refine ⟨h.inOrder hc, fun hq => ?_⟩
  obtain ⟨n, hn⟩ := Option.isSome_iff_exists.mp hq.isOpen
  have hstuck : l.wire.length < n := by
    rw [← Nat.not_le]
    intro hle
    have hread := read_isSome hq.running hn hle
    rw [hq.waits] at hread
    cases hread
  have hwire := h.wire_of_quiescent hc hq
  obtain ⟨done, rest, hcalls, hmessages, hprogress⟩ := h.progress hc hq.isOpen
  rw [hwire, writeAll_eq_bytesOf, hcalls] at hstuck
  have hrest := hprogress.rest_eq_nil h.framed hn (sized_of_calls hcalls) hstuck
  rw [hmessages, ← map_message_packet, hcalls, hrest, List.append_nil]

/-- **Messages arrive in order, exactly once.** In every run of both ends of a connection in which
`async_write` does not complete early, whatever else happens to the receiver in between. -/
theorem link_delivers (hreach : Reach (isInitial hdl) (step hdl) anyStep l)
    (hc : l.sender.cutShort = false) : Delivered hdl l := by
  have h : Inv hdl l := hreach.invariant (fun _ h => Inv.init h) fun _ _ _ h _ hs => h.step hs
  exact h.delivered hc

open Sample in
/-- The connection of a node that has just dialed. -/
def sample : Link := ⟨.initial, [], (broker 1).exec (dials 7), 0, []⟩

open Sample in
/-- Two messages, the second one written while the first is on its way; another connection is
accepted before the payload of the second one arrives. -/
theorem link_delivers_two : ∃ l, Reach (isInitial (conn 7)) (step (conn 7)) anyStep l ∧
    l.messages = Sample.calls.map WriteCall.message := by
  have hinit : sample.isInitial (conn 7) :=
    ⟨rfl, rfl, rfl, rfl, (broker_reachable 1).exec (i := dials 7) trivial (by decide +kernel),
      by decide +kernel, by decide +kernel⟩
  obtain ⟨l, hrun, hcheck⟩ := exists_run (step (conn 7)) sample
    ((Sample.calls.take 1).map LinkInput.write ++ [.flush, .transmit 0 10] ++
      (Sample.calls.drop 1).map LinkInput.write ++ [.transmit 0 62, .complete 0 false, .flush,
      .read, .transmit 0 80, .read, .receiver (.newConnection (conn 8) ⟨1⟩),
      .transmit 0 ((writeAll Sample.calls).length - 152), .complete 0 false, .read])
    (fun l => l.sender.cutShort = false ∧
      l.calls.map WriteCall.message = Sample.calls.map WriteCall.message ∧
      l.sender.written.length ≤ l.sender.flushed ∧ l.sender.pending = [] ∧
      l.sender.failed = false ∧ l.receiver.exitReason = ExitReason.notExited ∧
      (l.receiver.rdSize? (conn 7)).isSome ∧ (l.read (conn 7)).isNone) (by decide +kernel)
  simp only [decide_eq_true_eq, Option.isNone_iff_eq_none] at hcheck
  obtain ⟨hcut, hcalls, hflushed, hidle, hsent, hrunning, hopen, hwaits⟩ := hcheck
  have hreach := reach_of_run (.init hinit) hrun
  refine ⟨l, hreach, ?_⟩
  rw [← hcalls]
  exact (link_delivers hreach hcut).complete ⟨hflushed, hidle, hsent, hrunning, hopen, hwaits⟩

end Link

end BoostActor
