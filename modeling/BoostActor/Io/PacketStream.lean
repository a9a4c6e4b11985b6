import BoostActor.Io.Framing

/-!
# Messages on the wire

What a broker makes of a sequence of messages that arrives on a connection in the pieces that its
scribe is configured for.

* `Reads` — how far a connection has come;
* `Reads.next` — a piece that is read is the next one of the sequence;
* `Reads.rest_eq_nil` — a connection that does not find its next piece has come to the end.
-/

namespace BoostActor

open Lib

variable {hdl : ConnectionHandle} {s s' : Broker} {p : Packet} {done rest : List Packet}

/-- The bytes of messages. -/
def bytesOf (ps : List Packet) : Bytes := ps.flatMap Packet.bytes

/-- What the peer sees of a message. -/
def Packet.message (p : Packet) : Header × Bytes := (p.hdr.normalize, p.payload)

/-- The message that data completes, if it does. -/
def Broker.processed (s : Broker) (dm : NewData) : List (Header × Bytes) :=
  ((s.completed dm).map fun m => (m.1, m.2.getD [])).toList

/-- Normalizing a node id twice is normalizing it once. -/
theorem NodeId.normalize_normalize (n : NodeId) : n.normalize.normalize = n.normalize := by
  by_cases hz : n.allZero = true
  · have hn : n.normalize = invalid := if_pos hz
    rw [hn]
    rfl
  · have hn : n.normalize = n := if_neg hz
    rw [hn, hn]

/-- Normalizing a header twice is normalizing it once. -/
theorem Header.normalize_normalize (hdr : Header) : hdr.normalize.normalize = hdr.normalize := by
  unfold normalize
  rw [NodeId.normalize_normalize, NodeId.normalize_normalize]

/-- The process id of a node is not zero. -/
theorem Broker.normalize_thisNode (s : Broker) : s.thisNode.normalize = s.thisNode := by
  refine NodeId.normalize_eq fun _ => Bool.eq_false_iff.mpr fun hz => ?_
  exact s.process.pid_ne_zero (of_decide_eq_true hz).1

/-- The length field of a message is the length of its payload. -/
def Packet.Sized (p : Packet) : Prop := p.hdr.payloadLen.toNat = p.payload.length

/-- The header of a packet says whether there is a payload. -/
theorem Packet.Sized.payloadLen_eq_zero (h : p.Sized) : p.hdr.payloadLen = 0 ↔ p.payload = [] := by
  rw [← UInt32.toNat_inj, h]
  exact List.length_eq_zero_iff

/-- A header is read as its normal form. -/
theorem parse_header (hdr : Header) : parse readHdr (writeHdr hdr) = .ok hdr.normalize := by
  have h := readHdr_writeHdr hdr []
  rw [List.append_nil] at h
  rw [parse, h]
  rfl

/-- The length field of a message that is complete fits. -/
theorem Broker.completed_payloadLen {dm : NewData} {hdr : Header} {payload : Option Bytes}
    (h : s.completed dm = some (hdr, payload)) :
    hdr.payloadLen.toNat = (payload.getD []).length := by
  unfold completed completes at h
  dsimp only at h
  split at h
  · split at h
    · next hl =>
      cases h
      exact hl.symm
    · cases h
  · split at h
    · split at h
      · next hl =>
        cases h
        rw [hl]
        rfl
      · cases h
    · cases h

/-- How far an end has come that has received so many bytes: it has processed the messages
`done`, and it has read the header of the next one if it waits for a payload. -/
inductive Reads (hdl : ConnectionHandle) (s : Broker) (received : Nat) (done : List Packet) :
    List Packet → Prop where
  | header {rest : List Packet} (hst : (s.contextOf hdl).cstate = .awaitHeader)
      (hrd : received = (bytesOf done).length) : Reads hdl s received done rest
  | payload {p : Packet} {rest : List Packet} (hne : p.payload ≠ [])
      (hst : (s.contextOf hdl).cstate = .awaitPayload)
      (hhdr : (s.contextOf hdl).hdr = p.hdr.normalize)
      (hrd : received = (bytesOf done).length + headerSize) : Reads hdl s received done (p :: rest)

namespace Reads

/-- The peer sends more. -/
theorem append {received : Nat} (h : Reads hdl s received done rest) (more : List Packet) :
    Reads hdl s received done (rest ++ more) := by
  cases h with
  | header hst hrd => exact .header hst hrd
  | payload hne hst hhdr hrd => exact .payload hne hst hhdr hrd

/-- Something happens elsewhere. -/
theorem of_context {received : Nat} (h : Reads hdl s received done rest)
    (hc : s'.contextOf hdl = s.contextOf hdl) : Reads hdl s' received done rest := by
  cases h with
  | header hst hrd => exact .header (by rw [hc, hst]) hrd
  | payload hne hst hhdr hrd => exact .payload hne (by rw [hc, hst]) (by rw [hc, hhdr]) hrd

end Reads

/-- The bytes of two lists of packets follow each other. -/
theorem bytesOf_append (ps qs : List Packet) : bytesOf (ps ++ qs) = bytesOf ps ++ bytesOf qs :=
  List.flatMap_append

/-- The bytes of a packet come before those of the packets behind it. -/
theorem bytesOf_cons (p : Packet) (ps : List Packet) :
    bytesOf (p :: ps) = writeHdr p.hdr ++ (p.payload ++ bytesOf ps) := by
  rw [bytesOf, List.flatMap_cons, Packet.bytes, List.append_assoc]
  rfl

/-- A message is complete or not, and then comes what it leads to. -/
structure ReadNext (hdl : ConnectionHandle) (dm : NewData) (s s' : Broker) (received : Nat)
    (done rest : List Packet) : Prop where
  split : ∃ done' rest', done ++ rest = done' ++ rest' ∧
    done.map Packet.message ++ s.processed dm = done'.map Packet.message ∧
    ((s'.rdSize? hdl).isSome = true → Reads hdl s' received done' rest')
  /-- a message that is complete is the next one -/
  message : ∀ hdr payload, s.completed dm = some (hdr, payload) →
    ∃ p ∈ rest, p.message = (hdr, payload.getD [])

/-- A header has been read. -/
theorem ReadNext.header {dm : NewData} (hdm : dm.handle = hdl) (hbuf : dm.buf = writeHdr p.hdr)
    (hp : p.Sized) (hst : (s.contextOf hdl).cstate = .awaitHeader) (hd : DataStep dm s s') :
    ReadNext hdl dm s s' ((bytesOf done).length + headerSize) done (p :: rest) := by
  subst hdm
  have hcompl : s.completed dm = if p.payload = [] then some (p.hdr.normalize, none) else none := by
    show completes dm (s.contextOf dm.handle).hdr
      (decide ((s.contextOf dm.handle).cstate = .awaitPayload)) = _
    rw [hst]
    simp only [completes, hbuf, parse_header, ← hp.payloadLen_eq_zero]
    rfl
  by_cases hnil : p.payload = []
  · -- the packet has no payload: it is a message now
    rw [if_pos hnil] at hcompl
    have hprocessed : s.processed dm = [p.message] := by
      rw [Broker.processed, hcompl, Packet.message, hnil]
      rfl
    refine ⟨⟨done ++ [p], rest, by simp, by rw [hprocessed, List.map_append]; rfl, fun ho => ?_⟩,
      fun hdr payload hm => ?_⟩
    · obtain ⟨c, hc, ⟨-, -, hparse, hpos, -⟩ | ⟨hst', -⟩⟩ := hd.frame ho
      · rw [hbuf, parse_header] at hparse
        rw [← Except.ok.inj hparse] at hpos
        exact absurd (hp.payloadLen_eq_zero.mpr hnil) (UInt32.pos_iff_ne_zero.mp hpos)
      · refine .header (by rw [Broker.contextOf_eq hc, hst']) ?_
        rw [bytesOf_append, bytesOf_cons, hnil, List.length_append, List.length_append,
          length_writeHdr]
        rfl
    · rw [hcompl] at hm
      cases hm
      exact ⟨p, List.mem_cons_self, by rw [Packet.message, hnil]; rfl⟩
  · rw [if_neg hnil] at hcompl
    -- the payload of the packet is awaited
    have hprocessed : s.processed dm = [] := by
      rw [Broker.processed, hcompl]
      rfl
    refine ⟨⟨done, p :: rest, rfl, by rw [hprocessed, List.append_nil], fun ho => ?_⟩,
      fun hdr payload hm => ?_⟩
    · obtain ⟨c, hc, ⟨hst', -, hparse, -⟩ | ⟨-, hm, -⟩⟩ := hd.frame ho
      · rw [hbuf, parse_header] at hparse
        have hctx := Broker.contextOf_eq hc
        exact .payload hnil (by rw [hctx, hst']) (by rw [hctx, Except.ok.inj hparse]) rfl
      · rw [hcompl] at hm
        cases hm
    · rw [hcompl] at hm
      cases hm

/-- A payload has been read. -/
theorem ReadNext.payload {dm : NewData} (hdm : dm.handle = hdl) (hbuf : dm.buf = p.payload)
    (hp : p.Sized) (hst : (s.contextOf hdl).cstate = .awaitPayload)
    (hhdr : (s.contextOf hdl).hdr = p.hdr.normalize) (hd : DataStep dm s s') :
    ReadNext hdl dm s s' ((bytesOf done).length + headerSize + p.payload.length) done
      (p :: rest) := by
  subst hdm
  have hcompl : s.completed dm = some (p.hdr.normalize, some p.payload) := by
    show completes dm (s.contextOf dm.handle).hdr
      (decide ((s.contextOf dm.handle).cstate = .awaitPayload)) = _
    rw [hst, hhdr, completes, if_pos (by rfl), hbuf]
    exact if_pos hp.symm
  have hprocessed : s.processed dm = [p.message] := by
    rw [Broker.processed, hcompl]
    rfl
  refine ⟨⟨done ++ [p], rest, by simp, by rw [hprocessed, List.map_append]; rfl, fun ho => ?_⟩,
    fun hdr payload hm => ?_⟩
  · obtain ⟨c, hc, ⟨-, hnot, -⟩ | ⟨hst', -⟩⟩ := hd.frame ho
    · exact absurd hst hnot
    · refine .header (by rw [Broker.contextOf_eq hc, hst']) ?_
      rw [bytesOf_append, bytesOf_cons, List.length_append, List.length_append, length_writeHdr,
        List.length_append, Nat.add_assoc]
      rfl
  · rw [hcompl] at hm
    cases hm
    exact ⟨p, List.mem_cons_self, rfl⟩

/-- **A piece is the next one that was sent.** -/
theorem Reads.next {dm : NewData} {received len : Nat} (h : Reads hdl s received done rest)
    (hf : Framed s) (hlen : s.rdSize? hdl = some len) (hsized : ∀ p ∈ rest, p.Sized)
    (hle : len ≤ ((bytesOf (done ++ rest)).drop received).length) (hdm : dm.handle = hdl)
    (hbuf : dm.buf = ((bytesOf (done ++ rest)).drop received).take len) (hd : DataStep dm s s') :
    ReadNext hdl dm s s' (received + len) done rest := by
  cases h with
  | header hst hrd =>
    obtain rfl := hf.size_of_awaitHeader hlen hst
    rw [hrd, bytesOf_append, List.drop_left] at hle hbuf
    cases rest with
    | nil => exact absurd hle (by decide)
    | cons p rest =>
      rw [bytesOf_cons, ← length_writeHdr p.hdr, List.take_left] at hbuf
      rw [hrd]
      exact .header hdm hbuf (hsized p List.mem_cons_self) hst hd
  | @payload p rest hne hst hhdr hrd =>
    have hp : p.Sized := hsized p List.mem_cons_self
    obtain rfl : len = p.payload.length := by
      rw [hf.size_of_awaitPayload hlen hst, hhdr]
      exact hp
    rw [hrd, bytesOf_append, ← List.drop_drop, List.drop_left, bytesOf_cons,
      ← length_writeHdr p.hdr, List.drop_left, List.take_left] at hbuf
    rw [hrd]
    exact .payload hdm hbuf hp hst hhdr hd

/-- A connection that does not find its next piece has come to the end. -/
theorem Reads.rest_eq_nil {received len : Nat} (h : Reads hdl s received done rest) (hf : Framed s)
    (hlen : s.rdSize? hdl = some len) (hsized : ∀ p ∈ rest, p.Sized)
    (hstuck : ((bytesOf (done ++ rest)).drop received).length < len) : rest = [] := by
  cases h with
  | header hst hrd =>
    cases rest with
    | nil => rfl
    | cons p rest =>
      -- the next header is there
      have hsize : len = headerSize := hf.size_of_awaitHeader hlen hst
      rw [hrd, bytesOf_append, List.drop_left, bytesOf_cons, List.length_append, length_writeHdr]
        at hstuck
      omega
  | @payload p rest hne hst hhdr hrd =>
    -- the payload is there
    have hsize : len = p.payload.length := by
      rw [hf.size_of_awaitPayload hlen hst, hhdr]
      exact hsized p List.mem_cons_self
    rw [hrd, bytesOf_append, ← List.drop_drop, List.drop_left, bytesOf_cons,
      ← length_writeHdr p.hdr, List.drop_left, List.length_append] at hstuck
    omega

end BoostActor
