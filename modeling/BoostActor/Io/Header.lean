import BoostActor.Core.Binary

/-!
# BASP headers

The header of a BASP message, its binary form and the predicate `valid` that a
receiver checks (`basp.hpp`, `basp.cpp`), and the writer of a whole message
(`instance::write`): header, then payload.

* `readHdr_writeHdr` — a decoded header is the encoded one with its node ids
  normalized, and decoding consumes exactly `headerSize` bytes;
* `header_codec` — the two are inverse;
* `writeMessage_eq` — reserving the header, writing the payload and patching the header
  in afterwards leaves the buffer with header and payload appended.
-/

namespace BoostActor

open Lib

/-- `actor_id`; zero is `invalid_actor_id`. -/
abbrev ActorId := UInt32

/-- `basp::message_type`. The field is read from the wire with a cast, so any
other 32-bit value can occur as well. -/
inductive MessageType where
  | serverHandshake
  | clientHandshake
  | dispatchMessage
  | announceProxyInstance
  | killProxyInstance
  | unknown (code : UInt32) (h : 5 ≤ code)
deriving DecidableEq, Repr

/-- `static_cast<uint32_t>(operation)`. -/
def MessageType.toUInt32 : MessageType → UInt32
  | serverHandshake => 0
  | clientHandshake => 1
  | dispatchMessage => 2
  | announceProxyInstance => 3
  | killProxyInstance => 4
  | unknown code _ => code

/-- `static_cast<message_type>(operation)`. -/
def MessageType.ofUInt32 (code : UInt32) : MessageType :=
  if code = 0 then serverHandshake
  else if code = 1 then clientHandshake
  else if code = 2 then dispatchMessage
  else if code = 3 then announceProxyInstance
  else if code = 4 then killProxyInstance
  else if h : 5 ≤ code then unknown code h
  else serverHandshake

/-- `basp::header`. -/
structure Header where
  operation : MessageType
  payloadLen : UInt32
  operationData : UInt64
  sourceNode : NodeId
  destNode : NodeId
  sourceActor : ActorId
  destActor : ActorId
deriving DecidableEq, Repr

/-- `basp::version`. -/
def version : UInt64 := 1

/-- `basp::header_size`. -/
def headerSize : Nat := hostIdSize * 2 + 4 * 2 + 4 * 2 + 4 * 2 + 8

/-! ## Validity -/

def serverHandshakeValid (hdr : Header) : Bool :=
  hdr.sourceNode.valid
    && !hdr.destNode.valid
    && hdr.destActor == 0
    && hdr.operationData != 0
    && ((hdr.sourceActor != 0 && hdr.payloadLen != 0)
      || (hdr.sourceActor == 0 && hdr.payloadLen == 0))

def clientHandshakeValid (hdr : Header) : Bool :=
  hdr.sourceNode.valid
    && hdr.destNode.valid
    && !hdr.sourceNode.equals hdr.destNode
    && hdr.sourceActor == 0
    && hdr.destActor == 0
    && hdr.payloadLen == 0
    && hdr.operationData == 0

def dispatchMessageValid (hdr : Header) : Bool :=
  hdr.destNode.valid
    && hdr.destActor != 0
    && hdr.payloadLen != 0

def announceProxyInstanceValid (hdr : Header) : Bool :=
  hdr.sourceNode.valid
    && hdr.destNode.valid
    && !hdr.sourceNode.equals hdr.destNode
    && hdr.sourceActor == 0
    && hdr.destActor != 0
    && hdr.payloadLen == 0
    && hdr.operationData == 0

def killProxyInstanceValid (hdr : Header) : Bool :=
  hdr.sourceNode.valid
    && hdr.destNode.valid
    && !hdr.sourceNode.equals hdr.destNode
    && hdr.sourceActor != 0
    && hdr.destActor == 0
    && hdr.payloadLen == 0
    && hdr.operationData != 0

/-- `valid(hdr)`. -/
def Header.valid (hdr : Header) : Bool :=
  match hdr.operation with
  | .serverHandshake => serverHandshakeValid hdr
  | .clientHandshake => clientHandshakeValid hdr
  | .dispatchMessage => dispatchMessageValid hdr
  | .announceProxyInstance => announceProxyInstanceValid hdr
  | .killProxyInstance => killProxyInstanceValid hdr
  | .unknown _ _ => false

/-- `is_handshake(hdr)`. -/
def Header.isHandshake (hdr : Header) : Bool :=
  hdr.operation = .serverHandshake ∨ hdr.operation = .clientHandshake

/-- The source of a valid handshake is a valid node. -/
theorem Header.sourceNode_valid (hdr : Header) (hv : hdr.valid = true)
    (hh : hdr.isHandshake = true) : hdr.sourceNode.valid = true := by
  simp only [isHandshake, decide_eq_true_eq] at hh
  rcases hh with ho | ho
  · simp only [valid, ho, serverHandshakeValid, Bool.and_eq_true] at hv
    exact hv.1.1.1.1
  · simp only [valid, ho, clientHandshakeValid, Bool.and_eq_true] at hv
    exact hv.1.1.1.1.1.1

/-! ## Binary form -/

/-- `read_hdr`. -/
def readHdr : Reader Header := do
  let sourceNode ← NodeId.deserialize
  let destNode ← NodeId.deserialize
  let sourceActor ← readUInt32
  let destActor ← readUInt32
  let payloadLen ← readUInt32
  let operation ← readUInt32
  let operationData ← readUInt64
  return {
    operation := MessageType.ofUInt32 operation
    payloadLen, operationData, sourceNode, destNode, sourceActor, destActor }

/-- `write_hdr`. -/
def writeHdr (hdr : Header) : Bytes :=
  hdr.sourceNode.serialize ++ (hdr.destNode.serialize ++ (writeUInt32 hdr.sourceActor ++
    (writeUInt32 hdr.destActor ++ (writeUInt32 hdr.payloadLen ++
      (writeUInt32 hdr.operation.toUInt32 ++ writeUInt64 hdr.operationData)))))

/-- A header as the receiver decodes it: all-zero node ids come out invalid. -/
def Header.normalize (hdr : Header) : Header :=
  { hdr with
    sourceNode := hdr.sourceNode.normalize
    destNode := hdr.destNode.normalize }

@[simp] theorem length_writeHdr (hdr : Header) : (writeHdr hdr).length = headerSize := by
  simp [writeHdr, headerSize, hostIdSize]

/-- Every operation is read back from its code. -/
@[simp] theorem MessageType.ofUInt32_toUInt32 (t : MessageType) :
    MessageType.ofUInt32 t.toUInt32 = t := by
  cases t with
  | unknown code h =>
    have hne : ∀ c : UInt32, c < 5 → code ≠ c := by
      rintro c hc rfl
      have hlt := UInt32.lt_iff_toNat_lt.mp hc
      have hle := UInt32.le_iff_toNat_le.mp h
      omega
    rw [toUInt32, ofUInt32, if_neg (hne 0 (by decide)), if_neg (hne 1 (by decide)),
      if_neg (hne 2 (by decide)), if_neg (hne 3 (by decide)), if_neg (hne 4 (by decide)),
      dif_pos h]
  | _ => rfl

/-- Decoding an encoded header, with any bytes following. -/
theorem readHdr_writeHdr (hdr : Header) (rest : Bytes) :
    readHdr (writeHdr hdr ++ rest) = .ok (hdr.normalize, rest) := by
  simp only [readHdr, writeHdr, List.append_assoc]
  rw [reader_bind (NodeId.deserialize_serialize _ _),
    reader_bind (NodeId.deserialize_serialize _ _),
    reader_bind (readUInt32_append _ _), reader_bind (readUInt32_append _ _),
    reader_bind (readUInt32_append _ _), reader_bind (readUInt32_append _ _),
    reader_bind (readUInt64_append _ _), reader_pure, MessageType.ofUInt32_toUInt32]
  rfl

/-- Any `header_size` bytes are a header. -/
theorem Takes.readHdr : Takes BoostActor.readHdr headerSize := by
  have hsize : headerSize = (hostIdSize + 4) +
    ((hostIdSize + 4) + (4 + (4 + (4 + (4 + (8 + 0)))))) :=
    rfl
  rw [hsize]
  refine nodeId.bind fun _ => nodeId.bind fun _ => ?_
  refine readUInt32.bind fun _ => readUInt32.bind fun _ => ?_
  refine readUInt32.bind fun _ => readUInt32.bind fun _ => ?_
  exact readUInt64.bind fun _ => .pure _

/-- Every code is that of the operation it is read as. -/
theorem MessageType.toUInt32_ofUInt32 (code : UInt32) :
    (MessageType.ofUInt32 code).toUInt32 = code := by
  unfold ofUInt32
  split
  · next h => exact h.symm
  split
  · next h => exact h.symm
  split
  · next h => exact h.symm
  split
  · next h => exact h.symm
  split
  · next h => exact h.symm
  split
  · rfl
  · next h₀ h₁ h₂ h₃ h₄ h₅ =>
    -- a code below five is one of the five above
    have hne : ∀ c : UInt32, code ≠ c → code.toNat ≠ c.toNat := fun c hc h =>
      hc (UInt32.toNat_inj.mp h)
    have hlt : ¬ (5 : UInt32).toNat ≤ code.toNat := fun h => h₅ (UInt32.le_iff_toNat_le.mpr h)
    have := hne 0 h₀
    have := hne 1 h₁
    have := hne 2 h₂
    have := hne 3 h₃
    have := hne 4 h₄
    simp only [UInt32.reduceToNat] at *
    omega

/-- Encoding a decoded header restores the bytes it was decoded from. -/
theorem undoes_readHdr : Undoes writeHdr readHdr := by
  intro bs hdr rest h
  obtain ⟨sourceNode, bs₁, h₁, h⟩ := reader_bind_ok h
  obtain ⟨destNode, bs₂, h₂, h⟩ := reader_bind_ok h
  obtain ⟨sourceActor, bs₃, h₃, h⟩ := reader_bind_ok h
  obtain ⟨destActor, bs₄, h₄, h⟩ := reader_bind_ok h
  obtain ⟨payloadLen, bs₅, h₅, h⟩ := reader_bind_ok h
  obtain ⟨operation, bs₆, h₆, h⟩ := reader_bind_ok h
  obtain ⟨operationData, bs₇, h₇, h⟩ := reader_bind_ok h
  injection h with h
  injection h with hh hr
  subst hh hr
  simp only [writeHdr, MessageType.toUInt32_ofUInt32, List.append_assoc]
  rw [undoes_readUInt64 _ _ _ h₇, undoes_readUInt32 _ _ _ h₆, undoes_readUInt32 _ _ _ h₅,
    undoes_readUInt32 _ _ _ h₄, undoes_readUInt32 _ _ _ h₃, undoes_nodeId _ _ _ h₂,
    undoes_nodeId _ _ _ h₁]

/-- **Header codec.** Any 72 bytes are a header, and encoding it restores them. A header
whose node ids are each invalid or not all zero is read back as it was written, from
exactly `header_size` bytes. -/
theorem header_codec :
    (∀ b : Bytes, b.length = 72 → ∃ hdr, readHdr b = .ok (hdr, []) ∧ writeHdr hdr = b) ∧
    ∀ hdr : Header, (hdr.sourceNode.valid = true → hdr.sourceNode.allZero = false) →
      (hdr.destNode.valid = true → hdr.destNode.allZero = false) →
      (writeHdr hdr).length = headerSize ∧
        ∀ rest, readHdr (writeHdr hdr ++ rest) = .ok (hdr, rest) := by
  refine ⟨fun b hb => ?_, fun hdr hs hd => ⟨length_writeHdr hdr, fun rest => ?_⟩⟩
  · have hsize : headerSize = b.length := hb.symm
    obtain ⟨hdr, hr⟩ := Takes.readHdr b (Nat.le_of_eq hsize)
    rw [hsize, List.drop_length] at hr
    refine ⟨hdr, hr, ?_⟩
    rw [← undoes_readHdr _ _ _ hr, List.append_nil]
  · rw [readHdr_writeHdr, Header.normalize, NodeId.normalize_eq hs, NodeId.normalize_eq hd]

/-- A header with an unknown operation, and 72 bytes that are all zero. -/
theorem header_codec_unknown :
    let hdr : Header := ⟨.unknown 9 (by decide), 5, 7, NodeId.invalid,
      NodeId.make 1 ⟨List.replicate 20 7, rfl⟩, 3, 4⟩
    readHdr (writeHdr hdr) = .ok (hdr, []) ∧
      ∃ hdr', readHdr (List.replicate 72 0) = .ok (hdr', []) ∧
        writeHdr hdr' = List.replicate 72 0 := by
  intro hdr
  refine ⟨?_, header_codec.1 _ (List.length_replicate ..)⟩
  have h := (header_codec.2 hdr (by decide) (by decide)).2 []
  rwa [List.append_nil] at h

/-! ## Writing a message -/

/-- The overload of `instance::write` that fills in the header: without a payload
writer the length field is zero; with one, `header_size` bytes are reserved, the
payload is written behind them, and the header is patched in once its length is
known. `placeholder` is whatever the reserved bytes hold. -/
def writeMessage (placeholder buf : Bytes) (hdr : Header) (pw : Option Bytes) : Bytes :=
  match pw with
  | none => buf ++ writeHdr { hdr with payloadLen := 0 }
  | some payload =>
    let wrPos := buf.length
    let buf := buf ++ placeholder
    let plPos := buf.length
    let buf := buf ++ payload
    let plen := castUInt32 (buf.length - plPos)
    let patch := writeHdr { hdr with payloadLen := plen }
    buf.take wrPos ++ patch ++ buf.drop (wrPos + patch.length)

/-- The header that `instance::write` puts on the wire. -/
def Header.withPayload (hdr : Header) (pw : Option Bytes) : Header :=
  { hdr with payloadLen := castUInt32 (pw.getD []).length }

/-- What `instance::write` leaves in the buffer. -/
theorem writeMessage_eq {placeholder : Bytes} (hp : placeholder.length = headerSize) (buf : Bytes)
    (hdr : Header) (pw : Option Bytes) :
    writeMessage placeholder buf hdr pw =
      buf ++ (writeHdr (hdr.withPayload pw) ++ pw.getD []) := by
  cases pw with
  | none => simp [writeMessage, Header.withPayload, castUInt32]
  | some payload =>
    simp only [writeMessage, Header.withPayload, Option.getD_some, length_writeHdr]
    have htake : ((buf ++ placeholder) ++ payload).take buf.length = buf := by
      rw [List.append_assoc, List.take_left']
      rfl
    have hdrop : ((buf ++ placeholder) ++ payload).drop (buf.length + headerSize) = payload := by
      rw [← hp, ← List.length_append, List.drop_left']
      rfl
    have hlen : ((buf ++ placeholder) ++ payload).length - (buf ++ placeholder).length =
        payload.length := by
      rw [List.length_append]
      omega
    rw [htake, hdrop, hlen, List.append_assoc]

end BoostActor
