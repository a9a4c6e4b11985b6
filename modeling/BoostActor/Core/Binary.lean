import BoostActor.Lib.LittleEndian
import BoostActor.Core.NodeId

/-!
# Binary serialization

The primitives of `binary_serializer.cpp` and `binary_deserializer.cpp`.
Integers are copied byte by byte (the model is a little-endian host), strings
are prefixed with a 32-bit length. Writing appends to a byte string; reading
consumes one and throws when the input is too short.

* `Fault` — everything that can end a call of the library abnormally;
* `readRaw_append`, `readUInt32_append`, ... — reading back what was written,
  with any bytes following;
* `Undoes` — writing what was read restores the input.
-/

namespace BoostActor

open Lib

/-- Raw memory, `std::vector<char>` or `std::string`. -/
abbrev Bytes := List UInt8

-- -------------------------
-- Writing
-- -------------------------

/-- The bytes of a string literal. -/
def ascii (s : String) : Bytes := s.toList.map fun c => c.toNat.toUInt8

/-- How a call can end other than by returning: a C++ exception, or behaviour
that the language leaves undefined (a null or dangling pointer, an index out of
bounds, a cast to the wrong type). -/
inductive Fault where
  | outOfRange (what : String)
  | runtimeError (what : Bytes)
  | invalidArgument (what : String)
  | badGet
  | undefined (what : String)
deriving DecidableEq, Repr

-- -------------------------
-- Writing
-- -------------------------

/-- `write_int` of an 8-bit value. -/
def writeUInt8 (v : UInt8) : Bytes := toBytesLE 1 v.toNat

/-- `write_int` of a 16-bit value. -/
def writeUInt16 (v : UInt16) : Bytes := toBytesLE 2 v.toNat

/-- `write_int` of a 32-bit value. -/
def writeUInt32 (v : UInt32) : Bytes := toBytesLE 4 v.toNat

/-- `write_int` of a 64-bit value. -/
def writeUInt64 (v : UInt64) : Bytes := toBytesLE 8 v.toNat

/-- `static_cast<uint32_t>(n)`. -/
def castUInt32 (n : Nat) : UInt32 := UInt32.ofNat n

/-- `write_string`. -/
def writeString (s : Bytes) : Bytes := writeUInt32 (castUInt32 s.length) ++ s

/-- `begin_sequence` followed by the elements. -/
def writeSequence {α : Type} (w : α → Bytes) (xs : List α) : Bytes :=
  writeUInt32 (castUInt32 xs.length) ++ xs.flatMap w

/-- `begin_sequence` followed by the elements, for a sequence of strings. -/
def writeStrings (xs : List Bytes) : Bytes :=
  writeUInt32 (castUInt32 xs.length) ++ xs.flatMap writeString

/-- `node_id::serialize`. -/
def NodeId.serialize (n : NodeId) : Bytes := n.hostId.bytes ++ writeUInt32 n.processId

@[simp] theorem length_writeUInt8 (v : UInt8) : (writeUInt8 v).length = 1 := by
  simp [writeUInt8]

@[simp] theorem length_writeUInt16 (v : UInt16) : (writeUInt16 v).length = 2 := by
  simp [writeUInt16]

@[simp] theorem length_writeUInt32 (v : UInt32) : (writeUInt32 v).length = 4 := by
  simp [writeUInt32]

@[simp] theorem length_writeUInt64 (v : UInt64) : (writeUInt64 v).length = 8 := by
  simp [writeUInt64]

@[simp] theorem NodeId.length_serialize (n : NodeId) : n.serialize.length = 24 := by
  simp [serialize, n.hostId.size_eq, hostIdSize]

-- -------------------------
-- Reading
-- -------------------------

/-- A binary deserializer: a program over the bytes that are left. -/
abbrev Reader := StateT Bytes (Except Fault)

/-- The exception of `range_check`. -/
def rangeError : Fault := .outOfRange "binary_deserializer::read_range()"

/-- `read_raw`. -/
def readRaw (n : Nat) : Reader Bytes := fun bs =>
  if n ≤ bs.length then .ok (bs.take n, bs.drop n) else .error rangeError

/-- `read_range` into an 8-bit integer. -/
def readUInt8 : Reader UInt8 := return UInt8.ofNat (ofBytesLE (← readRaw 1))

/-- `read_range` into a 16-bit integer. -/
def readUInt16 : Reader UInt16 := return UInt16.ofNat (ofBytesLE (← readRaw 2))

/-- `read_range` into a 32-bit integer. -/
def readUInt32 : Reader UInt32 := return UInt32.ofNat (ofBytesLE (← readRaw 4))

/-- `read_range` into a 64-bit integer. -/
def readUInt64 : Reader UInt64 := return UInt64.ofNat (ofBytesLE (← readRaw 8))

/-- `read_range` into a string. -/
def readString : Reader Bytes := do
  let size ← readUInt32
  readRaw size.toNat

/-- `read_raw` into a host id. -/
def readHostId : Reader HostId := fun bs =>
  if h : hostIdSize ≤ bs.length then
    .ok (⟨bs.take hostIdSize, by rw [List.length_take]; omega⟩, bs.drop hostIdSize)
  else .error rangeError

/-- `node_id::deserialize`: all-zero data stands for an invalid node id. -/
def NodeId.deserialize : Reader NodeId := do
  let host ← readHostId
  let pid ← readUInt32
  let n := NodeId.make pid host
  return if n.allZero then NodeId.invalid else n

/-- `n` elements, one after the other. -/
def readMany {α : Type} (elem : Reader α) : Nat → Reader (List α)
  | 0 => pure []
  | n + 1 => do
    let x ← elem
    let xs ← readMany elem n
    return x :: xs

/-- `begin_sequence` and the elements. -/
def readSequence {α : Type} (elem : Reader α) : Reader (List α) := do
  let size ← readUInt32
  readMany elem size.toNat

/-- `begin_sequence` and a sequence of strings. -/
def readStrings : Reader (List Bytes) := do
  let size ← readUInt32
  readMany readString size.toNat

/-- What a node id becomes on its way over the wire. -/
def NodeId.normalize (n : NodeId) : NodeId := if n.allZero then invalid else n

-- -------------------------
-- Reading what was written
-- -------------------------

theorem readRaw_append (bs rest : Bytes) {n : Nat} (h : bs.length = n) :
    readRaw n (bs ++ rest) = .ok (bs, rest) := by
  subst h
  simp [readRaw]

/-- Programs read one piece of the input after the other. -/
theorem reader_bind {α β : Type} {x : Reader α} {f : α → Reader β} {bs rest : Bytes} {a : α}
    (h : x bs = .ok (a, rest)) : (x >>= f) bs = f a rest := by
  show (StateT.bind x f) bs = _
  rw [StateT.bind, h]
  rfl

/-- A program that fails reads no further. -/
theorem reader_bind_error {α β : Type} {x : Reader α} {f : α → Reader β} {bs : Bytes} {e : Fault}
    (h : x bs = .error e) : (x >>= f) bs = .error e := by
  show (StateT.bind x f) bs = _
  rw [StateT.bind, h]
  rfl

theorem reader_pure {α : Type} (a : α) (bs : Bytes) :
    (pure a : Reader α) bs = .ok (a, bs) := rfl

/-- An unsigned integer of `w` bytes is read back. -/
theorem readInt_append {α : Type} {w : Nat} {ofNat : Nat → α} {toNat : α → Nat}
    (hlt : ∀ v, toNat v < 256 ^ w) (hof : ∀ v, ofNat (toNat v) = v) (v : α) (rest : Bytes) :
    (do return ofNat (ofBytesLE (← readRaw w)) : Reader α) (toBytesLE w (toNat v) ++ rest) =
      .ok (v, rest) := by
  rw [reader_bind (readRaw_append _ rest (length_toBytesLE w _)), reader_pure,
    ofBytesLE_toBytesLE (hlt v), hof v]

theorem readUInt8_append (v : UInt8) (rest : Bytes) :
    readUInt8 (writeUInt8 v ++ rest) = .ok (v, rest) :=
  readInt_append UInt8.toNat_lt (fun _ => UInt8.ofNat_toNat) v rest

theorem readUInt16_append (v : UInt16) (rest : Bytes) :
    readUInt16 (writeUInt16 v ++ rest) = .ok (v, rest) :=
  readInt_append UInt16.toNat_lt (fun _ => UInt16.ofNat_toNat) v rest

theorem readUInt32_append (v : UInt32) (rest : Bytes) :
    readUInt32 (writeUInt32 v ++ rest) = .ok (v, rest) :=
  readInt_append UInt32.toNat_lt (fun _ => UInt32.ofNat_toNat) v rest

theorem readUInt64_append (v : UInt64) (rest : Bytes) :
    readUInt64 (writeUInt64 v ++ rest) = .ok (v, rest) :=
  readInt_append UInt64.toNat_lt (fun _ => UInt64.ofNat_toNat) v rest

/-- A string shorter than 2^32 is read back. -/
theorem readString_append {s : Bytes} (h : s.length < 2 ^ 32) (rest : Bytes) :
    readString (writeString s ++ rest) = .ok (s, rest) := by
  have hsize : s.length = (castUInt32 s.length).toNat := (UInt32.toNat_ofNat_of_lt' h).symm
  rw [writeString, List.append_assoc, readString, reader_bind (readUInt32_append _ _)]
  exact readRaw_append s rest hsize

/-- Elements that are read back one by one are read back in a row. -/
theorem readMany_append {α : Type} {elem : Reader α} {w : α → Bytes} {xs : List α}
    (h : ∀ x ∈ xs, ∀ rest, elem (w x ++ rest) = .ok (x, rest)) (rest : Bytes) :
    readMany elem xs.length (xs.flatMap w ++ rest) = .ok (xs, rest) := by
  induction xs with
  | nil => rfl
  | cons x xs ih =>
    have htail := ih fun y hy => h y (List.mem_cons_of_mem x hy)
    rw [List.flatMap_cons, List.append_assoc, List.length_cons, readMany,
      reader_bind (h x List.mem_cons_self _), reader_bind htail]
    rfl

/-- A sequence shorter than 2^32 is read back. -/
theorem readSequence_append {α : Type} {elem : Reader α} {w : α → Bytes} {xs : List α}
    (hlen : xs.length < 2 ^ 32) (h : ∀ x ∈ xs, ∀ rest, elem (w x ++ rest) = .ok (x, rest))
    (rest : Bytes) :
    readSequence elem (writeSequence w xs ++ rest) = .ok (xs, rest) := by
  have hsize : (castUInt32 xs.length).toNat = xs.length := UInt32.toNat_ofNat_of_lt' hlen
  rw [writeSequence, List.append_assoc, readSequence, reader_bind (readUInt32_append _ _), hsize]
  exact readMany_append h rest

theorem readHostId_append (h : HostId) (rest : Bytes) :
    readHostId (h.bytes ++ rest) = .ok (h, rest) := by
  have hl := h.size_eq
  rw [readHostId, dif_pos (by simp [hl])]
  simp [← hl]

/-- Decoding an encoded node id yields it back, unless it is all zero. -/
theorem NodeId.deserialize_serialize (n : NodeId) (rest : Bytes) :
    NodeId.deserialize (n.serialize ++ rest) = .ok (n.normalize, rest) := by
  rw [NodeId.deserialize, serialize, List.append_assoc,
    reader_bind (readHostId_append n.hostId _), reader_bind (readUInt32_append _ rest),
    reader_pure, normalize]
  obtain ⟨_ | d⟩ := n
  · rfl
  · rfl

/-- Only an all-zero node id does not survive the wire, and the invalid one does. -/
theorem NodeId.normalize_eq {n : NodeId} (h : n.valid = true → n.allZero = false) :
    n.normalize = n := by
  rw [normalize]
  split
  · next hz =>
    cases hv : n.valid with
    | true =>
      rw [h hv] at hz
      cases hz
    | false => exact (not_valid_iff.mp hv).symm
  · rfl

-- -------------------------
-- Writing what was read
-- -------------------------

/-- The writer `w` restores the bytes that `r` has read. -/
def Undoes {α : Type} (w : α → Bytes) (r : Reader α) : Prop :=
  ∀ bs a rest, r bs = .ok (a, rest) → w a ++ rest = bs

/-- The two halves of a successful program. -/
theorem reader_bind_ok {α β : Type} {x : Reader α} {f : α → Reader β} {bs rest : Bytes} {b : β}
    (h : (x >>= f) bs = .ok (b, rest)) :
    ∃ a mid, x bs = .ok (a, mid) ∧ f a mid = .ok (b, rest) := by
  cases hx : x bs with
  | error e =>
    rw [reader_bind_error hx] at h
    cases h
  | ok p =>
    obtain ⟨a, mid⟩ := p
    rw [reader_bind hx] at h
    exact ⟨a, mid, rfl, h⟩

/-- Raw bytes that were read are the first of the input. -/
theorem readRaw_ok {n : Nat} {bs a rest : Bytes} (h : readRaw n bs = .ok (a, rest)) :
    a.length = n ∧ a ++ rest = bs := by
  unfold readRaw at h
  split at h
  · next hlen =>
    injection h with h
    injection h with ha hr
    subst ha hr
    exact ⟨by rw [List.length_take]; omega, List.take_append_drop n bs⟩
  · cases h

/-- An unsigned integer of `w` bytes stands for the bytes it was read from. -/
theorem undoes_readInt {α : Type} {w : Nat} {ofNat : Nat → α} {toNat : α → Nat}
    (hof : ∀ n, n < 256 ^ w → toNat (ofNat n) = n) :
    Undoes (fun v => toBytesLE w (toNat v)) (do return ofNat (ofBytesLE (← readRaw w))) := by
  intro bs v rest h
  obtain ⟨raw, mid, hraw, hv⟩ := reader_bind_ok h
  obtain ⟨hlen, happ⟩ := readRaw_ok hraw
  injection hv with hv
  injection hv with hv hr
  have hlt : ofBytesLE raw < 256 ^ w := hlen ▸ ofBytesLE_lt raw
  show toBytesLE w (toNat v) ++ rest = bs
  rw [← hv, ← hr, hof _ hlt, ← hlen, toBytesLE_ofBytesLE, happ]

theorem undoes_readUInt8 : Undoes writeUInt8 readUInt8 :=
  undoes_readInt fun _ => UInt8.toNat_ofNat_of_lt'

theorem undoes_readUInt16 : Undoes writeUInt16 readUInt16 :=
  undoes_readInt fun _ => UInt16.toNat_ofNat_of_lt'

theorem undoes_readUInt32 : Undoes writeUInt32 readUInt32 :=
  undoes_readInt fun _ => UInt32.toNat_ofNat_of_lt'

theorem undoes_readUInt64 : Undoes writeUInt64 readUInt64 :=
  undoes_readInt fun _ => UInt64.toNat_ofNat_of_lt'

/-- A byte is read if the input begins with it. -/
theorem readUInt8_eq_ok {bs rest : Bytes} {v : UInt8} :
    readUInt8 bs = .ok (v, rest) ↔ bs = writeUInt8 v ++ rest := by
  constructor
  · intro h
    exact (undoes_readUInt8 _ _ _ h).symm
  · rintro rfl
    exact readUInt8_append v rest

/-- A 16-bit number is read if the input begins with it. -/
theorem readUInt16_eq_ok {bs rest : Bytes} {v : UInt16} :
    readUInt16 bs = .ok (v, rest) ↔ bs = writeUInt16 v ++ rest := by
  constructor
  · intro h
    exact (undoes_readUInt16 _ _ _ h).symm
  · rintro rfl
    exact readUInt16_append v rest

/-- What is read as a string is a string shorter than 2^32. -/
theorem readString_eq_ok {bs rest s : Bytes} :
    readString bs = .ok (s, rest) ↔ s.length < 2 ^ 32 ∧ bs = writeString s ++ rest := by
  constructor
  · intro h
    obtain ⟨size, mid, hsize, hs⟩ := reader_bind_ok h
    obtain ⟨hlen, happ⟩ := readRaw_ok hs
    have hcast : castUInt32 s.length = size := by rw [hlen, castUInt32, UInt32.ofNat_toNat]
    refine ⟨hlen ▸ size.toNat_lt, ?_⟩
    rw [writeString, hcast, List.append_assoc, happ, undoes_readUInt32 _ _ _ hsize]
  · rintro ⟨hlen, rfl⟩
    exact readString_append hlen rest

/-- A host id that was read is written as it was. -/
theorem undoes_readHostId : Undoes HostId.bytes readHostId := by
  intro bs host rest h
  unfold readHostId at h
  split at h
  · injection h with h
    injection h with hh hr
    subst hh hr
    exact List.take_append_drop _ _
  · cases h

/-- The invalid node id is written as zeros. -/
theorem NodeId.serialize_of_allZero {n : NodeId} (h : n.allZero = true) :
    invalid.serialize = n.serialize := by
  simp only [allZero, decide_eq_true_eq, List.all_eq_true] at h
  have hbytes : n.hostId.bytes = List.replicate hostIdSize 0 := by
    rw [← n.hostId.size_eq]
    exact List.eq_replicate_of_mem h.2
  rw [serialize, serialize, h.1, hbytes]
  rfl

/-- A node id that was read is written as it was; an invalid one consists of zeros. -/
theorem undoes_nodeId : Undoes NodeId.serialize NodeId.deserialize := by
  intro bs n rest h
  obtain ⟨host, mid, hhost, h⟩ := reader_bind_ok h
  obtain ⟨pid, mid', hpid, hn⟩ := reader_bind_ok h
  injection hn with hn
  injection hn with hn hr
  have hser : n.serialize = (NodeId.make pid host).serialize := by
    rw [← hn]
    split
    · next hz => exact NodeId.serialize_of_allZero hz
    · rfl
  rw [hser, ← hr, NodeId.serialize, List.append_assoc]
  show host.bytes ++ (writeUInt32 pid ++ mid') = bs
  rw [undoes_readUInt32 _ _ _ hpid, undoes_readHostId _ _ _ hhost]

-- -------------------------
-- Records of a fixed size
-- -------------------------

/-- `r` reads `n` bytes and succeeds whenever that many are left. -/
def Takes {α : Type} (r : Reader α) (n : Nat) : Prop :=
  ∀ bs : Bytes, n ≤ bs.length → ∃ a, r bs = .ok (a, bs.drop n)

namespace Takes

variable {α β : Type} {n m : Nat}

theorem pure (a : α) : Takes (Pure.pure a) 0 := fun bs _ => ⟨a, by rw [reader_pure, List.drop_zero]⟩

theorem bind {x : Reader α} {f : α → Reader β} (hx : Takes x n) (hf : ∀ a, Takes (f a) m) :
    Takes (x >>= f) (n + m) := by
  intro bs hlen
  obtain ⟨a, ha⟩ := hx bs (by omega)
  obtain ⟨b, hb⟩ := hf a (bs.drop n) (by rw [List.length_drop]; omega)
  exact ⟨b, by rw [reader_bind ha, hb, List.drop_drop]⟩

theorem readRaw (n : Nat) : Takes (BoostActor.readRaw n) n :=
  fun _ hlen => ⟨_, if_pos hlen⟩

theorem readUInt32 : Takes BoostActor.readUInt32 4 := (readRaw 4).bind fun _ => pure _

theorem readUInt64 : Takes BoostActor.readUInt64 8 := (readRaw 8).bind fun _ => pure _

theorem readHostId : Takes BoostActor.readHostId hostIdSize := fun _ hlen => ⟨_, dif_pos hlen⟩

/-- A node id takes the bytes of a host id and of a process id. -/
theorem nodeId : Takes NodeId.deserialize (hostIdSize + 4) :=
  readHostId.bind fun _ => readUInt32.bind fun _ => pure _

end Takes

-- -------------------------
-- Reading within the input
-- -------------------------

/-- What `r` reads it takes off the front of the input, and it fails with an
exception only. -/
def Checked {α : Type} (r : Reader α) : Prop :=
  (∀ bs a rest, r bs = .ok (a, rest) → rest <:+ bs) ∧ ∀ bs what, r bs ≠ .error (.undefined what)

namespace Checked

variable {α β : Type}

theorem pure (a : α) : Checked (Pure.pure a) := by
  refine ⟨fun bs b rest h => ?_, fun bs what h => ?_⟩
  · obtain ⟨-, rfl⟩ := Prod.mk.inj (Except.ok.inj h)
    exact List.suffix_refl _
  · cases h

/-- An exception is no step out of the input. -/
theorem throw {e : Fault} (he : ∀ what, e ≠ .undefined what) :
    Checked (MonadExcept.throw e : Reader α) := by
  have hthrow : ∀ bs, (MonadExcept.throw e : Reader α) bs = .error e := fun _ => rfl
  refine ⟨fun bs a rest h => ?_, fun bs what h => ?_⟩
  · rw [hthrow] at h
    cases h
  · rw [hthrow] at h
    exact he what (Except.error.inj h)

/-- What two readers in a row leave is a suffix of the input. -/
theorem bind {x : Reader α} {f : α → Reader β} (hx : Checked x) (hf : ∀ a, Checked (f a)) :
    Checked (x >>= f) := by
  refine ⟨fun bs b rest h => ?_, fun bs what h => ?_⟩
  · obtain ⟨a, mid, ha, hb⟩ := reader_bind_ok h
    exact ((hf a).1 mid b rest hb).trans (hx.1 bs a mid ha)
  · cases hr : x bs with
    | error e =>
      rw [reader_bind_error hr] at h
      exact hx.2 bs what (Except.error.inj h ▸ hr)
    | ok p =>
      obtain ⟨a, mid⟩ := p
      rw [reader_bind hr] at h
      exact (hf a).2 mid what h

theorem map {x : Reader α} (f : α → β) (hx : Checked x) : Checked (do return f (← x)) :=
  hx.bind fun _ => pure _

/-- Raw bytes are checked against the end. -/
theorem readRaw (n : Nat) : Checked (BoostActor.readRaw n) := by
  refine ⟨fun bs a rest h => ?_, fun bs what h => ?_⟩
  · exact ⟨a, (readRaw_ok h).2⟩
  · unfold BoostActor.readRaw at h
    split at h <;> cases h

theorem readHostId : Checked BoostActor.readHostId := by
  refine ⟨fun bs a rest h => ?_, fun bs what h => ?_⟩
  · exact ⟨a.bytes, undoes_readHostId bs a rest h⟩
  · unfold BoostActor.readHostId at h
    split at h <;> cases h

theorem readUInt8 : Checked BoostActor.readUInt8 := (readRaw 1).map _

theorem readUInt16 : Checked BoostActor.readUInt16 := (readRaw 2).map _

theorem readUInt32 : Checked BoostActor.readUInt32 := (readRaw 4).map _

theorem readUInt64 : Checked BoostActor.readUInt64 := (readRaw 8).map _

/-- The length of a string is checked like any other number of bytes. -/
theorem readString : Checked BoostActor.readString := readUInt32.bind fun _ => readRaw _

theorem readMany {elem : Reader α} (h : Checked elem) : ∀ n, Checked (BoostActor.readMany elem n)
  | 0 => pure _
  | n + 1 => h.bind fun _ => (readMany h n).map _

theorem readSequence {elem : Reader α} (h : Checked elem) :
    Checked (BoostActor.readSequence elem) := readUInt32.bind fun _ => readMany h _

theorem nodeId : Checked NodeId.deserialize :=
  readHostId.bind fun _ => readUInt32.map _

end Checked

end BoostActor
