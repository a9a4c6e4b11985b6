import BoostActor.Lib.SortedList
import BoostActor.Core.Primitives
import BoostActor.Core.MessageId

/-!
# Plain values

The builtin types that hold neither a handle of an actor or a group nor a
message: what a serializer writes of them and a deserializer makes of it (the
`process` overloads of `uniform_type_info_map.cpp`).

* `PlainType.deserialize_serialize` — every plain value is read back, except a
  buffer with characters in it;
* `PlainType.deserialize_charbuf` — reading that one throws.
-/

namespace BoostActor

open Lib

-- -------------------------
-- Durations
-- -------------------------

/-- The order of characters, which orders the keys of maps and sets. -/
instance uint8_isPreorder : Std.IsPreorder UInt8 := inferInstance

/-- `std::map<std::string, std::string>`. -/
abbrev StringMap := SortedList (Prod.fst : Bytes × Bytes → Bytes)

/-- `std::set<std::string>`. -/
abbrev StringSet := SortedList (id : Bytes → Bytes)

/-- `time_unit`. -/
inductive TimeUnit where
  | invalid
  | seconds
  | milliseconds
  | microseconds
deriving DecidableEq, Repr

def TimeUnit.toUInt32 : TimeUnit → UInt32
  | invalid => 0
  | seconds => 1
  | milliseconds => 1000
  | microseconds => 1000000

/-- `duration`. -/
structure Duration where
  unit : TimeUnit
  count : UInt64
deriving DecidableEq, Repr

/-- `process(sink, duration)`. -/
def Duration.serialize (val : Duration) : Bytes :=
  writeUInt32 val.unit.toUInt32 ++ writeUInt64 val.count

/-- `process(source, duration)`. -/
def Duration.deserialize : Reader Duration := do
  let unitVal ← readPrimitive .uint32
  let count ← readPrimitive .uint64
  return ⟨if unitVal = 1 then .seconds else if unitVal = 1000 then .milliseconds
    else if unitVal = 1000000 then .microseconds else .invalid, count⟩

/-- A duration is read as it was written. -/
theorem Duration.deserialize_serialize (val : Duration) (rest : Bytes) :
    deserialize (val.serialize ++ rest) = .ok (val, rest) := by
  have hunit : readPrimitive .uint32 (writeUInt32 val.unit.toUInt32 ++
      (writeUInt64 val.count ++ rest)) = .ok (val.unit.toUInt32, writeUInt64 val.count ++ rest) :=
    readPrimitive_serialize .uint32 trivial _
  have hcount : readPrimitive .uint64 (writeUInt64 val.count ++ rest) = .ok (val.count, rest) :=
    readPrimitive_serialize .uint64 trivial rest
  rw [serialize, List.append_assoc, deserialize, reader_bind hunit, reader_bind hcount]
  obtain ⟨unit, count⟩ := val
  cases unit <;> rfl

-- -------------------------
-- Types and values
-- -------------------------

/-- The builtin types without handles and messages. -/
inductive PlainType where
  | primitive (t : PrimitiveType)
  | charbuf
  | duration
  | messageId
  | node
  | strmap
  | strset
  | strvec
  | syncTimeout
  | timeout
  | unit
deriving DecidableEq, Repr

inductive PlainValue where
  | primitive (t : PrimitiveType) (v : t.Val)
  | charbuf (cs : Bytes)
  | duration (val : Duration)
  | messageId (x : MessageId)
  | node (n : NodeId)
  | strmap (m : StringMap)
  | strset (s : StringSet)
  | strvec (xs : List Bytes)
  | syncTimeout
  | timeout (timeoutId : UInt32)
  | unit
deriving DecidableEq

def PlainValue.type : PlainValue → PlainType
  | primitive t _ => .primitive t
  | charbuf _ => .charbuf
  | duration _ => .duration
  | messageId _ => .messageId
  | node _ => .node
  | strmap _ => .strmap
  | strset _ => .strset
  | strvec _ => .strvec
  | syncTimeout => .syncTimeout
  | timeout _ => .timeout
  | unit => .unit

/-- `process(sink, x)`. -/
def PlainValue.serialize : PlainValue → Bytes
  | primitive t v => (PrimitiveVariant.mk t v).writeValue
  | charbuf cs => writeSequence (fun c => (PrimitiveVariant.ofChar c).writeValue) cs
  | duration val => val.serialize
  | messageId x => (PrimitiveVariant.mk .uint64 x).writeValue
  | node n => n.serialize
  | strmap m => writeSequence (fun kv => writeString kv.1 ++ writeString kv.2) m.elems
  | strset s => writeSequence writeString s.elems
  | strvec xs => writeSequence writeString xs
  | syncTimeout => []
  | timeout timeoutId => (PrimitiveVariant.mk .uint32 timeoutId).writeValue
  | unit => []

/-- Reads a pair of strings. -/
def readStringPair : Reader (Bytes × Bytes) := do
  let first ← readPrimitive .string
  let second ← readPrimitive .string
  return (first, second)

/-- `process(source, x)` for a value of the type. -/
def PlainType.deserialize : PlainType → Reader PlainValue
  | primitive t => return .primitive t (← readPrimitive t)
  | charbuf => return .charbuf (← readSequence readChar)
  | duration => return .duration (← Duration.deserialize)
  | messageId => return .messageId (← readPrimitive .uint64)
  | node => return .node (← NodeId.deserialize)
  | strmap => return .strmap (.ofList (← readSequence readStringPair))
  | strset => return .strset (.ofList (← readSequence (readPrimitive .string)))
  | strvec => return .strvec (← readSequence (readPrimitive .string))
  | syncTimeout => return .syncTimeout
  | timeout => return .timeout (← readPrimitive .uint32)
  | unit => return .unit

-- -------------------------
-- Reading what was written
-- -------------------------

/-- All lengths are below 2^32. -/
def PlainValue.Fits : PlainValue → Prop
  | primitive t v => t.Fits v
  | charbuf cs => cs.length < 2 ^ 32
  | strmap m => m.elems.length < 2 ^ 32 ∧
      ∀ kv ∈ m.elems, kv.1.length < 2 ^ 32 ∧ kv.2.length < 2 ^ 32
  | strset s => s.elems.length < 2 ^ 32 ∧ ∀ x ∈ s.elems, x.length < 2 ^ 32
  | strvec xs => xs.length < 2 ^ 32 ∧ ∀ x ∈ xs, x.length < 2 ^ 32
  | _ => True

/-- Not a node id whose data is all zero although it is valid. -/
def PlainValue.Normal : PlainValue → Prop
  | node n => n.valid = true → n.allZero = false
  | _ => True

/-- A buffer with characters in it. -/
def PlainValue.HoldsChars : PlainValue → Prop
  | charbuf cs => cs ≠ []
  | _ => False

-- -------------------------
-- Round trips
-- -------------------------

theorem readString_serialize {s : Bytes} (h : s.length < 2 ^ 32) (rest : Bytes) :
    readPrimitive .string (writeString s ++ rest) = .ok (s, rest) :=
  readPrimitive_serialize .string (v := s) h rest

theorem readStringPair_serialize {kv : Bytes × Bytes} (h₁ : kv.1.length < 2 ^ 32)
    (h₂ : kv.2.length < 2 ^ 32) (rest : Bytes) :
    readStringPair ((writeString kv.1 ++ writeString kv.2) ++ rest) = .ok (kv, rest) := by
  rw [List.append_assoc, readStringPair, reader_bind (readString_serialize h₁ _),
    reader_bind (readString_serialize h₂ rest)]
  rfl

/-- A plain value is read back as it was written, with any bytes following. -/
theorem PlainType.deserialize_serialize {x : PlainValue} (hfits : x.Fits) (hnormal : x.Normal)
    (hchars : ¬ x.HoldsChars) (rest : Bytes) :
    x.type.deserialize (x.serialize ++ rest) = .ok (x, rest) := by
  cases x with
  | primitive t v => exact reader_bind (readPrimitive_serialize t hfits rest)
  | charbuf cs =>
    -- only the size is written
    obtain rfl : cs = [] := not_not.mp hchars
    rfl
  | duration val => exact reader_bind (val.deserialize_serialize rest)
  | messageId x => exact reader_bind (readPrimitive_serialize .uint64 (v := x) trivial rest)
  | node n =>
    have hn := n.deserialize_serialize rest
    rw [NodeId.normalize_eq hnormal] at hn
    exact reader_bind hn
  -- the entries come in the order of the keys, so the map is built as it was
  | strmap m =>
    have hm := readSequence_append hfits.1
      (fun kv hkv => readStringPair_serialize (hfits.2 kv hkv).1 (hfits.2 kv hkv).2) rest
    refine (reader_bind hm).trans ?_
    rw [SortedList.ofList_elems]
    rfl
  | strset s =>
    have hs := readSequence_append hfits.1 (fun x hx => readString_serialize (hfits.2 x hx)) rest
    refine (reader_bind hs).trans ?_
    rw [SortedList.ofList_elems]
    rfl
  | strvec xs =>
    exact reader_bind
      (readSequence_append hfits.1 (fun x hx => readString_serialize (hfits.2 x hx)) rest)
  | syncTimeout => rfl
  | timeout timeoutId =>
    exact reader_bind (readPrimitive_serialize .uint32 (v := timeoutId) trivial rest)
  | unit => rfl

/-- A plain value is read within the input. -/
theorem PlainType.checked_deserialize (t : PlainType) : Checked t.deserialize := by
  have hstr := checked_readPrimitive .string
  cases t with
  | primitive t => exact .map _ (checked_readPrimitive t)
  | charbuf => exact .map _ (.readSequence checked_readChar)
  | duration =>
    exact .map _ ((checked_readPrimitive .uint32).bind fun _ =>
      .map _ (checked_readPrimitive .uint64))
  | messageId => exact .map _ (checked_readPrimitive .uint64)
  | node => exact .map _ .nodeId
  | strmap => exact .map _ (.readSequence (hstr.bind fun _ => .map _ hstr))
  | strset => exact .map _ (.readSequence hstr)
  | strvec => exact .map _ (.readSequence hstr)
  | timeout => exact .map _ (checked_readPrimitive .uint32)
  | syncTimeout => exact .pure _
  | unit => exact .pure _

/-- The first character of a buffer is not read back. -/
theorem PlainType.deserialize_charbuf {x : PlainValue} (hfits : x.Fits) (hchars : x.HoldsChars)
    (rest : Bytes) : x.type.deserialize (x.serialize ++ rest) = .error .badGet := by
  cases x with
  | charbuf cs =>
    obtain ⟨c, cs, rfl⟩ := List.exists_cons_of_ne_nil hchars
    have hsize : (castUInt32 (c :: cs).length).toNat = (c :: cs).length :=
      UInt32.toNat_ofNat_of_lt' hfits
    have hread : readSequence readChar ((PlainValue.charbuf (c :: cs)).serialize ++ rest) =
        .error .badGet := by
      rw [PlainValue.serialize, writeSequence, List.append_assoc, readSequence,
        reader_bind (readUInt32_append _ _), hsize, List.length_cons, readMany,
        List.flatMap_cons, List.append_assoc]
      exact reader_bind_error (readChar_writeValue c _)
    exact reader_bind_error hread
  | _ => exact hchars.elim

end BoostActor
