import BoostActor.Core.Binary

/-!
# Primitive values

`primitive_variant` is the interface between the types of the library and a
serializer: `write_value` writes the alternative a variant holds, `read_value`
reads a value of the alternative that the variant already holds
(`primitive_variant.hpp`, `binary_serializer.cpp`, `binary_deserializer.cpp`,
`serializer.hpp`, `deserializer.hpp`).

* `PrimitiveType.deserialize_serialize` — a primitive value written and read as
  the same alternative;
* `readChar_writeValue` — a `char` is no alternative: it is written as an `int32_t`, and
  reading one back throws.
-/

namespace BoostActor

-- -------------------------
-- Primitive types
-- -------------------------

/-- The alternatives of `primitive_variant`. -/
inductive PrimitiveType where
  | int8
  | int16
  | int32
  | int64
  | uint8
  | uint16
  | uint32
  | uint64
  | float
  | double
  | longDouble
  | string
  | u16string
  | u32string
  | atomValue
  | bool
deriving DecidableEq, Repr

namespace PrimitiveType

/-- The values of an alternative. Of a floating point number it is what
`pack754` makes of it, of a `long double` its text. -/
abbrev Val : PrimitiveType → Type
  | int8 => Int8
  | int16 => Int16
  | int32 => Int32
  | int64 => Int64
  | uint8 => UInt8
  | uint16 => UInt16
  | uint32 => UInt32
  | uint64 => UInt64
  | float => UInt32
  | double => UInt64
  | longDouble => Bytes
  | string => Bytes
  | u16string => List UInt16
  | u32string => List UInt32
  | atomValue => UInt64
  | bool => Bool

instance (t : PrimitiveType) : DecidableEq t.Val := by
  cases t <;> infer_instance

instance (t : PrimitiveType) : Inhabited t.Val := by
  cases t <;> infer_instance

instance (t : PrimitiveType) : Repr t.Val := by
  cases t <;> infer_instance

/-- `binary_writer`. -/
def serialize : (t : PrimitiveType) → t.Val → Bytes
  | int8, v => writeUInt8 v.toUInt8
  | int16, v => writeUInt16 v.toUInt16
  | int32, v => writeUInt32 v.toUInt32
  | int64, v => writeUInt64 v.toUInt64
  | uint8, v => writeUInt8 v
  | uint16, v => writeUInt16 v
  | uint32, v => writeUInt32 v
  | uint64, v => writeUInt64 v
  | float, v => writeUInt32 v
  | double, v => writeUInt64 v
  | longDouble, v => writeString v
  | string, v => writeString v
  | u16string, v => writeSequence writeUInt16 v
  | u32string, v => writeSequence writeUInt32 v
  | atomValue, v => writeUInt64 v
  | bool, v => writeUInt8 (if v then 1 else 0)

/-- `pt_reader`: `read_range` for each alternative. -/
def deserialize : (t : PrimitiveType) → Reader t.Val
  | int8 => return Int8.ofUInt8 (← readUInt8)
  | int16 => return Int16.ofUInt16 (← readUInt16)
  | int32 => return Int32.ofUInt32 (← readUInt32)
  | int64 => return Int64.ofUInt64 (← readUInt64)
  | uint8 => readUInt8
  | uint16 => readUInt16
  | uint32 => readUInt32
  | uint64 => readUInt64
  | float => readUInt32
  | double => readUInt64
  | longDouble => readString
  | string => readString
  | u16string => readSequence readUInt16
  | u32string => readSequence readUInt32
  | atomValue => readUInt64
  | bool => return (← readUInt8) ≠ 0

/-- The lengths a 32-bit size prefix has room for. -/
def Fits : (t : PrimitiveType) → t.Val → Prop
  | longDouble, v | string, v => List.length (α := UInt8) v < 2 ^ 32
  | u16string, v => List.length (α := UInt16) v < 2 ^ 32
  | u32string, v => List.length (α := UInt32) v < 2 ^ 32
  | _, _ => True

/-- A value that fits is read as it was written. -/
theorem deserialize_serialize (t : PrimitiveType) {v : t.Val} (h : t.Fits v) (rest : Bytes) :
    t.deserialize (t.serialize v ++ rest) = .ok (v, rest) := by
  cases t with
  | int8 => exact reader_bind (readUInt8_append _ rest)
  | int16 => exact reader_bind (readUInt16_append _ rest)
  | int32 => exact reader_bind (readUInt32_append _ rest)
  | int64 => exact reader_bind (readUInt64_append _ rest)
  | uint8 => exact readUInt8_append v rest
  | uint16 => exact readUInt16_append v rest
  | uint32 | float => exact readUInt32_append v rest
  | uint64 | double | atomValue => exact readUInt64_append v rest
  | longDouble | string => exact readString_append h rest
  | u16string => exact readSequence_append h (fun x _ => readUInt16_append x) rest
  | u32string => exact readSequence_append h (fun x _ => readUInt32_append x) rest
  | bool =>
    refine (reader_bind (readUInt8_append _ rest)).trans ?_
    cases v <;> rfl

/-- Reading looks at the buffer within its bounds. -/
theorem checked_deserialize (t : PrimitiveType) : Checked t.deserialize := by
  cases t with
  | int8 | bool => exact .map _ .readUInt8
  | int16 => exact .map _ .readUInt16
  | int32 => exact .map _ .readUInt32
  | int64 => exact .map _ .readUInt64
  | uint8 => exact .readUInt8
  | uint16 => exact .readUInt16
  | uint32 | float => exact .readUInt32
  | uint64 | double | atomValue => exact .readUInt64
  | longDouble | string => exact .readString
  | u16string => exact .readSequence .readUInt16
  | u32string => exact .readSequence .readUInt32

end PrimitiveType

-- -------------------------
-- The variant of the deserializer
-- -------------------------

/-- A `primitive_variant`: an alternative and a value of it. -/
structure PrimitiveVariant where
  type : PrimitiveType
  val : type.Val

namespace PrimitiveVariant

/-- `write_value`. -/
def writeValue (v : PrimitiveVariant) : Bytes := v.type.serialize v.val

/-- `read_value`. -/
def readValue (storage : PrimitiveVariant) : Reader PrimitiveVariant :=
  return ⟨storage.type, ← storage.type.deserialize⟩

/-- `get`, which throws unless the variant holds a value of the type asked for. -/
def get (t : PrimitiveType) (v : PrimitiveVariant) : Reader t.Val :=
  if h : v.type = t then pure (h ▸ v.val) else throw .badGet

/-- The variant made from a `char`. Which alternative holds it is the outcome of
overload resolution; the best conversion of a `char` is the promotion to `int`. -/
def ofChar (c : UInt8) : PrimitiveVariant := ⟨.int32, c.toInt8.toInt32⟩

end PrimitiveVariant

/-- `deserializer::read` for an alternative. -/
def readPrimitive (t : PrimitiveType) : Reader t.Val := do
  let val ← PrimitiveVariant.readValue ⟨t, default⟩
  val.get t

/-- `deserializer::read<char>`, which asks for the `uint8_t` in the variant. -/
def readChar : Reader UInt8 := do
  let val ← (PrimitiveVariant.ofChar 0).readValue
  val.get .uint8

/-- Nothing is lost on the way through a variant. -/
theorem readPrimitive_eq (t : PrimitiveType) : readPrimitive t = t.deserialize := by
  funext bs
  cases h : t.deserialize bs with
  | error e => exact reader_bind_error (reader_bind_error h)
  | ok p =>
    have hread : PrimitiveVariant.readValue ⟨t, default⟩ bs = .ok (⟨t, p.1⟩, p.2) := reader_bind h
    rw [readPrimitive, reader_bind hread, PrimitiveVariant.get, dif_pos rfl]
    rfl

theorem readPrimitive_serialize (t : PrimitiveType) {v : t.Val} (h : t.Fits v) (rest : Bytes) :
    readPrimitive t ((PrimitiveVariant.mk t v).writeValue ++ rest) = .ok (v, rest) := by
  rw [readPrimitive_eq]
  exact t.deserialize_serialize h rest

theorem checked_readPrimitive (t : PrimitiveType) : Checked (readPrimitive t) := by
  rw [readPrimitive_eq]
  exact t.checked_deserialize

/-- So does reading a character, which throws. -/
theorem checked_readChar : Checked readChar := by
  refine (Checked.map _ (PrimitiveType.checked_deserialize _)).bind fun val => ?_
  unfold PrimitiveVariant.get
  split
  · exact .pure _
  · exact .throw fun _ h => Fault.noConfusion h

/-- Reading a `char` back: the four bytes are read, then `get` throws. -/
theorem readChar_writeValue (c : UInt8) (rest : Bytes) :
    readChar ((PrimitiveVariant.ofChar c).writeValue ++ rest) = .error .badGet := by
  have hread : (PrimitiveVariant.ofChar 0).readValue
      ((PrimitiveVariant.ofChar c).writeValue ++ rest) = .ok (.ofChar c, rest) :=
    reader_bind (PrimitiveType.deserialize_serialize .int32 trivial rest)
  rw [readChar, reader_bind hread]
  rfl

end BoostActor
