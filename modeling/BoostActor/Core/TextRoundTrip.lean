import BoostActor.Core.TextMessages

/-!
# Which values survive their text

* `quoted_roundTrips_iff` — messages of strings, atoms and 32-bit integers;
* `sequences_roundTrip_iff` — vectors, sets and maps of strings, and messages of them
  and of other values;
* `numbers_roundTrips_iff` — messages of truth values and integers.
-/

namespace BoostActor

open Lib

/-- The types of a program that has names of its own for what it announces: none is the
name of the type of a message, or starts with a sign. -/
structure ProgramTypes extends TypeMap where
  knows : ∀ bs, toTypeMap.Knows bs
  unsigned : ∀ name, name.head? = some 43 ∨ name.head? = some 45 → userTypes name = none

/-- The types of a program that announces nothing. -/
def ProgramTypes.empty : ProgramTypes where
  toTypeMap := .empty
  knows _ _ h := by cases h
  unsigned _ _ := rfl

/-- Values whose text is made by code of their own, and floating point numbers, are
left empty. -/
def TextCode.empty : TextCode where
  writeFloat _ _ := []
  readFloat _ _ := default
  write _ s := .ok s
  read _ := throw (.undefined "not embedded")

section

variable (code : TextCode) (types : ProgramTypes)

/-- `from_string<message>(to_string(m))` yields a message equal to `m`. -/
def RoundTrips (m : List PlainValue) : Prop :=
  ∃ text, messageToString code (m.map .plain) = .ok text ∧
    (fromString code .message text types.toTypeMap).1 = .ok (some (.message (m.map .plain)))

/-- The same for a value of a builtin type. -/
def RoundTripsAlone (x : PlainValue) : Prop :=
  ∃ text, toStringImpl code (.plain x) = .ok text ∧
    (fromString code (.plain x.type) text types.toTypeMap).1 = .ok (some (.plain x))

end

variable {code : TextCode} {types : ProgramTypes}

-- -------------------------
-- Safe values
-- -------------------------

/-- White space and the delimiters, as numbers. -/
def unreadable : List Int8 := [9, 10, 11, 12, 13, 32, 41, 44, 64, 125]

/-- The values that are read back from their text. -/
def PlainValue.Safe : PlainValue → Prop
  | .primitive .string v => ¬ EndsWithBackslash v
  | .primitive .bool v => v = false
  | .primitive .int8 v => v ∉ unreadable
  | .strvec xs => SafeStrings xs
  | .strset x => SafeStrings x.elems
  | .strmap m => SafeMap m
  | _ => True

/-- The characters that cannot be read back are white space and those that end a value. -/
theorem legible_iff (v : Int8) : Legible v ↔ v ∉ unreadable := by
  have htable : ∀ n < 256, Legible (Int8.ofUInt8 (UInt8.ofNat n)) ↔
      Int8.ofUInt8 (UInt8.ofNat n) ∉ unreadable := by decide +kernel
  have hv := htable v.toUInt8.toNat v.toUInt8.toNat_lt
  rwa [UInt8.ofNat_toNat] at hv

theorem Restored.congr {p q : Prop} {x : PlainValue} (h : p ↔ q) (hx : Restored code p x) :
    Restored code q x := propext h ▸ hx

/-- A message comes back exactly if its elements do. -/
theorem message_roundTrips_iff {m : List PlainValue} (hm : ∀ x ∈ m, Restored code x.Safe x) :
    RoundTrips code types m ↔ ∀ x ∈ m, x.Safe := by
  have htext := messageToString_eq code fun x hx => (hm x hx).embedded
  rw [← fromString_message_iff (types.knows _) hm]
  constructor
  · rintro ⟨text, heq, hread⟩
    rw [htext] at heq
    rwa [Except.ok.inj heq]
  · exact fun hread => ⟨_, htext, hread⟩

/-- Sequences are written with the names of their types. -/
theorem showsName_of_isSequence {t : PlainType} (h : t.isSequence = true) :
    TextSink.showsName (Builtin.plain t).name = true := by
  cases t with
  | strvec => decide
  | strset => decide
  | strmap => decide
  | _ => cases h

/-- A sequence comes back on its own exactly if it is safe. -/
theorem roundTripsAlone_iff {x : PlainValue} (hx : Restored code x.Safe x)
    (hsequence : x.type.isSequence = true) : RoundTripsAlone code types x ↔ x.Safe := by
  have htext := toStringImpl_eq code hx.embedded (showsName_of_isSequence hsequence)
  rw [← fromString_sequence_iff types.toTypeMap hx hsequence]
  constructor
  · rintro ⟨text, heq, hread⟩
    rw [htext] at heq
    rwa [Except.ok.inj heq]
  · exact fun hread => ⟨_, htext, hread⟩

-- -------------------------
-- Strings, atoms and numbers
-- -------------------------

/-- The elements of a message of strings, atoms and 32-bit integers. -/
inductive QuotedValue where
  | str (v : Bytes)
  | atom (v : AtomValue)
  | i32 (v : Int32)
  | u32 (v : UInt32)

namespace QuotedValue

def toPlain : QuotedValue → PlainValue
  | str v => .primitive .string v
  | atom v => .primitive .atomValue v.val
  | i32 v => .primitive .int32 v
  | u32 v => .primitive .uint32 v

/-- Quoted values are read as they were written, if they are safe. -/
theorem restored (x : QuotedValue) : Restored code x.toPlain.Safe x.toPlain := by
  cases x with
  | str v => exact restored_string v
  | atom v => exact restored_atom v
  | i32 v => exact restored_int32 v
  | u32 v => exact restored_uint32 v

end QuotedValue

/-- The elements of a message of truth values and integers. -/
inductive NumberValue where
  | bool (v : Bool)
  | i8 (v : Int8)
  | i16 (v : Int16)
  | i32 (v : Int32)
  | i64 (v : Int64)
  | u8 (v : UInt8)
  | u16 (v : UInt16)
  | u32 (v : UInt32)
  | u64 (v : UInt64)

namespace NumberValue

def toPlain : NumberValue → PlainValue
  | bool v => .primitive .bool v
  | i8 v => .primitive .int8 v
  | i16 v => .primitive .int16 v
  | i32 v => .primitive .int32 v
  | i64 v => .primitive .int64 v
  | u8 v => .primitive .uint8 v
  | u16 v => .primitive .uint16 v
  | u32 v => .primitive .uint32 v
  | u64 v => .primitive .uint64 v

/-- So are numbers. -/
theorem restored (x : NumberValue) : Restored code x.toPlain.Safe x.toPlain := by
  cases x with
  | bool v => exact restored_bool v
  | i8 v => exact (restored_int8 v).congr (legible_iff v)
  | i16 v => exact restored_int16 v
  | i32 v => exact restored_int32 v
  | i64 v => exact restored_int64 v
  | u8 v => exact restored_uint8 v
  | u16 v => exact restored_uint16 v
  | u32 v => exact restored_uint32 v
  | u64 v => exact restored_uint64 v

end NumberValue

/-- A vector, a set or a map of strings. -/
inductive SequenceValue where
  | strvec (xs : List Bytes)
  | strset (x : StringSet)
  | strmap (m : StringMap)

namespace SequenceValue

def toPlain : SequenceValue → PlainValue
  | strvec xs => .strvec xs
  | strset x => .strset x
  | strmap m => .strmap m

/-- The strings that the sequence is written as. -/
def strings : SequenceValue → List Bytes
  | strvec xs => xs
  | strset x => x.elems
  | strmap m => m.strings

/-- The number of its elements, each of which is a string or a pair of strings. -/
def size : SequenceValue → Nat
  | strvec xs => xs.length
  | strset x => x.elems.length
  | strmap m => m.elems.length

/-- No string ends with a backslash, and the reader finds the number of elements. -/
def Safe (x : SequenceValue) : Prop :=
  (∀ str ∈ x.strings, ¬ EndsWithBackslash str) ∧ Counted x.size x.strings

theorem safe_toPlain (x : SequenceValue) : x.toPlain.Safe ↔ x.Safe := by
  cases x <;> rfl

/-- Sequences are read as they were written, if they are safe. -/
theorem restored (x : SequenceValue) : Restored code x.toPlain.Safe x.toPlain := by
  cases x with
  | strvec xs => exact restored_strvec xs
  | strset x => exact restored_strset x
  | strmap m => exact restored_strmap m

end SequenceValue

/-- The elements of a message that contains sequences. -/
inductive TextValue where
  | sequence (x : SequenceValue)
  | quoted (x : QuotedValue)
  | number (x : NumberValue)

namespace TextValue

def toPlain : TextValue → PlainValue
  | sequence x => x.toPlain
  | quoted x => x.toPlain
  | number x => x.toPlain

theorem restored (x : TextValue) : Restored code x.toPlain.Safe x.toPlain := by
  cases x with
  | sequence x => exact x.restored
  | quoted x => exact x.restored
  | number x => exact x.restored

end TextValue

-- -------------------------
-- Messages of strings, atoms and 32-bit integers
-- -------------------------

/-- Such a message is read back if and only if no string in it ends with a backslash. -/
theorem quoted_roundTrips_iff (code : TextCode) (types : ProgramTypes) (m : List QuotedValue) :
    RoundTrips code types (m.map QuotedValue.toPlain) ↔
      ∀ v, QuotedValue.str v ∈ m → ¬ EndsWithBackslash v := by
  rw [message_roundTrips_iff (List.forall_mem_map.mpr fun x _ => x.restored), List.forall_mem_map]
  constructor
  · exact fun h v hv => h (.str v) hv
  · intro h x hx
    cases x with
    | str v => exact h v hx
    | _ => trivial

/-- The backslash at the end of a string takes the closing quote for an escaped one. -/
theorem backslash_not_roundTrips :
    ¬ RoundTrips .empty .empty ([QuotedValue.str [97, 92]].map QuotedValue.toPlain) := by
  rw [message_roundTrips_iff (List.forall_mem_map.mpr fun x _ => x.restored)]
  exact fun h => h _ List.mem_cons_self rfl

-- -------------------------
-- Messages of truth values and integers
-- -------------------------

/-- Such a message is read back if and only if there is no `true` in it and no 8-bit
integer that is white space or a delimiter. -/
theorem numbers_roundTrips_iff (code : TextCode) (types : ProgramTypes) (m : List NumberValue) :
    RoundTrips code types (m.map NumberValue.toPlain) ↔
      NumberValue.bool true ∉ m ∧ ∀ v, NumberValue.i8 v ∈ m → v ∉ unreadable := by
  rw [message_roundTrips_iff (List.forall_mem_map.mpr fun x _ => x.restored), List.forall_mem_map]
  constructor
  · exact fun h => ⟨fun htrue => Bool.noConfusion (h (.bool true) htrue : true = false),
      fun v hv => h (.i8 v) hv⟩
  · rintro ⟨htrue, h⟩ x hx
    cases x with
    | bool v =>
      cases v with
      | true => exact absurd hx htrue
      | false => rfl
    | i8 v => exact h v hx
    | _ => trivial

/-- The word `true` is read as the number 0. -/
theorem true_not_roundTrips :
    ¬ RoundTrips .empty .empty ([NumberValue.bool true].map NumberValue.toPlain) := by
  rw [message_roundTrips_iff (List.forall_mem_map.mpr fun x _ => x.restored)]
  exact fun h => Bool.noConfusion (h _ List.mem_cons_self : true = false)

-- -------------------------
-- Sequences of strings
-- -------------------------

/-- A sequence is read back if and only if it is safe, and so is a message if and only
if all its elements are. -/
theorem sequences_roundTrip_iff (code : TextCode) (types : ProgramTypes) :
    (∀ x : SequenceValue, RoundTripsAlone code types x.toPlain ↔ x.Safe) ∧
      ∀ m : List TextValue, RoundTrips code types (m.map TextValue.toPlain) ↔
        (∀ x, TextValue.sequence x ∈ m → x.Safe) ∧
          (∀ v, TextValue.quoted (.str v) ∈ m → ¬ EndsWithBackslash v) ∧
          TextValue.number (.bool true) ∉ m ∧
          ∀ v, TextValue.number (.i8 v) ∈ m → v ∉ unreadable := by
  constructor
  · intro x
    rw [← x.safe_toPlain]
    have hsequence : x.toPlain.type.isSequence = true := by
      cases x <;> rfl
    exact roundTripsAlone_iff x.restored hsequence
  · intro m
    rw [message_roundTrips_iff (List.forall_mem_map.mpr fun x _ => x.restored), List.forall_mem_map]
    constructor
    · intro h
      exact ⟨fun x hx => x.safe_toPlain.mp (h (.sequence x) hx),
        fun v hv => h (.quoted (.str v)) hv,
        fun htrue => Bool.noConfusion (h (.number (.bool true)) htrue : true = false),
        fun v hv => h (.number (.i8 v)) hv⟩
    · -- all other values are always safe
      rintro ⟨hsequence, hstr, htrue, hi8⟩ x hx
      cases x with
      | sequence x => exact x.safe_toPlain.mpr (hsequence x hx)
      | quoted x =>
        cases x with
        | str v => exact hstr v hx
        | _ => trivial
      | number x =>
        cases x with
        | bool v =>
          cases v with
          | true => exact absurd hx htrue
          | false => rfl
        | i8 v => exact hi8 v hx
        | _ => trivial

/-- An empty vector is taken for one with an element. -/
theorem empty_not_roundTripsAlone :
    ¬ RoundTripsAlone .empty .empty (SequenceValue.strvec []).toPlain := by
  rw [roundTripsAlone_iff (SequenceValue.restored _) rfl]
  exact fun h => h.2.1 rfl

end BoostActor
