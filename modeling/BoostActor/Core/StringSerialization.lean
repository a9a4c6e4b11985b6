import BoostActor.Core.Message
import BoostActor.Lib.Decimal

/-!
# Values as text

`to_string` and `from_string` (`string_serialization.cpp`). The serializer writes
values with separators that depend on what it wrote last; the deserializer moves
over the text, skips spaces and commas, and finds the end of a value by its
delimiters.

* `messageToString` — `to_string` of a message;
* `fromString` — `from_string` for a builtin type.
-/

namespace BoostActor

open Lib

/-! ## Atoms -/

/-- `detail::decoding_table`. -/
def decodingTable : Bytes :=
  ascii " 0123456789ABCDEFGHIJKLMNOPQRSTUVWXYZ_abcdefghijklmnopqrstuvwxyz"

/-- `detail::atom_val`. -/
def atomVal (cstr : Bytes) (interim : UInt64) : UInt64 :=
  cstr.foldl (fun interim c => (interim <<< 6) ||| atomCode c) interim

/-- `(x & mask) >> bitshift` in the loop of `to_string`, at the `i`-th group of six bits. -/
def atomGroup (x : UInt64) (i : Nat) : Nat := x.toNat / 64 ^ i % 64

/-- The body of the loop of `to_string`: the characters follow the leading 0xF. -/
def atomStep (x : UInt64) (s : Bool × Bytes) (i : Nat) : Bool × Bytes :=
  if s.1 then (true, s.2 ++ [decodingTable.getD (atomGroup x i) 0])
  else (atomGroup x i == 0xF, s.2)

/-- `to_string` of an `atom_value`. -/
def atomToString (x : UInt64) : Bytes :=
  -- first four bits set?
  ((List.range 10).reverse.foldl (atomStep x) (x >>> 60 == 0xF, [])).2

/-! ## Writing -/

/-- `isbuiltin`: the types that are written without their names. -/
def isbuiltin (typeName : Bytes) : Bool :=
  typeName = ascii "@str" || typeName = ascii "@atom" || typeName = ascii "@tuple"

/-- The members of `string_serializer`. -/
structure TextSink where
  out : Bytes
  afterValue : Bool
  objJustOpened : Bool
  openObjects : List Bytes

namespace TextSink

def new : TextSink := ⟨[], false, false, []⟩

def print (s : TextSink) (text : Bytes) : TextSink := { s with out := s.out ++ text }

def clear (s : TextSink) : TextSink :=
  if s.afterValue then { s with out := s.out ++ ascii ", ", afterValue := false }
  else if s.objJustOpened then
    { s with
      out := s.out ++ s.openObjects.head?.elim [] fun name =>
        if isbuiltin name then [] else ascii " ( "
      objJustOpened := false }
  else s

/-- The type name is written, but not of strings, atoms and messages. -/
def showsName (tname : Bytes) : Bool := !isbuiltin tname && tname ≠ ascii "@message"

def beginObject (s : TextSink) (tname : Bytes) : TextSink :=
  let s := s.clear
  let s := { s with openObjects := tname :: s.openObjects }
  if showsName tname then { s with out := s.out ++ tname, objJustOpened := true }
  else if tuplePrefix.isPrefixOf tname then { s with objJustOpened := true }
  else s

def endObject (s : TextSink) : TextSink :=
  { s with
    out := s.out ++ s.openObjects.head?.elim [] fun name =>
      if showsName name then ascii " )" else []
    afterValue := true
    objJustOpened := false
    openObjects := s.openObjects.tail }

def beginSequence (s : TextSink) : TextSink := s.clear.print (ascii "\x7b ")

def endSequence (s : TextSink) : TextSink :=
  { s.print (if s.afterValue then ascii " \x7d" else ascii "\x7d") with afterValue := true }

end TextSink

/-- A string in quotes, with a backslash before each quote. -/
def escape (str : Bytes) : Bytes := str.flatMap fun c => if c = 34 then [92, 34] else [c]

/-! ## Reading -/

/-- The members of `string_deserializer`: the text from `pos_` on, and the open objects
with whether they had a left parenthesis. The types of the program are with them. -/
structure TextSource where
  types : TypeMap
  rest : Bytes
  openObjects : List (Bytes × Bool)

/-- A program over the text; what it did stays when it throws. -/
abbrev TextReader := ExceptT Fault (StateM TextSource)

/-- Code that is not embedded here: floating point numbers in streams, and the types that
are read and written by code of their own. -/
structure TextCode where
  writeFloat : (t : PrimitiveType) → t.Val → Bytes
  readFloat : (t : PrimitiveType) → Bytes → t.Val
  write : Value → TextSink → Except Fault TextSink
  read : TypeInfo → TextReader Value

namespace TextSource

/-- `*pos_`, which is the terminator at the end of the text. -/
def cur (s : TextSource) : UInt8 := s.rest.headD 0

/-- The name of the innermost open object. -/
def top (s : TextSource) : Bytes := s.openObjects.head?.elim [] Prod.fst

end TextSource

/-- A space or a comma. -/
def isBlank (c : UInt8) : Bool := c = 32 || c = 44

/-- The predicate of `next_delimiter`. -/
def isDelimiter (c : UInt8) : Bool := c = 40 || c = 41 || c = 123 || c = 125 || isBlank c

/-- `find_if_pred` of `read_value`. -/
def endsValue (c : UInt8) : Bool := c = 41 || c = 125 || c = 64 || isBlank c

/-- The exception of `throw_malformed`. -/
def malformed (errorMsg : Bytes) : Fault := .runtimeError (ascii "malformed string: " ++ errorMsg)

namespace TextReader

def skipSpaceAndComma : TextReader Unit :=
  modify fun s => { s with rest := s.rest.dropWhile isBlank }

/-- Steps over the next character. -/
def advance : TextReader Unit := modify fun s => { s with rest := s.rest.tail }

def consume (c : UInt8) : TextReader Unit := do
  skipSpaceAndComma
  let s ← get
  if s.cur = c then advance
  else throw (malformed (ascii "expected '" ++ [c] ++ ascii "' found '" ++ [s.cur] ++ ascii "'" ++
    if s.openObjects.isEmpty then []
    else ascii "during deserialization an instance of " ++ s.top))

def tryConsume (c : UInt8) : TextReader Bool := do
  skipSpaceAndComma
  let s ← get
  if s.cur = c then
    advance
    return true
  else return false

def integrityCheck : TextReader Unit := do
  match (← get).openObjects with
  | [] => throw (malformed (ascii "missing begin_object()"))
  | (name, hadLeftParenthesis) :: _ =>
    if hadLeftParenthesis || isbuiltin name then return
    else throw (malformed (ascii "expected left parenthesis after begin_object call or void value"))

/-- The type name `begin_object` reads. -/
def typeName : TextReader Bytes := do
  let s ← get
  if s.cur = 34 then return ascii "@str"
  else if s.cur = 39 then return ascii "@atom"
  else if isDigit s.cur then return ascii "@i32"
  else
    let name := s.rest.takeWhile fun c => !isDelimiter c
    if name.isEmpty then throw (malformed (ascii "could not seek object type name"))
    set { s with rest := s.rest.dropWhile fun c => !isDelimiter c }
    return name

/-- `by_uniform_name`. -/
def byUniformName (name : Bytes) : TextReader (Option TypeInfo) :=
  modifyGet fun s =>
    ((s.types.byUniformName name).1, { s with types := (s.types.byUniformName name).2 })

def beginObject : TextReader TypeInfo := do
  skipSpaceAndComma
  let name ← typeName
  -- suppress leading parenthesis for built-in types
  let hadLeftParenthesis ← tryConsume 40
  modify fun s => { s with openObjects := (name, hadLeftParenthesis) :: s.openObjects }
  match ← byUniformName name with
  | some t => return t
  | none => throw (.runtimeError (ascii "read type name \"" ++ name ++
      ascii "\" but no such type is known"))

def endObject : TextReader Unit := do
  match (← get).openObjects with
  | [] => throw (.runtimeError (ascii "no object to end"))
  | (_, hadLeftParenthesis) :: outer =>
    if hadLeftParenthesis then consume 41
    modify fun s => { s with openObjects := outer }
    if outer.isEmpty then
      skipSpaceAndComma
      let s ← get
      if !s.rest.isEmpty then
        throw (malformed (ascii "expected end of of string, found: " ++ [s.cur]))

/-- The number of elements is taken from the commas up to the next brace. -/
def beginSequence : TextReader Nat := do
  integrityCheck
  consume 123
  return ((← get).rest.takeWhile fun c => c ≠ 125).count 44 + 1

def endSequence : TextReader Unit := do
  integrityCheck
  consume 125

end TextReader

/-- The text of a quoted value and what follows from the closing quote on. The closing
quote is the first one without a backslash before it; `prev` is the character before. -/
def untilQuote (needle : UInt8) : UInt8 → Bytes → Option (Bytes × Bytes)
  | _, [] => none
  | prev, c :: cs =>
    if prev ≠ 92 ∧ c = needle then some ([], c :: cs)
    else (untilQuote needle c cs).map fun found => (c :: found.1, found.2)

/-- Replaces a backslash and the quote behind it by the quote. -/
def unescape (needle : UInt8) : Bytes → Bytes
  | [] => []
  | [c] => [c]
  | c :: d :: cs =>
    if c = 92 ∧ d = needle then needle :: unescape needle cs else c :: unescape needle (d :: cs)

/-- `operator>>` into a character. -/
def extractChar (cs : Bytes) : UInt8 := (cs.dropWhile isSpace).headD 0

section

variable (code : TextCode)

/-- `pt_writer`. The overload for `char` is not the one for `int8_t`, which the stream
writes as a character. -/
def ptWrite : (t : PrimitiveType) → t.Val → Bytes
  | .bool, v => if v then ascii "true" else ascii "false"
  | .int8, v => [v.toUInt8]
  | .int16, v => decimalInt v.toInt
  | .int32, v => decimalInt v.toInt
  | .int64, v => decimalInt v.toInt
  | .uint8, v => decimal v.toNat
  | .uint16, v => decimal v.toNat
  | .uint32, v => decimal v.toNat
  | .uint64, v => decimal v.toNat
  | .float, v => code.writeFloat .float v
  | .double, v => code.writeFloat .double v
  | .longDouble, v => code.writeFloat .longDouble v
  | .string, v => [34] ++ escape v ++ [34]
  | .u16string, _ => []
  | .u32string, _ => []
  | .atomValue, v => [39] ++ atomToString v ++ [39]

/-- `write_value`. -/
def TextSink.writeValue (s : TextSink) (t : PrimitiveType) (v : t.Val) :
    Except Fault TextSink :=
  let s := s.clear
  if s.openObjects.isEmpty then
    throw (.runtimeError (ascii "write_value(): open_objects_.empty()"))
  else return { s.print (ptWrite code t v) with afterValue := true }

/-- A sequence of strings. -/
def TextSink.writeStrings (s : TextSink) (xs : List Bytes) : Except Fault TextSink := do
  let s ← xs.foldlM (fun s x => s.writeValue code .string x) s.beginSequence
  return s.endSequence

/-- `process(sink, x)`; a map is written as the sequence of its keys and values. -/
def PlainValue.writeText : PlainValue → TextSink → Except Fault TextSink
  | .primitive t v, s => s.writeValue code t v
  | .strvec xs, s => s.writeStrings code xs
  | .strset x, s => s.writeStrings code x.elems
  | .strmap m, s => s.writeStrings code (m.elems.flatMap fun kv => [kv.1, kv.2])
  | x, s => code.write (.plain x) s

mutual

/-- `uniform_type_info::serialize` with a `string_serializer`. -/
def Value.writeText : Value → TextSink → Except Fault TextSink
  | .plain x, s => x.writeText code s
  | .message elements, s => do
    let s ← writeTextAll elements (s.beginObject (tuplePrefix ++ typeNames elements))
    return s.endObject
  | x, s => code.write x s

def writeTextAll : List Value → TextSink → Except Fault TextSink
  | [], s => return s
  | x :: xs, s => do
    let s ← x.writeText s
    writeTextAll xs s

end

/-- `to_string_impl` for a value of a builtin type. -/
def toStringImpl (what : Value) : Except Fault Bytes :=
  match what.writeText code (TextSink.new.beginObject what.typeName) with
  | .ok s => .ok s.endObject.out
  | .error (.runtimeError _) => .ok (ascii "---not-serializable---")
  | .error e => .error e

/-- `to_string` of a message. -/
def messageToString (elements : List Value) : Except Fault Bytes :=
  toStringImpl code (.message elements)

/-- `from_string_reader`. -/
def fromStringReader : (t : PrimitiveType) → Bytes → Except Fault t.Val
  | .bool, str => .ok (extractInt (-2 ^ 63) (2 ^ 63 - 1) str ≠ 0)
  | .int8, str => .ok (Int8.ofUInt8 (extractChar str))
  | .int16, str => .ok (Int16.ofInt (extractInt (-2 ^ 15) (2 ^ 15 - 1) str))
  | .int32, str => .ok (Int32.ofInt (extractInt (-2 ^ 31) (2 ^ 31 - 1) str))
  | .int64, str => .ok (Int64.ofInt (extractInt (-2 ^ 63) (2 ^ 63 - 1) str))
  | .uint8, str => .ok (UInt8.ofNat (extractNat (2 ^ 32 - 1) str))
  | .uint16, str => .ok (UInt16.ofNat (extractNat (2 ^ 16 - 1) str))
  | .uint32, str => .ok (UInt32.ofNat (extractNat (2 ^ 32 - 1) str))
  | .uint64, str => .ok (UInt64.ofNat (extractNat (2 ^ 64 - 1) str))
  | .float, str => .ok (code.readFloat .float str)
  | .double, str => .ok (code.readFloat .double str)
  | .longDouble, str => .ok (code.readFloat .longDouble str)
  | .string, str => .ok str
  | .atomValue, str => .ok (atomVal (cString str) 0xF)
  | .u16string, _ => .error (.runtimeError
      (ascii "u16string currently not supported by string_deserializer"))
  | .u32string, _ => .error (.runtimeError
      (ascii "u32string currently not supported by string_deserializer"))

/-- The quote around values of a type. -/
def needle? : PrimitiveType → Option UInt8
  | .string => some 34
  | .atomValue => some 39
  | _ => none

namespace TextReader

/-- The part of the text that `read_value` converts, for a quoted value. -/
def quoted (needle : UInt8) : TextReader Bytes := do
  let s ← get
  if s.cur ≠ needle then throw (.runtimeError (ascii "expected opening quotation mark"))
  else match untilQuote needle needle s.rest.tail with
    | none => throw (.runtimeError (ascii "malformed string (unterminated value)"))
    | some (substr, rest) =>
      -- `rest` starts with the closing quote, so that the check for one does not throw
      set { s with rest := rest.tail }
      return unescape needle substr

/-- The same for a value that ends with a delimiter. -/
def unquoted : TextReader Bytes := do
  let s ← get
  let rest := s.rest.dropWhile fun c => !endsValue c
  if rest.isEmpty then throw (.runtimeError (ascii "malformed string (unterminated value)"))
  set { s with rest := rest }
  return s.rest.takeWhile fun c => !endsValue c

/-- The part of the text that `read_value` converts. -/
def valueText (t : PrimitiveType) : TextReader Bytes :=
  match needle? t with
  | some needle => quoted needle
  | none => unquoted

/-- `':'` must be ignored in a node id. -/
def skipColon : TextReader Unit := do
  if (← get).top = ascii "@node" then consume 58

/-- `read_value`. -/
def readValue (t : PrimitiveType) : TextReader t.Val := do
  integrityCheck
  skipSpaceAndComma
  skipColon
  let substr ← valueText t
  ofExcept (fromStringReader code t substr)

/-- `n` elements, one after the other. -/
def readMany {α : Type} (elem : TextReader α) : Nat → TextReader (List α)
  | 0 => return []
  | n + 1 => do
    let x ← elem
    let xs ← readMany elem n
    return x :: xs

/-- `begin_sequence`, the elements, and `end_sequence`. -/
def sequence {α : Type} (elem : TextReader α) : TextReader (List α) := do
  let size ← beginSequence
  let xs ← readMany elem size
  endSequence
  return xs

/-- A pair of strings. -/
def stringPair : TextReader (Bytes × Bytes) := do
  let first ← readValue code .string
  let second ← readValue code .string
  return (first, second)

end TextReader

open TextReader

/-- `process(source, x)` for a value of the type. -/
def PlainType.readText : PlainType → TextReader PlainValue
  | .primitive t => return .primitive t (← readValue code t)
  | .strvec => return .strvec (← sequence (readValue code .string))
  | .strset => return .strset (.ofList (← sequence (readValue code .string)))
  | .strmap => return .strmap (.ofList (← sequence (stringPair code)))
  | t => do
    match ← code.read (.builtin (.plain t)) with
    | .plain x => return x
    | _ => throw (.undefined "value of another type")

mutual

/-- `uniform_type_info::deserialize` with a `string_deserializer`; `nested` reads a
message inside the message. -/
def TypeInfo.readText (nested : TextReader (List Value)) : TypeInfo → TextReader Value
  | .builtin (.plain t) => return .plain (← t.readText code)
  | .builtin .message => return .message (← nested)
  | .tuple name elements => return .tuple name (← readTextAll nested elements)
  | t => code.read t

/-- `default_meta_message::deserialize`. -/
def readTextAll (nested : TextReader (List Value)) :
    List (Option TypeInfo) → TextReader (List Value)
  | [] => return []
  | none :: _ => throw (.undefined "null uniform_type_info")
  | some t :: ts => do
    let x ← t.readText nested
    let xs ← readTextAll nested ts
    return x :: xs

end

/-- `message::deserialize`; `depth` bounds the nesting of messages. -/
def readTextMessage : (depth : Nat) → TextReader (List Value)
  | 0 => throw (.undefined "nesting")
  | depth + 1 => do
    let t ← TextReader.beginObject
    -- `create` makes a value of each element type
    if t.complete then
      let x ← t.readText code (readTextMessage depth)
      TextReader.endObject
      match x.asMessage? with
      | some elements => return elements
      | none => throw (.undefined "not a message")
    else throw (.undefined "null uniform_type_info")

/-- What `from_string_impl` tries: the type and the value. Each message inside a message
has a name, so that the text is longer than the nesting is deep. -/
def readObject (depth : Nat) : TextReader (TypeInfo × Value) := do
  let t ← TextReader.beginObject
  if t.complete then
    let x ← t.readText code (readTextMessage code depth)
    return (t, x)
  else throw (.undefined "null uniform_type_info")

/-- `from_string_impl`: there is no value where reading ends with a `runtime_error`. -/
def fromStringImpl (what : Bytes) (types : TypeMap) :
    Except Fault (Option (TypeInfo × Value)) × TypeMap :=
  let (result, s) := readObject code (what.length + 1) ⟨types, what, []⟩
  match result with
  | .ok uv => (.ok (some uv), s.types)
  | .error (.runtimeError _) => (.ok none, s.types)
  | .error e => (.error e, s.types)

/-- The value, if it is of the type. -/
def ofType (b : Builtin) : Option (TypeInfo × Value) → Option Value
  | some (.builtin b', x) => if b' = b then some x else none
  | _ => none

/-- `from_string` for a builtin type: a second attempt uses the type name. -/
def fromString (b : Builtin) (what : Bytes) (types : TypeMap) :
    Except Fault (Option Value) × TypeMap :=
  match fromStringImpl code what types with
  | (.error e, types) => (.error e, types)
  | (.ok uv, types) =>
    match ofType b uv with
    | some x => (.ok (some x), types)
    | none =>
      match fromStringImpl code (b.name ++ ascii " ( " ++ what ++ ascii " )") types with
      | (.error e, types) => (.error e, types)
      | (.ok uv, types) => (.ok (ofType b uv), types)

end

end BoostActor
