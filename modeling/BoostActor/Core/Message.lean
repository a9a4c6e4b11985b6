import BoostActor.Core.TypeMap

/-!
# Messages on the wire

What `message::serialize` writes and what `message::deserialize` reads
(`message.cpp`, `uniform_type_info_map.cpp`, `binary_deserializer.cpp`).

Reading a message has an effect besides its value: every actor handle in it is
passed to `actor_namespace::read`, which may create a proxy. The position of the
handles in the input does not depend on what the namespace answers, so the
reader below returns them as a `Trace`: the handles in the order in which they
are read, and how reading ended.

The other effect is on the type map. A message starts with the name of its type,
and a tuple type that is not there yet is made and kept.
-/

namespace BoostActor

-- -------------------------
-- Decoders
-- -------------------------

/-- A `binary_deserializer`: what is left of the input, and the type map it finds
types in. -/
structure Source where
  types : TypeMap
  bytes : Bytes

/-- A program that reads from a deserializer. -/
def Decoder (α : Type) := Source → Trace (α × Source)

namespace Decoder

instance : Monad Decoder where
  pure a := fun s => ⟨[], .ok (a, s)⟩
  bind x f := fun s =>
    match (x s).result with
    | .error e => ⟨(x s).addrs, .error e⟩
    | .ok (a, s') => ⟨(x s).addrs ++ (f a s').addrs, (f a s').result⟩

def fail {α : Type} (e : Fault) : Decoder α := fun _ => ⟨[], .error e⟩

/-- Reads a value that has nothing to do with types and handles. -/
def read {α : Type} (r : Reader α) : Decoder α := fun s =>
  match r s.bytes with
  | .error e => ⟨[], .error e⟩
  | .ok (a, rest) => ⟨[], .ok (a, { s with bytes := rest })⟩

instance : MonadLift Reader Decoder := ⟨read⟩

/-- Runs code of the program. -/
def user (r : UserReader) : Decoder Unit := fun s =>
  match (r.run s.bytes).result with
  | .error e => ⟨(r.run s.bytes).addrs, .error e⟩
  | .ok rest => ⟨(r.run s.bytes).addrs, .ok ((), { s with bytes := rest })⟩

/-- `actor_namespace::read` consumes an actor handle. -/
def addr : Decoder AddrRef := do
  let aid ← readUInt32
  let host ← readHostId
  let pid ← readUInt32
  fun s => ⟨[⟨aid, host, pid⟩], .ok (⟨aid, host, pid⟩, s)⟩

/-- `get_module`. -/
def module? (modname : Bytes) : Decoder (Option UserReader) := fun s =>
  ⟨[], .ok (s.types.modules modname, s)⟩

/-- `by_uniform_name` on the type map. -/
def byUniformName (name : Bytes) : Decoder (Option TypeInfo) := fun s =>
  ⟨[], .ok ((s.types.byUniformName name).1, { s with types := (s.types.byUniformName name).2 })⟩

/-- `n` elements of a sequence, one after the other. -/
def repeated {α : Type} (elem : Decoder α) : Nat → Decoder (List α)
  | 0 => pure []
  | n + 1 => do
    let x ← elem
    let xs ← repeated elem n
    return x :: xs

/-- `begin_sequence` and the elements. -/
def sequence {α : Type} (elem : Decoder α) : Decoder (List α) := do
  let size ← readUInt32
  repeated elem size.toNat

end Decoder

-- -------------------------
-- Handles
-- -------------------------

/-- A `group` that was read. -/
inductive GroupHandle where
  | invalid
  | local (identifier : Bytes) (broker : AddrRef)
  | other (modname : Bytes)
deriving DecidableEq, Repr

/-- A `channel` that was read. -/
inductive ChannelHandle where
  | null
  | actor (hdl : AddrRef)
  | group (gref : GroupHandle)
deriving DecidableEq, Repr

/-- A value of a builtin type that holds handles. -/
inductive Handle where
  | actor (hdl : AddrRef)
  | actorvec (hdls : List AddrRef)
  | addr (addr : AddrRef)
  | addrvec (addrs : List AddrRef)
  | channel (ptrref : ChannelHandle)
  | down (source : AddrRef) (reason : UInt32)
  | exit (source : AddrRef) (reason : UInt32)
  | group (gref : GroupHandle)
  | groupDown (source : GroupHandle)
  | syncExited (source : AddrRef) (reason : UInt32)
deriving DecidableEq, Repr

def Handle.type : Handle → HandleType
  | actor _ => .actor
  | actorvec _ => .actorvec
  | addr _ => .addr
  | addrvec _ => .addrvec
  | channel _ => .channel
  | down _ _ => .down
  | exit _ _ => .exit
  | group _ => .group
  | groupDown _ => .groupDown
  | syncExited _ _ => .syncExited

/-- `process(source, group)`: an unknown module name is looked up all the same
and the null module pointer is called. -/
def readGroup : Decoder GroupHandle := do
  let modname ← readPrimitive .string
  if modname.isEmpty then return .invalid
  else if modname = ascii "local" then
    let identifier ← readPrimitive .string
    return .local identifier (← Decoder.addr)
  else
    match ← Decoder.module? modname with
    | some r =>
      Decoder.user r
      return .other modname
    | none => Decoder.fail (.undefined "null group module")

/-- `process(source, channel)`. -/
def readChannel : Decoder ChannelHandle := do
  let flag ← readPrimitive .uint8
  if flag = 0 then return .null
  else if flag = 1 then return .actor (← Decoder.addr)
  else if flag = 2 then return .group (← readGroup)
  else Decoder.fail (.runtimeError (ascii "invalid flag"))

/-- `process` of `exit_msg`, `down_msg` and `sync_exited_msg`. -/
def readExit (make : AddrRef → UInt32 → Handle) : Decoder Handle := do
  let source ← Decoder.addr
  let reason ← readPrimitive .uint32
  return make source reason

/-- `process(source, x)` for a value of the type. -/
def HandleType.deserialize : HandleType → Decoder Handle
  | actor => return .actor (← Decoder.addr)
  | actorvec => return .actorvec (← Decoder.sequence Decoder.addr)
  | addr => return .addr (← Decoder.addr)
  | addrvec => return .addrvec (← Decoder.sequence Decoder.addr)
  | channel => return .channel (← readChannel)
  | down => readExit .down
  | exit => readExit .exit
  | group => return .group (← readGroup)
  | groupDown => return .groupDown (← readGroup)
  | syncExited => readExit .syncExited

-- -------------------------
-- Reading a message
-- -------------------------

/-- A value that was read, of a builtin type, an announced type or a tuple type.
Of a message it is the list of its elements. -/
inductive Value where
  | plain (x : PlainValue)
  | handle (x : Handle)
  | message (elements : List Value)
  | announced (name : Bytes)
  | tuple (name : Bytes) (elements : List Value)

/-- The builtin type of a value. -/
def Value.builtin? : Value → Option Builtin
  | plain x => some (.plain x.type)
  | handle x => some (.handle x.type)
  | message _ => some .message
  | announced _ => none
  | tuple _ _ => none

/-- `uniform_type_info::name` of the type of a value. -/
def Value.typeName : Value → Bytes
  | plain x => (Builtin.plain x.type).name
  | handle x => (Builtin.handle x.type).name
  | message _ => Builtin.message.name
  | announced name => name
  | tuple name _ => cString name

/-- `*reinterpret_cast<message*>(val)`, for a value that is a message. -/
def Value.asMessage? : Value → Option (List Value)
  | message elements => some elements
  | tuple _ elements => some elements
  | _ => none

mutual

/-- `uniform_type_info::deserialize`; `nested` reads a message inside the message. -/
def TypeInfo.deserialize (nested : Decoder (List Value)) : TypeInfo → Decoder Value
  | .builtin (.plain t) => return .plain (← t.deserialize)
  | .builtin (.handle t) => return .handle (← t.deserialize)
  | .builtin .message => return .message (← nested)
  | .announced name read => do
    Decoder.user read
    return .announced name
  | .tuple name elements => return .tuple name (← deserializeAll nested elements)

/-- `default_meta_message::deserialize`. -/
def deserializeAll (nested : Decoder (List Value)) :
    List (Option TypeInfo) → Decoder (List Value)
  | [] => return []
  | none :: _ => Decoder.fail (.undefined "null uniform_type_info")
  | some t :: ts => do
    let x ← t.deserialize nested
    let xs ← deserializeAll nested ts
    return x :: xs

end

-- -------------------------
-- Messages
-- -------------------------

/-- `begin_object`. -/
def beginObject : Decoder TypeInfo := do
  let nr ← readUInt16
  if nr = 0 then
    let name ← readString
    match ← Decoder.byUniformName name with
    | some t => return t
    | none => Decoder.fail (.runtimeError (ascii "received type name \"" ++ name ++
        ascii "\" but no such type is known"))
  else
    match byTypeNr nr with
    | some b => return .builtin b
    | none => Decoder.fail (.undefined "type number out of range")

/-- `message::deserialize`; `depth` bounds the nesting of messages. -/
def readMessage : (depth : Nat) → Decoder (List Value)
  | 0 => Decoder.fail rangeError
  | depth + 1 => do
    let t ← beginObject
    -- `create` makes a value of each element type
    if t.complete then
      let x ← t.deserialize (readMessage depth)
      match x.asMessage? with
      | some elements => return elements
      | none => Decoder.fail (.undefined "not a message")
    else Decoder.fail (.undefined "null uniform_type_info")

/-- `message::deserialize`. Each message inside a message takes at least two
bytes, so the input is longer than the nesting is deep. -/
def Message.deserialize (tm : TypeMap) (bs : Bytes) : Trace (List Value × Source) :=
  readMessage (bs.length + 1) ⟨tm, bs⟩

-- -------------------------
-- Writing a message
-- -------------------------

/-- A message on its way to the network: the names of its element types joined
by `+`, the serialized elements, and the local actors whose handles they hold. At an
element that cannot be serialized, all of this ends. -/
structure Message where
  typeNames : Bytes
  body : Bytes
  locals : List Nat
  /-- what serializing an element throws: `uniform_type_info::from`, if its type has not
  been announced, or code of the program -/
  fault : Option Fault := none
deriving DecidableEq, Repr

/-- `make_message()`. -/
def emptyMessage : Message := ⟨[], [], [], none⟩

/-- What `message::serialize` writes: a message type has no number, so its name is
written. -/
def Message.bytes (m : Message) : Bytes :=
  writeUInt16 0 ++ writeString (tuplePrefix ++ m.typeNames) ++ m.body

/-- `message::serialize`. -/
def Message.serialize (m : Message) : Except Fault Bytes :=
  match m.fault with
  | none => .ok m.bytes
  | some e => .error e

/-- A message can be written unless one of its types was not announced. -/
theorem Message.serialize_eq_ok {m : Message} {bs : Bytes} :
    m.serialize = .ok bs ↔ m.fault = none ∧ m.bytes = bs := by
  unfold serialize
  cases m.fault with
  | none => simp
  | some e => simp

/-- `tuple_type_names` of a message, after the prefix. -/
def typeNames (elements : List Value) : Bytes := elements.flatMap fun x => 43 :: x.typeName

mutual

/-- `uniform_type_info::serialize`. What is written of handles depends on the actor
namespace, and what is written of announced types on their code: that is `other`. -/
def Value.serialize (other : Value → Bytes) : Value → Bytes
  | .plain x => x.serialize
  | .message elements =>
    Message.bytes ⟨typeNames elements, serializeAll other elements, [], none⟩
  | .tuple _ elements => serializeAll other elements
  | x => other x

def serializeAll (other : Value → Bytes) : List Value → Bytes
  | [] => []
  | x :: xs => x.serialize other ++ serializeAll other xs

end

-- -------------------------
-- Some messages
-- -------------------------

/-- `detail::encoding_table`. -/
def atomCode (c : UInt8) : UInt64 :=
  if 48 ≤ c ∧ c ≤ 57 then (c - 47).toUInt64
  else if 65 ≤ c ∧ c ≤ 90 then (c - 54).toUInt64
  else if c = 95 then 37
  else if 97 ≤ c ∧ c ≤ 122 then (c - 59).toUInt64
  else 0

/-- `atom("...")`. -/
def atom (s : String) : UInt64 :=
  (ascii s).foldl (fun interim c => (interim <<< 6) ||| atomCode c) 0xF

/-- `make_message(sys_atom::value, get_atom::value, "info")`. -/
def infoRequest : Message where
  typeNames := ascii "+@atom+@atom+@str"
  body := writeUInt64 (atom "SYS") ++ writeUInt64 (atom "GET") ++ writeString (ascii "info")
  locals := []

/-- `make_message(get_atom::value, "basp.default-connectivity")`. -/
def connectivityRequest : Message where
  typeNames := ascii "+@atom+@str"
  body := writeUInt64 (atom "GET") ++ writeString (ascii "basp.default-connectivity")
  locals := []

end BoostActor
