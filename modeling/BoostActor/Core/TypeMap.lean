import BoostActor.Core.PlainValues

/-!
# The type map

`uniform_type_info_map` keeps the builtin types in an array and all others in a
vector sorted by name: the types a program announces, and the tuple types that
stand for the messages of certain elements. These are made when a name that
starts with `@<>` is looked up for the first time
(`uniform_type_info_map.cpp`).

* `TypeMap.byUniformName` — finds or makes a type, and may add to the map.
-/

namespace BoostActor

/-- The 28 bytes of a serialized actor handle: actor id, host id, process id. -/
structure AddrRef where
  aid : UInt32
  host : HostId
  pid : UInt32
deriving DecidableEq, Repr

/-- The node an actor handle names. -/
def AddrRef.node (a : AddrRef) : NodeId := NodeId.make a.pid a.host

/-- The handle is neither the invalid one nor that of an actor on `self`. -/
def AddrRef.foreign (a : AddrRef) (self : NodeId) : Prop :=
  ¬ (a.aid = 0 ∧ a.pid = 0) ∧ ¬ (a.pid = self.processId ∧ a.host = self.hostId)

instance (a : AddrRef) (self : NodeId) : Decidable (a.foreign self) :=
  inferInstanceAs (Decidable (_ ∧ _))

/-- What reading did: the actor handles it came across, and its outcome or the
fault that ended it. -/
structure Trace (α : Type) where
  addrs : List AddrRef
  result : Except Fault α

/-- Code of the program that reads a value of its own. It works on the
deserializer, which moves forward over the input and never past its end. -/
structure UserReader where
  run : Bytes → Trace Bytes
  forward : ∀ bs rest, (run bs).result = .ok rest → rest <:+ bs

/-! ## Types -/

/-- The builtin types that hold handles. -/
inductive HandleType where
  | actor
  | actorvec
  | addr
  | addrvec
  | channel
  | down
  | exit
  | group
  | groupDown
  | syncExited
deriving DecidableEq, Repr

/-- The builtin types. -/
inductive Builtin where
  | plain (t : PlainType)
  | handle (t : HandleType)
  | message
deriving DecidableEq, Repr

/-- `numbered_type_names` with the type of each name, in the order of
`sorted_builtin_types`. -/
def builtinTypes : List (Bytes × Builtin) :=
  [(ascii "@actor", .handle .actor),
   (ascii "@actorvec", .handle .actorvec),
   (ascii "@addr", .handle .addr),
   (ascii "@addrvec", .handle .addrvec),
   (ascii "@atom", .plain (.primitive .atomValue)),
   (ascii "@channel", .handle .channel),
   (ascii "@charbuf", .plain .charbuf),
   (ascii "@down", .handle .down),
   (ascii "@duration", .plain .duration),
   (ascii "@exit", .handle .exit),
   (ascii "@group", .handle .group),
   (ascii "@group_down", .handle .groupDown),
   (ascii "@i16", .plain (.primitive .int16)),
   (ascii "@i32", .plain (.primitive .int32)),
   (ascii "@i64", .plain (.primitive .int64)),
   (ascii "@i8", .plain (.primitive .int8)),
   (ascii "@ldouble", .plain (.primitive .longDouble)),
   (ascii "@message", .message),
   (ascii "@message_id", .plain .messageId),
   (ascii "@node", .plain .node),
   (ascii "@str", .plain (.primitive .string)),
   (ascii "@strmap", .plain .strmap),
   (ascii "@strset", .plain .strset),
   (ascii "@strvec", .plain .strvec),
   (ascii "@sync_exited", .handle .syncExited),
   (ascii "@sync_timeout", .plain .syncTimeout),
   (ascii "@timeout", .plain .timeout),
   (ascii "@u16", .plain (.primitive .uint16)),
   (ascii "@u16str", .plain (.primitive .u16string)),
   (ascii "@u32", .plain (.primitive .uint32)),
   (ascii "@u32str", .plain (.primitive .u32string)),
   (ascii "@u64", .plain (.primitive .uint64)),
   (ascii "@u8", .plain (.primitive .uint8)),
   (ascii "@unit", .plain .unit),
   (ascii "bool", .plain (.primitive .bool)),
   (ascii "double", .plain (.primitive .double)),
   (ascii "float", .plain (.primitive .float))]

/-- `type_nr`. -/
def Builtin.typeNr (b : Builtin) : UInt16 :=
  UInt16.ofNat (builtinTypes.findIdx (fun entry => entry.2 = b) + 1)

/-- `uniform_type_info::name` of a builtin type. -/
def Builtin.name (b : Builtin) : Bytes :=
  ((builtinTypes[b.typeNr.toNat - 1]?).map Prod.fst).getD []

/-- `builtin_types_[nr - 1]`; there is none outside the array. -/
def byTypeNr (nr : UInt16) : Option Builtin := (builtinTypes[nr.toNat - 1]?).map Prod.snd

/-- A `uniform_type_info`. A tuple type keeps pointers to the types of its
elements, which are null where there was no such type when it was made. -/
inductive TypeInfo where
  | builtin (b : Builtin)
  | announced (name : Bytes) (read : UserReader)
  | tuple (name : Bytes) (elements : List (Option TypeInfo))

/-- The values of the type are messages. -/
def TypeInfo.isMessage : TypeInfo → Bool
  | builtin b => b = .message
  | announced _ _ => false
  | tuple _ _ => true

mutual

/-- No pointer that `create` follows is null. -/
def TypeInfo.complete : TypeInfo → Bool
  | .builtin _ => true
  | .announced _ _ => true
  | .tuple _ elements => allComplete elements

def allComplete : List (Option TypeInfo) → Bool
  | [] => true
  | none :: _ => false
  | some t :: ts => t.complete && allComplete ts

end

/-! ## Lookup -/

/-- The part of a string that `c_str` shows. -/
def cString (s : Bytes) : Bytes := s.takeWhile (· ≠ 0)

/-- What the program around the library adds: `user_types_` by name, and group
modules other than `local`. -/
structure TypeMap where
  userTypes : Bytes → Option TypeInfo
  modules : Bytes → Option UserReader
  user : ∀ name b, userTypes name ≠ some (.builtin b)

/-- The type map of a program that announces nothing. -/
def TypeMap.empty : TypeMap := ⟨fun _ => none, fun _ => none, fun _ _ h => by cases h⟩

/-- The prefix that marks the type name of a message. -/
def tuplePrefix : Bytes := ascii "@<>"

/-- Splits a type name at each `+`. -/
def splitNames : Bytes → List Bytes
  | [] => [[]]
  | c :: cs =>
    if c = 43 then [] :: splitNames cs
    else match splitNames cs with
      | [] => [[c]]
      | n :: ns => (c :: n) :: ns

namespace TypeMap

/-- `find_name` in `user_types_`: a string with a null character is none of the
names there. -/
def findName (tm : TypeMap) (name : Bytes) : Option TypeInfo :=
  if 0 ∈ name then none else tm.userTypes name

/-- `insert` of a new tuple type: the type that is there already, or the new one. -/
def insert (tm : TypeMap) (name : Bytes) (elements : List (Option TypeInfo)) :
    TypeInfo × TypeMap :=
  match tm.userTypes (cString name) with
  | some known => (known, tm)
  | none => (.tuple name elements, { tm with
      userTypes := fun key =>
        if key = cString name then some (.tuple name elements) else tm.userTypes key
      user := fun key b h => by
        split at h
        · cases h
        · exact tm.user key b h })

/-- `by_uniform_name`, where `elements` are the element types of a tuple type that
is made for the name. -/
def lookup (elements : TypeMap → List (Option TypeInfo) × TypeMap) (tm : TypeMap)
    (name : Bytes) : Option TypeInfo × TypeMap :=
  match builtinTypes.find? (·.1 = name) with
  | some entry => (some (.builtin entry.2), tm)
  | none =>
    match tm.findName name with
    | some t => (some t, tm)
    | none =>
      if tuplePrefix.isPrefixOf name then
        let (ts, tm) := elements tm
        let (t, tm) := tm.insert name ts
        (some t, tm)
      else (none, tm)

/-- The constructor of `default_meta_message`. There is no `+` in the name of an
element, so that a tuple type made for it has no elements itself. -/
def elementTypes : List Bytes → TypeMap → List (Option TypeInfo) × TypeMap
  | [], tm => ([], tm)
  | name :: names, tm =>
    let (t, tm) := tm.lookup (fun tm => ([], tm)) name
    let (ts, tm) := elementTypes names tm
    (t :: ts, tm)

/-- `by_uniform_name`. -/
def byUniformName (tm : TypeMap) (name : Bytes) : Option TypeInfo × TypeMap :=
  tm.lookup (elementTypes (splitNames name).tail) name

end TypeMap

end BoostActor
