import BoostActor.Core.Message

/-!
# The elements of a message

A message holds a pointer to its `message_data`, of which there are four kinds:
`tuple_vals` of `make_message`, the `dynamic_msg_data` of a `message_builder`,
the `decorated_tuple` of a slice, and the `concatenated_tuple` of `operator+`
(`message.cpp`, `message_builder.cpp`, `decorated_tuple.cpp`,
`concatenated_tuple.cpp`). Each finds an element and computes the type token in
its own way.

The data of a message is modelled here as a value: a slice contains the data it
is a view of. What the pointers add, that data is shared and copied when it is
written to, is the subject of `Core.MessageHeap`.
-/

namespace BoostActor

/-- What a message keeps about the type of an element (`tuple_vals_rtti`): the
number of a builtin type, or 0 and the C++ type. -/
structure ElementType where
  nr : UInt16
  rtti : Nat
deriving DecidableEq, Repr

/-- An element of a message. -/
structure Element (α : Type) where
  type : ElementType
  value : α
deriving DecidableEq, Repr

/-- The types of a program: the names it announced, and `uniform_type_info::equals`
by name, which is `none` where `uniform_type_info::from` throws. -/
structure TypeInfos (α : Type) where
  announced : Nat → Option Bytes
  equals : Bytes → α → α → Option Bool

/-- `uniform_name_at` of an element: the name of a builtin type by its number,
else the announced name. -/
def TypeInfos.uniformName {α : Type} (T : TypeInfos α) (t : ElementType) : Bytes :=
  if t.nr ≠ 0 then ((builtinTypes.map Prod.fst)[t.nr.toNat - 1]?).getD []
  else (T.announced t.rtti).getD (ascii "-invalid-")

/-- `match_element` for one element; `rtti` is the `std::type_info` asked for. -/
def ElementType.matchElement (t : ElementType) (typenr : UInt16) (rtti : Nat) : Bool :=
  if t.nr ≠ typenr then false else t.nr ≠ 0 || t.rtti == rtti

/-! ## Type tokens -/

/-- `make_type_token<>()`. -/
def makeTypeToken : UInt32 := 0xFFFFFFFF

/-- `add_to_type_token`. -/
def addToTypeToken (token : UInt32) (tnr : UInt16) : UInt32 := (token <<< 6) ||| tnr.toUInt32

/-- The token of a sequence of type numbers (`make_type_token<Ts...>()`). -/
def typeTokenOf (tnrs : List UInt16) : UInt32 := tnrs.foldl addToTypeToken makeTypeToken

/-! ## Message data -/

/-- The four implementations of `message_data`. -/
inductive MessageData (α : Type) where
  | tupleVals (data : List (Element α))
  | dynamicMsgData (elements : List (Element α)) (typeToken : UInt32)
  | decoratedTuple (decorated : MessageData α) (mapping : List Nat) (typeToken : UInt32)
  | concatenatedTuple (data : List (MessageData α)) (typeToken : UInt32) (size : Nat)

namespace MessageData

variable {α : Type}

def size : MessageData α → Nat
  | tupleVals data => data.length
  | dynamicMsgData elements _ => elements.length
  | decoratedTuple _ mapping _ => mapping.length
  | concatenatedTuple _ _ size => size

mutual

/-- The element `at`, `type_nr_at`, `uniform_name_at` and `match_element` are
about. There is none at a position the data does not have: `select` throws, the
others require `pos < size()`. -/
def elementAt : MessageData α → Nat → Option (Element α)
  | tupleVals data, pos => data[pos]?
  | dynamicMsgData elements _, pos => elements[pos]?
  | decoratedTuple decorated mapping _, pos => mapping[pos]?.bind decorated.elementAt
  | concatenatedTuple data _ _, pos => select data pos

/-- `concatenated_tuple::select`, and the element at what it selects. -/
def select : List (MessageData α) → Nat → Option (Element α)
  | [], _ => none
  | m :: data, idx => if m.size ≤ idx then select data (idx - m.size) else m.elementAt idx

end

def typeNrAt (d : MessageData α) (pos : Nat) : Option UInt16 :=
  (d.elementAt pos).map fun e => e.type.nr

def typeToken : MessageData α → UInt32
  | tupleVals data => typeTokenOf (data.map fun e => e.type.nr)
  | dynamicMsgData _ token => token
  | decoratedTuple _ _ token => token
  | concatenatedTuple _ token _ => token

/-- The constructor of `decorated_tuple`. -/
def newDecorated (d : MessageData α) (v : List Nat) : MessageData α :=
  decoratedTuple d v (v.foldl (fun token i => addToTypeToken token ((d.typeNrAt i).getD 0))
    makeTypeToken)

/-- `decorated_tuple::make`: a view of a view is a view of what that one shows. -/
def makeDecorated (d : MessageData α) (v : List Nat) : MessageData α :=
  match d with
  | decoratedTuple decorated pmap _ => newDecorated decorated (v.map fun i => pmap.getD i 0)
  | _ => newDecorated d v

/-- What the constructor of `concatenated_tuple` puts into `data_` for one argument. -/
def parts : MessageData α → List (MessageData α)
  | concatenatedTuple data _ _ => data
  | d => [d]

/-- The type numbers of all elements, in order. -/
def typeNrs (d : MessageData α) : List UInt16 :=
  (List.range d.size).map fun i => (d.typeNrAt i).getD 0

/-- The constructor of `concatenated_tuple`, from the arguments that are not null. -/
def newConcatenated (xs : List (MessageData α)) : MessageData α :=
  let data := xs.flatMap parts
  concatenatedTuple data
    (data.foldl (fun token m => m.typeNrs.foldl addToTypeToken token) makeTypeToken)
    (data.foldl (fun tmp m => tmp + m.size) 0)

/-- Step 1 of `message_data::equals`: the type names agree. -/
def sameNames (T : TypeInfos α) (d other : MessageData α) : Bool :=
  (List.range d.size).all fun i =>
    (d.elementAt i).map (fun e => T.uniformName e.type) ==
      (other.elementAt i).map fun e => T.uniformName e.type

/-- Step 2 of `message_data::equals`: the values at the positions `is` are
compared, up to the first that differs or has no type information. -/
def sameValues (T : TypeInfos α) (d other : MessageData α) : List Nat → Option Bool
  | [] => some true
  | i :: is =>
    match d.elementAt i, other.elementAt i with
    | some x, some y =>
      (T.equals (T.uniformName x.type) x.value y.value).bind fun same =>
        if same then sameValues T d other is else some false
    | _, _ => none

/-- `message_data::equals`; `same` is `this == &other`. -/
def equals (T : TypeInfos α) (same : Bool) (d other : MessageData α) : Option Bool :=
  if same then some true
  else if d.size ≠ other.size then some false
  else if sameNames T d other then sameValues T d other (List.range d.size)
  else some false

end MessageData

/-! ## Messages -/

/-- A `message`: its `vals_`, which is null in an empty message. -/
structure CowMessage (α : Type) where
  vals : Option (MessageData α)

namespace CowMessage

variable {α : Type}

def empty : CowMessage α := ⟨none⟩

def size (m : CowMessage α) : Nat := m.vals.elim 0 MessageData.size

def isEmpty (m : CowMessage α) : Bool := m.size == 0

/-- The element at a position; there is none in a null message. -/
def elementAt (m : CowMessage α) (pos : Nat) : Option (Element α) :=
  m.vals.bind fun d => d.elementAt pos

/-- `message::at`. -/
def at? (m : CowMessage α) (pos : Nat) : Option α := (m.elementAt pos).map Element.value

def typeNrAt (m : CowMessage α) (pos : Nat) : Option UInt16 :=
  (m.elementAt pos).map fun e => e.type.nr

def uniformNameAt (T : TypeInfos α) (m : CowMessage α) (pos : Nat) : Option Bytes :=
  (m.elementAt pos).map fun e => T.uniformName e.type

def matchElement (m : CowMessage α) (pos : Nat) (typenr : UInt16) (rtti : Nat) : Option Bool :=
  (m.elementAt pos).map fun e => e.type.matchElement typenr rtti

def typeToken (m : CowMessage α) : UInt32 := m.vals.elim makeTypeToken MessageData.typeToken

/-- `message::equals`; `same` says that both hold the same data object. -/
def equals (T : TypeInfos α) (same : Bool) (m other : CowMessage α) : Option Bool :=
  match m.vals, other.vals with
  | some d, some d' =>
    if m.isEmpty then some other.isEmpty
    else if other.isEmpty then some false
    else d.equals T same d'
  | _, _ => if m.isEmpty then some other.isEmpty else some false

/-- `message{detail::decorated_tuple::make(vals_, mapping)}`. -/
def decorate (m : CowMessage α) (mapping : List Nat) : CowMessage α :=
  ⟨m.vals.map fun d => d.makeDecorated mapping⟩

def drop (m : CowMessage α) (n : Nat) : CowMessage α :=
  if n = 0 then m
  else if m.size ≤ n then empty
  else m.decorate (List.range' n (m.size - n))

def dropRight (m : CowMessage α) (n : Nat) : CowMessage α :=
  if n = 0 then m
  else if m.size ≤ n then empty
  else m.decorate (List.range (m.size - n))

def slice (m : CowMessage α) (pos n : Nat) : CowMessage α :=
  if m.size ≤ pos then empty
  else m.decorate (List.range' pos (min (m.size - pos) n))

def take (m : CowMessage α) (n : Nat) : CowMessage α :=
  if m.size ≤ n then m else m.dropRight (m.size - n)

def takeRight (m : CowMessage α) (n : Nat) : CowMessage α :=
  if m.size ≤ n then m else m.drop (m.size - n)

/-- `message::concat_impl`. -/
def concat (xs : List (CowMessage α)) : CowMessage α :=
  match xs.filterMap vals with
  | [] => empty
  | [d] => ⟨some d⟩
  | ds => ⟨some (.newConcatenated ds)⟩

/-- `operator+`. -/
def append (m other : CowMessage α) : CowMessage α := concat [m, other]

/-- `make_message`. -/
def makeMessage (xs : List (Element α)) : CowMessage α := ⟨some (.tupleVals xs)⟩

end CowMessage

/-- A `message_builder`: the members of its `dynamic_msg_data`. -/
structure MessageBuilder (α : Type) where
  elements : List (Element α)
  typeToken : UInt32

namespace MessageBuilder

variable {α : Type}

def new : MessageBuilder α := ⟨[], makeTypeToken⟩

def append (b : MessageBuilder α) (what : Element α) : MessageBuilder α :=
  ⟨b.elements ++ [what], addToTypeToken b.typeToken what.type.nr⟩

def clear (_ : MessageBuilder α) : MessageBuilder α := new

def toMessage (b : MessageBuilder α) : CowMessage α :=
  ⟨some (.dynamicMsgData b.elements b.typeToken)⟩

end MessageBuilder

end BoostActor
