import BoostActor.Core.MessageLists
import BoostActor.Lib.Unfolding

/-!
# Messages that share data

A message holds a `cow_ptr` to reference-counted data, and so do the views and
concatenations among the data and the elements that are messages themselves.
Data is copied by `cow_ptr::get_unshared` when a pointer that is not the only one
is used for writing (`message_data.cpp`).

The heap keeps the data objects and the messages of the program. The reference
count of an object is the number of pointers to it, which is what the counter in
`ref_counted` maintains. Functions that follow pointers from object to object
take as many steps as there are objects.
-/

namespace BoostActor

open Lib

/-- The address of a data object. -/
abbrev DataAddr := Nat

/-- The value of an element: a plain value, or a message with its `vals_`. -/
inductive Cell (α : Type) where
  | plain (v : α)
  | message (vals : Option DataAddr)
deriving DecidableEq, Repr

/-- The pointer in an element. -/
def Cell.refs {α : Type} : Cell α → List DataAddr
  | .plain _ => []
  | .message vals => vals.toList

/-- The four implementations of `message_data`, with pointers in place of data. -/
inductive DataObject (α : Type) where
  | tupleVals (data : List (Element (Cell α)))
  | dynamicMsgData (elements : List (Element (Cell α))) (typeToken : UInt32)
  | decoratedTuple (decorated : DataAddr) (mapping : List Nat) (typeToken : UInt32)
  | concatenatedTuple (data : List DataAddr) (typeToken : UInt32) (size : Nat)
deriving DecidableEq, Repr

namespace DataObject

variable {α : Type}

def size : DataObject α → Nat
  | tupleVals data => data.length
  | dynamicMsgData elements _ => elements.length
  | decoratedTuple _ mapping _ => mapping.length
  | concatenatedTuple _ _ size => size

/-- The elements an object holds itself. -/
def cells : DataObject α → List (Element (Cell α))
  | tupleVals data => data
  | dynamicMsgData elements _ => elements
  | _ => []

/-- The pointers in an object. -/
def refs : DataObject α → List DataAddr
  | decoratedTuple decorated _ _ => [decorated]
  | concatenatedTuple data _ _ => data
  | o => o.cells.flatMap fun e => e.value.refs

/-- `copy()`: the elements are copied, a view or concatenation keeps its pointers. -/
def copy : DataObject α → DataObject α
  | dynamicMsgData elements _ =>
    dynamicMsgData elements (typeTokenOf (elements.map fun e => e.type.nr))
  | o => o

/-- Writes an element the object holds. -/
def store (pos : Nat) (v : Cell α) : DataObject α → DataObject α
  | tupleVals data => tupleVals (data.modify pos fun e => { e with value := v })
  | dynamicMsgData elements token =>
    dynamicMsgData (elements.modify pos fun e => { e with value := v }) token
  | o => o

end DataObject

/-- The data objects, of which some are deleted, and the messages of the program. -/
structure MessageHeap (α : Type) where
  objects : List (Option (DataObject α))
  vars : List (Option DataAddr)
deriving DecidableEq, Repr

namespace MessageHeap

variable {α : Type}

def object? (h : MessageHeap α) (a : DataAddr) : Option (DataObject α) := (h.objects[a]?).join

def sizeOf (h : MessageHeap α) (a : DataAddr) : Nat := (h.object? a).elim 0 DataObject.size

/-- Every pointer there is. -/
def references (h : MessageHeap α) : List DataAddr :=
  h.vars.flatMap Option.toList ++ h.objects.flatMap fun o => o.elim [] DataObject.refs

def refCount (h : MessageHeap α) (a : DataAddr) : Nat := h.references.count a

/-- `make_counted`. -/
def alloc (h : MessageHeap α) (o : DataObject α) : MessageHeap α × DataAddr :=
  ({ h with objects := h.objects ++ [some o] }, h.objects.length)

def setObject (h : MessageHeap α) (a : DataAddr) (o : DataObject α) : MessageHeap α :=
  { h with objects := h.objects.set a (some o) }

def setVar (h : MessageHeap α) (x : Nat) (vals : Option DataAddr) : MessageHeap α :=
  { h with vars := h.vars.set x vals }

/-- `cow_ptr::get_unshared`: the object to use in place of `a`; storing its address
in the pointer is left to the caller. -/
def getUnshared (h : MessageHeap α) (a : DataAddr) : MessageHeap α × DataAddr :=
  if h.refCount a = 1 then (h, a)
  else match h.object? a with
    | some o => h.alloc o.copy
    | none => (h, a)

/-- `vals_.unshare()` of the message `x`, with the data it then holds. -/
def unshareVar (h : MessageHeap α) (x : Nat) (a : DataAddr) : MessageHeap α × DataAddr :=
  let (h, a) := h.getUnshared a
  (h.setVar x (some a), a)

/-- `decorated_.unshare()` of the view `a` of `d`, with the data it is then a view of. -/
def unshareDecorated (h : MessageHeap α) (a d : DataAddr) (mapping : List Nat) (token : UInt32) :
    MessageHeap α × DataAddr :=
  let (h, d) := h.getUnshared d
  (h.setObject a (.decoratedTuple d mapping token), d)

/-! ## Elements -/

/-- `concatenated_tuple::select`. -/
def select (h : MessageHeap α) : List DataAddr → Nat → Option (DataAddr × Nat)
  | [], _ => none
  | m :: data, idx => if h.sizeOf m ≤ idx then h.select data (idx - h.sizeOf m) else some (m, idx)

/-- `message_data::at`: the place where the element at a position is kept. -/
def locate (h : MessageHeap α) : (fuel : Nat) → DataAddr → Nat → Option (DataAddr × Nat)
  | 0, _, _ => none
  | fuel + 1, a, pos =>
    match h.object? a with
    | none => none
    | some (.decoratedTuple d mapping _) => mapping[pos]?.bind fun i => h.locate fuel d i
    | some (.concatenatedTuple data _ _) =>
      (h.select data pos).bind fun selected => h.locate fuel selected.1 selected.2
    | some o => if pos < o.size then some (a, pos) else none

/-- `message_data::mutable_at`: a view detaches what it is a view of, a
concatenation writes through the pointer `select` returns. -/
def dataMutableAt : (fuel : Nat) → MessageHeap α → DataAddr → Nat →
    Option (MessageHeap α × DataAddr × Nat)
  | 0, _, _, _ => none
  | fuel + 1, h, a, pos =>
    match h.object? a with
    | none => none
    | some (.decoratedTuple d mapping token) =>
      mapping[pos]?.bind fun i =>
        let (h, d) := h.unshareDecorated a d mapping token
        dataMutableAt fuel h d i
    | some (.concatenatedTuple data _ _) =>
      (h.select data pos).bind fun selected => dataMutableAt fuel h selected.1 selected.2
    | some o => if pos < o.size then some (h, a, pos) else none

/-- Assigns to the element kept at a place. -/
def store (h : MessageHeap α) (place : DataAddr × Nat) (v : Cell α) : MessageHeap α :=
  match h.object? place.1 with
  | some o => h.setObject place.1 (o.store place.2 v)
  | none => h

/-- Assigns `v` to what `message::mutable_at(pos)` of the message `x` points to. -/
def assignAt (h : MessageHeap α) (x pos : Nat) (v : Cell α) : Option (MessageHeap α) :=
  (h.vars[x]?.join).bind fun a =>
    let (h', a) := h.unshareVar x a
    (dataMutableAt (h.objects.length + 1) h' a pos).map fun (h', place) => h'.store place v

/-- `trivial_match_case::invoke` of a handler with mutable references on the message
`x`, which it matches: the message is detached, the handler gets a pointer to each
element and assigns to the elements of `writes` in turn. -/
def invokeManipulator (h : MessageHeap α) (x : Nat) (writes : List (Nat × Cell α)) :
    Option (MessageHeap α) :=
  (h.vars[x]?.join).bind fun a =>
    let (h', a) := h.unshareVar x a
    ((List.range (h'.sizeOf a)).mapM fun i => h'.locate (h.objects.length + 1) a i).bind fun it =>
      writes.foldlM (fun h (w : Nat × Cell α) => it[w.1]?.map fun place => h.store place w.2) h'

/-! ## Building messages -/

/-- A new message of the program. -/
def newVar (h : MessageHeap α) (vals : Option DataAddr) : MessageHeap α :=
  { h with vars := h.vars ++ [vals] }

/-- `make_message`. -/
def makeMessage (h : MessageHeap α) (xs : List (Element (Cell α))) : MessageHeap α :=
  let (h, a) := h.alloc (.tupleVals xs)
  h.newVar (some a)

/-- A `message_builder` with its `dynamic_msg_data`, which `to_message` shares. -/
def makeBuilder (h : MessageHeap α) (xs : List (Element (Cell α))) : MessageHeap α :=
  let (h, a) := h.alloc (.dynamicMsgData xs (typeTokenOf (xs.map fun e => e.type.nr)))
  h.newVar (some a)

/-- The copy constructor of `message`; also `message_builder::to_message`. -/
def copyMessage (h : MessageHeap α) (x : Nat) : MessageHeap α := h.newVar (h.vars[x]?.join)

/-- `type_nr_at`. -/
def typeNrAt (h : MessageHeap α) (a : DataAddr) (pos : Nat) : UInt16 :=
  match h.locate (h.objects.length + 1) a pos with
  | none => 0
  | some place => ((h.object? place.1).bind fun o => o.cells[place.2]?).elim 0 fun e => e.type.nr

/-- What `decorated_tuple::make` is a view of, and the mapping into it. -/
def viewed (h : MessageHeap α) (a : DataAddr) (v : List Nat) : DataAddr × List Nat :=
  match h.object? a with
  | some (.decoratedTuple decorated pmap _) => (decorated, v.map fun i => pmap.getD i 0)
  | _ => (a, v)

/-- The constructor of `decorated_tuple` reads the type numbers through its own
pointer, which the argument shares: the data is copied unless the mapping is empty. -/
def copyViewed (h : MessageHeap α) (d : DataAddr) (v : List Nat) : MessageHeap α × DataAddr :=
  match v, h.object? d with
  | _ :: _, some o => h.alloc o.copy
  | _, _ => (h, d)

/-- `message{decorated_tuple::make(vals_, mapping)}`. -/
def decorate (h : MessageHeap α) (x : Nat) (v : List Nat) : MessageHeap α :=
  match h.vars[x]?.join with
  | none => h
  | some a =>
    let (d, v) := h.viewed a v
    let token := v.foldl (fun token i => addToTypeToken token (h.typeNrAt d i)) makeTypeToken
    let (h, d) := h.copyViewed d v
    let (h, a) := h.alloc (.decoratedTuple d v token)
    h.newVar (some a)

/-- The size of a message. -/
def varSize (h : MessageHeap α) (x : Nat) : Nat := h.vars[x]?.join.elim 0 h.sizeOf

/-- `message::drop`. -/
def drop (h : MessageHeap α) (x n : Nat) : MessageHeap α :=
  if n = 0 then h.copyMessage x
  else if h.varSize x ≤ n then h.newVar none
  else h.decorate x (List.range' n (h.varSize x - n))

/-- `message::drop_right`. -/
def dropRight (h : MessageHeap α) (x n : Nat) : MessageHeap α :=
  if n = 0 then h.copyMessage x
  else if h.varSize x ≤ n then h.newVar none
  else h.decorate x (List.range (h.varSize x - n))

/-- `message::slice`. -/
def slice (h : MessageHeap α) (x pos n : Nat) : MessageHeap α :=
  if h.varSize x ≤ pos then h.newVar none
  else h.decorate x (List.range' pos (min (h.varSize x - pos) n))

/-- The data of the constructor of `concatenated_tuple`: a copy of each part, as its
size is read through the pointer in `data_`, which the argument shares. -/
def copyParts (h : MessageHeap α) : List DataAddr → MessageHeap α × List DataAddr
  | [] => (h, [])
  | m :: ms =>
    match h.object? m with
    | none => h.copyParts ms
    | some o =>
      let (h, m) := h.alloc o.copy
      let (h, ms) := h.copyParts ms
      (h, m :: ms)

/-- What the constructor of `concatenated_tuple` takes from an argument. -/
def parts (h : MessageHeap α) (a : DataAddr) : List DataAddr :=
  match h.object? a with
  | some (.concatenatedTuple data _ _) => data
  | _ => [a]

/-- `message::concat` of two messages. -/
def concat (h : MessageHeap α) (x y : Nat) : MessageHeap α :=
  match h.vars[x]?.join, h.vars[y]?.join with
  | none, vals => h.newVar vals
  | vals, none => h.newVar vals
  | some a, some b =>
    let (h, data) := h.copyParts (h.parts a ++ h.parts b)
    let token := data.foldl (fun token m => (List.range (h.sizeOf m)).foldl
      (fun token i => addToTypeToken token (h.typeNrAt m i)) token) makeTypeToken
    let (h, c) := h.alloc (.concatenatedTuple data token
      (data.map h.sizeOf).sum)
    h.newVar (some c)

/-- `message_builder::append`: `data()` detaches the builder from its snapshots. -/
def append (h : MessageHeap α) (x : Nat) (e : Element (Cell α)) : MessageHeap α :=
  match h.vars[x]?.join with
  | none => h
  | some a =>
    let (h, a) := h.unshareVar x a
    match h.object? a with
    | some (.dynamicMsgData elements token) =>
      h.setObject a (.dynamicMsgData (elements ++ [e]) (addToTypeToken token e.type.nr))
    | _ => h

/-- Deletes the objects that nothing points to. -/
def sweep (h : MessageHeap α) : MessageHeap α :=
  { h with objects := h.objects.mapIdx fun a o => if h.refCount a = 0 then none else o }

/-- Deletes objects up to `rounds` pointers away from the pointer that was dropped. -/
def collect : (rounds : Nat) → MessageHeap α → MessageHeap α
  | 0, h => h
  | rounds + 1, h => collect rounds h.sweep

/-- The destructor of a message: an object is deleted with the last pointer to it,
and the pointers in it with the object. -/
def release (h : MessageHeap α) (x : Nat) : MessageHeap α :=
  collect h.objects.length (h.setVar x none)

end MessageHeap

end BoostActor
