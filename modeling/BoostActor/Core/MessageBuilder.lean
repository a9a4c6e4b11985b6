import BoostActor.Core.MessageData
import BoostActor.Core.ValueHandlers

/-!
# A message builder and its messages

`message_builder::to_message` returns a message that shares the elements of the
builder (`message_builder.cpp`). The functions that change them go through
`data()`, which copies the elements unless the builder is their only owner. `apply`
hands them to a message of its own, calls `message::apply` and takes them back, so
that the copy is made by `message::force_unshare` instead.

* `BuilderState.exec` — a call of a member function, or the end of a message;
* `BuilderSpec.exec` — the same on lists of elements.
-/

namespace BoostActor

namespace MessageBuilder

variable {α : Type}

-- -------------------------
-- Builders as values
-- -------------------------

/-- The `dynamic_msg_data` with these elements. -/
def ofElements (xs : List (Element α)) : MessageBuilder α :=
  ⟨xs, typeTokenOf (xs.map fun e => e.type.nr)⟩

/-- The copy constructor computes the type token anew. -/
def copy (b : MessageBuilder α) : MessageBuilder α := ofElements b.elements

/-- Assigns to an element. -/
def store (pos : Nat) (v : α) (b : MessageBuilder α) : MessageBuilder α :=
  { b with elements := b.elements.modify pos fun e => { e with value := v } }

end MessageBuilder

/-- The exception a handler ends with; a function that throws has it as its result. -/
def thrown? {ε ρ : Type} : Option (Except ε ρ) → Option ε
  | some (.error e) => some e
  | _ => none

-- -------------------------
-- Builders in memory
-- -------------------------

/-- A builder, the messages it returned, and the objects they point to. A message that
was destroyed has no pointer; `msg` is the message in `apply`. -/
structure BuilderState (α : Type) where
  objects : List (MessageBuilder α)
  data : Option Nat
  msg : Option Nat
  snapshots : List (Option Nat)

namespace BuilderState

variable {α σ ε ρ : Type}

/-- The constructor of `message_builder`. -/
def new : BuilderState α := ⟨[.new], some 0, none, []⟩

/-- The number of pointers to an object, which its reference count is. -/
def refCount (st : BuilderState α) (a : Nat) : Nat :=
  (st.data :: st.msg :: st.snapshots).count (some a)

/-- `cow_ptr::get_unshared`, and the same in `message_builder::data()`: the object to
use in place of `a`, which the caller stores in its pointer. -/
def getUnshared (st : BuilderState α) (a : Nat) : BuilderState α × Nat :=
  if st.refCount a = 1 then (st, a)
  else match st.objects[a]? with
    | some o => ({ st with objects := st.objects ++ [o.copy] }, st.objects.length)
    | none => (st, a)

/-- `message_builder::data()`; `none` is a call through a null pointer. -/
def detachData (st : BuilderState α) : Option (BuilderState α × Nat) :=
  st.data.map fun a =>
    let (st, a) := st.getUnshared a
    ({ st with data := some a }, a)

def modifyObject (st : BuilderState α) (a : Nat) (f : MessageBuilder α → MessageBuilder α) :
    BuilderState α :=
  { st with objects := st.objects.modify a f }

-- -------------------------
-- The member functions
-- -------------------------

def append (st : BuilderState α) (what : Element α) : Option (BuilderState α) :=
  st.detachData.map fun (st, a) => st.modifyObject a fun o => o.append what

def clear (st : BuilderState α) : Option (BuilderState α) :=
  st.detachData.map fun (st, a) => st.modifyObject a MessageBuilder.clear

/-- The elements, through `data() const`. -/
def content (st : BuilderState α) : Option (List (Element α)) :=
  st.data.bind fun a => st.objects[a]?.map MessageBuilder.elements

def size (st : BuilderState α) : Option Nat := st.content.map List.length

/-- `to_message`: `data() const` may be null, which makes an empty message. -/
def toMessage (st : BuilderState α) : BuilderState α :=
  { st with snapshots := st.snapshots ++ [st.data] }

/-- The message with this pointer. -/
def messageAt (st : BuilderState α) (p : Option Nat) : CowMessage α :=
  (p.bind fun a => st.objects[a]?).elim .empty MessageBuilder.toMessage

/-- The destructor of a message. -/
def destroy (st : BuilderState α) (i : Nat) : BuilderState α :=
  { st with snapshots := st.snapshots.set i none }

-- -------------------------
-- Apply
-- -------------------------

def read (st : BuilderState α) (p : Nat × Nat) : Option α :=
  st.objects[p.1]?.bind fun o => o.elements[p.2]?.map Element.value

/-- The match cases on the message in `apply`; `atomOf` reads a value as an `atom_value`. -/
def access (atomOf : α → UInt64) : MessageAccess (BuilderState α) (Nat × Nat) α where
  view st := (st.messageAt st.msg).view atomOf
  typeToken st := (st.messageAt st.msg).typeToken
  at? st pos := st.msg.bind fun a =>
    if pos < (st.messageAt (some a)).size then some (a, pos) else none
  forceUnshare st := st.msg.map fun a =>
    let (st, a) := st.getUnshared a
    { st with msg := some a }
  assign st p v := st.modifyObject p.1 (.store p.2 v)

/-- `message_builder::apply`, with the exception it ends with in its value. The exception
destroys the message and leaves `data_` as it is. -/
def apply (atomOf : α → UInt64) (handler : ValueBehavior α σ (Except ε ρ)) (st : BuilderState α)
    (s : σ) : Option (CallOutcome (BuilderState α) σ (Option (Except ε ρ))) :=
  -- avoid detaching of data_ by moving the data to a message object,
  ((handler.on read).invoke (access atomOf) { st with data := none, msg := st.data } s).map
    fun r =>
      { r with msg :=
        if (thrown? r.value).isSome then { r.msg with msg := none }
        -- and moving the data back
        else { r.msg with data := r.msg.msg, msg := none } }

end BuilderState

/-- A call on a builder, or the end of one of its messages. -/
inductive BuilderCall (α σ ε ρ : Type) where
  | append (what : Element α)
  | clear
  | toMessage
  | destroy (i : Nat)
  | apply (handler : ValueBehavior α σ (Except ε ρ))

namespace BuilderState

variable {α σ ε ρ : Type}

/-- One call; its value is the exception it ends with. -/
def exec (atomOf : α → UInt64) (st : BuilderState α) (s : σ) :
    BuilderCall α σ ε ρ → Option (CallOutcome (BuilderState α) σ (Option ε))
  | .append what => (st.append what).map fun st => ⟨st, s, none⟩
  | .clear => st.clear.map fun st => ⟨st, s, none⟩
  | .toMessage => some ⟨st.toMessage, s, none⟩
  | .destroy i => some ⟨st.destroy i, s, none⟩
  | .apply handler => (st.apply atomOf handler s).map fun r =>
    { r with value := thrown? r.value }

/-- The calls of a program, up to an exception. -/
def run (atomOf : α → UInt64) (st : BuilderState α) (s : σ) :
    List (BuilderCall α σ ε ρ) → Option (CallOutcome (BuilderState α) σ (Option ε))
  | [] => some ⟨st, s, none⟩
  | c :: calls => (st.exec atomOf s c).bind fun r =>
    if r.value.isSome then some r else run atomOf r.msg r.state calls

end BuilderState

-- -------------------------
-- What a builder is for
-- -------------------------

/-- The elements in a builder, and the messages it returned and that still exist. -/
structure BuilderSpec (α : Type) where
  content : List (Element α)
  snapshots : List (Option (List (Element α)))

/-- A list of elements as a message: the value of each element can be assigned. -/
def elementAccess {α : Type} (atomOf : α → UInt64) : MessageAccess (List (Element α)) Nat α where
  view xs := (CowMessage.makeMessage xs).view atomOf
  typeToken xs := typeTokenOf (xs.map fun e => e.type.nr)
  at? xs pos := if pos < xs.length then some pos else none
  forceUnshare xs := some xs
  assign xs pos v := xs.modify pos fun e => { e with value := v }

/-- The value of an element of a list. -/
def elementValue? {α : Type} (xs : List (Element α)) (pos : Nat) : Option α :=
  xs[pos]?.map Element.value

/-- What a handler does to a list of elements, and what it returns or throws. -/
def ValueBehavior.applyTo {α σ ε ρ : Type} (atomOf : α → UInt64)
    (handler : ValueBehavior α σ (Except ε ρ)) (xs : List (Element α)) (s : σ) :
    CallOutcome (List (Element α)) σ (Option (Except ε ρ)) :=
  ((handler.on elementValue?).invoke (elementAccess atomOf) xs s).getD ⟨xs, s, none⟩

namespace BuilderSpec

variable {α σ ε ρ : Type}

def new : BuilderSpec α := ⟨[], []⟩

def exec (atomOf : α → UInt64) (spec : BuilderSpec α) (s : σ) :
    BuilderCall α σ ε ρ → CallOutcome (BuilderSpec α) σ (Option ε)
  | .append what => ⟨{ spec with content := spec.content ++ [what] }, s, none⟩
  | .clear => ⟨{ spec with content := [] }, s, none⟩
  | .toMessage => ⟨{ spec with snapshots := spec.snapshots ++ [some spec.content] }, s, none⟩
  | .destroy i => ⟨{ spec with snapshots := spec.snapshots.set i none }, s, none⟩
  | .apply handler =>
    let r := handler.applyTo atomOf spec.content s
    ⟨{ spec with content := r.msg }, r.state, thrown? r.value⟩

def run (atomOf : α → UInt64) (spec : BuilderSpec α) (s : σ) :
    List (BuilderCall α σ ε ρ) → CallOutcome (BuilderSpec α) σ (Option ε)
  | [] => ⟨spec, s, none⟩
  | c :: calls =>
    let r := spec.exec atomOf s c
    if r.value.isSome then r else run atomOf r.msg r.state calls

end BuilderSpec

end BoostActor
