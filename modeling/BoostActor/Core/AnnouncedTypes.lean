import Mathlib.Data.List.Forall2
import BoostActor.Core.DecodingSafety
import BoostActor.Lib.SortedList

/-!
# Announced types

A program announces its classes with pointers to members or pairs of a getter and a setter
(`default_uniform_type_info.hpp`). What is serialized of an object is what its members make of it;
a member is handed on to the type of the member, or serialized element by element when it is a
container.

Deserialization writes into an object that is there. With a pointer to a member the member is
deserialized in place, with a setter into a new value of its type.

Types with a `uniform_type_info` of their own, such as messages, handles and durations, are taken as
given: what is assumed of them is part of `Lawful` and of `Safe`. So are floating point numbers,
which `pack754` and `unpack754` convert. A `char` is written as an `int32_t` and never read.

* `Announcement` — the types that can be announced, and `Announcement.info` what the templates make
  of them;
* `Announcement.reads` — what an object becomes when the serialization of another one is read into
  it;
* `announced_roundTrip` — the announced parts of the object are those of the other one, and all
  others are left alone;
* `announced_checked` — reading any bytes, if the given types are read safely.
-/

namespace BoostActor

open Lib

-- -------------------------
-- The code
-- -------------------------

/-- A `uniform_type_info`. `serialize` can throw; `deserialize` is given the object that it writes
to. -/
structure UniformTypeInfo (C : Type) where
  serialize : C → Except Fault Bytes
  deserialize : C → Reader C

/-- `memptr_access_policy`, `getter_setter_access_policy` and `fake_access_policy`. -/
structure AccessPolicy (C T : Type) where
  get : C → T
  set : C → T → C
  grantsMutableAccess : Bool

/-- The loop over the elements of a container. -/
def readInto {C T : Type} (insert : C → T → C) (elem : Reader T) : Nat → C → Reader C
  | 0, storage => pure storage
  | n + 1, storage => do
    let tmp ← elem
    readInto insert elem n (insert storage tmp)

namespace UniformTypeInfo

variable {C T F S E : Type}

/-- `default_serialize_policy` with `primitive_impl`. -/
def primitiveImpl (t : PrimitiveType) : UniformTypeInfo t.Val where
  serialize val := return (PrimitiveVariant.mk t val).writeValue
  deserialize _ := readPrimitive t

/-- `primitive_impl` of a `char`. -/
def charImpl : UniformTypeInfo UInt8 where
  serialize val := return (PrimitiveVariant.ofChar val).writeValue
  deserialize _ := readChar

/-- What `list_impl` and `map_impl` have in common. -/
def iterableImpl [Inhabited T] (elems : C → List T) (clear : C) (insert : C → T → C)
    (elem : UniformTypeInfo T) : UniformTypeInfo C where
  serialize val := do
    let written ← (elems val).mapM elem.serialize
    return writeUInt32 (castUInt32 (elems val).length) ++ written.flatten
  deserialize _ := do
    let size ← readUInt32
    readInto insert (elem.deserialize default) size.toNat clear

/-- `list_impl`. -/
def listImpl [Inhabited T] (elem : UniformTypeInfo T) : UniformTypeInfo (List T) :=
  iterableImpl id [] (fun storage tmp => storage ++ [tmp]) elem

section

variable {K : Type} [LT K] [DecidableLT K] [Trans (α := K) (· < ·) (· < ·) (· < ·)]

/-- `map_impl`, for ordered sets and maps. -/
def mapImpl [Inhabited T] {key : T → K} (elem : UniformTypeInfo T) :
    UniformTypeInfo (SortedList key) :=
  iterableImpl SortedList.elems .empty .insert elem

end

/-- `pair_impl`. -/
def pairImpl (first : UniformTypeInfo F) (second : UniformTypeInfo S) :
    UniformTypeInfo (F × S) where
  serialize val := do
    let fst ← first.serialize val.1
    let snd ← second.serialize val.2
    return fst ++ snd
  deserialize storage := do
    let fst ← first.deserialize storage.1
    let snd ← second.deserialize storage.2
    return (fst, snd)

/-- `opt_impl`. -/
def optImpl [Inhabited T] (value : UniformTypeInfo T) : UniformTypeInfo (Option T) where
  serialize
    | some val => do
      let written ← value.serialize val
      return writeUInt8 1 ++ written
    | none => return writeUInt8 0
  deserialize _ := do
    let flag ← readUInt8
    if flag ≠ 0 then
      let tmp ← value.deserialize default
      return some tmp
    else return none

/-- `member_tinfo`, with `ds` for both kinds of access. -/
def memberTinfo [Inhabited T] (apol : AccessPolicy C T) (spol : UniformTypeInfo T) :
    UniformTypeInfo C where
  serialize obj := spol.serialize (apol.get obj)
  deserialize obj := do
    let tmp ← spol.deserialize (if apol.grantsMutableAccess then apol.get obj else default)
    return apol.set obj tmp

/-- `member_tinfo` for enumerations; `spol` is that of the underlying type. -/
def enumTinfo [Inhabited T] (apol : AccessPolicy C E) (spol : UniformTypeInfo T) (toValue : E → T)
    (ofValue : T → E) : UniformTypeInfo C where
  serialize obj := spol.serialize (toValue (apol.get obj))
  deserialize obj := do
    let tmp ← spol.deserialize default
    return apol.set obj (ofValue tmp)

/-- `member_tinfo` for empty types. -/
def emptyTinfo : UniformTypeInfo C where
  serialize _ := return []
  deserialize obj := pure obj

/-- `default_uniform_type_info`. -/
def defaultUniformTypeInfo (members : List (UniformTypeInfo C)) : UniformTypeInfo C where
  serialize obj := return (← members.mapM fun m => m.serialize obj).flatten
  deserialize obj := members.foldlM (fun obj m => m.deserialize obj) obj

end UniformTypeInfo

/-- `float`, `double` and `long double`. -/
def PrimitiveType.isFloatingPoint : PrimitiveType → Bool
  | float | double | longDouble => true
  | _ => false

/-- The types that can be serialized: what `impl_id` tells apart, and the members and classes that
a program announces. `given` is a type with other code than the templates', such as a type of the
library (`recursive_impl`, `forwarding_serialize_policy`), with the values that are read as they
were written. -/
inductive Announcement : Type → Type 1 where
  | primitive (t : PrimitiveType) (ht : t.isFloatingPoint = false) : Announcement t.Val
  | char : Announcement UInt8
  | given {C : Type} (uti : UniformTypeInfo C) (exact : C → Prop) : Announcement C
  | list {T : Type} [Inhabited T] (elem : Announcement T) : Announcement (List T)
  | map {T K : Type} [Inhabited T] [LT K] [DecidableLT K]
      [Trans (α := K) (· < ·) (· < ·) (· < ·)] (key : T → K) (elem : Announcement T) :
      Announcement (SortedList key)
  | pair {F S : Type} (first : Announcement F) (second : Announcement S) : Announcement (F × S)
  | opt {T : Type} [Inhabited T] (value : Announcement T) : Announcement (Option T)
  | member {C T : Type} [Inhabited T] (apol : AccessPolicy C T) (type : Announcement T) :
      Announcement C
  | enumMember {C E T : Type} [Inhabited T] (apol : AccessPolicy C E) (type : Announcement T)
      (toValue : E → T) (ofValue : T → E) : Announcement C
  | emptyMember {C : Type} : Announcement C
  | members {C : Type} (n : Nat) (members : Fin n → Announcement C) : Announcement C

namespace Announcement

/-- What the templates make of a type. -/
def info {C : Type} : Announcement C → UniformTypeInfo C
  | primitive t _ => .primitiveImpl t
  | char => .charImpl
  | given uti _ => uti
  | list elem => .listImpl elem.info
  | map _ elem => .mapImpl elem.info
  | pair first second => .pairImpl first.info second.info
  | opt value => .optImpl value.info
  | member apol type => .memberTinfo apol type.info
  | enumMember apol type toValue ofValue => .enumTinfo apol type.info toValue ofValue
  | emptyMember => .emptyTinfo
  | members n m => .defaultUniformTypeInfo ((List.finRange n).map fun i => (m i).info)

-- -------------------------
-- Values
-- -------------------------

/-- The values that can be read back: their strings and containers have a length with room in 32
bits, they hold no `char`, and what they hold of given types is read as it was written. -/
def Fits {C : Type} : Announcement C → C → Prop
  | primitive t _, v => t.Fits v
  | char, _ => False
  | given _ exact, v => exact v
  | list elem, v => v.length < 2 ^ 32 ∧ ∀ x ∈ v, elem.Fits x
  | map _ elem, v => v.elems.length < 2 ^ 32 ∧ ∀ x ∈ v.elems, elem.Fits x
  | pair first second, v => first.Fits v.1 ∧ second.Fits v.2
  | opt value, v => ∀ x ∈ v, value.Fits x
  | member apol type, v => type.Fits (apol.get v)
  | enumMember apol type toValue _, v => type.Fits (toValue (apol.get v))
  | emptyMember, _ => True
  | members _ m, v => ∀ i, (m i).Fits v

/-- What becomes of an object when another one is written into it. -/
def merge {C : Type} : Announcement C → C → C → C
  | primitive _ _, _, v => v
  | char, _, v => v
  | given _ _, _, v => v
  | list elem, _, v => v.map (elem.merge default)
  | map _ elem, _, v => .ofList (v.elems.map (elem.merge default))
  | pair first second, old, v => (first.merge old.1 v.1, second.merge old.2 v.2)
  | opt value, _, v => Option.map (value.merge default) v
  | member apol type, old, v =>
    apol.set old (type.merge (if apol.grantsMutableAccess then apol.get old else default)
      (apol.get v))
  | enumMember apol type toValue ofValue, old, v =>
    apol.set old (ofValue (type.merge default (toValue (apol.get v))))
  | emptyMember, old, _ => old
  | members n m, old, v => (List.finRange n).foldl (fun obj i => (m i).merge obj v) old

/-- The announced parts of two objects are the same. -/
def Agrees {C : Type} : Announcement C → C → C → Prop
  | primitive _ _, v, w => v = w
  | char, v, w => v = w
  | given _ _, v, w => v = w
  | list elem, v, w => List.Forall₂ elem.Agrees v w
  | map _ _, v, w => v = w
  | pair first second, v, w => first.Agrees v.1 w.1 ∧ second.Agrees v.2 w.2
  | opt value, v, w => Option.Rel value.Agrees v w
  | member apol type, v, w => type.Agrees (apol.get v) (apol.get w)
  | enumMember apol _ _ _, v, w => apol.get v = apol.get w
  | emptyMember, _, _ => True
  | members _ m, v, w => ∀ i, (m i).Agrees v w

/-- What an announcement has to respect: setters are followed by their getters, members do not
share anything, and the elements of sets and maps, which are compared with each other, as well as
the underlying types of enumerations, are announced as a whole. The code for a given type reads the
values that it promises to read. -/
def Lawful {C : Type} : Announcement C → Prop
  | primitive _ _ | char => True
  | given uti exact => ∀ v, exact v → ∃ bs, uti.serialize v = .ok bs ∧
      ∀ old rest, uti.deserialize old (bs ++ rest) = .ok (v, rest)
  | list elem => elem.Lawful
  | map (K := K) _ elem => Std.Asymm (α := K) (· < ·) ∧ elem.Lawful ∧ ∀ v w, elem.Agrees v w → v = w
  | pair first second => first.Lawful ∧ second.Lawful
  | opt value => value.Lawful
  | member apol type => type.Lawful ∧ ∀ c x, apol.get (apol.set c x) = x
  | enumMember apol type toValue ofValue => type.Lawful ∧ (∀ v w, type.Agrees v w → v = w) ∧
      (∀ c x, apol.get (apol.set c x) = x) ∧ ∀ e, ofValue (toValue e) = e
  | emptyMember => True
  | members _ m => (∀ i, (m i).Lawful) ∧
    ∀ i j, i ≠ j → ∀ c v w, (m i).Agrees c w → (m i).Agrees ((m j).merge c v) w

/-- Nothing announced is seen by `f`. -/
def Keeps {C α : Type} (f : C → α) : Announcement C → Prop
  | member apol _ => ∀ c x, f (apol.set c x) = f c
  | enumMember apol _ _ _ => ∀ c x, f (apol.set c x) = f c
  | emptyMember => True
  | members _ m => ∀ i, (m i).Keeps f
  | _ => ∀ c c', f c = f c'

/-- The code for every given type reads within the input and fails with an exception only. -/
def Safe {C : Type} : Announcement C → Prop
  | primitive _ _ | char | emptyMember => True
  | given uti _ => ∀ old, Checked (uti.deserialize old)
  | list elem => elem.Safe
  | map _ elem => elem.Safe
  | pair first second => first.Safe ∧ second.Safe
  | opt value => value.Safe
  | member _ type => type.Safe
  | enumMember _ type _ _ => type.Safe
  | members _ m => ∀ i, (m i).Safe

end Announcement

-- -------------------------
-- Reading what was written
-- -------------------------

namespace UniformTypeInfo

variable {C T : Type}

/-- The value can be written, and reading it makes `merge old` of the object `old`. -/
def Restores (uti : UniformTypeInfo C) (v : C) (merge : C → C) : Prop :=
  ∃ bs, uti.serialize v = .ok bs ∧
    ∀ old rest, uti.deserialize old (bs ++ rest) = .ok (merge old, rest)

/-- The elements of a container, one after the other. -/
theorem Restores.readInto {elem : UniformTypeInfo T} {g : T → T → T} {xs : List T}
    (insert : C → T → C) (old : T) (h : ∀ x ∈ xs, elem.Restores x fun old => g old x) :
    ∃ written, xs.mapM elem.serialize = .ok written ∧ ∀ storage rest,
      BoostActor.readInto insert (elem.deserialize old) xs.length storage
          (written.flatten ++ rest) =
        .ok ((xs.map (g old)).foldl insert storage, rest) := by
  induction xs with
  | nil => exact ⟨[], rfl, fun _ _ => rfl⟩
  | cons x xs ih =>
    obtain ⟨bs, hwrite, hread⟩ := h x List.mem_cons_self
    obtain ⟨written, hwritten, hreads⟩ := ih fun y hy => h y (List.mem_cons_of_mem x hy)
    refine ⟨bs :: written, ?_, fun storage rest => ?_⟩
    · rw [List.mapM_cons, hwrite, hwritten]
      rfl
    · rw [List.flatten_cons, List.append_assoc, List.length_cons, BoostActor.readInto,
        reader_bind (hread _ _)]
      exact hreads _ rest

/-- A container is read back element by element, behind its length. -/
theorem Restores.iterable [Inhabited T] {elems : C → List T} {clear : C} {insert : C → T → C}
    {elem : UniformTypeInfo T} {g : T → T → T} {v : C} (hlen : (elems v).length < 2 ^ 32)
    (h : ∀ x ∈ elems v, elem.Restores x fun old => g old x) :
    (iterableImpl elems clear insert elem).Restores v
      fun _ => ((elems v).map (g default)).foldl insert clear := by
  obtain ⟨written, hwritten, hreads⟩ := Restores.readInto insert default h
  refine ⟨writeUInt32 (castUInt32 (elems v).length) ++ written.flatten, ?_, fun old rest => ?_⟩
  · dsimp only [iterableImpl]
    rw [hwritten]
    rfl
  · have hsize : (castUInt32 (elems v).length).toNat = (elems v).length :=
      UInt32.toNat_ofNat_of_lt' hlen
    dsimp only [iterableImpl]
    rw [List.append_assoc, reader_bind (readUInt32_append _ _), hsize]
    exact hreads clear rest

/-- The members of an object, one after the other. -/
theorem Restores.members {ι : Type} {m : ι → UniformTypeInfo C} {merge : ι → C → C → C} {v : C}
    {is : List ι} (h : ∀ i ∈ is, (m i).Restores v fun old => merge i old v) :
    (defaultUniformTypeInfo (is.map m)).Restores v
      fun old => is.foldl (fun obj i => merge i obj v) old := by
  have hall : ∃ written, (is.map m).mapM (fun m => m.serialize v) = .ok written ∧ ∀ old rest,
      (is.map m).foldlM (fun obj m => m.deserialize obj) old (written.flatten ++ rest) =
        .ok (is.foldl (fun obj i => merge i obj v) old, rest) := by
    induction is with
    | nil => exact ⟨[], rfl, fun _ _ => rfl⟩
    | cons i is ih =>
      obtain ⟨bs, hwrite, hread⟩ := h i List.mem_cons_self
      obtain ⟨written, hwritten, hreads⟩ := ih fun j hj => h j (List.mem_cons_of_mem i hj)
      refine ⟨bs :: written, ?_, fun old rest => ?_⟩
      · rw [List.map_cons, List.mapM_cons, hwrite, hwritten]
        rfl
      · rw [List.map_cons, List.flatten_cons, List.append_assoc, List.foldlM_cons,
          reader_bind (hread old _)]
        exact hreads _ rest
  obtain ⟨written, hwritten, hreads⟩ := hall
  refine ⟨written.flatten, ?_, hreads⟩
  dsimp only [defaultUniformTypeInfo]
  rw [hwritten]
  rfl

end UniformTypeInfo

namespace Announcement

open UniformTypeInfo

/-- Appending one element after the other. -/
theorem foldl_concat {α : Type} (xs acc : List α) :
    xs.foldl (fun storage tmp => storage ++ [tmp]) acc = acc ++ xs := by
  induction xs generalizing acc with
  | nil => simp
  | cons x xs ih => rw [List.foldl_cons, ih, List.append_assoc, List.singleton_append]

variable {C : Type}

-- -------------------------
-- By induction on the announcement
-- -------------------------

/-- What was written is read, whatever it is written into. -/
theorem reads (a : Announcement C) (h : a.Lawful) {v : C} (hv : a.Fits v) :
    a.info.Restores v fun old => a.merge old v := by
  induction a with
  | primitive t ht => exact ⟨_, rfl, fun _ rest => readPrimitive_serialize t hv rest⟩
  | char => exact hv.elim
  | given uti exact => exact h v hv
  | list elem ih =>
    -- the size is read first, then as many elements
    have hreads : elem.info.listImpl.Restores v _ :=
      Restores.iterable hv.1 fun x hx => ih h (hv.2 x hx)
    rw [foldl_concat] at hreads
    exact hreads
  | map key elem ih => exact Restores.iterable hv.1 fun x hx => ih h.2.1 (hv.2 x hx)
  | pair first second ihf ihs =>
    obtain ⟨bs, hwrite, hread⟩ := ihf h.1 hv.1
    obtain ⟨bs', hwrite', hread'⟩ := ihs h.2 hv.2
    refine ⟨bs ++ bs', ?_, fun old rest => ?_⟩
    · dsimp only [info, pairImpl]
      rw [hwrite, hwrite']
      rfl
    · dsimp only [info, pairImpl]
      rw [List.append_assoc, reader_bind (hread _ _), reader_bind (hread' _ _)]
      rfl
  | opt value ih =>
    cases v with
    -- the byte in front says whether there is a value
    | none => exact ⟨_, rfl, fun _ rest => reader_bind (readUInt8_append 0 rest)⟩
    | some x =>
      obtain ⟨bs, hwrite, hread⟩ := ih h (hv x rfl)
      refine ⟨writeUInt8 1 ++ bs, ?_, fun old rest => ?_⟩
      · dsimp only [info, optImpl]
        rw [hwrite]
        rfl
      · dsimp only [info, optImpl]
        rw [List.append_assoc, reader_bind (readUInt8_append _ _), if_pos (by decide),
          reader_bind (hread _ _)]
        rfl
  | member apol type ih =>
    obtain ⟨bs, hwrite, hread⟩ := ih h.1 hv
    exact ⟨bs, hwrite, fun old rest => reader_bind (hread _ _)⟩
  | enumMember apol type toValue ofValue ih =>
    obtain ⟨bs, hwrite, hread⟩ := ih h.1 hv
    exact ⟨bs, hwrite, fun old rest => reader_bind (hread _ _)⟩
  | emptyMember => exact ⟨[], rfl, fun _ _ => rfl⟩
  | members n m ih => exact Restores.members fun i _ => ih i (h.1 i) (hv i)

-- -------------------------
-- What is announced and what is not
-- -------------------------

/-- The members after `i` leave alone what `i` has written. -/
theorem foldl_keeps {ι : Type} {P : C → Prop} {f : ι → C → C} {is : List ι}
    (h : ∀ i ∈ is, ∀ c, P c → P (f i c)) {c : C} (hc : P c) :
    P (is.foldl (fun c i => f i c) c) := by
  induction is generalizing c with
  | nil => exact hc
  | cons i is ih =>
    exact ih (fun j hj => h j (List.mem_cons_of_mem i hj)) (h i List.mem_cons_self c hc)

/-- What each write establishes and the others keep holds after all of them. -/
theorem foldl_establishes {ι : Type} [DecidableEq ι] {P : ι → C → Prop} {f : ι → C → C}
    {is : List ι} (hwrite : ∀ i c, P i (f i c)) (hkeep : ∀ i j, i ≠ j → ∀ c, P i c → P i (f j c))
    {i : ι} (hi : i ∈ is) (c : C) : P i (is.foldl (fun c i => f i c) c) := by
  induction is generalizing c with
  | nil => cases hi
  | cons j js ih =>
    by_cases hlater : i ∈ js
    · exact ih hlater _
    · obtain rfl | hi := List.mem_cons.mp hi
      · rw [List.foldl_cons]
        refine foldl_keeps (fun j hj c hc => ?_) (hwrite i c)
        exact hkeep i j (fun heq => hlater (heq ▸ hj)) c hc
      · exact absurd hi hlater

/-- The announced parts are overwritten. -/
theorem agrees_merge (a : Announcement C) (h : a.Lawful) (old v : C) :
    a.Agrees (a.merge old v) v := by
  induction a with
  | primitive | char | given => rfl
  | list elem ih =>
    show List.Forall₂ elem.Agrees (v.map (elem.merge default)) v
    rw [List.forall₂_map_left_iff]
    exact List.forall₂_same.mpr fun x _ => ih h default x
  | map key elem ih =>
    -- an element that is read back is the same, so that the order of the set is
    obtain ⟨hasymm, helem, heq⟩ := h
    have hsame : v.elems.map (elem.merge default) = v.elems :=
      List.map_id'' (fun x => heq _ _ (ih helem default x)) _
    show SortedList.ofList (v.elems.map (elem.merge default)) = v
    rw [hsame, SortedList.ofList_elems]
  | pair first second ihf ihs => exact ⟨ihf h.1 _ _, ihs h.2 _ _⟩
  | opt value ih =>
    cases v with
    | none => exact .none
    | some x => exact .some (ih h default x)
  | member apol type ih =>
    -- the setter is followed by the getter
    show type.Agrees (apol.get (apol.set old _)) (apol.get v)
    rw [h.2]
    exact ih h.1 _ _
  | enumMember apol type toValue ofValue ih =>
    obtain ⟨htype, heq, hset, henum⟩ := h
    show apol.get (apol.set old _) = apol.get v
    rw [hset, heq _ _ (ih htype default _), henum]
  | emptyMember => trivial
  | members n m ih =>
    intro i
    -- other members do not write what the `i`-th one has written
    exact foldl_establishes (P := fun i c => (m i).Agrees c v) (fun i c => ih i (h.1 i) c v)
      (fun i j hij c hc => h.2 i j hij c v v hc) (List.mem_finRange i) old

/-- Everything else stays as it was. -/
theorem merge_keeps {α : Type} {f : C → α} (a : Announcement C) (h : a.Keeps f) (old v : C) :
    f (a.merge old v) = f old := by
  induction a with
  | primitive | char | given | list | map | pair | opt => exact h _ _
  | member => exact h _ _
  | enumMember => exact h _ _
  | emptyMember => rfl
  | members n m ih =>
    exact foldl_keeps (P := fun c => f c = f old) (fun i _ c hc => (ih i (h i) c v).trans hc) rfl

-- -------------------------
-- Any input
-- -------------------------

theorem checked_readInto {D T : Type} {insert : D → T → D} {elem : Reader T} (h : Checked elem) :
    ∀ n storage, Checked (readInto insert elem n storage)
  | 0, _ => .pure _
  | n + 1, _ => h.bind fun _ => checked_readInto h n _

/-- The same for the members of a class. -/
theorem checked_foldlM {D ι : Type} {m : ι → D → Reader D} (h : ∀ i d, Checked (m i d)) :
    ∀ (is : List ι) (d : D), Checked (is.foldlM (fun d i => m i d) d)
  | [], _ => .pure _
  | i :: is, d => by
    rw [List.foldlM_cons]
    exact (h i d).bind fun _ => checked_foldlM h is _

/-- What the templates make of safe announcements is checked. -/
theorem checked_info (a : Announcement C) (h : a.Safe) (old : C) :
    Checked (a.info.deserialize old) := by
  induction a with
  | primitive t ht => exact checked_readPrimitive t
  | char => exact checked_readChar
  | given uti exact => exact h old
  | list elem ih => exact Checked.readUInt32.bind fun _ => checked_readInto (ih h _) _ _
  | map key elem ih => exact Checked.readUInt32.bind fun _ => checked_readInto (ih h _) _ _
  | pair first second ihf ihs => exact (ihf h.1 _).bind fun _ => (ihs h.2 _).map _
  | opt value ih =>
    refine Checked.readUInt8.bind fun flag => ?_
    split
    · exact (ih h _).map _
    · exact .pure _
  | member apol type ih => exact (ih h _).map _
  | enumMember apol type toValue ofValue ih => exact (ih h _).map _
  | emptyMember => exact .pure _
  | members n m ih =>
    show Checked (((List.finRange n).map fun i => (m i).info).foldlM _ old)
    rw [List.foldlM_map]
    exact checked_foldlM (fun i => ih i (h i)) _ _

-- -------------------------
-- Given types
-- -------------------------

/-- A floating point number, with `pack754` and `unpack754`, or the conversions of a `long double`
to and from text. There is no result where `pack754` does not end. -/
def floatingPoint (t : PrimitiveType) {F : Type} (pack : F → Option t.Val) (unpack : t.Val → F) :
    Announcement F :=
  .given
    { serialize := fun v => match pack v with
        | some val => .ok (PrimitiveVariant.mk t val).writeValue
        | none => .error (.undefined "no result")
      deserialize := fun _ => do return unpack (← readPrimitive t) }
    fun v => ∃ val, pack v = some val ∧ t.Fits val ∧ unpack val = v

instance : Inhabited PlainValue := ⟨.unit⟩

/-- A type of the library that holds neither a handle nor a message. -/
def plain (t : PlainType) : Announcement PlainValue :=
  .given ⟨fun v => .ok v.serialize, fun _ => t.deserialize⟩
    fun v => v.type = t ∧ v.Fits ∧ v.Normal ∧ ¬ v.HoldsChars

/-- A message, read with the given type map. -/
def message (tm : TypeMap) (serialize : List Value → Except Fault Bytes)
    (exact : List Value → Prop) : Announcement (List Value) :=
  .given
    ⟨serialize, fun _ bs =>
      (Message.deserialize tm bs).result.map fun (xs, source) => (xs, source.bytes)⟩
    exact

/-- Floating point numbers restore the values that they pack to themselves. -/
theorem floatingPoint_lawful {t : PrimitiveType} {F : Type} {pack : F → Option t.Val}
    {unpack : t.Val → F} : (floatingPoint t pack unpack).Lawful := by
  rintro v ⟨val, hpack, hfits, hunpack⟩
  refine ⟨(PrimitiveVariant.mk t val).writeValue, ?_, fun _ rest => ?_⟩
  · dsimp only
    rw [hpack]
  · rw [← hunpack]
    exact reader_bind (readPrimitive_serialize t hfits rest)

/-- They are read like the primitive type they are packed to. -/
theorem floatingPoint_safe {t : PrimitiveType} {F : Type} {pack : F → Option t.Val}
    {unpack : t.Val → F} : (floatingPoint t pack unpack).Safe :=
  fun _ => (checked_readPrimitive t).map _

/-- Values of a plain type are read as they were written. -/
theorem plain_lawful (t : PlainType) : (plain t).Lawful := by
  rintro v ⟨rfl, hfits, hnormal, hchars⟩
  exact ⟨_, rfl, fun _ rest => PlainType.deserialize_serialize hfits hnormal hchars rest⟩

theorem plain_safe (t : PlainType) : (plain t).Safe := fun _ => t.checked_deserialize

/-- Messages are read safely only from bytes that do not lead to one of the things that
`message::deserialize` does not check, so classes with a message are not. -/
theorem message_not_safe (serialize : List Value → Except Fault Bytes)
    (exact : List Value → Prop) : ¬ (message TypeMap.empty serialize exact).Safe := by
  intro h
  exact (h []).2 (writeUInt16 999) "type number out of range" rfl

end Announcement

/-- The serialization of an object, read into another one of its type. -/
theorem announced_roundTrip {C : Type} (a : Announcement C) (h : a.Lawful) {v : C}
    (hv : a.Fits v) : ∃ bs, a.info.serialize v = .ok bs ∧
      ∀ old rest, ∃ v', a.info.deserialize old (bs ++ rest) = .ok (v', rest) ∧
        a.Agrees v' v ∧ ∀ (α : Type) (f : C → α), a.Keeps f → f v' = f old :=
  let ⟨bs, hwrite, hread⟩ := a.reads h hv
  ⟨bs, hwrite, fun old rest => ⟨_, hread old rest, a.agrees_merge h old v,
    fun _ _ hf => a.merge_keeps hf old v⟩⟩

/-- A class with a vector, a duration behind a getter and a setter, a `double` that may be an
infinity, and a flag that is not announced. -/
def exampleClass : Announcement (List Int32 × PlainValue × Option UInt64 × Bool) :=
  .members 3 fun
    | 0 => .member ⟨fun c => c.1, fun c x => (x, c.2), true⟩ (.list (.primitive .int32 rfl))
    | 1 => .member (T := PlainValue) ⟨fun c => c.2.1, fun c x => (c.1, x, c.2.2), false⟩
      (.plain .duration)
    | 2 => .member ⟨fun c => c.2.2.1, fun c x => (c.1, c.2.1, x, c.2.2.2), true⟩
      (.floatingPoint .double id some)

/-- The class of the example respects what it has to. -/
theorem exampleClass_lawful : exampleClass.Lawful := by
  refine ⟨fun i => ?_, fun i j hij c v w hc => ?_⟩
  · match i with
    | 0 => exact ⟨trivial, fun _ _ => rfl⟩
    | 1 => exact ⟨Announcement.plain_lawful _, fun _ _ => rfl⟩
    | 2 => exact ⟨Announcement.floatingPoint_lawful, fun _ _ => rfl⟩
  · match i, j with
    | 0, 0 | 1, 1 | 2, 2 => exact absurd rfl hij
    | 0, 1 | 0, 2 | 1, 0 | 1, 2 | 2, 0 | 2, 1 => exact hc

/-- The object of the example can be read back. -/
theorem exampleClass_fits :
    exampleClass.Fits ([3, 4], .duration ⟨.seconds, 5⟩, some 6, false) := by
  intro i
  match i with
  | 0 => exact ⟨by decide, fun _ _ => trivial⟩
  | 1 => exact ⟨rfl, trivial, trivial, id⟩
  | 2 => exact ⟨6, rfl, trivial, rfl⟩

/-- What is not announced stays as it is. -/
theorem announced_roundTrip_example : ∃ bs v',
    exampleClass.info.serialize ([3, 4], .duration ⟨.seconds, 5⟩, some 6, false) = .ok bs ∧
      exampleClass.info.deserialize ([1], .unit, none, true) (bs ++ [0]) = .ok (v', [0]) ∧
        exampleClass.Agrees v' ([3, 4], .duration ⟨.seconds, 5⟩, some 6, false) ∧
          v'.2.2.2 = true := by
  obtain ⟨bs, hwrite, hread⟩ :=
    announced_roundTrip exampleClass exampleClass_lawful exampleClass_fits
  obtain ⟨v', hread, hagrees, hkeep⟩ := hread ([1], .unit, none, true) [0]
  refine ⟨bs, v', hwrite, hread, hagrees, hkeep Bool (fun c => c.2.2.2) fun i => ?_⟩
  match i with
  | 0 | 1 | 2 => exact fun _ _ => rfl

/-- Whatever is read as an announced type: nothing behind the end of the input, and what cannot be
read is an exception, as long as this is the case for the types that are given. -/
theorem announced_checked {C : Type} (a : Announcement C) (h : a.Safe) (old : C) :
    (∀ bs v rest, a.info.deserialize old bs = .ok (v, rest) → rest <:+ bs) ∧
      ∀ bs what, a.info.deserialize old bs ≠ .error (.undefined what) :=
  a.checked_info h old

/-- The class of the example is safe. -/
theorem exampleClass_safe : exampleClass.Safe := by
  intro i
  match i with
  | 0 => trivial
  | 1 => exact Announcement.plain_safe _
  | 2 => exact Announcement.floatingPoint_safe

/-- The class of the example, read from any bytes. -/
theorem announced_checked_example :
    (∀ bs v rest, exampleClass.info.deserialize ([], .unit, none, false) bs = .ok (v, rest) →
      rest <:+ bs) ∧
      ∀ bs what, exampleClass.info.deserialize ([], .unit, none, false) bs ≠
        .error (.undefined what) :=
  announced_checked exampleClass exampleClass_safe _

end BoostActor
