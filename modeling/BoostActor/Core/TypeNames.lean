import Mathlib.Data.List.Nodup
import BoostActor.Core.Message

/-!
# The names of tuple types

The type name of a message is `@<>` and the names of its element types, each
behind a `+`. Of builtin types it can be taken apart again, since no name of a
builtin type has a `+` in it.

* `splitNames_tupleName` — taking the name apart;
* `TypeMap.byUniformName_of_knows` — a type map that does not have something else
  under that name yields the tuple type of these elements;
* `TypeMap.byUniformName_of_not_knows` — otherwise it yields that other type.
-/

namespace BoostActor

-- -------------------------
-- Builtin names
-- -------------------------

/-- Every builtin type has an entry. -/
theorem Builtin.mem_types (b : Builtin) : b ∈ builtinTypes.map Prod.snd := by
  unfold builtinTypes
  rcases b with t | t | _
  · cases t with
    | primitive t => cases t <;> simp
    | _ => simp
  · cases t <;> simp
  · simp

/-- Its number is the position of the entry, counted from one. -/
theorem Builtin.getElem?_typeNr (b : Builtin) :
    b.typeNr ≠ 0 ∧ builtinTypes[b.typeNr.toNat - 1]? = some (b.name, b) := by
  have hmem : ∃ entry ∈ builtinTypes, entry.2 = b := List.mem_map.mp b.mem_types
  obtain ⟨entry, hentry, heq⟩ := hmem
  have hlt : builtinTypes.findIdx (fun entry => entry.2 = b) < builtinTypes.length :=
    List.findIdx_lt_length_of_exists ⟨entry, hentry, by simpa using heq⟩
  have hlen : builtinTypes.length < 100 := by decide
  have hnr : b.typeNr.toNat = builtinTypes.findIdx (fun entry => entry.2 = b) + 1 := by
    rw [typeNr, UInt16.toNat_ofNat']
    omega
  have hsnd : (builtinTypes[b.typeNr.toNat - 1]?).map Prod.snd = some b := by
    rw [hnr, Nat.add_sub_cancel, List.getElem?_eq_getElem hlt]
    exact congrArg some (of_decide_eq_true (List.findIdx_getElem (w := hlt)))
  constructor
  · intro h0
    rw [h0] at hnr
    cases hnr
  · rw [Option.map_eq_some_iff] at hsnd
    obtain ⟨⟨n, b'⟩, hget, rfl⟩ := hsnd
    rw [name, hget]
    rfl

theorem Builtin.typeNr_ne_zero (b : Builtin) : b.typeNr ≠ 0 := b.getElem?_typeNr.1

theorem Builtin.name_mem (b : Builtin) : (b.name, b) ∈ builtinTypes :=
  List.mem_of_getElem? b.getElem?_typeNr.2

/-- No two builtin types have the same name. -/
theorem builtinTypes_nodup : (builtinTypes.map Prod.fst).Nodup := by
  decide

/-- And nothing else is. -/
theorem Builtin.find_name (b : Builtin) :
    builtinTypes.find? (·.1 = b.name) = some (b.name, b) := by
  cases hf : builtinTypes.find? (·.1 = b.name) with
  | none => exact absurd (decide_eq_true rfl) (List.find?_eq_none.mp hf _ b.name_mem)
  | some entry =>
    have hname : entry.1 = b.name := by simpa using List.find?_some hf
    have hinj := List.inj_on_of_nodup_map builtinTypes_nodup
    exact congrArg some (hinj (List.mem_of_find?_eq_some hf) b.name_mem hname)

theorem Builtin.name_injective {b b' : Builtin} (h : b.name = b'.name) : b = b' := by
  have hfind := b.find_name
  rw [h, b'.find_name] at hfind
  exact (congrArg Prod.snd (Option.some.inj hfind)).symm

/-- No name of a builtin type has a null character or a `+` in it, and none starts
like that of a message. -/
theorem builtinTypes_names : ∀ entry ∈ builtinTypes,
    0 ∉ entry.1 ∧ 43 ∉ entry.1 ∧ tuplePrefix.isPrefixOf entry.1 = false := by
  decide

-- -------------------------
-- Tuple names
-- -------------------------

/-- The name of the tuple type of some builtin types. -/
def tupleName (bs : List Builtin) : Bytes := tuplePrefix ++ bs.flatMap fun b => 43 :: b.name

/-- The types of its elements. -/
def elementsOf (bs : List Builtin) : List (Option TypeInfo) := bs.map fun b => some (.builtin b)

theorem allComplete_elementsOf (bs : List Builtin) : allComplete (elementsOf bs) = true := by
  induction bs with
  | nil => rfl
  | cons b bs ih => exact ih

theorem splitNames_of_not_mem {n : Bytes} (h : 43 ∉ n) : splitNames n = [n] := by
  induction n with
  | nil => rfl
  | cons c cs ih =>
    obtain ⟨hc, hcs⟩ := not_or.mp (List.mem_cons.not.mp h)
    rw [splitNames, if_neg (Ne.symm hc), ih hcs]

theorem splitNames_append {n : Bytes} (h : 43 ∉ n) (rest : Bytes) :
    splitNames (n ++ 43 :: rest) = n :: splitNames rest := by
  induction n with
  | nil => rfl
  | cons c cs ih =>
    obtain ⟨hc, hcs⟩ := not_or.mp (List.mem_cons.not.mp h)
    rw [List.cons_append, splitNames, if_neg (Ne.symm hc), ih hcs]

/-- A name and those of built-in types. -/
theorem splitNames_names {n : Bytes} (h : 43 ∉ n) (bs : List Builtin) :
    splitNames (n ++ bs.flatMap fun b => 43 :: b.name) = n :: bs.map Builtin.name := by
  induction bs generalizing n with
  | nil => exact (congrArg splitNames (List.append_nil n)).trans (splitNames_of_not_mem h)
  | cons b bs ih =>
    rw [List.flatMap_cons, List.cons_append, splitNames_append h,
      ih (builtinTypes_names _ b.name_mem).2.1]
    rfl

/-- The name of a tuple splits into those of its elements. -/
theorem splitNames_tupleName (bs : List Builtin) :
    splitNames (tupleName bs) = tuplePrefix :: bs.map Builtin.name :=
  splitNames_names (by decide) bs

/-- Different lists of types have different names. -/
theorem tupleName_injective {bs bs' : List Builtin} (h : tupleName bs = tupleName bs') :
    bs = bs' := by
  have hsplit := splitNames_tupleName bs
  rw [h, splitNames_tupleName bs'] at hsplit
  exact ((List.map_inj_right fun _ _ => Builtin.name_injective).mp
    (List.cons.inj hsplit).2).symm

/-- The name of a tuple has no zero byte. -/
theorem zero_not_mem_tupleName (bs : List Builtin) : 0 ∉ tupleName bs := by
  intro h
  rcases List.mem_append.mp h with h | h
  · exact absurd h (by decide)
  · obtain ⟨b, -, hb⟩ := List.mem_flatMap.mp h
    rcases List.mem_cons.mp hb with hb | hb
    · exact absurd hb (by decide)
    · exact (builtinTypes_names _ b.name_mem).1 hb

/-- A C string without a zero byte. -/
theorem cString_of_not_mem {s : Bytes} (h : 0 ∉ s) : cString s = s := by
  induction s with
  | nil => rfl
  | cons c cs ih =>
    obtain ⟨hc, hcs⟩ := not_or.mp (List.mem_cons.not.mp h)
    have hpos : decide (c ≠ 0) = true := decide_eq_true (Ne.symm hc)
    rw [cString, List.takeWhile_cons, if_pos hpos]
    exact congrArg (c :: ·) (ih hcs)

theorem isPrefixOf_tupleName (bs : List Builtin) :
    tuplePrefix.isPrefixOf (tupleName bs) = true :=
  List.isPrefixOf_iff_prefix.mpr (List.prefix_append _ _)

/-- It is not the name of a built-in type. -/
theorem find_tupleName (bs : List Builtin) : builtinTypes.find? (·.1 = tupleName bs) = none := by
  refine List.find?_eq_none.mpr fun entry hentry heq => ?_
  have hprefix := (builtinTypes_names entry hentry).2.2
  rw [of_decide_eq_true heq, isPrefixOf_tupleName] at hprefix
  cases hprefix

-- -------------------------
-- Looking them up
-- -------------------------

namespace TypeMap

variable {tm : TypeMap}

/-- What the map has under the name of the tuple type, if anything, has these
elements. -/
def Knows (tm : TypeMap) (bs : List Builtin) : Prop :=
  ∀ t, tm.userTypes (tupleName bs) = some t → ∃ name, t = .tuple name (elementsOf bs)

/-- The same tuple types of builtin types are known. -/
def SameKnown (tm tm' : TypeMap) : Prop := ∀ bs, tm'.Knows bs ↔ tm.Knows bs

theorem SameKnown.refl (tm : TypeMap) : tm.SameKnown tm := fun _ => Iff.rfl

theorem SameKnown.trans {tm₁ tm₂ tm₃ : TypeMap} (h : tm₁.SameKnown tm₂)
    (h' : tm₂.SameKnown tm₃) : tm₁.SameKnown tm₃ := fun bs => (h' bs).trans (h bs)

theorem lookup_name (elements : TypeMap → List (Option TypeInfo) × TypeMap) (b : Builtin) :
    tm.lookup elements b.name = (some (.builtin b), tm) := by
  rw [lookup, b.find_name]

/-- The elements of a tuple are looked up one by one. -/
theorem elementTypes_names (bs : List Builtin) (tm : TypeMap) :
    elementTypes (bs.map Builtin.name) tm = (elementsOf bs, tm) := by
  induction bs with
  | nil => rfl
  | cons b bs ih =>
    rw [List.map_cons, elementTypes, lookup_name]
    simp only [ih]
    rfl

/-- A new tuple type. -/
theorem byUniformName_of_none {bs : List Builtin} (h : tm.userTypes (tupleName bs) = none) :
    tm.byUniformName (tupleName bs) = (some (.tuple (tupleName bs) (elementsOf bs)),
      (tm.insert (tupleName bs) (elementsOf bs)).2) := by
  have hzero := zero_not_mem_tupleName bs
  have hinsert : (tm.insert (tupleName bs) (elementsOf bs)).1 =
      .tuple (tupleName bs) (elementsOf bs) := by
    rw [insert]
    split
    next known hknown =>
      rw [cString_of_not_mem hzero, h] at hknown
      cases hknown
    · rfl
  have hfind : tm.findName (tupleName bs) = none := by rw [findName, if_neg hzero, h]
  rw [byUniformName, lookup, find_tupleName]
  simp only [hfind, isPrefixOf_tupleName, if_true]
  rw [splitNames_tupleName, List.tail_cons, elementTypes_names, hinsert]

/-- The lookup of a name that was announced. -/
theorem byUniformName_of_some {bs : List Builtin} {t : TypeInfo}
    (h : tm.userTypes (tupleName bs) = some t) :
    tm.byUniformName (tupleName bs) = (some t, tm) := by
  have hfind : tm.findName (tupleName bs) = some t := by
    rw [findName, if_neg (zero_not_mem_tupleName bs), h]
  rw [byUniformName, lookup, find_tupleName]
  simp only [hfind]

/-- Storing the tuple announces no other. -/
theorem sameKnown_insert {bs : List Builtin} (h : tm.userTypes (tupleName bs) = none) :
    tm.SameKnown (tm.insert (tupleName bs) (elementsOf bs)).2 := by
  have hzero := cString_of_not_mem (zero_not_mem_tupleName bs)
  have htypes : ∀ key, (tm.insert (tupleName bs) (elementsOf bs)).2.userTypes key =
      if key = tupleName bs then some (.tuple (tupleName bs) (elementsOf bs))
      else tm.userTypes key := by
    intro key
    rw [insert]
    split
    next known hknown =>
      rw [hzero, h] at hknown
      cases hknown
    · simp only [hzero]
  intro bs'
  unfold Knows
  rw [htypes]
  -- the stored entry is this tuple
  by_cases hname : tupleName bs' = tupleName bs
  · obtain rfl := tupleName_injective hname
    rw [if_pos rfl, h]
    constructor
    · intro _ t ht
      cases ht
    · intro _ t ht
      exact ⟨_, (Option.some.inj ht).symm⟩
  · rw [if_neg hname]

/-- A known tuple is found under its name. -/
theorem byUniformName_of_knows {bs : List Builtin} (h : tm.Knows bs) :
    ∃ name tm', tm.byUniformName (tupleName bs) = (some (.tuple name (elementsOf bs)), tm') ∧
      tm.SameKnown tm' := by
  cases ht : tm.userTypes (tupleName bs) with
  | none => exact ⟨_, _, byUniformName_of_none ht, sameKnown_insert ht⟩
  | some t =>
    obtain ⟨name, rfl⟩ := h t ht
    exact ⟨name, tm, byUniformName_of_some ht, .refl tm⟩

/-- A name that was announced for something else is not. -/
theorem byUniformName_of_not_knows {bs : List Builtin} (h : ¬ tm.Knows bs) :
    ∃ t, tm.byUniformName (tupleName bs) = (some t, tm) ∧
      (∀ b, t ≠ .builtin b) ∧ ∀ name, t ≠ .tuple name (elementsOf bs) := by
  cases ht : tm.userTypes (tupleName bs) with
  | none =>
    refine absurd (fun t h' => ?_) h
    rw [ht] at h'
    cases h'
  | some t =>
    refine ⟨t, byUniformName_of_some ht, fun b hb => tm.user _ b (hb ▸ ht), fun name hname => h ?_⟩
    intro t' ht'
    rw [ht] at ht'
    exact ⟨name, (Option.some.inj ht').symm.trans hname⟩

end TypeMap

end BoostActor
