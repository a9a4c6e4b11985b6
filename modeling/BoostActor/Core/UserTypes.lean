import Mathlib.Data.List.TakeWhile
import BoostActor.Core.TypeNames
import BoostActor.Lib.LowerBound
import BoostActor.Lib.Run
import BoostActor.Lib.SortedList

/-!
# The vector of user types

`utim_impl` (`uniform_type_info_map.cpp`) keeps the types a program adds in a
vector sorted by name. `insert` looks for the position with `strcmp` on the names
of two types, `find_name` with the comparison of a name and a `std::string`.

* `strcmp_neg_iff`, `stringCompare_neg_iff` — both are the lexicographic order on
  strings without a null character;
* `UserTypes.insert_sorted` — the vector stays sorted;
* `UserTypes.byUniformName_refines` — a lookup in the vector is one in the
  `TypeMap` it stands for;
* `UserTypes.plainRun_consistent` — in the runs whose steps are all `Plain`, types
  are found under the names they were added with.
-/

namespace BoostActor

open Lib

-- -------------------------
-- Comparing names
-- -------------------------

/-- `strcmp` on null-terminated strings, here without their terminator. -/
def strcmp : Bytes → Bytes → Int
  | [], [] => 0
  | [], b :: _ => -b.toNat
  | a :: _, [] => a.toNat
  | a :: as, b :: bs =>
    if a = b then if a = 0 then 0 else strcmp as bs else (a.toNat : Int) - b.toNat

/-- `char_traits<char>::compare`, as far as both strings go. -/
def traitsCompare : Bytes → Bytes → Int
  | a :: as, b :: bs => if a = b then traitsCompare as bs else (a.toNat : Int) - b.toNat
  | _, _ => 0

/-- `std::string::compare`: the common part first, then the sizes. -/
def stringCompare (lhs rhs : Bytes) : Int :=
  let res := traitsCompare lhs rhs
  if res ≠ 0 then res else (lhs.length : Int) - rhs.length

-- -------------------------
-- Comparisons of names
-- -------------------------

theorem toNat_sub_neg_iff {a b : UInt8} : (a.toNat : Int) - b.toNat < 0 ↔ a < b := by
  rw [UInt8.lt_iff_toNat_lt]
  omega

theorem toNat_sub_ne_zero {a b : UInt8} (h : a ≠ b) : (a.toNat : Int) - b.toNat ≠ 0 := by
  intro hz
  exact h (UInt8.toNat_inj.mp (by omega))

/-- On names without null characters `strcmp` is negative exactly in the order of bytes. -/
theorem strcmp_neg_iff : ∀ {as bs : Bytes}, 0 ∉ as → 0 ∉ bs → (strcmp as bs < 0 ↔ as < bs)
  | [], [], _, _ => by simp [strcmp]
  | [], b :: bs, _, hb => by
    have hne : b ≠ 0 := fun h => hb (h ▸ List.mem_cons_self)
    have hpos := toNat_sub_ne_zero hne
    simp only [strcmp, List.nil_lt_cons, iff_true]
    simp at hpos
    omega
  | a :: as, [], _, _ => by simp [strcmp]
  | a :: as, b :: bs, ha, hb => by
    have ih := strcmp_neg_iff (fun h => ha (List.mem_cons_of_mem a h))
      (fun h => hb (List.mem_cons_of_mem b h))
    rw [strcmp, List.cons_lt_cons_iff]
    by_cases hab : a = b
    · have hne : a ≠ 0 := fun h => ha (h ▸ List.mem_cons_self)
      rw [if_pos hab, if_neg hne, ih]
      simp [hab]
    · rw [if_neg hab, toNat_sub_neg_iff]
      simp [hab]

/-- On names without null characters `strcmp` is zero exactly for equal names. -/
theorem strcmp_eq_zero_iff : ∀ {as bs : Bytes}, 0 ∉ as → 0 ∉ bs → (strcmp as bs = 0 ↔ as = bs)
  | [], [], _, _ => by simp [strcmp]
  | [], b :: bs, _, hb => by
    have hpos := toNat_sub_ne_zero (fun h => hb (h ▸ List.mem_cons_self) : b ≠ 0)
    simp only [strcmp]
    simp at hpos ⊢
    omega
  | a :: as, [], ha, _ => by
    have hpos := toNat_sub_ne_zero (fun h => ha (h ▸ List.mem_cons_self) : a ≠ 0)
    simp only [strcmp]
    simp at hpos ⊢
    omega
  | a :: as, b :: bs, ha, hb => by
    have ih := strcmp_eq_zero_iff (fun h => ha (List.mem_cons_of_mem a h))
      (fun h => hb (List.mem_cons_of_mem b h))
    rw [strcmp]
    by_cases hab : a = b
    · have hne : a ≠ 0 := fun h => ha (h ▸ List.mem_cons_self)
      rw [if_pos hab, if_neg hne, ih]
      simp [hab]
    · rw [if_neg hab]
      simp [hab, toNat_sub_ne_zero hab]

/-- `std::string::compare` skips a common first character. -/
theorem stringCompare_cons (a b : UInt8) (as bs : Bytes) :
    stringCompare (a :: as) (b :: bs) =
      if a = b then stringCompare as bs else (a.toNat : Int) - b.toNat := by
  rw [stringCompare, traitsCompare]
  by_cases hab : a = b
  · rw [if_pos hab, if_pos hab, stringCompare, List.length_cons, List.length_cons]
    split
    · rfl
    · omega
  · rw [if_neg hab, if_neg hab, if_pos (toNat_sub_ne_zero hab)]

/-- `std::string::compare` is negative exactly in the order of bytes. -/
theorem stringCompare_neg_iff : ∀ {as bs : Bytes}, stringCompare as bs < 0 ↔ as < bs
  | [], [] => by simp [stringCompare, traitsCompare]
  | [], b :: bs => by
    have hlength : stringCompare [] (b :: bs) = -(bs.length + 1 : Int) := by
      show ((0 : Nat) : Int) - ((bs.length + 1 : Nat) : Int) = _
      omega
    exact iff_of_true (by omega) (List.nil_lt_cons b bs)
  | a :: as, [] => by
    have hlength : stringCompare (a :: as) [] = as.length + 1 := rfl
    exact iff_of_false (by omega) (List.not_lt_nil _)
  | a :: as, b :: bs => by
    rw [stringCompare_cons, List.cons_lt_cons_iff]
    by_cases hab : a = b
    · rw [if_pos hab, stringCompare_neg_iff]
      simp [hab]
    · rw [if_neg hab, toNat_sub_neg_iff]
      simp [hab]

/-- Swapping the arguments of `std::string::compare` changes its sign. -/
theorem stringCompare_swap : ∀ as bs : Bytes, stringCompare bs as = -stringCompare as bs
  | [], [] => by simp [stringCompare, traitsCompare]
  | [], b :: bs => by simp [stringCompare, traitsCompare]
  | a :: as, [] => by simp [stringCompare, traitsCompare]
  | a :: as, b :: bs => by
    rw [stringCompare_cons, stringCompare_cons, stringCompare_swap as bs]
    by_cases hab : a = b
    · rw [if_pos hab, if_pos hab.symm]
    · rw [if_neg hab, if_neg (Ne.symm hab)]
      omega

/-- `std::string::compare` is positive exactly when the second string comes first. -/
theorem stringCompare_pos_iff {as bs : Bytes} : 0 < stringCompare as bs ↔ bs < as := by
  rw [← stringCompare_neg_iff, stringCompare_swap as bs]
  omega

/-- `std::string::compare` is zero exactly for equal strings. -/
theorem stringCompare_eq_zero_iff : ∀ {as bs : Bytes}, stringCompare as bs = 0 ↔ as = bs
  | [], [] => by simp [stringCompare, traitsCompare]
  | [], b :: bs => by
    simp [stringCompare, traitsCompare]
    omega
  | a :: as, [] => by
    simp [stringCompare, traitsCompare]
    omega
  | a :: as, b :: bs => by
    rw [stringCompare_cons]
    by_cases hab : a = b
    · rw [if_pos hab, stringCompare_eq_zero_iff]
      simp [hab]
    · rw [if_neg hab]
      simp [hab, toNat_sub_ne_zero hab]

-- -------------------------
-- The vector
-- -------------------------

/-- `uniform_type_info::name`, a C string. -/
def TypeInfo.name : TypeInfo → Bytes
  | .builtin b => b.name
  | .announced n _ => cString n
  | .tuple n _ => cString n

/-- The `std::string` a type was made with. -/
def TypeInfo.givenName : TypeInfo → Bytes
  | .builtin b => b.name
  | .announced n _ => n
  | .tuple n _ => n

/-- A type object on the heap: all types but the builtin ones. -/
structure UserType where
  address : Nat
  info : TypeInfo
  user : ∀ b, info ≠ .builtin b

def UserType.name (t : UserType) : Bytes := t.info.name

/-- A `uniform_type_info` pointer that is not null. -/
inductive TypePtr where
  | builtin (b : Builtin)
  | user (t : UserType)

def TypePtr.info : TypePtr → TypeInfo
  | .builtin b => .builtin b
  | .user t => t.info

def TypePtr.name (p : TypePtr) : Bytes := p.info.name

/-- `find_name`: the element at the lower bound, if it has the name. -/
def findName {α : Type} (name : α → Bytes) (types : List α) (n : Bytes) : Option α :=
  match types[lowerBound (fun lhs => decide (0 < stringCompare n (name lhs))) types]? with
  | some x => if stringCompare n (name x) = 0 then some x else none
  | none => none

/-- `user_types_`, and the address that the next object gets. -/
structure UserTypes where
  types : List UserType
  next : Nat

namespace UserTypes

/-- The vector at the start of a program. -/
def empty : UserTypes := ⟨[], 0⟩

/-- `insert` of an object: the type that is there already, or the new one at its
place in the order. -/
def insert (ut : UserTypes) (uti : UserType) : UserType × UserTypes :=
  let i := lowerBound (fun lhs => decide (strcmp lhs.name uti.name < 0)) ut.types
  match ut.types[i]? with
  | none => (uti, { ut with types := ut.types ++ [uti] })
  | some known =>
    if strcmp uti.name known.name = 0 then (known, ut)
    else (uti, { ut with types := ut.types.take i ++ uti :: ut.types.drop i })

/-- `insert(ti, uniform_type_info_ptr{new ...})`. -/
def insertNew (ut : UserTypes) (info : TypeInfo) (user : ∀ b, info ≠ .builtin b) :
    UserType × UserTypes :=
  { ut with next := ut.next + 1 }.insert ⟨ut.next, info, user⟩

/-- `by_uniform_name`, where `elements` are the element types of a tuple type that
is made for the name. -/
def lookup (elements : UserTypes → List (Option TypeInfo) × UserTypes) (ut : UserTypes)
    (name : Bytes) : Option TypePtr × UserTypes :=
  match findName Prod.fst builtinTypes name with
  | some entry => (some (.builtin entry.2), ut)
  | none =>
    match findName UserType.name ut.types name with
    | some t => (some (.user t), ut)
    | none =>
      if tuplePrefix.isPrefixOf name then
        -- the constructor of `default_meta_message` comes before the insertion
        let (ts, ut) := elements ut
        let (t, ut) := ut.insertNew (.tuple name ts) (fun _ h => by cases h)
        (some (.user t), ut)
      else (none, ut)

/-- The constructor of `default_meta_message`, which looks up the names between the
`+`. There is no `+` in any of them. -/
def elementTypes : List Bytes → UserTypes → List (Option TypeInfo) × UserTypes
  | [], ut => ([], ut)
  | name :: names, ut =>
    let (t, ut) := ut.lookup (fun ut => ([], ut)) name
    let (ts, ut) := elementTypes names ut
    (t.map TypePtr.info :: ts, ut)

/-- `by_uniform_name`. -/
def byUniformName (ut : UserTypes) (name : Bytes) : Option TypePtr × UserTypes :=
  ut.lookup (elementTypes (splitNames name).tail) name

end UserTypes

-- -------------------------
-- Searching a sorted container
-- -------------------------

section

variable {α : Type} {name : α → Bytes} {c : List α}

/-- The entries that come before a name are a prefix of a sorted container. -/
theorem partitioned_of_sorted (h : SortedBy name c) (n : Bytes) :
    Partitioned (fun x => decide (name x < n)) c := by
  apply List.Pairwise.imp _ h
  intro x y hxy hy
  rw [decide_eq_true_eq] at *
  exact List.lt_trans hxy hy

/-- The head of what does not come before the name is the only candidate. -/
theorem head?_dropWhile_name (h : SortedBy name c) (n : Bytes) :
    ((c.dropWhile fun x => decide (name x < n)).head?.filter fun x => decide (n = name x)) =
      c.find? fun x => decide (name x = n) := by
  induction c with
  | nil => rfl
  | cons x xs ih =>
    obtain ⟨hx, hxs⟩ := List.pairwise_cons.mp h
    by_cases hlt : name x < n
    · have hne : name x ≠ n := by
        intro he
        exact List.lt_irrefl n (he ▸ hlt)
      rw [List.dropWhile_cons_of_pos (by simpa using hlt), ih hxs,
        List.find?_cons_of_neg (by simpa using hne)]
    · rw [List.dropWhile_cons_of_neg (by simpa using hlt), List.head?_cons]
      by_cases he : name x = n
      · simp [he]
      · -- all names behind `x` come after `n`
        have hrest : (xs.find? fun x => decide (name x = n)) = none := by
          rw [List.find?_eq_none]
          intro y hy hn
          rw [decide_eq_true_eq] at hn
          exact hlt (hn ▸ hx y hy)
        rw [List.find?_cons_of_neg (by simpa using he), hrest]
        simp [Ne.symm he]

/-- On a sorted container the binary search finds what a linear search finds. -/
theorem findName_eq (h : SortedBy name c) (n : Bytes) :
    findName name c n = c.find? fun x => decide (name x = n) := by
  have hcmp : (fun lhs => decide (0 < stringCompare n (name lhs))) =
      fun lhs => decide (name lhs < n) := by
    funext lhs
    rw [decide_eq_decide, stringCompare_pos_iff]
  rw [findName, hcmp, getElem?_lowerBound (partitioned_of_sorted h n), ← head?_dropWhile_name h n]
  cases (c.dropWhile fun x => decide (name x < n)).head? with
  | none => rfl
  | some x => simp [stringCompare_eq_zero_iff, Option.filter]

end

theorem builtinTypes_nodup_snd : (builtinTypes.map Prod.snd).Nodup := by
  decide +kernel

/-- `initialize` asserts that the builtin types are sorted. -/
theorem builtinTypes_sorted : SortedBy Prod.fst builtinTypes := by
  unfold SortedBy
  decide +kernel

theorem zero_not_mem_cString (s : Bytes) : 0 ∉ cString s := by
  intro h
  simpa using List.mem_takeWhile_imp h

/-- The name of a user type, a C string, has no null character. -/
theorem UserType.zero_not_mem_name (t : UserType) : 0 ∉ t.name := by
  obtain ⟨a, info, user⟩ := t
  cases info with
  | builtin b => exact absurd rfl (user b)
  | announced n _ => exact zero_not_mem_cString n
  | tuple n _ => exact zero_not_mem_cString n

namespace UserTypes

-- -------------------------
-- Insertion
-- -------------------------

/-- Between the names of two types the two comparisons agree. -/
theorem strcmp_name_neg_iff {t u : UserType} : strcmp t.name u.name < 0 ↔ t.name < u.name :=
  strcmp_neg_iff t.zero_not_mem_name u.zero_not_mem_name

/-- Two user types compare as equal exactly when they have one name. -/
theorem strcmp_name_eq_zero_iff {t u : UserType} : strcmp t.name u.name = 0 ↔ t.name = u.name :=
  strcmp_eq_zero_iff t.zero_not_mem_name u.zero_not_mem_name

/-- The new element stands between those with smaller and those with larger
names. -/
theorem insertByKey_split {t : UserType} : ∀ {ts : List UserType}, (∀ u ∈ ts, u.name ≠ t.name) →
    insertByKey UserType.name t ts =
      (ts.takeWhile fun u => decide (u.name < t.name)) ++
        t :: ts.dropWhile fun u => decide (u.name < t.name)
  | [], _ => rfl
  | u :: us, h => by
    have ih := insertByKey_split fun v hv => h v (List.mem_cons_of_mem u hv)
    have hne := h u List.mem_cons_self
    rw [insertByKey]
    by_cases hlt : u.name < t.name
    · rw [if_neg (List.lt_asymm hlt), if_pos hlt, ih,
        List.takeWhile_cons_of_pos (by simpa using hlt),
        List.dropWhile_cons_of_pos (by simpa using hlt)]
      rfl
    · have hgt : t.name < u.name :=
        (List.le_iff_lt_or_eq.mp (List.not_lt.mp hlt)).resolve_right hne.symm
      rw [if_pos hgt, List.takeWhile_cons_of_neg (by simpa using hlt),
        List.dropWhile_cons_of_neg (by simpa using hlt)]
      rfl

/-- What `insert` does to a sorted vector. -/
theorem insert_eq {ut : UserTypes} (h : SortedBy UserType.name ut.types) (uti : UserType) :
    ut.insert uti =
      match ut.types.find? fun t => decide (t.name = uti.name) with
      | some known => (known, ut)
      | none => (uti, { ut with types := insertByKey UserType.name uti ut.types }) := by
  have hpred : (fun lhs : UserType => decide (strcmp lhs.name uti.name < 0)) =
      fun lhs => decide (lhs.name < uti.name) := by
    funext lhs
    rw [decide_eq_decide, strcmp_name_neg_iff]
  have hpart := partitioned_of_sorted h uti.name
  have hfind := head?_dropWhile_name h uti.name
  rw [insert, hpred]
  simp only [getElem?_lowerBound hpart, take_lowerBound hpart, drop_lowerBound hpart]
  cases hf : ut.types.find? fun t => decide (t.name = uti.name) with
  | some known =>
    obtain ⟨hhead, hname⟩ : _ = some known ∧ uti.name = known.name := by
      rwa [hf, Option.filter_eq_some_iff, decide_eq_true_eq] at hfind
    simp only [hhead]
    rw [if_pos (strcmp_name_eq_zero_iff.mpr hname)]
  | none =>
    have hnone : ∀ t ∈ ut.types, t.name ≠ uti.name := by
      intro t ht he
      exact List.find?_eq_none.mp hf t ht (decide_eq_true he)
    have hsplit := List.takeWhile_append_dropWhile
      (p := fun t : UserType => decide (t.name < uti.name)) (l := ut.types)
    rw [insertByKey_split hnone]
    cases hd : ut.types.dropWhile fun t => decide (t.name < uti.name) with
    | nil =>
      rw [hd, List.append_nil] at hsplit
      simp [hsplit]
    | cons t ts =>
      have hmem : t ∈ ut.types := List.dropWhile_subset _ (hd ▸ List.mem_cons_self)
      have hne : ¬ strcmp uti.name t.name = 0 := by
        rw [strcmp_name_eq_zero_iff]
        exact fun he => hnone t hmem he.symm
      simp [hne]

-- -------------------------
-- What a call preserves
-- -------------------------

/-- The name of no builtin type. -/
def NotBuiltin (n : Bytes) : Prop := ∀ entry ∈ builtinTypes, entry.1 ≠ n

/-- The vector is sorted, and shadows no builtin type. -/
structure Inv (ut : UserTypes) : Prop where
  sorted : SortedBy UserType.name ut.types
  notBuiltin : ∀ t ∈ ut.types, NotBuiltin t.name

theorem inv_empty : empty.Inv := ⟨List.Pairwise.nil, fun _ h => by cases h⟩

/-- No type of the one is missing in the other. -/
def Extends (ut ut' : UserTypes) : Prop := ∀ t ∈ ut.types, t ∈ ut'.types

theorem Extends.rfl {ut : UserTypes} : ut.Extends ut := fun _ h => h

theorem Extends.trans {ut ut' ut'' : UserTypes} (h : ut.Extends ut') (h' : ut'.Extends ut'') :
    ut.Extends ut'' := fun t ht => h' t (h t ht)

/-- A name that the builtin types do not find is no builtin name. -/
theorem find?_builtin_eq_none {n : Bytes} :
    builtinTypes.find? (fun entry => decide (entry.1 = n)) = none ↔ NotBuiltin n := by
  rw [List.find?_eq_none]
  simp only [decide_eq_true_eq]
  rfl

/-- In a sorted vector each type is the only one of its name. -/
theorem find?_name {ts : List UserType} (h : SortedBy UserType.name ts) {t : UserType}
    (ht : t ∈ ts) : (ts.find? fun u => decide (u.name = t.name)) = some t := by
  induction ts with
  | nil => cases ht
  | cons u us ih =>
    obtain ⟨hu, hus⟩ := List.pairwise_cons.mp h
    rcases List.mem_cons.mp ht with rfl | hmem
    · rw [List.find?_cons_of_pos (by simp)]
    · have hne : u.name ≠ t.name := by
        intro he
        exact List.lt_irrefl t.name (he ▸ hu t hmem)
      rw [List.find?_cons_of_neg (by simpa using hne), ih hus hmem]

/-- `insert` keeps the vector sorted by names. -/
theorem insert_sorted {ut : UserTypes} (h : SortedBy UserType.name ut.types) (uti : UserType) :
    SortedBy UserType.name (ut.insert uti).2.types := by
  rw [insert_eq h]
  split
  · exact h
  · exact insertByKey_sorted h

/-- What `insert` returns has the name and is in the vector, with all that was
there before. -/
theorem insert_spec {ut : UserTypes} (h : SortedBy UserType.name ut.types) (uti : UserType) :
    (ut.insert uti).1.name = uti.name ∧ (ut.insert uti).1 ∈ (ut.insert uti).2.types ∧
      ut.Extends (ut.insert uti).2 := by
  rw [insert_eq h]
  split
  · next known hf =>
    have hname := List.find?_some hf
    rw [decide_eq_true_eq] at hname
    exact ⟨hname, List.mem_of_find?_eq_some hf, Extends.rfl⟩
  · next hf =>
    have hnone : ∀ t ∈ ut.types, t.name ≠ uti.name := by
      intro t ht he
      exact List.find?_eq_none.mp hf t ht (decide_eq_true he)
    have hmem : ∀ t, t ∈ insertByKey UserType.name uti ut.types ↔ t = uti ∨ t ∈ ut.types := by
      intro t
      rw [insertByKey_split hnone]
      conv_rhs => rw [← List.takeWhile_append_dropWhile
        (p := fun u : UserType => decide (u.name < uti.name)) (l := ut.types)]
      simp only [List.mem_append, List.mem_cons]
      tauto
    exact ⟨rfl, (hmem uti).mpr (.inl rfl), fun t ht => (hmem t).mpr (.inr ht)⟩

/-- Inserting a type whose name is known returns the type of the map and changes nothing. -/
theorem insert_known {ut : UserTypes} (h : SortedBy UserType.name ut.types) {t : UserType}
    (ht : t ∈ ut.types) {uti : UserType} (hname : uti.name = t.name) :
    ut.insert uti = (t, ut) := by
  rw [insert_eq h, hname, find?_name h ht]

/-- Inserting a type that has no builtin name keeps the invariant. -/
theorem Inv.insert {ut : UserTypes} (h : ut.Inv) {uti : UserType} (hn : NotBuiltin uti.name) :
    (ut.insert uti).2.Inv := by
  refine ⟨insert_sorted h.sorted uti, ?_⟩
  rw [insert_eq h.sorted]
  split
  · exact h.notBuiltin
  · intro t ht
    rcases mem_insertByKey ht with rfl | ht
    · exact hn
    · exact h.notBuiltin t ht

/-- `insert` with a new type answers with a type of that name, which the map then has. -/
theorem insertNew_spec {ut : UserTypes} (h : SortedBy UserType.name ut.types) (info : TypeInfo)
    (user : ∀ b, info ≠ .builtin b) :
    (ut.insertNew info user).1.name = info.name ∧
      (ut.insertNew info user).1 ∈ (ut.insertNew info user).2.types ∧
      ut.Extends (ut.insertNew info user).2 := by
  have h' : SortedBy UserType.name ({ ut with next := ut.next + 1 } : UserTypes).types := h
  exact insert_spec h' ⟨ut.next, info, user⟩

/-- A new type that has no builtin name keeps the invariant. -/
theorem Inv.insertNew {ut : UserTypes} (h : ut.Inv) {info : TypeInfo}
    {user : ∀ b, info ≠ .builtin b} (hn : NotBuiltin info.name) :
    (ut.insertNew info user).2.Inv := by
  have h' : ({ ut with next := ut.next + 1 } : UserTypes).Inv := ⟨h.sorted, h.notBuiltin⟩
  exact h'.insert hn

-- -------------------------
-- Lookup
-- -------------------------

/-- A lookup in a sorted vector, in terms of the two containers' contents. -/
theorem lookup_eq {ut : UserTypes} (h : SortedBy UserType.name ut.types)
    (elements : UserTypes → List (Option TypeInfo) × UserTypes) (n : Bytes) :
    ut.lookup elements n =
      match builtinTypes.find? fun entry => decide (entry.1 = n) with
      | some entry => (some (.builtin entry.2), ut)
      | none =>
        match ut.types.find? fun t => decide (t.name = n) with
        | some t => (some (.user t), ut)
        | none =>
          if tuplePrefix.isPrefixOf n then
            let made := (elements ut).2.insertNew (.tuple n (elements ut).1) (fun _ h => by cases h)
            (some (.user made.1), made.2)
          else (none, ut) := by
  rw [lookup, findName_eq builtinTypes_sorted, findName_eq h]

/-- A type of the map is found under its name, and nothing is inserted. -/
theorem lookup_found {ut : UserTypes} (h : ut.Inv) {t : UserType} (ht : t ∈ ut.types)
    (elements : UserTypes → List (Option TypeInfo) × UserTypes) :
    ut.lookup elements t.name = (some (.user t), ut) := by
  rw [lookup_eq h.sorted, find?_builtin_eq_none.mpr (h.notBuiltin t ht), find?_name h.sorted ht]

/-- A name that may be looked up: that of a tuple has no null character. -/
def PlainName (n : Bytes) : Prop := tuplePrefix.isPrefixOf n = true → 0 ∉ n

/-- What a lookup of a plain name leaves and returns. -/
structure Answered (ut : UserTypes) (n : Bytes) (result : Option TypePtr × UserTypes) : Prop where
  inv : result.2.Inv
  extends_ : ut.Extends result.2
  named : ∀ p, result.1 = some p → p.name = n
  kept : ∀ t, result.1 = some (.user t) → t ∈ result.2.types
  tuple : tuplePrefix.isPrefixOf n = true → ∃ t, result.1 = some (.user t)

/-- Each builtin type reports the name that it is listed under. -/
theorem name_of_mem_builtinTypes {entry : Bytes × Builtin} (h : entry ∈ builtinTypes) :
    entry.2.name = entry.1 := by
  have hinj := List.inj_on_of_nodup_map builtinTypes_nodup_snd
  exact congrArg Prod.fst (hinj entry.2.name_mem h rfl)

/-- A lookup answers for its name, provided that reading the element types keeps the map. -/
theorem lookup_answered {ut : UserTypes} (h : ut.Inv)
    {elements : UserTypes → List (Option TypeInfo) × UserTypes} {n : Bytes} (hn : PlainName n)
    (hel : tuplePrefix.isPrefixOf n = true → (elements ut).2.Inv ∧ ut.Extends (elements ut).2) :
    Answered ut n (ut.lookup elements n) := by
  -- the cases are the order in which the source looks: builtin types, the vector, tuples
  rw [lookup_eq h.sorted]
  split
  · next entry hf =>
    -- a builtin type
    have hname : entry.1 = n := by simpa using List.find?_some hf
    have hmem := List.mem_of_find?_eq_some hf
    refine ⟨h, Extends.rfl, fun p hp => ?_, (fun t ht => by cases ht), fun hp => ?_⟩
    · cases hp
      exact (name_of_mem_builtinTypes hmem).trans hname
    · have hno := (builtinTypes_names entry hmem).2.2
      rw [hname, hp] at hno
      cases hno
  · next hb =>
    split
    · next t hf =>
      -- a type of the vector
      have hname : t.name = n := by simpa using List.find?_some hf
      refine ⟨h, Extends.rfl, fun p hp => ?_, fun u hu => ?_, fun _ => ⟨t, rfl⟩⟩
      · cases hp
        exact hname
      · cases hu
        exact List.mem_of_find?_eq_some hf
    · split
      · next hp =>
        -- a new tuple type, whose `name()` is all of the name
        obtain ⟨hinv, hext⟩ := hel hp
        have hnb := find?_builtin_eq_none.mp hb
        have hname : TypeInfo.name (.tuple n (elements ut).1) = n := cString_of_not_mem (hn hp)
        obtain ⟨hres, hmem, hext'⟩ := insertNew_spec hinv.sorted (.tuple n (elements ut).1)
          (fun _ h => by cases h)
        refine ⟨hinv.insertNew (hname.symm ▸ hnb), fun t ht => hext' t (hext t ht), fun p hp => ?_,
          fun t ht => ?_, fun _ => ⟨_, rfl⟩⟩
        · cases hp
          exact hres.trans hname
        · cases ht
          exact hmem
      · next hp =>
        exact ⟨h, Extends.rfl, (fun p hp => by cases hp), (fun t ht => by cases ht),
          fun hp' => absurd hp' hp⟩

/-- The parts of a tuple's name consist of characters of that name. -/
theorem mem_of_mem_splitNames {x : UInt8} {n : Bytes} :
    ∀ {piece : Bytes}, piece ∈ splitNames n → x ∈ piece → x ∈ n := by
  induction n with
  | nil =>
    intro piece h hx
    rw [splitNames, List.mem_singleton] at h
    rwa [h] at hx
  | cons c cs ih =>
    intro piece h hx
    rw [splitNames] at h
    split at h
    · rcases List.mem_cons.mp h with rfl | h
      · cases hx
      · exact List.mem_cons_of_mem c (ih h hx)
    · split at h
      · rw [List.mem_singleton.mp h, List.mem_singleton] at hx
        rw [hx]
        exact List.mem_cons_self
      · next p ps hs =>
        rw [hs] at ih
        rcases List.mem_cons.mp h with rfl | h
        · rcases List.mem_cons.mp hx with rfl | hx
          · exact List.mem_cons_self
          · exact List.mem_cons_of_mem c (ih List.mem_cons_self hx)
        · exact List.mem_cons_of_mem c (ih (List.mem_cons_of_mem p h) hx)

/-- Looking up the elements of a tuple keeps the invariant and every known type. -/
theorem elementTypes_kept : ∀ {names : List Bytes} {ut : UserTypes}, ut.Inv →
    (∀ n ∈ names, 0 ∉ n) → (elementTypes names ut).2.Inv ∧ ut.Extends (elementTypes names ut).2
  | [], ut, h, _ => ⟨h, Extends.rfl⟩
  | n :: names, ut, h, hn => by
    have hhead : Answered ut n (ut.lookup (fun ut => ([], ut)) n) :=
      lookup_answered h (fun _ => hn n List.mem_cons_self) fun _ => ⟨h, Extends.rfl⟩
    obtain ⟨hinv, hext⟩ := elementTypes_kept hhead.inv
      (fun m hm => hn m (List.mem_cons_of_mem n hm))
    exact ⟨hinv, hhead.extends_.trans hext⟩

/-- A lookup by uniform name answers for that name. -/
theorem byUniformName_answered {ut : UserTypes} (h : ut.Inv) {n : Bytes} (hn : PlainName n) :
    Answered ut n (ut.byUniformName n) := by
  apply lookup_answered h hn
  intro hp
  apply elementTypes_kept h
  intro m hm h0
  exact hn hp (mem_of_mem_splitNames (List.mem_of_mem_tail hm) h0)

theorem byUniformName_found {ut : UserTypes} (h : ut.Inv) {t : UserType} (ht : t ∈ ut.types) :
    ut.byUniformName t.name = (some (.user t), ut) := lookup_found h ht _

-- -------------------------
-- The map the vector stands for
-- -------------------------

/-- The type map with the types of the vector, each under its name. -/
def toTypeMap (modules : Bytes → Option UserReader) (ut : UserTypes) : TypeMap where
  userTypes n := (ut.types.find? fun t => decide (t.name = n)).map UserType.info
  modules := modules
  user n b h := by
    obtain ⟨t, -, ht⟩ := Option.map_eq_some_iff.mp h
    exact t.user b ht

variable {m : Bytes → Option UserReader}

/-- Inserting by key changes what is found under the inserted name only. -/
theorem find?_insertByKey {ts : List UserType} {uti : UserType} (h : ∀ t ∈ ts, t.name ≠ uti.name)
    (n : Bytes) :
    ((insertByKey UserType.name uti ts).find? fun t => decide (t.name = n)) =
      if n = uti.name then some uti else ts.find? fun t => decide (t.name = n) := by
  have hsplit := List.takeWhile_append_dropWhile
    (p := fun t : UserType => decide (t.name < uti.name)) (l := ts)
  rw [insertByKey_split h, List.find?_append]
  split
  · next hn =>
    have hfront : ((ts.takeWhile fun t => decide (t.name < uti.name)).find?
        fun t => decide (t.name = n)) = none := by
      rw [List.find?_eq_none]
      intro t ht he
      rw [decide_eq_true_eq] at he
      exact h t (List.takeWhile_subset _ ht) (he.trans hn)
    rw [hfront, List.find?_cons_of_pos (by simp [hn])]
    rfl
  · next hn =>
    rw [List.find?_cons_of_neg (by simpa using Ne.symm hn), ← List.find?_append, hsplit]

/-- A new type keeps the vector sorted. -/
theorem insertNew_sorted {ut : UserTypes} (h : SortedBy UserType.name ut.types) (info : TypeInfo)
    (user : ∀ b, info ≠ .builtin b) :
    SortedBy UserType.name (ut.insertNew info user).2.types := by
  have h' : SortedBy UserType.name ({ ut with next := ut.next + 1 } : UserTypes).types := h
  exact insert_sorted h' _

/-- A lookup keeps the vector sorted if reading the elements does. -/
theorem lookup_sorted {ut : UserTypes} (h : SortedBy UserType.name ut.types)
    {elements : UserTypes → List (Option TypeInfo) × UserTypes}
    (hsorted : SortedBy UserType.name (elements ut).2.types) (n : Bytes) :
    SortedBy UserType.name (ut.lookup elements n).2.types := by
  rw [lookup_eq h]
  split
  · exact h
  · split
    · exact h
    · split
      · exact insertNew_sorted hsorted _ _
      · exact h

/-- Inserting a new tuple type is the insertion of the abstract map. -/
theorem insertNew_refines {ut : UserTypes} (h : SortedBy UserType.name ut.types) (n : Bytes)
    (ts : List (Option TypeInfo)) (user : ∀ b, TypeInfo.tuple n ts ≠ .builtin b) :
    (ut.toTypeMap m).insert n ts =
      ((ut.insertNew (.tuple n ts) user).1.info,
        (ut.insertNew (.tuple n ts) user).2.toTypeMap m) := by
  have h' : SortedBy UserType.name ({ ut with next := ut.next + 1 } : UserTypes).types := h
  rw [insertNew, insert_eq h', TypeMap.insert]
  have hname : UserType.name ⟨ut.next, .tuple n ts, user⟩ = cString n := rfl
  simp only [hname]
  cases hf : ut.types.find? fun t => decide (t.name = cString n) with
  | some known =>
    simp only [toTypeMap, hf]
    rfl
  | none =>
    have hnone : ∀ t ∈ ut.types, t.name ≠ UserType.name ⟨ut.next, .tuple n ts, user⟩ := by
      intro t ht he
      exact List.find?_eq_none.mp hf t ht (decide_eq_true he)
    simp only [toTypeMap, hf, Option.map_none, Prod.mk.injEq, TypeMap.mk.injEq, and_true, true_and]
    funext key
    rw [find?_insertByKey hnone, hname]
    split <;> rfl

/-- The types of the vector and those of the map answer alike. -/
theorem lookup_refines {ut : UserTypes} (h : SortedBy UserType.name ut.types)
    {elements : UserTypes → List (Option TypeInfo) × UserTypes}
    {elements' : TypeMap → List (Option TypeInfo) × TypeMap}
    (hsorted : SortedBy UserType.name (elements ut).2.types)
    (hel : elements' (ut.toTypeMap m) =
      ((elements ut).1, (elements ut).2.toTypeMap m)) (n : Bytes) :
    (ut.toTypeMap m).lookup elements' n =
      ((ut.lookup elements n).1.map TypePtr.info, (ut.lookup elements n).2.toTypeMap m) := by
  rw [lookup_eq h, TypeMap.lookup]
  cases hb : builtinTypes.find? fun entry => decide (entry.1 = n) with
  | some entry => rfl
  | none =>
    have hfind : (ut.toTypeMap m).findName n =
        (ut.types.find? fun t => decide (t.name = n)).map UserType.info := by
      rw [TypeMap.findName]
      split
      · next h0 =>
        -- no type has a name with a null character
        have hnone : (ut.types.find? fun t => decide (t.name = n)) = none := by
          rw [List.find?_eq_none]
          intro t _ he
          rw [decide_eq_true_eq] at he
          exact t.zero_not_mem_name (he ▸ h0)
        rw [hnone]
        rfl
      · rfl
    rw [hfind]
    cases hf : ut.types.find? fun t => decide (t.name = n) with
    | some t => rfl
    | none =>
      simp only [Option.map_none]
      split
      · rw [hel]
        simp only [insertNew_refines hsorted n _ (fun _ h => by cases h)]
        rfl
      · rfl

/-- Looking up the elements of a tuple is the lookup of the abstract map, type by type. -/
theorem elementTypes_refines : ∀ (names : List Bytes) {ut : UserTypes},
    SortedBy UserType.name ut.types →
      SortedBy UserType.name (elementTypes names ut).2.types ∧
        TypeMap.elementTypes names (ut.toTypeMap m) =
          ((elementTypes names ut).1, (elementTypes names ut).2.toTypeMap m)
  | [], ut, h => ⟨h, rfl⟩
  | n :: names, ut, h => by
    -- no element of a tuple has elements of its own
    have hhead : (ut.toTypeMap m).lookup (fun tm => ([], tm)) n =
        ((ut.lookup (fun ut => ([], ut)) n).1.map TypePtr.info,
          (ut.lookup (fun ut => ([], ut)) n).2.toTypeMap m) := lookup_refines h h rfl n
    have hsorted : SortedBy UserType.name (ut.lookup (fun ut => ([], ut)) n).2.types :=
      lookup_sorted h h n
    obtain ⟨hs, htail⟩ := elementTypes_refines names hsorted
    refine ⟨hs, ?_⟩
    rw [TypeMap.elementTypes, hhead]
    simp only [htail]
    rfl

/-- A lookup in the vector is a lookup in the type map it stands for. -/
theorem byUniformName_refines {ut : UserTypes} (h : SortedBy UserType.name ut.types) (n : Bytes) :
    (ut.toTypeMap m).byUniformName n =
      ((ut.byUniformName n).1.map TypePtr.info, (ut.byUniformName n).2.toTypeMap m) := by
  obtain ⟨hs, hel⟩ := elementTypes_refines (m := m) (splitNames n).tail h
  exact lookup_refines h hs hel n

-- -------------------------
-- Runs
-- -------------------------

/-- What the rest of the program does with the map. -/
inductive Call where
  | insert (info : TypeInfo) (user : ∀ b, info ≠ .builtin b)
  | byUniformName (name : Bytes)

def exec (ut : UserTypes) : Call → Option TypePtr × UserTypes
  | .insert info user => (some (.user (ut.insertNew info user).1), (ut.insertNew info user).2)
  | .byUniformName name => ut.byUniformName name

def step (ut : UserTypes) (call : Call) : Option UserTypes := some (ut.exec call).2

/-- No inserted type takes the name of a builtin one, and no name that makes or
belongs to a new type has a null character in it. -/
def Plain (_ : UserTypes) : Call → Prop
  | .insert info _ => 0 ∉ info.givenName ∧ NotBuiltin info.givenName
  | .byUniformName name => PlainName name

/-- The states that plain calls lead to. -/
def PlainRun (ut : UserTypes) : UserTypes → Prop := Reach (· = ut) step Plain

/-- A given name without null characters is the name of the type. -/
theorem name_of_plain {info : TypeInfo} (h : 0 ∉ info.givenName) : info.name = info.givenName := by
  cases info with
  | builtin b => exact rfl
  | announced n _ => exact cString_of_not_mem h
  | tuple n _ => exact cString_of_not_mem h

/-- Plain runs keep the invariant and every type that the map has. -/
theorem PlainRun.kept {ut ut' : UserTypes} (h : PlainRun ut ut') (hinv : ut.Inv) :
    ut'.Inv ∧ ut.Extends ut' := by
  apply Reach.invariant (I := fun s => s.Inv ∧ ut.Extends s) _ _ h
  · rintro s rfl
    exact ⟨hinv, Extends.rfl⟩
  · rintro s call s' ⟨hs, hext⟩ hok hstep
    cases hstep
    cases call with
    | insert info user =>
      have hn : NotBuiltin info.name := by
        rw [name_of_plain hok.1]
        exact hok.2
      exact ⟨hs.insertNew hn, hext.trans (insertNew_spec hs.sorted info user).2.2⟩
    | byUniformName n =>
      have ha := byUniformName_answered hs hok
      exact ⟨ha.inv, hext.trans ha.extends_⟩

/-- The map is sorted, and each name stands for one type now and after all further
plain calls. -/
structure Consistent (ut : UserTypes) : Prop where
  sorted : SortedBy UserType.name ut.types
  /-- Every type of the vector is found under its name. -/
  found : ∀ t ∈ ut.types, ut.byUniformName t.name = (some (.user t), ut)
  /-- An inserted type is found from then on under the name it was given. -/
  inserted : ∀ info user, Plain ut (.insert info user) →
    (ut.insertNew info user).1.name = info.givenName ∧
      ∀ ut', PlainRun (ut.insertNew info user).2 ut' →
        ut'.byUniformName info.givenName = (some (.user (ut.insertNew info user).1), ut')
  /-- For a known name `insert` returns the object that is there. -/
  known : ∀ t ∈ ut.types, ∀ info user, 0 ∉ info.givenName → info.givenName = t.name →
    (ut.insertNew info user).1 = t ∧ (ut.insertNew info user).2.types = ut.types
  /-- A lookup returns nothing or a type of that name. -/
  named : ∀ n, PlainName n → ∀ p, (ut.byUniformName n).1 = some p → p.name = n
  /-- The name of a tuple always has a type, the same one each time. -/
  tuple : ∀ n, PlainName n → tuplePrefix.isPrefixOf n = true →
    ∃ t, (ut.byUniformName n).1 = some (.user t) ∧ t.name = n ∧
      ∀ ut', PlainRun (ut.byUniformName n).2 ut' → ut'.byUniformName n = (some (.user t), ut')

/-- The invariant makes the map answer consistently, whatever comes after. -/
theorem Inv.consistent {ut : UserTypes} (h : ut.Inv) : ut.Consistent where
  sorted := h.sorted
  found t ht := byUniformName_found h ht
  inserted info user hp := by
    have hname := name_of_plain hp.1
    obtain ⟨hres, hmem, -⟩ := insertNew_spec h.sorted info user
    have hinv : (ut.insertNew info user).2.Inv := h.insertNew (hname.symm ▸ hp.2)
    refine ⟨hres.trans hname, fun ut' hrun => ?_⟩
    obtain ⟨hinv', hext⟩ := hrun.kept hinv
    rw [← hname, ← hres]
    exact byUniformName_found hinv' (hext _ hmem)
  known t ht info user h0 hname := by
    have h' : SortedBy UserType.name ({ ut with next := ut.next + 1 } : UserTypes).types := h.sorted
    have hname' : UserType.name ⟨ut.next, info, user⟩ = t.name := (name_of_plain h0).trans hname
    rw [UserTypes.insertNew, insert_known h' ht hname']
    exact ⟨rfl, rfl⟩
  named n hn p hp := (byUniformName_answered h hn).named p hp
  tuple n hn hp := by
    have ha := byUniformName_answered h hn
    obtain ⟨t, ht⟩ := ha.tuple hp
    have hname : t.name = n := ha.named _ ht
    refine ⟨t, ht, hname, fun ut' hrun => ?_⟩
    obtain ⟨hinv', hext⟩ := hrun.kept ha.inv
    rw [← hname]
    exact byUniformName_found hinv' (hext t (ha.kept t ht))

/-- In every state that plain calls reach, the map is consistent. -/
theorem plainRun_consistent {ut : UserTypes} (h : PlainRun empty ut) : ut.Consistent :=
  (h.kept inv_empty).1.consistent

/-- The reader of an empty type. -/
def emptyReader : UserReader where
  run bs := ⟨[], .ok bs⟩
  forward _ _ h := by
    cases h
    exact List.suffix_refl _

/-- A run that announces a type, looks it up and makes a tuple type with it. -/
theorem announced_consistent :
    Consistent (((empty.exec (.insert (.announced (ascii "account") emptyReader)
      (fun _ h => by cases h))).2.exec (.byUniformName (ascii "account"))).2.exec
        (.byUniformName (ascii "@<>+account"))).2 := by
  have hins : Plain empty
      (.insert (.announced (ascii "account") emptyReader) (fun _ h => by cases h)) := by
    constructor
    · show 0 ∉ ascii "account"
      decide
    · show ∀ entry ∈ builtinTypes, entry.1 ≠ ascii "account"
      decide
  have h₀ : PlainRun empty empty := Reach.init rfl
  have h₁ : PlainRun empty _ := Reach.step h₀ hins rfl
  have h₂ : PlainRun empty _ := Reach.step h₁
    (show Plain _ (.byUniformName (ascii "account")) from fun _ => by decide) rfl
  have h₃ : PlainRun empty _ := Reach.step h₂
    (show Plain _ (.byUniformName (ascii "@<>+account")) from fun _ => by decide) rfl
  exact plainRun_consistent h₃

/-- A name with a null character makes a type whose `name()` stops there. -/
theorem truncated_name :
    ∃ p, (empty.byUniformName (ascii "@<>+" ++ [0])).1 = some p ∧ p.name = ascii "@<>+" ∧
      p.name ≠ ascii "@<>+" ++ [0] := by
  have hinfo : (empty.byUniformName (ascii "@<>+" ++ [0])).1.map TypePtr.info =
      some (.tuple (ascii "@<>+" ++ [0]) [none]) :=
    (congrArg Prod.fst (byUniformName_refines (m := fun _ => none) inv_empty.sorted _)).symm
  obtain ⟨p, hp, hpi⟩ := Option.map_eq_some_iff.mp hinfo
  have hname : p.name = ascii "@<>+" := by
    rw [TypePtr.name, hpi]
    decide
  exact ⟨p, hp, hname, by rw [hname]; decide⟩

end UserTypes

end BoostActor
