import Mathlib.Data.List.Perm.Subperm
import Mathlib.Tactic.Common

/-!
# Unordered maps

A map whose keys are compared with a user-supplied `==`, in the manner of
`std::unordered_map`: `==` has to be an equivalence, but two keys that compare
equal may still be different values. The entries are kept in iteration order, and
no two of them have keys that compare equal.

Every client argument goes through `find?`. The update lemmas below say what
`find?` returns after each operation, so that no proof about a client looks at
the list of entries.

* `find?_set`, `find?_emplace`, `find?_erase` — lookups after an update;
* `find?_congr` — keys that compare equal are the same key;
* `find?_of_mem` — what iterating over a map finds.
-/

namespace Lib

/-- An unordered map from `K` to `V`, as the list of its entries. -/
structure UMap (K V : Type) [BEq K] where
  entries : List (K × V)
  /-- one entry for each key -/
  unique : entries.Pairwise fun e f => (e.1 == f.1) = false
deriving Repr

namespace UMap

variable {K V : Type} [BEq K]

/-- The value of the first entry under `k`. -/
def assoc (es : List (K × V)) (k : K) : Option V :=
  es.findSome? fun e => if e.1 == k then some e.2 else none

@[simp] theorem assoc_nil (k : K) : assoc ([] : List (K × V)) k = none := rfl

/-- Lookup in a list with one more entry in front. -/
theorem assoc_cons (e : K × V) (es : List (K × V)) (k : K) :
    assoc (e :: es) k = if e.1 == k then some e.2 else assoc es k := by
  unfold assoc
  rw [List.findSome?_cons]
  split <;> simp_all

/-- Entries at the end count only when there is none for the key before. -/
theorem assoc_append (es fs : List (K × V)) (k : K) :
    assoc (es ++ fs) k = (assoc es k).or (assoc fs k) := by
  unfold assoc
  rw [List.findSome?_append]

/-- Nothing is found under a key if no entry has it. -/
theorem assoc_eq_none {es : List (K × V)} {k : K} :
    assoc es k = none ↔ ∀ e ∈ es, (e.1 == k) = false := by
  induction es with
  | nil => simp
  | cons e es ih =>
    rw [assoc_cons]
    by_cases he : (e.1 == k) = true
    · simp [he]
    · simp [he, ih]

-- -------------------------
-- Operations
-- -------------------------

/-- The map without entries. -/
def empty : UMap K V := ⟨[], List.Pairwise.nil⟩

/-- The value stored under `k`. -/
def find? (m : UMap K V) (k : K) : Option V := assoc m.entries k

/-- `count(k) != 0`. -/
def contains (m : UMap K V) (k : K) : Bool := (m.find? k).isSome

/-- A key is contained if something is found under it. -/
theorem contains_iff {m : UMap K V} {k : K} :
    m.contains k = true ↔ ∃ v, m.find? k = some v := by
  rw [contains, Option.isSome_iff_exists]

/-- A key is not contained if nothing is found under it. -/
theorem contains_eq_false {m : UMap K V} {k : K} :
    m.contains k = false ↔ m.find? k = none := by
  rw [contains, Option.isSome_eq_false_iff, Option.isNone_iff_eq_none]

/-- An entry at the end, under a key without entry. -/
theorem unique_append {m : UMap K V} {k : K} (v : V) (h : ¬ m.contains k = true) :
    (m.entries ++ [(k, v)]).Pairwise fun e f => (e.1 == f.1) = false := by
  rw [Bool.not_eq_true, contains_eq_false, find?, assoc_eq_none] at h
  rw [List.pairwise_append]
  refine ⟨m.unique, List.pairwise_singleton _ _, fun e he f hf => ?_⟩
  rw [List.mem_singleton.mp hf]
  exact h e he

/-- Changing values leaves the keys alone. -/
theorem unique_map {m : UMap K V} {f : K × V → K × V} (hf : ∀ e, (f e).1 = e.1) :
    (m.entries.map f).Pairwise fun e f => (e.1 == f.1) = false := by
  rw [List.pairwise_map]
  simp only [hf]
  exact m.unique

-- -------------------------
-- Changing a map
-- -------------------------

/-- The entry `e` with the value `g` gives it, if its key is `k`. -/
def updateAt (k : K) (g : V → V) (e : K × V) : K × V := if e.1 == k then (e.1, g e.2) else e

theorem updateAt_key (k : K) (g : V → V) (e : K × V) : (updateAt k g e).1 = e.1 := by
  unfold updateAt
  split <;> rfl

/-- `erase(k)`. -/
def erase (m : UMap K V) (k : K) : UMap K V :=
  ⟨m.entries.filter fun e => !(e.1 == k), m.unique.filter _⟩

/-- `emplace(k, v)`: an existing entry is left alone. -/
def emplace (m : UMap K V) (k : K) (v : V) : UMap K V :=
  if h : m.contains k then m else ⟨m.entries ++ [(k, v)], unique_append v h⟩

/-- Updates the value under `k`, if there is one. -/
def adjust (m : UMap K V) (k : K) (f : V → V) : UMap K V :=
  ⟨m.entries.map (updateAt k f), unique_map (updateAt_key k f)⟩

/-- `m[k] = v`: an existing entry keeps its stored key. -/
def set (m : UMap K V) (k : K) (v : V) : UMap K V :=
  if h : m.contains k then m.adjust k fun _ => v
  else ⟨m.entries ++ [(k, v)], unique_append v h⟩

-- -------------------------
-- Lookups
-- -------------------------

@[simp] theorem find?_empty (k : K) : (empty : UMap K V).find? k = none := rfl

/-- A map without entries. -/
theorem find?_of_isEmpty {m : UMap K V} (h : m.entries.isEmpty = true) (k : K) :
    m.find? k = none := by
  rw [find?, List.isEmpty_iff.mp h, assoc_nil]

/-- Erasing a key without entry. -/
theorem erase_of_none {m : UMap K V} {k : K} (h : m.find? k = none) : m.erase k = m := by
  rw [find?, assoc_eq_none] at h
  obtain ⟨es, hu⟩ := m
  rw [erase, mk.injEq, List.filter_eq_self]
  intro e he
  rw [h e he]
  rfl

/-- Adjusting a key without entry. -/
theorem adjust_of_none {m : UMap K V} {k : K} {f : V → V} (h : m.find? k = none) :
    m.adjust k f = m := by
  rw [find?, assoc_eq_none] at h
  obtain ⟨es, hu⟩ := m
  rw [adjust, mk.injEq]
  refine (List.map_congr_left fun e he => ?_).trans (List.map_id es)
  rw [updateAt, h e he]
  rfl

/-- Inserting under a key that has an entry. -/
theorem emplace_of_contains {m : UMap K V} {k : K} (v : V) (h : m.contains k = true) :
    m.emplace k v = m := by
  rw [emplace, dif_pos h]

/-- A lookup returns the value of an entry. -/
theorem exists_mem_of_find? {m : UMap K V} {k : K} {v : V} (h : m.find? k = some v) :
    ∃ e ∈ m.entries, (e.1 == k) = true ∧ e.2 = v := by
  obtain ⟨e, he, hv⟩ := List.exists_of_findSome?_eq_some h
  refine ⟨e, he, ?_⟩
  split at hv
  · next hk => exact ⟨hk, Option.some.inj hv⟩
  · cases hv

theorem mem_of_find? {m : UMap K V} {k : K} {v : V} (h : m.find? k = some v) :
    ∃ e ∈ m.entries, (e.1 == k) = true := by
  obtain ⟨e, he, hk, -⟩ := exists_mem_of_find? h
  exact ⟨e, he, hk⟩

/-- A key is found among the entries. -/
theorem contains_eq_any (m : UMap K V) (k : K) :
    m.contains k = m.entries.any fun e => e.1 == k := by
  rw [Bool.eq_iff_iff, contains_iff, List.any_eq_true]
  refine ⟨fun ⟨v, hv⟩ => mem_of_find? hv, fun ⟨e, he, hk⟩ => ?_⟩
  cases hfind : m.find? k with
  | none =>
    rw [find?, assoc_eq_none] at hfind
    rw [hfind e he] at hk
    cases hk
  | some v => exact ⟨v, rfl⟩

/-- The entries after `m[k] = v`. -/
theorem entries_set (m : UMap K V) (k : K) (v : V) :
    (m.set k v).entries =
      if m.contains k then m.entries.map (updateAt k fun _ => v) else m.entries ++ [(k, v)] := by
  unfold set
  split
  · rfl
  · rfl

variable [EquivBEq K]

-- -------------------------
-- Finding after a change
-- -------------------------

/-- Keys that compare equal have the same entry. -/
theorem find?_congr (m : UMap K V) {k k' : K} (h : (k == k') = true) :
    m.find? k = m.find? k' := by
  unfold find?
  induction m.entries with
  | nil => rfl
  | cons e es ih => rw [assoc_cons, assoc_cons, BEq.congr_right h, ih]

/-- Iterating over a map finds what a lookup finds. -/
theorem find?_of_mem {m : UMap K V} {k : K} {v : V} (h : (k, v) ∈ m.entries) :
    m.find? k = some v := by
  obtain ⟨es, hu⟩ := m
  unfold find?
  induction es with
  | nil => cases h
  | cons e es ih =>
    rw [List.pairwise_cons] at hu
    rw [assoc_cons]
    rcases List.mem_cons.mp h with rfl | h
    · rw [if_pos BEq.rfl]
    · -- an earlier entry has another key
      have hne : ¬ (e.1 == k) = true := by
        rw [hu.1 _ h]
        simp
      rw [if_neg hne]
      exact ih hu.2 h

/-- Only what becomes of the value under the key matters. -/
theorem adjust_congr {m : UMap K V} {k : K} {v : V} {f g : V → V} (h : m.find? k = some v)
    (hfg : f v = g v) : m.adjust k f = m.adjust k g := by
  rw [adjust, adjust, mk.injEq]
  refine List.map_congr_left fun e he => ?_
  unfold updateAt
  split
  · next hk =>
    have hfind := find?_of_mem (m := m) (k := e.1) (v := e.2) he
    rw [find?_congr m hk, h, Option.some.injEq] at hfind
    rw [← hfind, hfg]
  · rfl

/-- Lookup after `erase`. -/
theorem find?_erase (m : UMap K V) (k k' : K) :
    (m.erase k).find? k' = if k == k' then none else m.find? k' := by
  show assoc (m.entries.filter _) k' = if k == k' then none else assoc m.entries k'
  induction m.entries with
  | nil => simp
  | cons e es ih =>
    rw [List.filter_cons]
    by_cases he : (e.1 == k) = true
    · simp only [he, Bool.not_true, Bool.false_eq_true, if_false]
      rw [ih, assoc_cons, BEq.congr_left he]
      split <;> rfl
    · rw [Bool.not_eq_true] at he
      simp only [he, Bool.not_false, if_true]
      rw [assoc_cons, assoc_cons, ih]
      by_cases hk : (k == k') = true
      · have : (e.1 == k') = false := by rw [← BEq.congr_right hk, he]
        simp [this, hk]
      · simp [hk]

/-- Lookup after `emplace`: an entry that was there wins. -/
theorem find?_emplace (m : UMap K V) (k : K) (v : V) (k' : K) :
    (m.emplace k v).find? k' = (m.find? k').or (if k == k' then some v else none) := by
  unfold emplace
  split
  · next hc =>
    rw [contains_iff] at hc
    obtain ⟨w, hw⟩ := hc
    by_cases hk : (k == k') = true
    · rw [← find?_congr m hk, hw]
      rfl
    · simp [hk]
  · show assoc (m.entries ++ [(k, v)]) k' = _
    rw [assoc_append, assoc_cons]
    rfl

/-- Lookup after `emplace` under a key that had no entry. -/
theorem find?_emplace_of_none {m : UMap K V} {k : K} (h : m.find? k = none) (v : V) (k' : K) :
    (m.emplace k v).find? k' = if k == k' then some v else m.find? k' := by
  rw [find?_emplace]
  by_cases hk : (k == k') = true
  · rw [← find?_congr m hk, h]
    simp [hk]
  · simp [hk]

/-- Lookup after `adjust`. -/
theorem find?_adjust (m : UMap K V) (k : K) (f : V → V) (k' : K) :
    (m.adjust k f).find? k' = if k == k' then (m.find? k').map f else m.find? k' := by
  show assoc (m.entries.map _) k' =
    if k == k' then (assoc m.entries k').map f else assoc m.entries k'
  induction m.entries with
  | nil => simp
  | cons e es ih =>
    rw [List.map_cons, assoc_cons, assoc_cons, ih, updateAt_key]
    by_cases he : (e.1 == k) = true
    · rw [updateAt, if_pos he, BEq.congr_left he]
      split <;> simp
    · rw [updateAt, if_neg he]
      by_cases hk : (k == k') = true
      · have : (e.1 == k') = false := by
          rw [← BEq.congr_right hk]
          simpa using he
        simp [this, hk]
      · simp [hk]

/-- Changing a value neither adds a key nor removes one. -/
theorem contains_adjust (m : UMap K V) (k : K) (f : V → V) (k' : K) :
    (m.adjust k f).contains k' = m.contains k' := by
  rw [contains, contains, find?_adjust]
  split
  · exact Option.isSome_map
  · rfl

/-- `m[k]` creates what is missing, and the value is assigned afterwards. -/
theorem entries_set_emplace (m : UMap K V) (k : K) (v w : V) :
    ((m.emplace k v).set k w).entries = (m.set k w).entries := by
  by_cases hc : m.contains k = true
  · rw [emplace_of_contains v hc]
  · have hnone : m.find? k = none := by rwa [Bool.not_eq_true, contains_eq_false] at hc
    have hnew : (m.emplace k v).contains k = true := by
      rw [contains, find?_emplace_of_none hnone, if_pos BEq.rfl]
      rfl
    have hentries : (m.emplace k v).entries = m.entries ++ [(k, v)] := by
      unfold emplace
      rw [dif_neg hc]
    -- the other entries have other keys
    have hold : m.entries.map (updateAt k fun _ => w) = m.entries :=
      congrArg entries (adjust_of_none hnone)
    have hlast : updateAt k (fun _ => w) (k, v) = (k, w) := by
      rw [updateAt, if_pos BEq.rfl]
    rw [entries_set, entries_set, if_pos hnew, if_neg hc, hentries, List.map_append, hold,
      List.map_singleton, hlast]

/-- Lookup after `m[k] = v`. -/
theorem find?_set (m : UMap K V) (k : K) (v : V) (k' : K) :
    (m.set k v).find? k' = if k == k' then some v else m.find? k' := by
  unfold set
  split
  · next hc =>
    rw [contains_iff] at hc
    obtain ⟨w, hw⟩ := hc
    rw [find?_adjust]
    by_cases hk : (k == k') = true
    · rw [← find?_congr m hk, hw]
      rfl
    · simp [hk]
  · next hc =>
    rw [Bool.not_eq_true, contains_eq_false] at hc
    show assoc (m.entries ++ [(k, v)]) k' = _
    rw [assoc_append, assoc_cons]
    by_cases hk : (k == k') = true
    · rw [show assoc m.entries k' = m.find? k' from rfl, ← find?_congr m hk, hc]
      simp [hk]
    · simp [hk, find?]

@[simp] theorem find?_set_self (m : UMap K V) (k : K) (v : V) :
    (m.set k v).find? k = some v := by
  rw [find?_set, if_pos BEq.rfl]

@[simp] theorem find?_erase_self (m : UMap K V) (k : K) : (m.erase k).find? k = none := by
  rw [find?_erase, if_pos BEq.rfl]

/-- The value under `k` among the values, and what an update leaves of the others. -/
theorem exists_values_perm {m : UMap K V} {k : K} {v : V} (h : m.find? k = some v) :
    ∃ rest : List V, (m.entries.map Prod.snd).Perm (v :: rest) ∧
      (∀ f, ((m.adjust k f).entries.map Prod.snd).Perm (f v :: rest)) ∧
      (m.erase k).entries.map Prod.snd = rest := by
  obtain ⟨e, he, hk, rfl⟩ := exists_mem_of_find? h
  obtain ⟨pre, post, hentries⟩ := List.append_of_mem he
  have hunique := m.unique
  rw [hentries, List.pairwise_append, List.pairwise_cons] at hunique
  obtain ⟨-, ⟨hafter, -⟩, hbefore⟩ := hunique
  -- the key is in no other entry
  have hpre : ∀ x ∈ pre, (x.1 == k) = false := by
    intro x hx
    rw [← BEq.congr_right hk]
    exact hbefore x hx e List.mem_cons_self
  have hpost : ∀ x ∈ post, (x.1 == k) = false := by
    intro x hx
    rw [BEq.comm, ← BEq.congr_left hk]
    exact hafter x hx
  refine ⟨(pre ++ post).map Prod.snd, ?_, fun f => ?_, ?_⟩
  · rw [hentries]
    exact List.perm_middle.map _
  · have hkeep : ∀ xs : List (K × V), (∀ x ∈ xs, (x.1 == k) = false) →
        xs.map (updateAt k f) = xs := by
      intro xs hxs
      conv_rhs => rw [← List.map_id xs]
      refine List.map_congr_left fun x hx => ?_
      rw [updateAt, hxs x hx]
      rfl
    show ((m.entries.map (updateAt k f)).map Prod.snd).Perm _
    rw [hentries, List.map_append, List.map_cons, hkeep pre hpre, hkeep post hpost, updateAt,
      if_pos hk]
    exact List.perm_middle.map _
  · show (m.entries.filter fun e => !(e.1 == k)).map Prod.snd = _
    have hkeep : ∀ xs : List (K × V), (∀ x ∈ xs, (x.1 == k) = false) →
        (xs.filter fun e => !(e.1 == k)) = xs := by
      intro xs hxs
      exact List.filter_eq_self.mpr fun x hx => by rw [hxs x hx]; rfl
    have hdrop : ((e :: post).filter fun e => !(e.1 == k)) = post.filter fun e => !(e.1 == k) :=
      List.filter_cons_of_neg (by rw [hk]; exact Bool.false_ne_true)
    rw [hentries, List.filter_append, hdrop, hkeep pre hpre, hkeep post hpost]

end UMap

-- -------------------------
-- Keys that are equal when they compare equal
-- -------------------------

namespace UMap

variable {K V : Type} [BEq K] [LawfulBEq K]

theorem find?_set_of_ne {m : UMap K V} {k k' : K} (v : V) (h : k ≠ k') :
    (m.set k v).find? k' = m.find? k' := by
  rw [find?_set, if_neg fun hk => h (eq_of_beq hk)]

theorem find?_erase_of_ne {m : UMap K V} {k k' : K} (h : k ≠ k') :
    (m.erase k).find? k' = m.find? k' := by
  rw [find?_erase, if_neg fun hk => h (eq_of_beq hk)]

/-- There are no more keys than entries. -/
theorem length_le_of_nodup {m : UMap K V} {ks : List K} (hks : ks.Nodup)
    (h : ∀ k ∈ ks, (m.find? k).isSome = true) : ks.length ≤ m.entries.length := by
  have hsub : ks ⊆ m.entries.map Prod.fst := by
    intro k hk
    obtain ⟨v, hv⟩ := Option.isSome_iff_exists.mp (h k hk)
    obtain ⟨e, he, heq⟩ := mem_of_find? hv
    exact List.mem_map.mpr ⟨e, he, eq_of_beq heq⟩
  have hlen := (hks.subperm hsub).length_le
  rwa [List.length_map] at hlen

end UMap

end Lib
