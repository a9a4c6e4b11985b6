import Mathlib.Logic.Basic
import Mathlib.Tactic.Common

/-!
# Ordered sets and maps as sorted lists

A list in strictly ascending order of its keys, and the insertion that leaves an
element alone whose key is there already. With the elements as their own keys
this is an ordered set, with pairs an ordered map.

* `insertByKey_sorted` — insertion keeps the order;
* `SortedList.ofList_elems` — the elements of a sorted list, inserted one after
  the other, make up that list.
-/

namespace Lib

variable {α κ : Type} [LT κ] [DecidableLT κ]

/-- Inserts an element unless its key is there. -/
def insertByKey (key : α → κ) (x : α) : List α → List α
  | [] => [x]
  | y :: ys =>
    if key x < key y then x :: y :: ys
    else if key y < key x then y :: insertByKey key x ys
    else y :: ys

/-- Strictly ascending keys. -/
def SortedBy (key : α → κ) (xs : List α) : Prop := xs.Pairwise fun x y => key x < key y

variable {key : α → κ}

/-- Nothing but the new element is added. -/
theorem mem_insertByKey {x y : α} {xs : List α} (h : y ∈ insertByKey key x xs) :
    y = x ∨ y ∈ xs := by
  induction xs with
  | nil => exact .inl (List.mem_singleton.mp h)
  | cons z zs ih =>
    rw [insertByKey] at h
    split at h
    · exact List.mem_cons.mp h
    · split at h
      · rcases List.mem_cons.mp h with rfl | h
        · exact .inr List.mem_cons_self
        · exact (ih h).imp_right (List.mem_cons_of_mem z)
      · exact .inr h

/-- Where the keys tell all elements apart, insertion is that of a set. -/
theorem mem_insertByKey_iff [Std.Trichotomous (α := κ) (· < ·)] (hkey : Function.Injective key)
    {x y : α} {xs : List α} : y ∈ insertByKey key x xs ↔ y = x ∨ y ∈ xs := by
  refine ⟨mem_insertByKey, ?_⟩
  induction xs with
  | nil =>
    rintro (rfl | h)
    · exact List.mem_singleton.mpr rfl
    · cases h
  | cons z zs ih =>
    intro h
    rw [insertByKey]
    split
    · exact List.mem_cons.mpr h
    · next hlt =>
      split
      · rcases h with rfl | h
        · exact List.mem_cons_of_mem z (ih (.inl rfl))
        · rcases List.mem_cons.mp h with rfl | h
          · exact List.mem_cons_self
          · exact List.mem_cons_of_mem z (ih (.inr h))
      · next hgt =>
        -- neither key is smaller, so that the element is there already
        rcases h with rfl | h
        · rw [hkey (Std.Trichotomous.trichotomous _ _ hlt hgt)]
          exact List.mem_cons_self
        · exact h

/-- The keys stay ascending. -/
theorem insertByKey_sorted [Trans (α := κ) (· < ·) (· < ·) (· < ·)] {x : α} {xs : List α}
    (h : SortedBy key xs) : SortedBy key (insertByKey key x xs) := by
  induction xs with
  | nil => exact List.pairwise_singleton _ _
  | cons y ys ih =>
    obtain ⟨hy, hys⟩ := List.pairwise_cons.mp h
    rw [insertByKey]
    split
    · next hlt =>
      refine List.pairwise_cons.mpr ⟨fun z hz => ?_, h⟩
      rcases List.mem_cons.mp hz with rfl | hz
      · exact hlt
      · exact Std.lt_trans hlt (hy z hz)
    · split
      · next hlt =>
        refine List.pairwise_cons.mpr ⟨fun z hz => ?_, ih hys⟩
        rcases mem_insertByKey hz with rfl | hz
        · exact hlt
        · exact hy z hz
      · exact h

/-- An element behind all others goes to the end. -/
theorem insertByKey_last [Std.Asymm (α := κ) (· < ·)] {x : α} {xs : List α}
    (h : ∀ y ∈ xs, key y < key x) : insertByKey key x xs = xs ++ [x] := by
  induction xs with
  | nil => rfl
  | cons y ys ih =>
    have hy := h y List.mem_cons_self
    rw [insertByKey, if_neg (Std.Asymm.asymm _ _ hy), if_pos hy,
      ih fun z hz => h z (List.mem_cons_of_mem y hz)]
    rfl

/-- Elements in ascending order are inserted one behind the other. -/
theorem foldl_insertByKey [Std.Asymm (α := κ) (· < ·)] {xs : List α} :
    ∀ {acc : List α}, SortedBy key (acc ++ xs) →
      xs.foldl (fun acc x => insertByKey key x acc) acc = acc ++ xs := by
  induction xs with
  | nil =>
    intro acc _
    exact (List.append_nil acc).symm
  | cons x xs ih =>
    intro acc h
    have hlast : ∀ y ∈ acc, key y < key x := fun y hy =>
      (List.pairwise_append.mp h).2.2 y hy x List.mem_cons_self
    rw [List.append_cons] at h
    rw [List.foldl_cons, insertByKey_last hlast, ih h, ← List.append_cons]

-- -------------------------
-- Sorted lists
-- -------------------------

/-- An ordered set or map. -/
@[ext] structure SortedList (key : α → κ) where
  elems : List α
  sorted : SortedBy key elems
deriving DecidableEq

namespace SortedList

def empty : SortedList key := ⟨[], List.Pairwise.nil⟩

variable [Trans (α := κ) (· < ·) (· < ·) (· < ·)]

def insert (s : SortedList key) (x : α) : SortedList key :=
  ⟨insertByKey key x s.elems, insertByKey_sorted s.sorted⟩

theorem mem_insert [Std.Trichotomous (α := κ) (· < ·)] (hkey : Function.Injective key)
    {s : SortedList key} {x y : α} : y ∈ (s.insert x).elems ↔ y = x ∨ y ∈ s.elems :=
  mem_insertByKey_iff hkey

theorem mem_foldl_insert [Std.Trichotomous (α := κ) (· < ·)] (hkey : Function.Injective key)
    {xs : List α} {s : SortedList key} {y : α} :
    y ∈ (xs.foldl insert s).elems ↔ y ∈ xs ∨ y ∈ s.elems := by
  induction xs generalizing s with
  | nil => simp
  | cons x xs ih =>
    rw [List.foldl_cons, ih, mem_insert hkey, List.mem_cons]
    tauto

/-- The elements of a list, inserted one after the other. -/
def ofList (xs : List α) : SortedList key := xs.foldl insert empty

/-- The elements of a sorted list are those of the list that is inserted into. -/
theorem elems_foldl (xs : List α) (s : SortedList key) :
    (xs.foldl insert s).elems = xs.foldl (fun acc x => insertByKey key x acc) s.elems := by
  induction xs generalizing s with
  | nil => rfl
  | cons x xs ih => exact ih (s.insert x)

/-- Nothing is in there that was not in the list. -/
theorem mem_of_mem_ofList {xs : List α} {x : α} (h : x ∈ (ofList xs : SortedList key).elems) :
    x ∈ xs := by
  have hfoldl : ∀ (xs : List α) (s : SortedList key), x ∈ (xs.foldl insert s).elems →
      x ∈ xs ∨ x ∈ s.elems := by
    intro xs
    induction xs with
    | nil => exact fun s h => .inr h
    | cons y ys ih =>
      intro s h
      rcases ih (s.insert y) h with h | h
      · exact .inl (List.mem_cons_of_mem y h)
      · rcases mem_insertByKey h with rfl | h
        · exact .inl List.mem_cons_self
        · exact .inr h
  exact (hfoldl xs empty h).resolve_right List.not_mem_nil

theorem ofList_elems [Std.Asymm (α := κ) (· < ·)] (s : SortedList key) : ofList s.elems = s := by
  ext1
  rw [ofList, elems_foldl]
  exact foldl_insertByKey s.sorted

end SortedList

end Lib
