import Mathlib.Tactic.Common

/-!
# Multimaps as sorted lists

A list in ascending order of its keys, with the insertion of `std::multimap`: a new
element goes behind all elements with the same key.

* `emplace_sorted`, `emplace_perm` — insertion keeps the order and adds the element;
* `not_le_of_mem_dropWhile` — what is left when all elements up to a bound are gone.
-/

namespace Lib

variable {α κ : Type} [LE κ] [DecidableLE κ] {key : α → κ} {x : α} {xs : List α}

/-- `emplace`. -/
def emplaceByKey (key : α → κ) (x : α) : List α → List α
  | [] => [x]
  | y :: ys => if key y ≤ key x then y :: emplaceByKey key x ys else x :: y :: ys

/-- Ascending keys. -/
def Ascending (key : α → κ) (xs : List α) : Prop := xs.Pairwise fun x y => key x ≤ key y

/-- Only the new element is added. -/
theorem emplace_perm (key : α → κ) (x : α) (xs : List α) :
    (emplaceByKey key x xs).Perm (x :: xs) := by
  induction xs with
  | nil => exact List.Perm.refl _
  | cons y ys ih =>
    rw [emplaceByKey]
    split_ifs
    · exact (ih.cons y).trans (List.Perm.swap x y ys)
    · exact List.Perm.refl _

/-- The keys stay in order. -/
theorem emplace_sorted [Std.IsLinearPreorder κ] (h : Ascending key xs) :
    Ascending key (emplaceByKey key x xs) := by
  induction xs with
  | nil => exact List.pairwise_singleton _ _
  | cons y ys ih =>
    obtain ⟨hy, hys⟩ := List.pairwise_cons.mp h
    rw [emplaceByKey]
    split_ifs with hle
    · refine List.pairwise_cons.mpr ⟨fun z hz => ?_, ih hys⟩
      rcases List.mem_cons.mp ((emplace_perm key x ys).mem_iff.mp hz) with rfl | hz
      · exact hle
      · exact hy z hz
    · have hxy : key x ≤ key y := Std.le_of_not_ge hle
      refine List.pairwise_cons.mpr ⟨fun z hz => ?_, h⟩
      rcases List.mem_cons.mp hz with rfl | hz
      · exact hxy
      · exact Std.le_trans hxy (hy z hz)

/-- What is left has greater keys than the bound. -/
theorem not_le_of_mem_dropWhile [Std.IsLinearPreorder κ] (h : Ascending key xs) (t : κ) :
    ∀ x ∈ xs.dropWhile (fun x => decide (key x ≤ t)), ¬ key x ≤ t := by
  induction xs with
  | nil => exact fun _ hx => absurd hx List.not_mem_nil
  | cons y ys ih =>
    obtain ⟨hy, hys⟩ := List.pairwise_cons.mp h
    rw [List.dropWhile_cons]
    split_ifs with hle
    · exact ih hys
    · rw [decide_eq_true_eq] at hle
      intro x hx hxt
      rcases List.mem_cons.mp hx with rfl | hx
      · exact hle hxt
      · exact hle (Std.le_trans (hy x hx) hxt)

end Lib
