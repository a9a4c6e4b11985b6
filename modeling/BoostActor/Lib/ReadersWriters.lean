import Mathlib.Logic.Function.Basic

/-!
# Readers and writers

What a lock for readers and writers is for: any number of users may hold it together, or one user
may hold it alone. A user gets what is compatible with what all others hold, and may give it up at
any time.

* `LockStep.safe` — all that is held stays compatible.
-/

namespace Lib

/-- How a user holds a lock. -/
inductive Holding where
  | none
  | shared
  | exclusive
deriving DecidableEq, Repr

/-- What two users may hold at the same time. -/
def Holding.Compatible (h h' : Holding) : Prop :=
  h = .none ∨ h' = .none ∨ h = .shared ∧ h' = .shared

section

variable {ι : Type} [DecidableEq ι] {s s' : ι → Holding}

/-- One user changes what it holds. -/
inductive LockStep (s : ι → Holding) : (ι → Holding) → Prop where
  | change (i : ι) (h : Holding) (hothers : ∀ j, j ≠ i → h.Compatible (s j)) :
    LockStep s (Function.update s i h)

/-- No two users hold what is not compatible. -/
def LockSafe (s : ι → Holding) : Prop := ∀ i j, i ≠ j → (s i).Compatible (s j)

/-- It does not matter who holds the lock first. -/
theorem Holding.Compatible.symm {h h' : Holding} (hc : h.Compatible h') : h'.Compatible h := by
  rcases hc with hnone | hnone | ⟨hshared, hshared'⟩
  · exact .inr (.inl hnone)
  · exact .inl hnone
  · exact .inr (.inr ⟨hshared', hshared⟩)

/-- A step to what is compatible with all others keeps a lock safe. -/
theorem LockStep.safe (hs : LockSafe s) (h : LockStep s s') : LockSafe s' := by
  cases h with
  | change i h hothers =>
    intro j k hne
    by_cases hj : j = i
    · subst hj
      rw [Function.update_self, Function.update_of_ne hne.symm]
      exact hothers k hne.symm
    · rw [Function.update_of_ne hj]
      by_cases hk : k = i
      · subst hk
        rw [Function.update_self]
        exact (hothers j hj).symm
      · rw [Function.update_of_ne hk]
        exact hs j k hne

end

end Lib
