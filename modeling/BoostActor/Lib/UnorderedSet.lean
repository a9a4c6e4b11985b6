import Mathlib.Data.List.Nodup

/-!
# Unordered sets

Sets with an order of iteration: a list without duplicates. A new element is added at the
end.

* `mem_insert`, `mem_erase` — the elements after an update;
* `length_insert` — a new element counts.
-/

namespace Lib

/-- A list without duplicates. -/
structure USet (α : Type) where
  elems : List α
  nodup : elems.Nodup
deriving DecidableEq

namespace USet

variable {α : Type}

instance : Membership α (USet α) := ⟨fun s a => a ∈ s.elems⟩

theorem mem_def {a : α} {s : USet α} : a ∈ s ↔ a ∈ s.elems := Iff.rfl

def empty : USet α := ⟨[], List.nodup_nil⟩

@[simp] theorem not_mem_empty (a : α) : a ∉ (empty : USet α) := List.not_mem_nil

variable [DecidableEq α]

instance (a : α) (s : USet α) : Decidable (a ∈ s) := inferInstanceAs (Decidable (a ∈ s.elems))

def insert (s : USet α) (a : α) : USet α :=
  if h : a ∈ s.elems then s
  else ⟨s.elems ++ [a], by
    rw [List.nodup_append]
    exact ⟨s.nodup, List.nodup_singleton a, fun x hx y hy he => h (by
      rw [List.mem_singleton] at hy
      rwa [← hy, ← he])⟩⟩

theorem length_insert {s : USet α} {a : α} (h : a ∉ s) :
    (s.insert a).elems.length = s.elems.length + 1 := by
  have h' : a ∉ s.elems := h
  simp [insert, h']

def erase (s : USet α) (a : α) : USet α := ⟨s.elems.erase a, s.nodup.erase a⟩

/-- An element of a set after one was inserted. -/
@[simp] theorem mem_insert {s : USet α} {a b : α} : b ∈ s.insert a ↔ b = a ∨ b ∈ s := by
  unfold insert
  split
  · next h =>
    refine ⟨Or.inr, fun hb => ?_⟩
    rcases hb with rfl | hb
    · exact h
    · exact hb
  · simp [mem_def, or_comm]

@[simp] theorem mem_erase {s : USet α} {a b : α} : b ∈ s.erase a ↔ b ≠ a ∧ b ∈ s :=
  s.nodup.mem_erase_iff

theorem erase_of_not_mem {s : USet α} {a : α} (h : a ∉ s) : (s.erase a).elems = s.elems :=
  List.erase_of_not_mem h

end USet

end Lib
