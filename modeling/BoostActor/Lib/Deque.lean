import Mathlib.Data.List.Perm.Basic

/-!
# Deques

The operations on a double-ended queue with the results that they have on a list. A history is
a sequence of operations whose results are these.

* `DequeHistory.perm` — what has been put in has been taken or is still there.
-/

namespace Lib

/-- An operation on a deque; taking an element returns nothing when there is none. -/
inductive DequeEvent (α : Type) where
  | append (v : α)
  | prepend (v : α)
  | takeHead (result : Option α)
  | takeTail (result : Option α)
deriving DecidableEq, Repr

section

variable {α : Type}

/-- The operations take the empty list to the given one, with the results they have on lists. -/
inductive DequeHistory : List (DequeEvent α) → List α → Prop where
  | nil : DequeHistory [] []
  | append {log : List (DequeEvent α)} {l : List α} (v : α) : DequeHistory log l →
      DequeHistory (log ++ [.append v]) (l ++ [v])
  | prepend {log : List (DequeEvent α)} {l : List α} (v : α) : DequeHistory log l →
      DequeHistory (log ++ [.prepend v]) (v :: l)
  | takeHead {log : List (DequeEvent α)} {l : List α} : DequeHistory log l →
      DequeHistory (log ++ [.takeHead l.head?]) l.tail
  | takeTail {log : List (DequeEvent α)} {l : List α} : DequeHistory log l →
      DequeHistory (log ++ [.takeTail l.getLast?]) l.dropLast

namespace DequeEvent

/-- The elements that have been put in. -/
def puts (log : List (DequeEvent α)) : List α :=
  log.filterMap fun
    | .append v => some v
    | .prepend v => some v
    | _ => none

/-- The elements that have been taken. -/
def takes (log : List (DequeEvent α)) : List α :=
  log.filterMap fun
    | .takeHead result => result
    | .takeTail result => result
    | _ => none

theorem puts_append (log more : List (DequeEvent α)) : puts (log ++ more) = puts log ++ puts more :=
  List.filterMap_append

theorem takes_append (log more : List (DequeEvent α)) :
    takes (log ++ more) = takes log ++ takes more := List.filterMap_append

end DequeEvent

open DequeEvent

/-- Every element that has been put in has been taken once, or is still there. -/
theorem DequeHistory.perm {log : List (DequeEvent α)} {l : List α} (h : DequeHistory log l) :
    (puts log).Perm (takes log ++ l) := by
  induction h with
  | nil => exact .nil
  | @append log l v _ ih =>
    -- putting in takes nothing out, and the other way round
    have htakes : takes (log ++ [.append v]) = takes log := by
      rw [takes_append]
      exact List.append_nil _
    rw [puts_append, htakes, ← List.append_assoc]
    exact ih.append_right [v]
  | @prepend log l v _ ih =>
    have htakes : takes (log ++ [.prepend v]) = takes log := by
      rw [takes_append]
      exact List.append_nil _
    rw [puts_append, htakes]
    exact (List.perm_append_singleton v _).trans ((ih.cons v).trans List.perm_middle.symm)
  | @takeHead log l _ ih =>
    have hputs : puts (log ++ [.takeHead l.head?]) = puts log := by
      rw [puts_append]
      exact List.append_nil _
    rw [hputs, takes_append]
    cases l with
    -- nothing to take
    | nil =>
      rw [List.append_assoc]
      exact ih
    | cons v l =>
      show (puts log).Perm (takes log ++ [v] ++ l)
      rw [List.append_assoc]
      exact ih
  | @takeTail log l _ ih =>
    have hputs : puts (log ++ [.takeTail l.getLast?]) = puts log := by
      rw [puts_append]
      exact List.append_nil _
    rw [hputs, takes_append]
    rcases List.eq_nil_or_concat l with rfl | ⟨l, v, rfl⟩
    · rw [List.append_assoc]
      exact ih
    · rw [List.concat_eq_append] at ih ⊢
      rw [List.getLast?_concat, List.dropLast_concat, List.append_assoc]
      exact ih.trans (List.Perm.append_left _ (List.perm_append_singleton v l))

end

end Lib
