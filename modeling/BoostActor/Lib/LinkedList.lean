import Mathlib.Tactic.Common
import Mathlib.Logic.Function.Basic

/-!
# Linked lists in memory

A memory gives every address `a : A` the pointer `next a : P` to the next node. `Linked`
relates a pointer to the list of addresses that one meets when following it up to the
end, which is the pointer `null`.

* `Linked.congr` — writing to other nodes does not change a list;
* `Linked.push`, `Linked.null_iff` — the operations of a stack.
-/

namespace Lib

variable {A P : Type}

/-- Following `next` from a pointer yields the given addresses. -/
def Linked (node : A → P) (null : P) (next : A → P) : P → List A → Prop
  | p, [] => p = null
  | p, a :: as => p = node a ∧ Linked node null next (next a) as

namespace Linked

variable {node : A → P} {null : P} {next next' : A → P} {p : P} {a : A} {as : List A}

/-- Only the nodes of a list matter. -/
theorem congr (h : ∀ a ∈ as, next' a = next a) (hl : Linked node null next p as) :
    Linked node null next' p as := by
  induction as generalizing p with
  | nil => exact hl
  | cons a as ih =>
    refine ⟨hl.1, ?_⟩
    rw [h a List.mem_cons_self]
    exact ih (fun b hb => h b (List.mem_cons_of_mem _ hb)) hl.2

/-- Writing to a node that is not part of a list. -/
theorem update [DecidableEq A] {b : A} {v : P} (hb : b ∉ as) (hl : Linked node null next p as) :
    Linked node null (Function.update next b v) p as := by
  refine hl.congr fun a ha => Function.update_of_ne ?_ v next
  rintro rfl
  exact hb ha

/-- A node that points to a list is the head of a longer one. -/
theorem push [DecidableEq A] (ha : a ∉ as) (hl : Linked node null next p as) :
    Linked node null (Function.update next a p) (node a) (a :: as) := by
  refine ⟨rfl, ?_⟩
  rw [Function.update_self]
  exact hl.update ha

/-- The empty list is that of `null`. -/
theorem null_iff (hnode : ∀ a, node a ≠ null) (hl : Linked node null next p as) :
    p = null ↔ as = [] := by
  cases as with
  | nil => exact iff_of_true hl rfl
  | cons a as =>
    refine iff_of_false (fun hp => ?_) (List.cons_ne_nil _ _)
    exact hnode a (hl.1.symm.trans hp)

/-- A list that starts with a node. -/
theorem of_node (hnode : ∀ a, node a ≠ null) (hinj : Function.Injective node)
    (hl : Linked node null next (node a) as) :
    ∃ rest, as = a :: rest ∧ Linked node null next (next a) rest := by
  cases as with
  | nil => exact absurd hl (hnode a)
  | cons b rest =>
    obtain rfl := hinj hl.1
    exact ⟨rest, rfl, hl.2⟩

end Linked

end Lib
