import Mathlib.Data.List.Nodup
import Mathlib.Logic.Relation

/-!
# Segments of linked lists

A memory gives some addresses a node, which has a value and a pointer to the next node. A
segment is what one meets on the way from one pointer to another: the addresses and the values
of the nodes. Unlike a list that ends at a null pointer, a segment can end anywhere, so that a
list is cut at any of its nodes.

* `Segment.congr` — writing to other nodes does not change a segment;
* `Segment.append`, `Segment.concat` — a segment is cut into two;
* `Segment.reaches` — a segment leads from its first address to where it ends.
-/

namespace Lib

/-- A node of a singly linked list. -/
structure ListNode (A V : Type) where
  value : V
  next : Option A
deriving DecidableEq, Repr

section

variable {A V : Type}

/-- Following a pointer, one meets the given nodes and arrives at the last pointer. -/
def Segment (load : A → Option (ListNode A V)) : Option A → List (A × V) → Option A → Prop
  | p, [], q => p = q
  | p, (a, v) :: cs, q => p = some a ∧ ∃ r, load a = some ⟨v, r⟩ ∧ Segment load r cs q

/-- The node at an address points to another one. -/
def PointsTo (load : A → Option (ListNode A V)) (a b : A) : Prop :=
  ∃ v, load a = some ⟨v, some b⟩

namespace Segment

variable {load load' : A → Option (ListNode A V)} {p q : Option A} {a b : A} {v : V}
  {cs ds : List (A × V)}

/-- Only the nodes of a segment matter. -/
theorem congr (h : ∀ a ∈ cs.map Prod.fst, load' a = load a) (hs : Segment load p cs q) :
    Segment load' p cs q := by
  induction cs generalizing p with
  | nil => exact hs
  | cons c cs ih =>
    obtain ⟨hp, r, hload, hs⟩ := hs
    refine ⟨hp, r, ?_, ih (fun a ha => h a (List.mem_cons_of_mem _ ha)) hs⟩
    rw [h c.1 List.mem_cons_self]
    exact hload

/-- A segment can be cut where one of its parts ends. -/
theorem append : Segment load p (cs ++ ds) q ↔ ∃ r, Segment load p cs r ∧ Segment load r ds q := by
  induction cs generalizing p with
  | nil =>
    constructor
    · intro hs
      exact ⟨p, rfl, hs⟩
    · rintro ⟨r, rfl, hs⟩
      exact hs
  | cons c cs ih =>
    constructor
    · rintro ⟨hp, r, hload, hs⟩
      obtain ⟨r', hs₁, hs₂⟩ := ih.mp hs
      exact ⟨r', ⟨hp, r, hload, hs₁⟩, hs₂⟩
    · rintro ⟨r', ⟨hp, r, hload, hs₁⟩, hs₂⟩
      exact ⟨hp, r, hload, ih.mpr ⟨r', hs₁, hs₂⟩⟩

/-- The last node points to where the segment ends. -/
theorem concat : Segment load p (cs ++ [(a, v)]) q ↔
    Segment load p cs (some a) ∧ load a = some ⟨v, q⟩ := by
  rw [append]
  constructor
  · rintro ⟨_, hs, rfl, _, hload, rfl⟩
    exact ⟨hs, hload⟩
  · rintro ⟨hs, hload⟩
    exact ⟨some a, hs, rfl, q, hload, rfl⟩

/-- All nodes of a segment are in memory. -/
theorem isSome_of_mem (hs : Segment load p cs q) (ha : a ∈ cs.map Prod.fst) :
    (load a).isSome = true := by
  induction cs generalizing p with
  | nil => exact absurd ha List.not_mem_nil
  | cons c cs ih =>
    obtain ⟨-, r, hload, hs⟩ := hs
    rcases List.mem_cons.mp ha with rfl | ha
    · rw [hload]
      rfl
    · exact ih hs ha

/-- An address without a node is not part of a segment. -/
theorem not_mem (hs : Segment load p cs q) (ha : load a = none) : a ∉ cs.map Prod.fst := by
  intro hmem
  have hsome := hs.isSome_of_mem hmem
  rw [ha] at hsome
  cases hsome

/-- A segment leads to where it ends. -/
theorem reaches (hs : Segment load (some a) cs (some b)) :
    Relation.ReflTransGen (PointsTo load) a b := by
  induction cs generalizing a with
  | nil =>
    cases hs
    exact .refl
  | cons c cs ih =>
    obtain ⟨hp, r, hload, hs⟩ := hs
    cases hp
    cases r with
    | none =>
      -- nothing comes after a null pointer
      cases cs with
      | nil => cases hs
      | cons c' cs => cases hs.1
    | some a' => exact .head ⟨_, hload⟩ (ih hs)

end Segment

end

end Lib
