import Mathlib.Data.List.Chain
import Mathlib.Data.List.Nodup
import Mathlib.Logic.Function.Basic

/-!
# Doubly linked lists in memory

A memory gives every node a pointer to the next node and one to the previous node. A `Row` is a
list of nodes in which neighbours point at each other. What the pointers at its two ends lead to
is left open, so that a row can be a whole list between two sentinels or any part of it.

* `Row.congr` — writing to other nodes does not change a row;
* `Row.link` — two rows are joined by linking the last node of one with the first of the other;
* `Row.unlink`, `Row.insert` — removing and adding a node in the middle.
-/

namespace Lib

/-- The links of all nodes. -/
structure Links (α : Type) where
  next : α → α
  prev : α → α

namespace Links

variable {α : Type} {h h' : Links α} {a b x : α} {l l₁ l₂ : List α}

/-- The nodes point at each other. -/
def Adjacent (h : Links α) (a b : α) : Prop := h.next a = b ∧ h.prev b = a

/-- Each node and its successor are adjacent. -/
def Row (h : Links α) (l : List α) : Prop := l.IsChain h.Adjacent

-- -------------------------
-- Rows
-- -------------------------

theorem row_singleton : h.Row [a] := .singleton a

theorem row_cons_cons : h.Row (a :: b :: l) ↔ h.Adjacent a b ∧ h.Row (b :: l) :=
  List.isChain_cons_cons

/-- A row is cut at a node, which belongs to both parts. -/
theorem row_split : h.Row (l₁ ++ a :: l₂) ↔ h.Row (l₁ ++ [a]) ∧ h.Row (a :: l₂) :=
  List.isChain_split

theorem Row.adjacent (hr : h.Row (l₁ ++ a :: b :: l₂)) : h.Adjacent a b :=
  (row_cons_cons.mp (row_split.mp hr).2).1

/-- The node that follows one in a row. -/
theorem Row.next_of_mem (hr : h.Row l) (ha : a ∈ l.dropLast) :
    h.Adjacent a (h.next a) ∧ h.next a ∈ l.tail := by
  induction l with
  | nil => exact absurd ha List.not_mem_nil
  | cons c l ih =>
    cases l with
    | nil => exact absurd ha List.not_mem_nil
    | cons b l =>
      obtain ⟨hcb, hr⟩ := row_cons_cons.mp hr
      rw [List.dropLast_cons_cons] at ha
      rcases List.mem_cons.mp ha with rfl | ha
      · rw [hcb.1]
        exact ⟨hcb, List.mem_cons_self⟩
      · obtain ⟨hadj, hmem⟩ := ih hr ha
        exact ⟨hadj, List.mem_cons_of_mem _ hmem⟩

/-- Only the links between the nodes of a row matter. -/
theorem Row.congr (hr : h.Row l) (hn : ∀ a ∈ l.dropLast, h'.next a = h.next a)
    (hp : ∀ b ∈ l.tail, h'.prev b = h.prev b) : h'.Row l := by
  induction l with
  | nil => exact .nil
  | cons a l ih =>
    cases l with
    | nil => exact row_singleton
    | cons b l =>
      obtain ⟨hab, hr⟩ := row_cons_cons.mp hr
      refine row_cons_cons.mpr ⟨⟨?_, ?_⟩, ih hr (fun c hc => ?_) fun c hc => ?_⟩
      · rw [hn a (by simp), hab.1]
      · rw [hp b (by simp), hab.2]
      · exact hn c (List.mem_cons_of_mem _ hc)
      · exact hp c (List.mem_of_mem_tail hc)

-- -------------------------
-- Assignments
-- -------------------------

variable [DecidableEq α]

/-- `a->next = b`. -/
def setNext (h : Links α) (a b : α) : Links α := { h with next := Function.update h.next a b }

/-- `b->prev = a`. -/
def setPrev (h : Links α) (b a : α) : Links α := { h with prev := Function.update h.prev b a }

/-- Makes two nodes point at each other. -/
def link (h : Links α) (a b : α) : Links α := (h.setNext a b).setPrev b a

@[simp] theorem link_next_self : (h.link a b).next a = b := Function.update_self ..

@[simp] theorem link_prev_self : (h.link a b).prev b = a := Function.update_self ..

/-- Linking changes the successor of the first node only. -/
theorem link_next_of_ne (hx : x ≠ a) : (h.link a b).next x = h.next x :=
  Function.update_of_ne hx ..

/-- Linking changes the predecessor of the second node only. -/
theorem link_prev_of_ne (hx : x ≠ b) : (h.link a b).prev x = h.prev x :=
  Function.update_of_ne hx ..

/-- Linking nodes that are not in a row. -/
theorem Row.link_of_notMem (hr : h.Row l) (ha : a ∉ l.dropLast) (hb : b ∉ l.tail) :
    (h.link a b).Row l := by
  refine hr.congr (fun c hc => link_next_of_ne ?_) fun c hc => link_prev_of_ne ?_
  · rintro rfl
    exact ha hc
  · rintro rfl
    exact hb hc

/-- Joining two rows. -/
theorem Row.link (hl : h.Row (l₁ ++ [a])) (hr : h.Row (b :: l₂))
    (hd : (l₁ ++ a :: b :: l₂).Nodup) : (h.link a b).Row (l₁ ++ a :: b :: l₂) := by
  obtain ⟨-, hd₂, hdisj⟩ := List.nodup_append.mp hd
  obtain ⟨ha, hd₂⟩ := List.nodup_cons.mp hd₂
  obtain ⟨hb, -⟩ := List.nodup_cons.mp hd₂
  have hcut : l₁ ++ a :: b :: l₂ = (l₁ ++ [a]) ++ b :: l₂ := by simp
  refine row_split.mpr ⟨?_, row_cons_cons.mpr ⟨⟨link_next_self, link_prev_self⟩, ?_⟩⟩
  · refine hl.link_of_notMem (fun hmem => ?_) fun hmem => ?_
    · rw [List.dropLast_concat] at hmem
      exact hdisj a hmem a (by simp) rfl
    · rcases List.mem_append.mp (List.mem_of_mem_tail hmem) with hmem | hmem
      · exact hdisj b hmem b (by simp) rfl
      · exact ha (by simp [List.mem_singleton.mp hmem])
  · refine hr.link_of_notMem (fun hmem => ha (List.dropLast_subset _ hmem)) fun hmem => ?_
    exact hb hmem

/-- Removing a node: its neighbours are linked. -/
theorem Row.unlink (hr : h.Row (l₁ ++ a :: x :: b :: l₂))
    (hd : (l₁ ++ a :: x :: b :: l₂).Nodup) : (h.link a b).Row (l₁ ++ a :: b :: l₂) := by
  obtain ⟨hleft, hright⟩ := row_split.mp hr
  have hright := (row_cons_cons.mp (row_cons_cons.mp hright).2).2
  refine hleft.link hright (hd.sublist ?_)
  exact List.Sublist.append_left ((List.sublist_cons_self x _).cons_cons a) l₁

/-- Adding a node between two neighbours. -/
theorem Row.insert (hr : h.Row (l₁ ++ a :: b :: l₂)) (hd : (l₁ ++ a :: x :: b :: l₂).Nodup) :
    ((h.link a x).link x b).Row (l₁ ++ a :: x :: b :: l₂) := by
  obtain ⟨hleft, hright⟩ := row_split.mp hr
  have hright := (row_cons_cons.mp hright).2
  have hd' : (l₁ ++ a :: [x]).Nodup := by
    refine hd.sublist (List.Sublist.append_left ?_ l₁)
    exact ((List.nil_sublist _).cons_cons x).cons_cons a
  have hleft : (h.link a x).Row ((l₁ ++ [a]) ++ [x]) := by
    have := hleft.link (row_singleton (a := x)) hd'
    simpa using this
  obtain ⟨-, hd₂, -⟩ := List.nodup_append.mp hd
  obtain ⟨ha, hd₂⟩ := List.nodup_cons.mp hd₂
  obtain ⟨hx, -⟩ := List.nodup_cons.mp hd₂
  have hright : (h.link a x).Row (b :: l₂) := by
    refine hright.link_of_notMem (fun hmem => ha ?_) fun hmem => hx (List.mem_cons_of_mem _ hmem)
    exact List.mem_cons_of_mem _ (List.dropLast_subset _ hmem)
  have := hleft.link hright (by simpa using hd)
  simpa using this

end Links

end Lib
