import BoostActor.Core.MessageHeap
import Mathlib.Data.Finset.Card

/-!
# The value of a message

The value of a message is read off the heap: the elements with their types, and
those of the messages among them. `MessageHeap.next` is the pointer structure of
the elements; what it unfolds to does not depend on how data is shared.
-/

namespace BoostActor

open Lib

/-- What is seen of an element before its nested elements: its type, and its value
unless it is a message. -/
abbrev ElementLabel (α : Type) := ElementType × Option α

/-- The place of an element: an object and a position in it. -/
abbrev Place := DataAddr × Nat

namespace DataObject

variable {α : Type}

/-- `concatenated_tuple::select`, given the sizes. -/
def selectAt (sizes : DataAddr → Nat) : List DataAddr → Nat → PointerStep Place (ElementLabel α)
  | [], _ => .stuck
  | m :: data, idx =>
    if sizes m ≤ idx then selectAt sizes data (idx - sizes m) else .follow (m, idx)

/-- What an element holds. -/
def cellStep (sizes : DataAddr → Nat) (e : Element (Cell α)) : PointerStep Place (ElementLabel α) :=
  match e.value with
  | .plain v => .value (e.type, some v) []
  | .message none => .value (e.type, none) []
  | .message (some b) => .value (e.type, none) ((List.range (sizes b)).map fun i => (b, i))

/-- What an object holds at a position. -/
def step (sizes : DataAddr → Nat) (pos : Nat) : DataObject α → PointerStep Place (ElementLabel α)
  | decoratedTuple d mapping _ => mapping[pos]?.elim .stuck fun i => .follow (d, i)
  | concatenatedTuple data _ _ => selectAt sizes data pos
  | o => o.cells[pos]?.elim .stuck (cellStep sizes)

/-- The object keeps its elements itself: it is no view and no concatenation. -/
def KeepsElements : DataObject α → Prop
  | decoratedTuple _ _ _ => False
  | concatenatedTuple _ _ _ => False
  | _ => True

instance (o : DataObject α) : Decidable o.KeepsElements := by
  cases o <;> unfold KeepsElements <;> infer_instance

/-- Data that keeps its elements leads to the element's cell. -/
theorem KeepsElements.step_eq {o : DataObject α} (h : o.KeepsElements) (sizes : DataAddr → Nat)
    (pos : Nat) : o.step sizes pos = o.cells[pos]?.elim .stuck (cellStep sizes) := by
  cases o <;> first | rfl | exact h.elim

/-- Data that keeps its elements is as long as its cells. -/
theorem KeepsElements.size_eq {o : DataObject α} (h : o.KeepsElements) :
    o.size = o.cells.length := by
  cases o <;> first | rfl | exact h.elim

/-- A copy holds the same. -/
theorem step_copy (sizes : DataAddr → Nat) (pos : Nat) (o : DataObject α) :
    o.copy.step sizes pos = o.step sizes pos := by
  cases o <;> rfl

theorem size_copy (o : DataObject α) : o.copy.size = o.size := by
  cases o <;> rfl

theorem refs_copy (o : DataObject α) : o.copy.refs = o.refs := by
  cases o <;> rfl

/-- An element that is a message is a reference of the object. -/
theorem mem_refs_of_cell {e : Element (Cell α)} {b : DataAddr} {o : DataObject α}
    (he : e ∈ o.cells) (hb : e.value = .message (some b)) : b ∈ o.refs := by
  have hmem : b ∈ o.cells.flatMap fun e => e.value.refs :=
    List.mem_flatMap.mpr ⟨e, he, by rw [hb]; exact List.mem_singleton_self b⟩
  cases o with
  | tupleVals data => exact hmem
  | dynamicMsgData elements token => exact hmem
  | decoratedTuple d mapping token => cases he
  | concatenatedTuple data token size => cases he

-- -------------------------
-- Where a step leads
-- -------------------------

/-- Selecting leads into one of the parts, within its size. -/
theorem selectAt_targets {sizes : DataAddr → Nat} :
    ∀ {data : List DataAddr} {pos : Nat} {n : Place},
    n ∈ (selectAt (α := α) sizes data pos).targets → n.1 ∈ data ∧ n.2 < sizes n.1
  | [], _, _, h => by cases h
  | m :: data, idx, n, h => by
    rw [selectAt] at h
    split_ifs at h with hle
    · exact ⟨List.mem_cons_of_mem _ (selectAt_targets h).1, (selectAt_targets h).2⟩
    · obtain rfl := List.mem_singleton.mp h
      exact ⟨List.mem_cons_self, by simpa using hle⟩

/-- Only an element that is a message leads elsewhere. -/
theorem cellStep_targets {sizes : DataAddr → Nat} {e : Element (Cell α)} {n : Place}
    (h : n ∈ (cellStep sizes e).targets) : e.value = .message (some n.1) ∧ n.2 < sizes n.1 := by
  unfold cellStep at h
  split at h
  · cases h
  · cases h
  next b hb =>
    obtain ⟨i, hi, rfl⟩ := List.mem_map.mp h
    exact ⟨hb, List.mem_range.mp hi⟩

/-- A step leads along a pointer of the object. -/
theorem step_targets {sizes : DataAddr → Nat} {pos : Nat} {o : DataObject α} {n : Place}
    (h : n ∈ (o.step sizes pos).targets) : n.1 ∈ o.refs := by
  by_cases ho : o.KeepsElements
  · rw [ho.step_eq] at h
    cases he : o.cells[pos]? with
    | none => rw [he] at h; cases h
    | some e =>
      rw [he] at h
      exact mem_refs_of_cell (List.mem_of_getElem? he) (cellStep_targets h).1
  · cases o with
    | tupleVals _ => exact absurd trivial ho
    | dynamicMsgData _ _ => exact absurd trivial ho
    | concatenatedTuple data token size => exact (selectAt_targets h).1
    | decoratedTuple d mapping token =>
      rw [step] at h
      cases hi : mapping[pos]? with
      | none => rw [hi] at h; cases h
      | some i =>
        rw [hi] at h
        obtain rfl := List.mem_singleton.mp h
        exact List.mem_singleton_self d

/-- Selecting depends on the sizes of the parts only. -/
theorem selectAt_congr {sizes sizes' : DataAddr → Nat} : ∀ (data : List DataAddr) (pos : Nat),
    (∀ b ∈ data, sizes' b = sizes b) → selectAt (α := α) sizes' data pos = selectAt sizes data pos
  | [], _, _ => rfl
  | m :: data, pos, h => by
    rw [selectAt, selectAt, h m (by simp), selectAt_congr data _ fun b hb => h b (by simp [hb])]

/-- Only the sizes of the objects pointed to matter. -/
theorem step_congr {sizes sizes' : DataAddr → Nat} {pos : Nat} {o : DataObject α}
    (h : ∀ b ∈ o.refs, sizes' b = sizes b) : o.step sizes' pos = o.step sizes pos := by
  by_cases ho : o.KeepsElements
  · rw [ho.step_eq, ho.step_eq]
    cases he : o.cells[pos]? with
    | none => rfl
    | some e =>
      rw [Option.elim_some, Option.elim_some, cellStep, cellStep]
      split
      · rfl
      · rfl
      next b hb => rw [h b (mem_refs_of_cell (List.mem_of_getElem? he) hb)]
  · cases o with
    | tupleVals _ => exact absurd trivial ho
    | dynamicMsgData _ _ => exact absurd trivial ho
    | decoratedTuple d mapping token => rfl
    | concatenatedTuple data token size => exact selectAt_congr data pos h

end DataObject

namespace MessageHeap

variable {α : Type} {h h' : MessageHeap α} {a b d : DataAddr} {o : DataObject α}

-- -------------------------
-- Walking through the heap
-- -------------------------

/-- What is kept at a place. -/
def next (h : MessageHeap α) (n : Place) : PointerStep Place (ElementLabel α) :=
  (h.object? n.1).elim .stuck (DataObject.step h.sizeOf n.2)

theorem next_of_object (ho : h.object? a = some o) (pos : Nat) :
    h.next (a, pos) = o.step h.sizeOf pos := by
  rw [next, ho, Option.elim_some]

theorem sizeOf_of_object (ho : h.object? a = some o) : h.sizeOf a = o.size := by
  rw [sizeOf, ho, Option.elim_some]

/-- A place has an element. -/
def Valid (h : MessageHeap α) (n : Place) : Prop := n.2 < h.sizeOf n.1

/-- A valid place lies in an object that exists. -/
theorem Valid.object {n : Place} (hn : h.Valid n) : ∃ o, h.object? n.1 = some o ∧ n.2 < o.size := by
  unfold Valid sizeOf at hn
  cases ho : h.object? n.1 with
  | none => rw [ho] at hn; exact absurd hn (Nat.not_lt_zero _)
  | some o => rw [ho] at hn; exact ⟨o, rfl, hn⟩

-- -------------------------
-- Well formed heaps
-- -------------------------

/-- What the constructors establish and a heap keeps: pointers are to objects,
mappings name different elements of what they map into, concatenations add up
sizes, and pointers lead downwards. -/
structure WellFormed (h : MessageHeap α) : Prop where
  vars : ∀ a, some a ∈ h.vars → (h.object? a).isSome
  refs : ∀ a o, h.object? a = some o → ∀ b ∈ o.refs, (h.object? b).isSome
  mapping : ∀ a d mapping token, h.object? a = some (.decoratedTuple d mapping token) →
    mapping.Nodup ∧ ∀ i ∈ mapping, i < h.sizeOf d
  size : ∀ a data token size, h.object? a = some (.concatenatedTuple data token size) →
    size = (data.map h.sizeOf).sum
  acyclic : ∃ rank : DataAddr → Nat, ∀ n, ∀ m ∈ (h.next n).targets, rank m.1 < rank n.1

/-- What is kept at a place points to places with elements. -/
theorem WellFormed.targets_valid (hwf : h.WellFormed) {n m : Place}
    (hm : m ∈ (h.next n).targets) : h.Valid m := by
  unfold next at hm
  cases ho : h.object? n.1 with
  | none => rw [ho] at hm; cases hm
  | some o =>
    rw [ho, Option.elim_some] at hm
    -- the elements of the data itself lead into a message that is an element
    by_cases hleaf : o.KeepsElements
    · rw [hleaf.step_eq] at hm
      cases he : o.cells[n.2]? with
      | none => rw [he] at hm; cases hm
      | some e => rw [he] at hm; exact (DataObject.cellStep_targets hm).2
    · cases o with
      | tupleVals _ => exact absurd trivial hleaf
      | dynamicMsgData _ _ => exact absurd trivial hleaf
      -- a concatenation leads into a part, a decorator to a position of its mapping
      | concatenatedTuple data token size => exact (DataObject.selectAt_targets hm).2
      | decoratedTuple d mapping token =>
        rw [DataObject.step] at hm
        cases hi : mapping[n.2]? with
        | none => rw [hi] at hm; cases hm
        | some i =>
          rw [hi] at hm
          obtain rfl := List.mem_singleton.mp hm
          exact (hwf.mapping _ _ _ _ ho).2 i (List.mem_of_getElem? hi)

/-- A position within the parts is found in one of them. -/
theorem selectAt_ne_stuck {sizes : DataAddr → Nat} : ∀ (data : List DataAddr) (pos : Nat),
    pos < (data.map sizes).sum → DataObject.selectAt (α := α) sizes data pos ≠ .stuck
  | [], _, h => absurd h (Nat.not_lt_zero _)
  | m :: data, pos, h => by
    rw [List.map_cons, List.sum_cons] at h
    rw [DataObject.selectAt]
    split_ifs with hle
    · exact selectAt_ne_stuck data _ (by omega)
    · simp

/-- A place with an element holds something. -/
theorem WellFormed.next_ne_stuck (hwf : h.WellFormed) {n : Place} (hn : h.Valid n) :
    h.next n ≠ .stuck := by
  obtain ⟨o, ho, hlt⟩ := hn.object
  rw [next, ho, Option.elim_some]
  by_cases hleaf : o.KeepsElements
  · rw [hleaf.step_eq, List.getElem?_eq_getElem (hleaf.size_eq ▸ hlt), Option.elim_some]
    unfold DataObject.cellStep
    split <;> simp
  · cases o with
    | tupleVals _ => exact absurd trivial hleaf
    | dynamicMsgData _ _ => exact absurd trivial hleaf
    | decoratedTuple d mapping token =>
      rw [DataObject.step, List.getElem?_eq_getElem hlt]
      simp
    | concatenatedTuple data token size =>
      have hsize := hwf.size _ _ _ _ ho
      exact selectAt_ne_stuck data n.2 (hsize ▸ hlt)

/-- No way down is longer than there are objects. -/
theorem WellFormed.exists_rank (hwf : h.WellFormed) : ∃ rank : DataAddr → Nat,
    (∀ n, ∀ m ∈ (h.next n).targets, rank m.1 < rank n.1) ∧ ∀ a, rank a ≤ h.objects.length := by
  obtain ⟨rank, hrank⟩ := hwf.acyclic
  -- count the objects further down
  let below (a : DataAddr) : Finset Nat :=
    (Finset.range h.objects.length).filter fun b => rank b < rank a
  refine ⟨fun a => (below a).card, fun n m hm => ?_, fun a => ?_⟩
  · have hlt := hrank n m hm
    obtain ⟨o, ho, -⟩ := (hwf.targets_valid hm).object
    have hmem : m.1 ∈ below n.1 := by
      refine Finset.mem_filter.mpr ⟨Finset.mem_range.mpr (Nat.lt_of_not_le fun hle => ?_), hlt⟩
      rw [object?, List.getElem?_eq_none hle] at ho
      cases ho
    refine Finset.card_lt_card ⟨fun b hb => ?_, fun hsub => ?_⟩
    · obtain ⟨hrange, hb⟩ := Finset.mem_filter.mp hb
      exact Finset.mem_filter.mpr ⟨hrange, Nat.lt_trans hb hlt⟩
    · exact Nat.lt_irrefl _ (Finset.mem_filter.mp (hsub hmem)).2
  · exact (Finset.card_filter_le _ _).trans (Finset.card_range _).le

/-- Every element of a well formed heap has a value. -/
theorem WellFormed.exists_value (hwf : h.WellFormed) {n : Place} (hn : h.Valid n) :
    ∃ t, Unfolds h.next n t := by
  obtain ⟨rank, hrank⟩ := hwf.acyclic
  exact exists_unfolds (P := h.Valid) (fun n => rank n.1) (fun n => hwf.next_ne_stuck)
    (fun n _ m hm => ⟨hwf.targets_valid hm, hrank n m hm⟩) n hn

end MessageHeap

end BoostActor
