import BoostActor.Core.MessageWrites

/-!
# Value semantics of messages

Each message has a value of its own if assigning through one changes the value of
no other, and shows in that one. `writes_isolated_iff` says when assignments to
places are of this kind; `message::mutable_at` and handlers with mutable
references follow.
-/

namespace BoostActor

open Lib

namespace MessageHeap

variable {α : Type} {h h' : MessageHeap α} {a b : DataAddr} {c n : Place} {v : Cell α}

-- -------------------------
-- Values
-- -------------------------

/-- The value of a message: that of its elements, in order. -/
def MessageValue (h : MessageHeap α) (x : Nat) (ts : List (ValueTree (ElementLabel α))) : Prop :=
  (h.vars[x]? = some none ∧ ts = []) ∨
    ∃ a, h.vars[x]? = some (some a) ∧
      List.Forall₂ (fun i t => Unfolds h.next (a, i) t) (List.range (h.sizeOf a)) ts

/-- The value of an element of a message. -/
def ElementValue (h : MessageHeap α) (x pos : Nat) (t : ValueTree (ElementLabel α)) : Prop :=
  ∃ a, h.vars[x]? = some (some a) ∧ Unfolds h.next (a, pos) t

/-- The value of an element of the given type that holds `v`. -/
def CellValue (h : MessageHeap α) (type : ElementType) (v : Cell α)
    (t : ValueTree (ElementLabel α)) : Prop :=
  (DataObject.cellStep h.sizeOf ⟨type, v⟩).UnfoldsTo h.next t

/-- The value of the element at a place once it is assigned `v`. -/
def NewValue (h : MessageHeap α) (n : Place) (v : Cell α) (t : ValueTree (ElementLabel α)) : Prop :=
  ∃ type o ts, Unfolds h.next n (.node (type, o) ts) ∧ h.CellValue type v t

/-- Assigning `v` gives the element at a place the value it has. -/
def SameValue (h : MessageHeap α) (n : Place) (v : Cell α) : Prop :=
  ∀ t, h.NewValue n v t → Unfolds h.next n t

/-- What can be assigned to an element of `x`: a plain value, or a message that the
program holds apart from `x`. -/
def Assignable (h : MessageHeap α) (x : Nat) : Cell α → Prop
  | .plain _ => True
  | .message none => True
  | .message (some b) => ∃ y, y ≠ x ∧ h.vars[y]? = some (some b)

/-- The messages other than `x` have the values they had. -/
def OthersUnchanged (h h' : MessageHeap α) (x : Nat) : Prop :=
  ∀ y, y ≠ x → ∀ ts, h'.MessageValue y ts ↔ h.MessageValue y ts

/-- Some message other than `x` shows the element at a place, not reading `W`. -/
def ShownByOther (h : MessageHeap α) (W : Place → Prop) (x : Nat) (n : Place) : Prop :=
  ∃ y b q, y ≠ x ∧ h.vars[y]? = some (some b) ∧ q < h.sizeOf b ∧ Visits h.next W (b, q) n

/-- A cell is a value: it has no place that it leads to. -/
theorem cellStep_eq_value (sizes : DataAddr → Nat) (type : ElementType) (v : Cell α) :
    ∃ l ns, DataObject.cellStep sizes ⟨type, v⟩ = .value l ns := by
  unfold DataObject.cellStep
  split <;> exact ⟨_, _, rfl⟩

/-- The label of an element carries its type. -/
theorem cellValue_type {type : ElementType} {l : ElementLabel α} {ts}
    (hv : h.CellValue type v (.node l ts)) : l.1 = type := by
  unfold CellValue DataObject.cellStep at hv
  split at hv <;> exact hv.1 ▸ rfl

theorem unfolds_cell_iff {e : Element (Cell α)} (hc : h.cell? n = some e)
    (t : ValueTree (ElementLabel α)) : Unfolds h.next n t ↔ h.CellValue e.type e.value t := by
  rw [unfolds_iff, next_of_cell hc]
  rfl

/-- At a place that keeps its element, the new value has the type of the element. -/
theorem newValue_cell_iff (hwf : h.WellFormed) {e : Element (Cell α)} (hc : h.cell? n = some e)
    (hn : h.Valid n) (t : ValueTree (ElementLabel α)) :
    h.NewValue n v t ↔ h.CellValue e.type v t := by
  constructor
  · rintro ⟨type, o, ts, hold, hnew⟩
    have htype := cellValue_type ((unfolds_cell_iff hc _).mp hold)
    exact htype ▸ hnew
  · intro hnew
    obtain ⟨⟨⟨type, o⟩, ts⟩, hold⟩ := hwf.exists_value hn
    have htype : type = e.type := cellValue_type ((unfolds_cell_iff hc _).mp hold)
    exact ⟨type, o, ts, hold, htype ▸ hnew⟩

/-- Values of assignable messages read in another heap. -/
theorem Assignable.cellValue_iff {x : Nat} (hv : h.Assignable x v) (hwf : h.WellFormed)
    (hsizes : ∀ b, (h.object? b).isSome → h'.sizeOf b = h.sizeOf b)
    (hunfolds : ∀ m, (h.object? m.1).isSome → ∀ t, Unfolds h'.next m t ↔ Unfolds h.next m t)
    (type : ElementType) (t : ValueTree (ElementLabel α)) :
    h'.CellValue type v t ↔ h.CellValue type v t := by
  obtain ⟨l, ts⟩ := t
  cases v with
  | plain v =>
    refine and_congr_right fun _ => ?_
    rw [List.forall₂_nil_left_iff, List.forall₂_nil_left_iff]
  | message vals =>
    cases vals with
    | none =>
      refine and_congr_right fun _ => ?_
      rw [List.forall₂_nil_left_iff, List.forall₂_nil_left_iff]
    | some b =>
      obtain ⟨y, -, hy⟩ := hv
      have hb : (h.object? b).isSome := hwf.vars b (List.mem_of_getElem? hy)
      refine and_congr_right fun _ => ?_
      rw [hsizes b hb, List.forall₂_map_left_iff, List.forall₂_map_left_iff]
      exact Iff.of_eq (congrArg (List.Forall₂ · _ _) (funext fun i => funext fun t =>
        propext (hunfolds (b, i) hb t)))

/-- Every element of an object of a well formed heap has a value. -/
theorem WellFormed.exists_values (hwf : h.WellFormed) (b : DataAddr) :
    ∃ ts, List.Forall₂ (fun i t => Unfolds h.next (b, i) t) (List.range (h.sizeOf b)) ts := by
  have hall : ∀ is : List Nat, (∀ i ∈ is, i < h.sizeOf b) →
      ∃ ts, List.Forall₂ (fun i t => Unfolds h.next (b, i) t) is ts := by
    intro is
    induction is with
    | nil => exact fun _ => ⟨[], .nil⟩
    | cons i is ih =>
      intro his
      obtain ⟨t, ht⟩ := hwf.exists_value (n := (b, i)) (his i List.mem_cons_self)
      obtain ⟨ts, hts⟩ := ih fun j hj => his j (List.mem_cons_of_mem _ hj)
      exact ⟨t :: ts, .cons ht hts⟩
  exact hall _ fun i hi => List.mem_range.mp hi

theorem exists_cellValue (hwf : h.WellFormed) (type : ElementType) (v : Cell α) :
    ∃ t, h.CellValue type v t := by
  rcases v with v | _ | b
  · exact ⟨.node (type, some v) [], rfl, .nil⟩
  · exact ⟨.node (type, none) [], rfl, .nil⟩
  · obtain ⟨ts, hts⟩ := hwf.exists_values b
    exact ⟨.node (type, none) ts, rfl, List.forall₂_map_left_iff.mpr hts⟩

/-- Every message with a well formed heap has a value. -/
theorem WellFormed.exists_messageValue (hwf : h.WellFormed) {x : Nat} {vals : Option DataAddr}
    (hx : h.vars[x]? = some vals) : ∃ ts, h.MessageValue x ts := by
  cases vals with
  | none => exact ⟨[], .inl ⟨hx, rfl⟩⟩
  | some a =>
    obtain ⟨ts, hts⟩ := hwf.exists_values a
    exact ⟨ts, .inr ⟨a, hx, hts⟩⟩

/-- The value of a message holds the value of each of its elements. -/
theorem MessageValue.element {x pos : Nat} {ts} (hv : h.MessageValue x ts)
    (hx : h.vars[x]? = some (some a)) (hpos : pos < h.sizeOf a) :
    ∃ t, ts[pos]? = some t ∧ Unfolds h.next (a, pos) t := by
  rcases hv with ⟨hnone, -⟩ | ⟨a', ha', hts⟩
  · rw [hx] at hnone
    cases hnone
  · obtain rfl : a = a' := Option.some.inj (Option.some.inj (hx.symm.trans ha'))
    have hlen := hts.length_eq
    rw [List.length_range] at hlen
    have hlt : pos < ts.length := hlen ▸ hpos
    refine ⟨ts[pos], List.getElem?_eq_getElem hlt, ?_⟩
    have hget := (List.forall₂_iff_get.mp hts).2 pos (by rwa [List.length_range]) hlt
    simpa using hget

/-- A message has one value. -/
theorem MessageValue.unique {x : Nat} {ts ts'} (hv : h.MessageValue x ts)
    (hv' : h.MessageValue x ts') : ts = ts' := by
  rcases hv with ⟨hx, rfl⟩ | ⟨a, hx, hts⟩ <;> rcases hv' with ⟨hx', rfl⟩ | ⟨a', hx', hts'⟩
  · rfl
  · rw [hx] at hx'
    cases hx'
  · rw [hx] at hx'
    cases hx'
  · obtain rfl : a = a' := Option.some.inj (Option.some.inj (hx.symm.trans hx'))
    refine eq_of_forall₂ (hts.imp ?_) hts'
    intro i t ht t' ht'
    exact ht.unique ht'

/-- A relation that holds on the left list's own elements. -/
theorem forall₂_imp_mem {β γ : Type} {R R' : β → γ → Prop} {xs : List β} {ys : List γ}
    (himp : ∀ x ∈ xs, ∀ y, R x y → R' x y) (hR : List.Forall₂ R xs ys) : List.Forall₂ R' xs ys := by
  induction hR with
  | nil => exact .nil
  | cons hxy _ ih =>
    exact .cons (himp _ List.mem_cons_self _ hxy)
      (ih fun x hx => himp x (List.mem_cons_of_mem _ hx))

theorem valid_of_cell {e : Element (Cell α)} (hc : h.cell? n = some e) : h.Valid n := by
  obtain ⟨o, ho, hkeeps, he⟩ := keepsElements_of_cell hc
  rw [Valid, sizeOf_of_object ho, hkeeps.size_eq]
  exact (List.getElem?_eq_some_iff.mp he).1

-- -------------------------
-- Assignments to places
-- -------------------------

/-- Assignments to elements of the message `x`, whose element at `i` is kept at `place i`. -/
structure Assigning (h : MessageHeap α) (x : Nat) (a : DataAddr) (ws : List (Nat × Cell α))
    (place : Nat → Place) : Prop where
  wellFormed : h.WellFormed
  holder : h.vars[x]? = some (some a)
  leads : ∀ w ∈ ws, Leads h.next (a, w.1) (place w.1)
  cell : ∀ w ∈ ws, (h.cell? (place w.1)).isSome
  assignable : ∀ w ∈ ws, h.Assignable x w.2

/-- The places that are written. -/
def Written (ws : List (Nat × Cell α)) (place : Nat → Place) (n : Place) : Prop :=
  ∃ i v, lastWrite ws i = some v ∧ place i = n

/-- The heap after the assignments. -/
def assigned (h : MessageHeap α) (ws : List (Nat × Cell α)) (place : Nat → Place) :
    MessageHeap α :=
  h.storeAll (ws.map fun w => (place w.1, w.2))

namespace Assigning

variable {x : Nat} {ws : List (Nat × Cell α)} {place : Nat → Place} {i : Nat}

/-- The assignments keep the variables and sizes and write the last value of each place. -/
theorem spec (hw : h.Assigning x a ws place) :
    (h.assigned ws place).vars = h.vars ∧ (h.assigned ws place).sizeOf = h.sizeOf ∧
      ∀ n, (h.assigned ws place).next n =
        match lastWrite (ws.map fun w => (place w.1, w.2)) n, h.cell? n with
        | some v, some e => DataObject.cellStep h.sizeOf ⟨e.type, v⟩
        | _, _ => h.next n := by
  refine storeAll_spec fun w hmem => ?_
  obtain ⟨w', hw', rfl⟩ := List.mem_map.mp hmem
  exact hw.cell w' hw'

/-- A place that no assignment goes to keeps its content. -/
theorem next_of_not_written (hw : h.Assigning x a ws place) (hn : ¬ Written ws place n) :
    (h.assigned ws place).next n = h.next n := by
  rw [hw.spec.2.2]
  cases hlast : lastWrite (ws.map fun w => (place w.1, w.2)) n with
  | none => rfl
  | some v =>
    obtain ⟨k, hk, hkv⟩ := lastWrite_map hlast
    exact absurd ⟨k, v, hkv, hk⟩ hn

/-- A place that is written holds the last value assigned to it. -/
theorem next_of_written (hw : h.Assigning x a ws place) (hn : Written ws place n) :
    ∃ j v e, lastWrite ws j = some v ∧ place j = n ∧ h.cell? n = some e ∧
      (h.assigned ws place).next n = DataObject.cellStep h.sizeOf ⟨e.type, v⟩ := by
  obtain ⟨i, v, hv, rfl⟩ := hn
  obtain ⟨e, he⟩ := Option.isSome_iff_exists.mp (hw.cell _ (lastWrite_mem hv))
  have hne := lastWrite_map_ne_none (f := place) hv rfl
  obtain ⟨v', hlast⟩ := Option.ne_none_iff_exists'.mp hne
  obtain ⟨j, hj, hjv⟩ := lastWrite_map hlast
  refine ⟨j, v', e, hjv, hj, he, ?_⟩
  rw [hw.spec.2.2, hlast, he]

/-- The new value of a written element is that of the place it is kept at. -/
theorem newValue_iff (hw : h.Assigning x a ws place) (hi : lastWrite ws i = some v)
    {e : Element (Cell α)} (he : h.cell? (place i) = some e) (v' : Cell α)
    (t : ValueTree (ElementLabel α)) :
    h.NewValue (a, i) v' t ↔ h.CellValue e.type v' t := by
  have hleads := hw.leads _ (lastWrite_mem hi)
  rw [← newValue_cell_iff hw.wellFormed he (valid_of_cell he)]
  unfold NewValue
  simp only [hleads.unfolds_iff]

/-- Assignments are not seen where the elements that are shown keep their values. -/
theorem frame (hw : h.Assigning x a ws place)
    (hsame : ∀ i v, lastWrite ws i = some v → h.ShownByOther (Written ws place) x (place i) →
      h.SameValue (a, i) v)
    {t : ValueTree (ElementLabel α)} (hn : h.ShownByOther (Written ws place) x n)
    (ht : Unfolds h.next n t) : Unfolds (h.assigned ws place).next n t := by
  -- a tree that meets a written place meets it at an element some other message shows
  refine unfolds_of_overwrite (W := Written ws place)
    (S := h.ShownByOther (Written ws place) x) (fun n => hw.next_of_not_written) ?_ ?_ hn ht
  · rintro n ⟨y, b, q, hyx, hy, hq, hv⟩ hnw m hm
    exact ⟨y, b, q, hyx, hy, hq, hv.trans (.step hnw hm (.refl m))⟩
  · intro n hn hnw
    obtain ⟨j, v, e, hj, rfl, he, hnext⟩ := hw.next_of_written hnw
    obtain ⟨l, ns, hstep⟩ := cellStep_eq_value h.sizeOf e.type v
    refine ⟨l, ns, hnext.trans hstep, fun m hm => ?_, fun t ht => ?_⟩
    · -- an assigned message is one that the program holds, so its elements are shown
      have hmem : m ∈ (DataObject.cellStep h.sizeOf ⟨e.type, v⟩).targets := by
        rw [hstep]
        exact hm
      obtain ⟨hv, hlt⟩ := DataObject.cellStep_targets hmem
      have hassign := hw.assignable _ (lastWrite_mem hj)
      rw [show v = .message (some m.1) from hv] at hassign
      obtain ⟨y, hyx, hy⟩ := hassign
      exact ⟨y, m.1, m.2, hyx, hy, hlt, .refl m⟩
    · obtain ⟨t', ht'⟩ := exists_cellValue hw.wellFormed e.type v
      have hold := hsame j v hj hn t' ((hw.newValue_iff hj he v t').mpr ht')
      rw [(hw.leads _ (lastWrite_mem hj)).unfolds_iff] at hold
      obtain rfl := ht.unique hold
      rw [← hstep]
      exact ht'

/-- The value assigned is read alike after the assignments. -/
theorem frame_cellValue (hw : h.Assigning x a ws place)
    (hsame : ∀ i v, lastWrite ws i = some v → h.ShownByOther (Written ws place) x (place i) →
      h.SameValue (a, i) v)
    (hv : h.Assignable x v) {type : ElementType} {t : ValueTree (ElementLabel α)}
    (ht : h.CellValue type v t) : (h.assigned ws place).CellValue type v t := by
  obtain ⟨l, ts⟩ := t
  rcases v with v | _ | b
  · exact ⟨ht.1, List.forall₂_nil_left_iff.mpr (List.forall₂_nil_left_iff.mp ht.2)⟩
  · exact ⟨ht.1, List.forall₂_nil_left_iff.mpr (List.forall₂_nil_left_iff.mp ht.2)⟩
  · obtain ⟨y, hyx, hy⟩ := hv
    refine ⟨ht.1, List.forall₂_map_left_iff.mpr ?_⟩
    rw [hw.spec.2.1]
    refine forall₂_imp_mem (fun i hi t ht => ?_) (List.forall₂_map_left_iff.mp ht.2)
    exact hw.frame hsame ⟨y, b, i, hyx, hy, List.mem_range.mp hi, .refl _⟩ ht

/-- If what other messages show is assigned what it already is, they keep their values. -/
theorem othersUnchanged (hw : h.Assigning x a ws place)
    (hsame : ∀ i v, lastWrite ws i = some v → h.ShownByOther (Written ws place) x (place i) →
      h.SameValue (a, i) v) : h.OthersUnchanged (h.assigned ws place) x := by
  have hkeep : ∀ y, y ≠ x → ∀ ts, h.MessageValue y ts →
      (h.assigned ws place).MessageValue y ts := by
    rintro y hyx ts (⟨hy, hts⟩ | ⟨b, hy, hts⟩)
    · exact .inl ⟨hw.spec.1 ▸ hy, hts⟩
    · refine .inr ⟨b, hw.spec.1 ▸ hy, ?_⟩
      rw [hw.spec.2.1]
      exact forall₂_imp_mem (fun i hi t ht =>
        hw.frame hsame ⟨y, b, i, hyx, hy, List.mem_range.mp hi, .refl _⟩ ht) hts
  intro y hyx ts
  refine ⟨fun hv => ?_, hkeep y hyx ts⟩
  obtain ⟨vals, hvals⟩ : ∃ vals, h.vars[y]? = some vals := by
    rw [← hw.spec.1]
    rcases hv with ⟨hy, -⟩ | ⟨b, hy, -⟩ <;> exact ⟨_, hy⟩
  obtain ⟨ts', hts'⟩ := hw.wellFormed.exists_messageValue hvals
  exact hv.unique (hkeep y hyx ts' hts') ▸ hts'

/-- After the assignments, the element is read at its place. -/
theorem leads_after (hw : h.Assigning x a ws place) (hi : lastWrite ws i = some v) :
    Leads (h.assigned ws place).next (a, i) (place i) := by
  refine (hw.leads _ (lastWrite_mem hi)).congr (W := Written ws place)
    (fun n => hw.next_of_not_written) fun n hn k hk => ?_
  obtain ⟨j, v', e, -, -, he, -⟩ := hw.next_of_written hn
  obtain ⟨l, ns, hstep⟩ := cellStep_eq_value h.sizeOf e.type e.value
  rw [next_of_cell he] at hk
  cases hstep.symm.trans hk

/-- The assignments leave other messages alone and all of them show in `x`, exactly
if an element that another message shows is assigned the value it has, and elements
that are kept at one place are assigned the same value. -/
theorem isolated_iff (hw : h.Assigning x a ws place) :
    (h.OthersUnchanged (h.assigned ws place) x ∧ ∀ i v, lastWrite ws i = some v →
      ∀ t, h.NewValue (a, i) v t → (h.assigned ws place).ElementValue x i t) ↔
    (∀ i v, lastWrite ws i = some v → h.ShownByOther (Written ws place) x (place i) →
      h.SameValue (a, i) v) ∧
    ∀ i v j v', lastWrite ws i = some v → lastWrite ws j = some v' → place i = place j →
      ∀ t, h.NewValue (a, i) v t → h.NewValue (a, j) v' t := by
  have hx' : (h.assigned ws place).vars[x]? = some (some a) := hw.spec.1 ▸ hw.holder
  constructor
  · rintro ⟨hothers, hvisible⟩
    -- what the assignment shows in `x` is what the place holds afterwards
    have hplace : ∀ i v t, lastWrite ws i = some v → h.NewValue (a, i) v t →
        Unfolds (h.assigned ws place).next (place i) t := by
      intro i v t hi ht
      obtain ⟨a', ha', hval⟩ := hvisible i v hi t ht
      obtain rfl : a = a' := Option.some.inj (Option.some.inj (hx'.symm.trans ha'))
      rwa [(hw.leads_after hi).unfolds_iff] at hval
    refine ⟨?_, ?_⟩
    · rintro i v hi ⟨y, b, q, hyx, hy, hq, hv⟩ t ht
      obtain ⟨ts, hts⟩ := hw.wellFormed.exists_messageValue hy
      obtain ⟨s, hs, hold⟩ := hts.element hy hq
      obtain ⟨s', hs', hnew⟩ := ((hothers y hyx ts).mpr hts).element (hw.spec.1 ▸ hy)
        (show q < _ by rw [hw.spec.2.1]; exact hq)
      obtain rfl : s = s' := Option.some.inj (hs.symm.trans hs')
      obtain ⟨u, hu, hu'⟩ := hv.meet (fun n => hw.next_of_not_written) hold hnew
      rw [(hw.leads _ (lastWrite_mem hi)).unfolds_iff, (hplace i v t hi ht).unique hu']
      exact hu
    · intro i v j v' hi hj hij t ht
      obtain ⟨e, he⟩ := Option.isSome_iff_exists.mp (hw.cell _ (lastWrite_mem hj))
      obtain ⟨t', ht'⟩ := exists_cellValue hw.wellFormed e.type v'
      have hnew := (hw.newValue_iff hj he v' t').mpr ht'
      have hi' := hplace i v t hi ht
      rw [hij] at hi'
      exact (hi'.unique (hplace j v' t' hj hnew)) ▸ hnew
  · rintro ⟨hsame, hagree⟩
    -- conversely, both halves follow from the frame of the assignments
    refine ⟨hw.othersUnchanged hsame, fun i v hi t ht => ⟨a, hx', ?_⟩⟩
    rw [(hw.leads_after hi).unfolds_iff]
    obtain ⟨j, v', e, hj, hji, he, hnext⟩ := hw.next_of_written ⟨i, v, hi, rfl⟩
    have hnew := hagree i v j v' hi hj hji.symm t ht
    rw [hw.newValue_iff hj (hji ▸ he)] at hnew
    have hafter := hw.frame_cellValue hsame (hw.assignable _ (lastWrite_mem hj)) hnew
    rw [unfolds_iff, hnext]
    rwa [CellValue, hw.spec.2.1] at hafter

end Assigning

end MessageHeap

end BoostActor
