import BoostActor.Core.ValueSemantics

/-!
# When a write stays in its message

`mutable_at` and handlers with mutable references, on any well formed heap: both
leave every other message as it was unless the element written is in data that the
message shares behind a concatenation, or, for handlers, behind a view.
-/

namespace BoostActor

open Lib

namespace MessageHeap

variable {α : Type} {h h' h₁ : MessageHeap α} {a a₁ b : DataAddr} {x : Nat} {v : Cell α}

-- -------------------------
-- Heaps in which only `x` has moved to other data
-- -------------------------

/-- The heap `h₁` has the values of `h`, with `a₁` in place of the data `a` of `x`. -/
structure SameValues (h h₁ : MessageHeap α) (x : Nat) (a a₁ : DataAddr) : Prop where
  wellFormed : h.WellFormed
  wellFormed₁ : h₁.WellFormed
  holder : h.vars[x]? = some (some a)
  vars : h₁.vars = h.vars.set x (some a₁)
  sizes : ∀ b, (h.object? b).isSome → h₁.sizeOf b = h.sizeOf b
  unfolds : ∀ m, (h.object? m.1).isSome → ∀ t, Unfolds h₁.next m t ↔ Unfolds h.next m t
  data : ∀ i t, Unfolds h₁.next (a₁, i) t ↔ Unfolds h.next (a, i) t
  dataSize : h₁.sizeOf a₁ = h.sizeOf a

namespace SameValues

theorem holder₁ (hs : SameValues h h₁ x a a₁) : h₁.vars[x]? = some (some a₁) := by
  obtain ⟨hlt, -⟩ := List.getElem?_eq_some_iff.mp hs.holder
  rw [hs.vars, List.getElem?_set_self hlt]

theorem other (hs : SameValues h h₁ x a a₁) {y : Nat} (hy : y ≠ x) : h₁.vars[y]? = h.vars[y]? := by
  rw [hs.vars, List.getElem?_set_ne (Ne.symm hy)]

/-- A message that another variable holds has the same value before and after the detachment. -/
theorem messageValue_iff (hs : SameValues h h₁ x a a₁) {y : Nat} (hy : y ≠ x) (ts) :
    h₁.MessageValue y ts ↔ h.MessageValue y ts := by
  unfold MessageValue
  rw [hs.other hy]
  refine or_congr_right (exists_congr fun b => and_congr_right fun hyb => ?_)
  have hb : (h.object? b).isSome := hs.wellFormed.vars b (List.mem_of_getElem? hyb)
  rw [hs.sizes b hb]
  exact Iff.of_eq (congrArg (List.Forall₂ · _ _)
    (funext fun i => funext fun t => propext (hs.unfolds (b, i) hb t)))

/-- Leaving the others unchanged means the same before and after the detachment. -/
theorem othersUnchanged_iff (hs : SameValues h h₁ x a a₁) :
    h₁.OthersUnchanged h' x ↔ h.OthersUnchanged h' x :=
  forall_congr' fun y => imp_congr_right fun hy => forall_congr' fun ts => by
    rw [hs.messageValue_iff hy]

/-- What can be assigned can still be assigned. -/
theorem assignable (hs : SameValues h h₁ x a a₁) (hv : h.Assignable x v) : h₁.Assignable x v := by
  rcases v with v | _ | b
  · trivial
  · trivial
  · obtain ⟨y, hyx, hy⟩ := hv
    exact ⟨y, hyx, (hs.other hyx).trans hy⟩

/-- The value to be shown is the same before and after the detachment. -/
theorem newValue_iff (hs : SameValues h h₁ x a a₁) (hv : h.Assignable x v) (i : Nat) (t) :
    h₁.NewValue (a₁, i) v t ↔ h.NewValue (a, i) v t := by
  unfold NewValue
  simp only [hs.data, hv.cellValue_iff hs.wellFormed hs.sizes hs.unfolds]

theorem sameValue_iff (hs : SameValues h h₁ x a a₁) (hv : h.Assignable x v) (i : Nat) :
    h₁.SameValue (a₁, i) v ↔ h.SameValue (a, i) v :=
  forall_congr' fun t => by rw [hs.newValue_iff hv, hs.data]

end SameValues

-- -------------------------
-- Detaching without a visible effect
-- -------------------------

/-- Detaching a variable's data changes no value. -/
theorem Detached.sameValues {orig : DataAddr → DataAddr} (hwf : h.WellFormed)
    (hx : h.vars[x]? = some (some a)) (hdet : Detached h h₁ orig a a₁)
    (hvars : h₁.vars = h.vars.set x (some a₁)) : SameValues h h₁ x a a₁ where
  wellFormed := hwf
  wellFormed₁ := hdet.wellFormed
  holder := hx
  vars := hvars
  sizes b hb := by rw [hdet.copies.sizeOf, hdet.old b hb]
  unfolds m hm t := by rw [hdet.copies.covers.unfolds_iff, hdet.origPlace_old hm]
  data i t := by rw [hdet.copies.covers.unfolds_iff, origPlace, hdet.origin]
  dataSize := by rw [hdet.copies.sizeOf, hdet.origin]

/-- Detached data is shown by its message only. -/
theorem HeldByVar.not_visits (hheld : h.HeldByVar a x) {y q i : Nat} (hyx : y ≠ x)
    (hy : h.vars[y]? = some (some b)) {W : Place → Prop} :
    ¬ Visits h.next W (b, q) (a, i) := by
  intro hv
  rcases hv.last with heq | ⟨m, -, hlast⟩
  · exact hyx (hheld.vars y ((Prod.mk.inj heq).1 ▸ hy))
  · cases hm : h.object? m.1 with
    | none => rw [next, hm] at hlast; cases hlast
    | some o =>
      rw [next, hm, Option.elim_some] at hlast
      exact hheld.objects m.1 o hm (DataObject.step_targets hlast)

-- -------------------------
-- `mutable_at`
-- -------------------------

/-- Places that are not read through make no difference on the way to them. -/
theorem visits_avoiding_iff {n c : Place} {W : Place → Prop} (hW : ∀ n, W n → n = c) :
    Visits h.next W n c ↔ Visits h.next noNode n c := by
  constructor
  · exact Visits.mono fun _ hn => hn.elim
  · intro hv
    induction hv with
    | refl => exact .refl _
    | @step n m c _ hm _ ih =>
      by_cases hn : n = c
      · exact hn ▸ .refl _
      · exact .step (fun hw => hn (hW n hw)) hm (ih hW)

/-- Who shows the element that `mutable_at` comes back with. -/
theorem shownByOther_reached {orig : DataAddr → DataAddr} {rank : DataAddr → Nat}
    {fuel pos : Nat} {h₀ : MessageHeap α} {a₀ : DataAddr} {c : Place} {W : Place → Prop}
    (hrank : ∀ n, ∀ m ∈ (h.next n).targets, rank m.1 < rank n.1)
    (hs : SameValues h h₀ x a a₀) (hdet : Detached h h₀ orig a a₀) (hheld : h₀.HeldByVar a₀ x)
    (hreach : h₀.Reaches (fun b => rank (orig b)) (a₀, pos) (h₀.target fuel (a₀, pos)) h₁ c)
    (hW : ∀ n, W n → n = c) :
    h₁.ShownByOther W x c ↔
      ∃ l, h.exposed fuel (a, pos) = some l ∧ h.ShownByOther noNode x l := by
  -- a message that another variable holds consists of objects that were there before
  have hold : ∀ {y b}, y ≠ x → h.vars[y]? = some (some b) →
      (h.object? b).isSome ∧ (h₀.object? b).isSome ∧ some b ∈ h₀.vars := by
    intro y b hyx hy
    have hb : (h.object? b).isSome := hs.wellFormed.vars b (List.mem_of_getElem? hy)
    have hmem : some b ∈ h₀.vars := List.mem_of_getElem? ((hs.other hyx).trans hy)
    exact ⟨hb, hs.wellFormed₁.vars b hmem, hmem⟩
  have hsize : ∀ {y b}, y ≠ x → h.vars[y]? = some (some b) → h₁.sizeOf b = h.sizeOf b := by
    intro y b hyx hy
    obtain ⟨hb, hb₀, -⟩ := hold hyx hy
    rw [hreach.sizes b hb₀, hs.sizes b hb]
  -- `get_mutable` exposes a shared place, or it stays inside the detached data
  cases hE : h₀.exposed fuel (a₀, pos) with
  | none =>
    have htarget : h₀.target fuel (a₀, pos) = (a₀, pos) := by rw [target, hE]; rfl
    rw [hdet.exposed_none hE]
    constructor
    · rintro ⟨y, b, q, hyx, hy, -, hv⟩
      rw [hreach.vars, hs.other hyx] at hy
      rw [visits_avoiding_iff hW, hreach.visits b q (hold hyx hy).2.2, htarget] at hv
      exact absurd hv (hheld.not_visits hyx ((hs.other hyx).trans hy))
    · rintro ⟨l, hl, -⟩
      cases hl
  | some l =>
    obtain ⟨hl, holdl, hla⟩ := hdet.exposed hrank hE
    -- visits of the written place are visits of the exposed one in the old heap
    have htarget : h₀.target fuel (a₀, pos) = l := by rw [target, hE]; rfl
    have hvis : ∀ {y b q}, y ≠ x → h.vars[y]? = some (some b) →
        (Visits h₁.next W (b, q) c ↔ Visits h.next noNode (b, q) l) := by
      intro y b q hyx hy
      rw [visits_avoiding_iff hW, hreach.visits b q (hold hyx hy).2.2, htarget,
        hdet.visits_iff (hold hyx hy).1 holdl hla]
    rw [hl]
    constructor
    · rintro ⟨y, b, q, hyx, hy, hq, hv⟩
      rw [hreach.vars, hs.other hyx] at hy
      exact ⟨l, rfl, y, b, q, hyx, hy, hsize hyx hy ▸ hq, (hvis hyx hy).mp hv⟩
    · rintro ⟨l', hl', y, b, q, hyx, hy, hq, hv⟩
      obtain rfl := Option.some.inj hl'
      refine ⟨y, b, q, hyx, ?_, (hsize hyx hy).symm ▸ hq, (hvis hyx hy).mpr hv⟩
      rw [hreach.vars, hs.other hyx, hy]

/-- What `mutable_at` of an element does: the values stay, and the element is seen by
those that see what a concatenation selects last on the way to it. -/
theorem assignAt_spec (hwf : h.WellFormed) (hx : h.vars[x]? = some (some a)) {pos : Nat}
    (hpos : pos < h.sizeOf a) :
    ∃ h₁ a₁ c, (∀ v, h.assignAt x pos v = some (h₁.store c v)) ∧ SameValues h h₁ x a a₁ ∧
      Leads h₁.next (a₁, pos) c ∧ (h₁.cell? c).isSome ∧
      ∀ W : Place → Prop, (∀ n, W n → n = c) → (h₁.ShownByOther W x c ↔
        ∃ l, h.exposed (h.objects.length + 1) (a, pos) = some l ∧ h.ShownByOther noNode x l) := by
  obtain ⟨rank, hrank, hbound⟩ := hwf.exists_rank
  -- detach the variable's own data first, then walk to the element
  obtain ⟨orig, h₀, a₀, hun, hdet, hvars, hheld, -⟩ := unshareVar_spec hwf hx
  have hs := hdet.sameValues hwf hx hvars
  have hvalid : h₀.Valid (a₀, pos) := by
    rw [Valid, hdet.copies.sizeOf, hdet.origin]
    exact hpos
  obtain ⟨h₁, c, hrun, hreach⟩ := @dataMutableAt_spec _ (h.objects.length + 1) _
    (fun b => rank (orig b)) hdet.wellFormed (hdet.rank_lt hrank) _ _ hvalid
    (Nat.lt_succ_of_le (hbound _))
  have hold₀ : (h₀.object? a₀).isSome := hdet.wellFormed.vars a₀ (List.mem_of_getElem? hs.holder₁)
  have hb₀ : ∀ b, (h.object? b).isSome → (h₀.object? b).isSome := fun b hb => by
    rwa [hdet.copies.isSome_iff, hdet.old b hb]
  refine ⟨h₁, a₀, c, fun v => ?_, ?_, hreach.leads, ?_, fun W hW =>
    shownByOther_reached hrank hs hdet hheld hreach hW⟩
  · rw [assignAt, hx]
    show Option.map _ (dataMutableAt (h.objects.length + 1) (h.unshareVar x a).1
      (h.unshareVar x a).2 pos) = _
    rw [hun, hrun]
    rfl
  · exact {
      wellFormed := hwf, wellFormed₁ := hreach.wellFormed, holder := hx
      vars := hreach.vars.trans hvars
      sizes := fun b hb => (hreach.sizes b (hb₀ b hb)).trans (hs.sizes b hb)
      unfolds := fun m hm t => (hreach.unfolds m (hb₀ _ hm) t).trans (hs.unfolds m hm t)
      data := fun i t => (hreach.unfolds (a₀, i) hold₀ t).trans (hs.data i t)
      dataSize := (hreach.sizes a₀ hold₀).trans hs.dataSize }
  · obtain ⟨o, ho, hkeeps, hlt⟩ := hreach.cell
    rw [cell?, ho, Option.bind_some, List.getElem?_eq_getElem (hkeeps.size_eq ▸ hlt)]
    rfl

-- -------------------------
-- Assigning one element
-- -------------------------

/-- The assignments `ws` to elements of `x`, whose data is `a`, change no other
message, and the last one to each element shows in `x`. -/
def Isolates (h h' : MessageHeap α) (x : Nat) (a : DataAddr) (ws : List (Nat × Cell α)) : Prop :=
  h.OthersUnchanged h' x ∧ ∀ i v, lastWrite ws i = some v →
    ∀ t, h.NewValue (a, i) v t → h'.ElementValue x i t

/-- No other message shows what a concatenation selects last on the way to the
element, or the element keeps its value. -/
def MutableDetached (h : MessageHeap α) (x : Nat) (a : DataAddr) (pos : Nat) (v : Cell α) : Prop :=
  ∀ l, h.exposed (h.objects.length + 1) (a, pos) = some l → h.ShownByOther noNode x l →
    h.SameValue (a, pos) v

/-- In terms of a heap with the same values, that the assignments isolate. -/
theorem Assigning.isolates_iff {ws : List (Nat × Cell α)} {place : Nat → Place}
    (hw : h₁.Assigning x a₁ ws place) (hs : SameValues h h₁ x a a₁)
    (hassign : ∀ w ∈ ws, h.Assignable x w.2) :
    h.Isolates (h₁.assigned ws place) x a ws ↔
      (∀ i v, lastWrite ws i = some v → h₁.ShownByOther (Written ws place) x (place i) →
        h.SameValue (a, i) v) ∧
      ∀ i v j v', lastWrite ws i = some v → lastWrite ws j = some v' → place i = place j →
        ∀ t, h.NewValue (a, i) v t → h.NewValue (a, j) v' t := by
  have hiso := hw.isolated_iff
  rw [hs.othersUnchanged_iff] at hiso
  have hlast : ∀ {i v}, lastWrite ws i = some v → h.Assignable x v :=
    fun hi => hassign _ (lastWrite_mem hi)
  refine Iff.trans (and_congr_right fun _ => ?_) (hiso.trans (and_congr ?_ ?_))
  · exact forall_congr' fun i => forall_congr' fun v => forall_congr' fun hi =>
      forall_congr' fun t => imp_congr_left (hs.newValue_iff (hlast hi) i t).symm
  · exact forall_congr' fun i => forall_congr' fun v => forall_congr' fun hi =>
      imp_congr_right fun _ => hs.sameValue_iff (hlast hi) i
  · refine forall_congr' fun i => forall_congr' fun v => forall_congr' fun j =>
      forall_congr' fun v' => forall_congr' fun hi => forall_congr' fun hj =>
      forall_congr' fun _ => forall_congr' fun t => ?_
    rw [hs.newValue_iff (hlast hi), hs.newValue_iff (hlast hj)]

/-- The last of a single write. -/
theorem lastWrite_singleton {pos i : Nat} {v v' : Cell α} :
    lastWrite [(pos, v)] i = some v' ↔ i = pos ∧ v' = v := by
  show (Option.or none (if pos = i then some v else none)) = some v' ↔ _
  rw [Option.none_or]
  split_ifs with hi
  · rw [Option.some.injEq]
    exact ⟨fun heq => ⟨hi.symm, heq.symm⟩, fun heq => heq.2.symm⟩
  · exact ⟨fun heq => (by cases heq), fun heq => absurd heq.1.symm hi⟩

/-- Assigning through `mutable_at` leaves the other messages alone and shows in its
own, exactly in detached heaps. -/
theorem assignAt_isolates_iff (hwf : h.WellFormed) (hx : h.vars[x]? = some (some a)) {pos : Nat}
    (hpos : pos < h.sizeOf a) (hv : h.Assignable x v) :
    ∃ h', h.assignAt x pos v = some h' ∧
      (h.Isolates h' x a [(pos, v)] ↔ h.MutableDetached x a pos v) := by
  obtain ⟨h₁, a₁, c, hrun, hs, hleads, hcell, hshown⟩ := assignAt_spec hwf hx hpos
  have hassigning : h₁.Assigning x a₁ [(pos, v)] fun _ => c := {
    wellFormed := hs.wellFormed₁, holder := hs.holder₁
    leads := fun w hw => by
      obtain rfl := List.mem_singleton.mp hw
      exact hleads
    cell := fun _ _ => hcell
    assignable := fun w hw => by
      obtain rfl := List.mem_singleton.mp hw
      exact hs.assignable hv }
  refine ⟨h₁.store c v, hrun v, (hassigning.isolates_iff hs fun w hw => ?_).trans ?_⟩
  · obtain rfl := List.mem_singleton.mp hw
    exact hv
  · -- a single write is isolated if the place it exposes is shown by no one else
    have hW := hshown (Written [(pos, v)] fun _ => c) fun n ⟨_, _, _, hn⟩ => hn.symm
    constructor
    · rintro ⟨hsame, -⟩ l hl hl'
      exact hsame pos v (lastWrite_singleton.mpr ⟨rfl, rfl⟩) (hW.mpr ⟨l, hl, hl'⟩)
    · refine fun hdetached => ⟨fun i v' hi hshow => ?_, fun i v₁ j v₂ hi hj _ t ht => ?_⟩
      · obtain ⟨rfl, rfl⟩ := lastWrite_singleton.mp hi
        obtain ⟨l, hl, hl'⟩ := hW.mp hshow
        exact hdetached l hl hl'
      · obtain ⟨rfl, rfl⟩ := lastWrite_singleton.mp hi
        obtain ⟨rfl, rfl⟩ := lastWrite_singleton.mp hj
        exact ht

-- -------------------------
-- Handlers with mutable references
-- -------------------------

/-- Where `at` finds the element at a position of the data `a`. -/
def elementPlace (h : MessageHeap α) (a : DataAddr) (i : Nat) : Place :=
  (h.locate (h.objects.length + 1) a i).getD (a, i)

/-- Every element is found, at a place that keeps it. -/
theorem locate_spec (hwf : h.WellFormed) {rank : DataAddr → Nat}
    (hrank : ∀ n, ∀ m ∈ (h.next n).targets, rank m.1 < rank n.1) : ∀ (fuel : Nat) {a i : Nat},
    h.Valid (a, i) → rank a < fuel →
    ∃ c, h.locate fuel a i = some c ∧ Leads h.next (a, i) c ∧ (h.cell? c).isSome
  | 0, _, _, _, hfuel => absurd hfuel (Nat.not_lt_zero _)
  | fuel + 1, a, i, hvalid, hfuel => by
    obtain ⟨o, ho, hpos⟩ := hvalid.object
    -- data that keeps its elements itself is its own place
    have hkept : o.KeepsElements → (h.cell? (a, i)).isSome := fun hkeeps => by
      rw [cell?, ho, Option.bind_some, List.getElem?_eq_getElem (hkeeps.size_eq ▸ hpos)]
      rfl
    -- data that only refers to others goes one step further
    have hfollow : ∀ m, h.next (a, i) = .follow m → ∃ c, h.locate fuel m.1 m.2 = some c ∧
        Leads h.next (a, i) c ∧ (h.cell? c).isSome := by
      intro m hm
      have hmem : m ∈ (h.next (a, i)).targets := by
        rw [hm]
        exact List.mem_singleton_self m
      obtain ⟨c, hc, hleads, hcell⟩ := locate_spec hwf hrank fuel (hwf.targets_valid hmem)
        (Nat.lt_of_lt_of_le (hrank _ m hmem) (Nat.le_of_lt_succ hfuel))
      exact ⟨c, hc, .follow hm hleads, hcell⟩
    cases o with
    | tupleVals data =>
      refine ⟨(a, i), ?_, .refl _, hkept trivial⟩
      rw [locate, ho]
      exact if_pos hpos
    | dynamicMsgData elements token =>
      refine ⟨(a, i), ?_, .refl _, hkept trivial⟩
      rw [locate, ho]
      exact if_pos hpos
    | concatenatedTuple data token size =>
      have hstep : h.next (a, i) = (h.select data i).elim .stuck .follow := by
        rw [next_of_object ho, DataObject.step, selectAt_eq]
      cases hsel : h.select data i with
      | none =>
        rw [hsel] at hstep
        exact absurd hstep (hwf.next_ne_stuck hvalid)
      | some m =>
        rw [hsel] at hstep
        obtain ⟨c, hc, hrest⟩ := hfollow m hstep
        refine ⟨c, ?_, hrest⟩
        rw [locate, ho]
        exact (congrArg (Option.bind · _) hsel).trans hc
    | decoratedTuple d mapping token =>
      have hi : mapping[i]? = some mapping[i] := List.getElem?_eq_getElem hpos
      obtain ⟨c, hc, hrest⟩ := hfollow (d, mapping[i]) (by
        rw [next_of_object ho, DataObject.step, hi]
        rfl)
      refine ⟨c, ?_, hrest⟩
      rw [locate, ho]
      exact (congrArg (Option.bind · _) hi).trans hc

/-- Selecting a part depends on the sizes of the parts only. -/
theorem select_congr : ∀ (data : List DataAddr) (pos : Nat),
    (∀ b ∈ data, h₁.sizeOf b = h.sizeOf b) → h₁.select data pos = h.select data pos
  | [], _, _ => rfl
  | m :: data, pos, hsizes => by
    rw [select, select, hsizes m List.mem_cons_self,
      select_congr data _ fun b hb => hsizes b (List.mem_cons_of_mem _ hb)]

theorem sizeOf_congr (hobj : h₁.object? b = h.object? b) : h₁.sizeOf b = h.sizeOf b := by
  rw [sizeOf, sizeOf, hobj]

/-- Elements of objects that stayed are found where they were. -/
theorem locate_congr (hwf : h.WellFormed)
    (hobj : ∀ b, (h.object? b).isSome → h₁.object? b = h.object? b) : ∀ (fuel : Nat) {b i : Nat},
    (h.object? b).isSome → h₁.locate fuel b i = h.locate fuel b i
  | 0, _, _, _ => rfl
  | fuel + 1, b, i, hb => by
    obtain ⟨o, ho⟩ := Option.isSome_iff_exists.mp hb
    rw [locate, locate, hobj b hb, ho]
    cases o with
    | tupleVals data => rfl
    | dynamicMsgData elements token => rfl
    | decoratedTuple d mapping token =>
      have hd := hwf.refs b _ ho d (List.mem_singleton_self d)
      show (mapping[i]?.bind fun j => h₁.locate fuel d j) =
        mapping[i]?.bind fun j => h.locate fuel d j
      simp only [locate_congr hwf hobj fuel hd]
    | concatenatedTuple data token size =>
      have hdata := hwf.refs b _ ho
      show ((h₁.select data i).bind fun m => h₁.locate fuel m.1 m.2) =
        (h.select data i).bind fun m => h.locate fuel m.1 m.2
      rw [select_congr data i fun c hc => sizeOf_congr (hobj c (hdata c hc))]
      cases hsel : h.select data i with
      | none => rfl
      | some m =>
        have hmem : m ∈ (DataObject.selectAt (α := α) h.sizeOf data i).targets := by
          rw [selectAt_eq, hsel]
          exact List.mem_singleton_self m
        exact locate_congr hwf hobj fuel (hdata m.1 (DataObject.selectAt_targets hmem).1)

/-- A copy of a view or a concatenation finds elements where the original does. -/
theorem locate_copy (hwf : h.WellFormed) {o : DataObject α}
    (hobj : ∀ b, (h.object? b).isSome → h₁.object? b = h.object? b)
    (ho : h.object? a = some o) (ho₁ : h₁.object? a₁ = some o) (hkeeps : ¬ o.KeepsElements)
    (fuel i : Nat) : h₁.locate fuel a₁ i = h.locate fuel a i := by
  cases fuel with
  | zero => rfl
  | succ fuel =>
    have hsome : (h.object? a).isSome := by rw [ho]; rfl
    rw [← locate_congr hwf hobj (fuel + 1) hsome, locate, locate, ho₁, hobj a hsome, ho]
    cases o with
    | tupleVals data => exact absurd trivial hkeeps
    | dynamicMsgData elements token => exact absurd trivial hkeeps
    | decoratedTuple d mapping token => rfl
    | concatenatedTuple data token size => rfl

/-- The pointers that a handler is given. -/
theorem mapM_eq_map {β γ : Type} {f : β → Option γ} {g : β → γ} : ∀ {is : List β},
    (∀ i ∈ is, f i = some (g i)) → is.mapM f = some (is.map g)
  | [], _ => rfl
  | i :: is, hf => by
    rw [List.mapM_cons, hf i List.mem_cons_self,
      mapM_eq_map fun j hj => hf j (List.mem_cons_of_mem _ hj)]
    rfl

/-- The assignments of a handler that stays within its arguments. -/
theorem foldlM_store {it : List Place} {place : Nat → Place} :
    ∀ {ws : List (Nat × Cell α)} {h : MessageHeap α}, (∀ w ∈ ws, it[w.1]? = some (place w.1)) →
      ws.foldlM (fun h (w : Nat × Cell α) => it[w.1]?.map fun n => h.store n w.2) h =
        some (h.assigned ws place)
  | [], _, _ => rfl
  | w :: ws, h, hit => by
    rw [List.foldlM_cons, hit w List.mem_cons_self]
    exact foldlM_store fun w' hw' => hit w' (List.mem_cons_of_mem _ hw')

/-- What is shown of objects that stayed. -/
theorem shownByOther_congr (hs : SameValues h h₁ x a a₁)
    (hobj : ∀ b, (h.object? b).isSome → h₁.object? b = h.object? b) {W : Place → Prop} {n : Place} :
    h₁.ShownByOther W x n ↔ h.ShownByOther W x n := by
  let old (m : Place) : Prop := (h.object? m.1).isSome
  have hnext : ∀ m, old m → h₁.next m = h.next m := by
    intro m hm
    obtain ⟨o, ho⟩ := Option.isSome_iff_exists.mp hm
    rw [next, next, hobj m.1 hm, ho, Option.elim_some, Option.elim_some]
    exact DataObject.step_congr fun b hb => hs.sizes b (hs.wellFormed.refs m.1 o ho b hb)
  have hclosed : ∀ m, old m → ∀ k ∈ (h.next m).targets, old k := by
    intro m _ k hk
    obtain ⟨o, ho, -⟩ := (hs.wellFormed.targets_valid hk).object
    exact Option.isSome_iff_exists.mpr ⟨o, ho⟩
  refine exists_congr fun y => exists_congr fun b => exists_congr fun q =>
    and_congr_right fun hyx => ?_
  rw [hs.other hyx]
  refine and_congr_right fun hy => ?_
  have hb : (h.object? b).isSome := hs.wellFormed.vars b (List.mem_of_getElem? hy)
  rw [hs.sizes b hb]
  refine and_congr_right fun _ => ⟨fun hv => ?_, fun hv => hv.congr hnext hclosed hb⟩
  exact hv.congr (S := old) (fun m hm => (hnext m hm).symm)
    (fun m hm k hk => hclosed m hm k (hnext m hm ▸ hk)) hb

-- -------------------------
-- A handler that assigns
-- -------------------------

/-- What a handler does: the message is detached, and each assignment goes to the
place where the detached message keeps the element. -/
theorem invokeManipulator_spec (hwf : h.WellFormed) (hx : h.vars[x]? = some (some a)) :
    ∃ h₀ a₀ place, SameValues h h₀ x a a₀ ∧ h₀.HeldByVar a₀ x ∧
      (∀ b, (h.object? b).isSome → h₀.object? b = h.object? b) ∧
      (∃ o, h.object? a = some o ∧ (h₀.object? a₀ = some o ∨ h₀.object? a₀ = some o.copy)) ∧
      (∀ i, i < h.sizeOf a → h₀.locate (h.objects.length + 1) a₀ i = some (place i) ∧
        Leads h₀.next (a₀, i) (place i) ∧ (h₀.cell? (place i)).isSome) ∧
      ∀ ws : List (Nat × Cell α), (∀ w ∈ ws, w.1 < h.sizeOf a) →
        h.invokeManipulator x ws = some (h₀.assigned ws place) := by
  obtain ⟨rank, hrank, hbound⟩ := hwf.exists_rank
  obtain ⟨orig, h₀, a₀, hun, hdet, hvars, hheld, hobj, ho⟩ := unshareVar_spec hwf hx
  have hs := hdet.sameValues hwf hx hvars
  have hsize := hs.dataSize
  -- the place that each argument of the handler refers to
  let place (i : Nat) : Place := (h₀.locate (h.objects.length + 1) a₀ i).getD (a₀, i)
  have hlocate : ∀ i, i < h.sizeOf a → h₀.locate (h.objects.length + 1) a₀ i = some (place i) ∧
      Leads h₀.next (a₀, i) (place i) ∧ (h₀.cell? (place i)).isSome := by
    intro i hi
    obtain ⟨c, hc, hrest⟩ := @locate_spec _ _ hdet.wellFormed (fun b => rank (orig b))
      (hdet.rank_lt hrank) (h.objects.length + 1) a₀ i (by rw [Valid, hsize]; exact hi)
      (Nat.lt_succ_of_le (hbound _))
    have hplace : place i = c := by
      show (h₀.locate (h.objects.length + 1) a₀ i).getD (a₀, i) = c
      rw [hc]
      rfl
    rw [hplace]
    exact ⟨hc, hrest⟩
  refine ⟨h₀, a₀, place, hs, hheld, hobj, ho, hlocate, fun ws hws => ?_⟩
  have hit : (List.range (h₀.sizeOf a₀)).mapM (fun i => h₀.locate (h.objects.length + 1) a₀ i) =
      some ((List.range (h₀.sizeOf a₀)).map place) :=
    mapM_eq_map fun i hi => (hlocate i (hsize ▸ List.mem_range.mp hi)).1
  rw [invokeManipulator, hx]
  show (((List.range ((h.unshareVar x a).1.sizeOf (h.unshareVar x a).2)).mapM fun i =>
    (h.unshareVar x a).1.locate (h.objects.length + 1) (h.unshareVar x a).2 i).bind fun it =>
      ws.foldlM (fun h (w : Nat × Cell α) => it[w.1]?.map fun n => h.store n w.2)
        (h.unshareVar x a).1) = _
  rw [hun, hit, Option.bind_some]
  refine foldlM_store fun w hw => ?_
  have hlt : w.1 < h₀.sizeOf a₀ := hsize ▸ hws w hw
  rw [List.getElem?_map, List.getElem?_range hlt, Option.map_some]

/-- The message holds its elements itself, or no element that is assigned another
value is shown by another message or kept where a differently assigned element is. -/
def HandlerDetached (h : MessageHeap α) (x : Nat) (a : DataAddr) (ws : List (Nat × Cell α)) :
    Prop :=
  (∃ o, h.object? a = some o ∧ o.KeepsElements) ∨
  (∀ i v, lastWrite ws i = some v →
    h.ShownByOther (Written ws (h.elementPlace a)) x (h.elementPlace a i) →
    h.SameValue (a, i) v) ∧
  ∀ i v j v', lastWrite ws i = some v → lastWrite ws j = some v' →
    h.elementPlace a i = h.elementPlace a j → ∀ t, h.NewValue (a, i) v t → h.NewValue (a, j) v' t

/-- A handler leaves the other messages alone and all it assigns shows in its
message, exactly in detached heaps. -/
theorem invokeManipulator_isolates_iff (hwf : h.WellFormed) (hx : h.vars[x]? = some (some a))
    {ws : List (Nat × Cell α)} (hws : ∀ w ∈ ws, w.1 < h.sizeOf a ∧ h.Assignable x w.2) :
    ∃ h', h.invokeManipulator x ws = some h' ∧
      (h.Isolates h' x a ws ↔ h.HandlerDetached x a ws) := by
  obtain ⟨h₀, a₀, place, hs, hheld, hobj, ⟨o, ho, ho₀⟩, hlocate, hrun⟩ :=
    invokeManipulator_spec hwf hx
  have hassigning : h₀.Assigning x a₀ ws place := {
    wellFormed := hs.wellFormed₁, holder := hs.holder₁
    leads := fun w hw => (hlocate w.1 (hws w hw).1).2.1
    cell := fun w hw => (hlocate w.1 (hws w hw).1).2.2
    assignable := fun w hw => hs.assignable (hws w hw).2 }
  have hlast : ∀ {i v}, lastWrite ws i = some v → i < h.sizeOf a :=
    fun hi => (hws _ (lastWrite_mem hi)).1
  refine ⟨h₀.assigned ws place, hrun ws fun w hw => (hws w hw).1,
    (hassigning.isolates_iff hs fun w hw => (hws w hw).2).trans ?_⟩
  by_cases hkeeps : o.KeepsElements
  · -- the detached data is shown by no other message and keeps each element apart
    obtain ⟨o₀, hobj₀, hkeeps₀⟩ : ∃ o₀, h₀.object? a₀ = some o₀ ∧ o₀.KeepsElements := by
      rcases ho₀ with ho₀ | ho₀
      · exact ⟨o, ho₀, hkeeps⟩
      · exact ⟨o.copy, ho₀, by cases o <;> trivial⟩
    have hplace : ∀ {i v}, lastWrite ws i = some v → place i = (a₀, i) := by
      intro i v hi
      have hnext : h₀.next (a₀, i) = o₀.cells[i]?.elim .stuck (DataObject.cellStep h₀.sizeOf) := by
        rw [next_of_object hobj₀, hkeeps₀.step_eq]
      have hvalid : h₀.Valid (a₀, i) := Nat.lt_of_lt_of_eq (hlast hi) hs.dataSize.symm
      have hstuck := hs.wellFormed₁.next_ne_stuck hvalid
      rw [hnext] at hstuck
      cases he : o₀.cells[i]? with
      | none => exact absurd (by rw [he]; rfl) hstuck
      | some e =>
        obtain ⟨l, ns, hstep⟩ := cellStep_eq_value h₀.sizeOf e.type e.value
        rw [he] at hnext
        exact (hlocate i (hlast hi)).2.1.eq_of_value (hnext.trans hstep)
    refine ⟨fun _ => .inl ⟨o, ho, hkeeps⟩, fun _ => ⟨?_, ?_⟩⟩
    · rintro i v hi ⟨y, b, q, hyx, hy, -, hv⟩
      rw [hplace hi] at hv
      exact absurd hv (hheld.not_visits hyx hy)
    · intro i v j v' hi hj hij t ht
      rw [hplace hi, hplace hj] at hij
      obtain rfl : i = j := (Prod.mk.inj hij).2
      obtain rfl : v = v' := Option.some.inj (hi.symm.trans hj)
      exact ht
  · -- data that refers to others is not detached along with the outer object
    have ho₀' : h₀.object? a₀ = some o := by
      rcases ho₀ with ho₀ | ho₀
      · exact ho₀
      · rw [ho₀]
        cases o <;> first | rfl | exact absurd trivial hkeeps
    -- so the places are those of the original heap
    have hplace : ∀ {i v}, lastWrite ws i = some v → place i = h.elementPlace a i := by
      intro i v hi
      have hloc := (hlocate i (hlast hi)).1
      rw [locate_copy hwf hobj ho ho₀' hkeeps] at hloc
      rw [elementPlace, hloc]
      rfl
    have hW : Written ws place = Written ws (h.elementPlace a) := by
      funext n
      refine propext (exists_congr fun i => exists_congr fun v => and_congr_right fun hi => ?_)
      rw [hplace hi]
    have hnot : ¬ ∃ o, h.object? a = some o ∧ o.KeepsElements := by
      rintro ⟨o', ho', hk⟩
      exact hkeeps (Option.some.inj (ho.symm.trans ho') ▸ hk)
    rw [HandlerDetached, or_iff_right hnot, hW]
    refine and_congr ?_ ?_
    · refine forall_congr' fun i => forall_congr' fun v => forall_congr' fun hi => ?_
      rw [hplace hi, shownByOther_congr hs hobj]
    · refine forall_congr' fun i => forall_congr' fun v => forall_congr' fun j =>
        forall_congr' fun v' => forall_congr' fun hi => forall_congr' fun hj => ?_
      rw [hplace hi, hplace hj]

end MessageHeap

end BoostActor
