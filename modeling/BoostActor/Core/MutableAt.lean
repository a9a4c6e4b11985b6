import BoostActor.Core.MessageSharing

/-!
# Writing through `mutable_at`

`mutable_at` detaches the message and, from a view on, what it is a view of, but
writes through the pointers that a concatenation holds. The element returned is
therefore seen by whatever shows the place that a concatenation selects last on
the way to it, `MessageHeap.exposed`, and by nothing else.
-/

namespace BoostActor

open Lib

namespace MessageHeap

variable {α : Type} {h h' : MessageHeap α} {a b d : DataAddr} {o : DataObject α}

/-- The object is a concatenation. -/
def selects (h : MessageHeap α) (a : DataAddr) : Bool :=
  match h.object? a with
  | some (.concatenatedTuple _ _ _) => true
  | _ => false

/-- The place a concatenation selects last on the way from a place to its element. -/
def exposed (h : MessageHeap α) : (fuel : Nat) → Place → Option Place
  | 0, _ => none
  | fuel + 1, n =>
    match h.next n with
    | .follow m => (h.exposed fuel m).or (if h.selects n.1 then some m else none)
    | _ => none

/-- The place that shows the element to others: the exposed one, or the place itself. -/
def target (h : MessageHeap α) (fuel : Nat) (n : Place) : Place := (h.exposed fuel n).getD n

-- -------------------------
-- Exposed places
-- -------------------------

/-- Selecting a part is a step of the walk. -/
theorem selectAt_eq (h : MessageHeap α) : ∀ (data : List DataAddr) (pos : Nat),
    DataObject.selectAt h.sizeOf data pos =
      ((h.select data pos).elim .stuck .follow : PointerStep Place (ElementLabel α))
  | [], _ => rfl
  | m :: data, pos => by
    rw [DataObject.selectAt, select]
    split_ifs
    · exact selectAt_eq h data _
    · rfl

-- -------------------------
-- Exposed places and copies
-- -------------------------

/-- The copy of a concatenation is a concatenation. -/
theorem Copies.selects {orig : DataAddr → DataAddr} (hc : Copies orig h' h) (b : DataAddr) :
    h'.selects b = h.selects (orig b) := by
  unfold MessageHeap.selects
  cases ho : h'.object? b with
  | none => rw [hc.object_none ho]
  | some o =>
    obtain ⟨o', ho', heq⟩ := hc.object ho
    rw [ho']
    cases o <;> cases o' <;> first | rfl | cases heq

/-- The copy exposes the copies of what the original exposes. -/
theorem Copies.exposed {orig : DataAddr → DataAddr} (hc : Copies orig h' h) :
    ∀ (fuel : Nat) (n : Place),
      (h'.exposed fuel n).map (origPlace orig) = h.exposed fuel (origPlace orig n)
  | 0, _ => rfl
  | fuel + 1, n => by
    rw [MessageHeap.exposed, MessageHeap.exposed, hc.covers n]
    cases h'.next n with
    | stuck => rfl
    | value l ns => rfl
    | follow m =>
      show Option.map (origPlace orig) ((h'.exposed fuel m).or _) =
        (h.exposed fuel (origPlace orig m)).or _
      rw [← Copies.exposed hc fuel m, Option.map_or, hc.selects]
      congr 1
      show Option.map _ (if h.selects (orig n.1) = true then some m else none) =
        if h.selects (orig n.1) = true then some (origPlace orig m) else none
      split_ifs <;> rfl

/-- Exposed places are below the place. -/
theorem exposed_rank {rank : DataAddr → Nat}
    (hrank : ∀ n, ∀ m ∈ (h.next n).targets, rank m.1 < rank n.1) :
    ∀ {fuel : Nat} {n m : Place}, h.exposed fuel n = some m → rank m.1 < rank n.1
  | 0, n, m, he => by cases he
  | fuel + 1, n, m, he => by
    rw [exposed] at he
    cases hn : h.next n with
    | stuck => rw [hn] at he; cases he
    | value l ns => rw [hn] at he; cases he
    | follow k =>
      rw [hn] at he
      have hk : rank k.1 < rank n.1 :=
        hrank n k (by rw [hn]; exact List.mem_singleton_self k)
      rcases Option.or_eq_some_iff.mp he with hsome | ⟨-, hif⟩
      · exact Nat.lt_trans (exposed_rank hrank hsome) hk
      · split_ifs at hif
        obtain rfl := Option.some.inj hif
        exact hk

-- -------------------------
-- Detaching and what is shown
-- -------------------------

namespace Detached

variable {orig : DataAddr → DataAddr} {d' : DataAddr}

theorem origPlace_old (hdet : Detached h h' orig d d') {n : Place}
    (hn : (h.object? n.1).isSome) : origPlace orig n = n :=
  Prod.ext (hdet.old n.1 hn) rfl

/-- The ranks of the originals fall along the walk. -/
theorem rank_lt (hdet : Detached h h' orig d d') {rank : DataAddr → Nat}
    (hrank : ∀ n, ∀ m ∈ (h.next n).targets, rank m.1 < rank n.1) :
    ∀ n, ∀ m ∈ (h'.next n).targets, rank (orig m.1) < rank (orig n.1) := by
  intro n m hm
  refine hrank (origPlace orig n) (origPlace orig m) ?_
  rw [hdet.copies.covers n, PointerStep.targets_map]
  exact List.mem_map_of_mem hm

/-- A place that is not in the data detached from is shown as before. -/
theorem visits_iff (hdet : Detached h h' orig d d') {q : Nat} (hb : (h.object? b).isSome)
    {n : Place} (hn : orig n.1 = n.1) (hnd : n.1 ≠ d) :
    Visits h'.next noNode (b, q) n ↔ Visits h.next noNode (b, q) n := by
  have hbq : origPlace orig (b, q) = (b, q) := hdet.origPlace_old hb
  constructor
  · intro hv
    have hvis := hdet.copies.covers.visits hv
    rwa [hbq, show origPlace orig n = n from Prod.ext hn rfl] at hvis
  · intro hv
    obtain ⟨m, hm, hvm⟩ := hdet.copies.covers.lift (n := (b, q)) (by rwa [hbq])
    obtain ⟨hm1, hm2⟩ := Prod.mk.inj hm
    rcases hdet.cases m.1 with hsame | hcopy
    · rwa [show m = n from Prod.ext (hsame.symm.trans hm1) hm2] at hvm
    · exact absurd (hm1.symm.trans hcopy) hnd

/-- What the detached data exposes is what the data exposed, and not part of it. -/
theorem exposed (hdet : Detached h h' orig d d') {rank : DataAddr → Nat}
    (hrank : ∀ n, ∀ m ∈ (h.next n).targets, rank m.1 < rank n.1) {fuel i : Nat} {l : Place}
    (hl : h'.exposed fuel (d', i) = some l) :
    h.exposed fuel (d, i) = some l ∧ orig l.1 = l.1 ∧ l.1 ≠ d := by
  have hbelow := @exposed_rank _ _ (fun b => rank (orig b)) (hdet.rank_lt hrank) _ _ _ hl
  rw [hdet.origin] at hbelow
  have hold : orig l.1 = l.1 := by
    rcases hdet.cases l.1 with hsame | hcopy
    · exact hsame
    · exact absurd (hcopy ▸ hbelow) (Nat.lt_irrefl _)
  have hexp := hdet.copies.exposed fuel (d', i)
  rw [hl, Option.map_some, origPlace, origPlace, hdet.origin, hold] at hexp
  exact ⟨hexp.symm, hold, fun heq => Nat.lt_irrefl _ (heq ▸ hold ▸ hbelow)⟩

/-- If nothing is exposed behind the copy, nothing is behind the original. -/
theorem exposed_none (hdet : Detached h h' orig d d') {fuel i : Nat}
    (hl : h'.exposed fuel (d', i) = none) : h.exposed fuel (d, i) = none := by
  have hexp := hdet.copies.exposed fuel (d', i)
  rw [hl, origPlace, hdet.origin] at hexp
  exact hexp.symm

end Detached

-- -------------------------
-- The way to the element
-- -------------------------

/-- What `mutable_at` of the data `a` comes back with. -/
structure Reaches (h : MessageHeap α) (rank : DataAddr → Nat) (n : Place) (target : Place)
    (h' : MessageHeap α) (c : Place) : Prop where
  wellFormed : h'.WellFormed
  vars : h'.vars = h.vars
  old : ∀ b, (h.object? b).isSome → (h'.object? b).isSome
  unfolds : ∀ m, (h.object? m.1).isSome → ∀ t, Unfolds h'.next m t ↔ Unfolds h.next m t
  sizes : ∀ b, (h.object? b).isSome → h'.sizeOf b = h.sizeOf b
  above : ∀ b, (h.object? b).isSome → rank n.1 < rank b → h'.object? b = h.object? b
  leads : Leads h'.next n c
  cell : ∃ o, h'.object? c.1 = some o ∧ o.KeepsElements ∧ c.2 < o.size
  visits : ∀ b q, some b ∈ h.vars →
    (Visits h'.next noNode (b, q) c ↔ Visits h.next noNode (b, q) target)

/-- A place only its view points to is seen through the view. -/
theorem HeldBy.visits (hwf : h.WellFormed) {mapping : List Nat} {token : UInt32} {pos i : Nat}
    (hheld : h.HeldBy d a) (ha : h.object? a = some (.decoratedTuple d mapping token))
    (hi : mapping[pos]? = some i) {q : Nat} (hb : some b ∈ h.vars)
    (hv : Visits h.next noNode (b, q) (d, i)) : Visits h.next noNode (b, q) (a, pos) := by
  rcases hv.last with heq | ⟨m, hm, hlast⟩
  · -- a walk that ends in `d` enters it from its holder, through the mapping
    exact absurd ((Prod.mk.inj heq).1 ▸ hb) hheld.vars
  · obtain ⟨c, r⟩ := m
    cases hc : h.object? c with
    | none => rw [next, hc] at hlast; cases hlast
    | some o =>
      rw [next_of_object hc] at hlast
      obtain rfl : c = a := hheld.objects c o hc (DataObject.step_targets hlast)
      obtain rfl : o = .decoratedTuple d mapping token := Option.some.inj (hc.symm.trans ha)
      rw [DataObject.step] at hlast
      cases hr : mapping[r]? with
      | none => rw [hr] at hlast; cases hlast
      | some j =>
        rw [hr] at hlast
        obtain rfl : i = j := (Prod.mk.inj (List.mem_singleton.mp hlast)).2
        -- the mapping names every element once
        have hnodup := (hwf.mapping c d mapping token ha).1
        obtain ⟨hlt, hget⟩ := List.getElem?_eq_some_iff.mp hi
        obtain ⟨hlt', hget'⟩ := List.getElem?_eq_some_iff.mp hr
        obtain rfl : pos = r := hnodup.getElem_inj_iff.mp (hget.trans hget'.symm)
        exact hm

/-- A step exposes what the rest does, and otherwise the part of a concatenation. -/
theorem exposed_of_follow {fuel : Nat} {n m : Place} (hn : h.next n = .follow m) :
    h.exposed (fuel + 1) n = (h.exposed fuel m).or (if h.selects n.1 then some m else none) := by
  rw [exposed, hn]

/-- An element an object keeps itself. -/
theorem reaches_cell (hwf : h.WellFormed) {rank : DataAddr → Nat} (ho : h.object? a = some o)
    (hkeeps : o.KeepsElements) {pos fuel : Nat} (hpos : pos < o.size) :
    h.Reaches rank (a, pos) (h.target (fuel + 1) (a, pos)) h (a, pos) := by
  have htarget : h.target (fuel + 1) (a, pos) = (a, pos) := by
    have hexp : h.exposed (fuel + 1) (a, pos) = none := by
      rw [exposed, next_of_object ho, hkeeps.step_eq,
        List.getElem?_eq_getElem (hkeeps.size_eq ▸ hpos), Option.elim_some]
      unfold DataObject.cellStep
      split <;> first | rfl | (next heq => split at heq <;> cases heq)
    rw [target, hexp]
    rfl
  rw [htarget]
  exact ⟨hwf, rfl, fun _ hb => hb, fun _ _ _ => Iff.rfl, fun _ _ => rfl, fun _ _ _ => rfl,
    .refl _, ⟨o, ho, hkeeps, hpos⟩, fun _ _ _ => Iff.rfl⟩

/-- A concatenation passes on what `mutable_at` of the part comes back with. -/
theorem Reaches.select {rank : DataAddr → Nat} {data : List DataAddr} {token : UInt32}
    {size pos fuel : Nat} {m c : Place}
    (hrank : ∀ n, ∀ m ∈ (h.next n).targets, rank m.1 < rank n.1) (hwf : h.WellFormed)
    (ha : h.object? a = some (.concatenatedTuple data token size))
    (hsel : h.select data pos = some m) (hm : h.Reaches rank m (h.target fuel m) h' c) :
    h.Reaches rank (a, pos) (h.target (fuel + 1) (a, pos)) h' c := by
  have hnext : h.next (a, pos) = .follow m := by
    rw [next_of_object ha, DataObject.step, selectAt_eq, hsel]
    rfl
  have hlt : rank m.1 < rank a :=
    hrank (a, pos) m (by rw [hnext]; exact List.mem_singleton_self m)
  have hsome : (h.object? a).isSome := by rw [ha]; rfl
  have hnext' : h'.next (a, pos) = .follow m := by
    rw [← hnext, next_of_object ((hm.above a hsome hlt).trans ha), next_of_object ha]
    exact DataObject.step_congr fun b hb => hm.sizes b (hwf.refs a _ ha b hb)
  have htarget : h.target (fuel + 1) (a, pos) = h.target fuel m := by
    have hsel : h.selects a = true := by rw [selects, ha]
    rw [target, target, exposed_of_follow hnext, hsel, if_pos rfl]
    cases h.exposed fuel m <;> rfl
  rw [htarget]
  exact ⟨hm.wellFormed, hm.vars, hm.old, hm.unfolds, hm.sizes,
    fun b hb hab => hm.above b hb (Nat.lt_trans hlt hab), .follow hnext' hm.leads, hm.cell,
    hm.visits⟩

/-- A view detaches what it is a view of, so that others see the element only
through the view or through what the view's data exposes. -/
theorem Reaches.view {rank : DataAddr → Nat} {mapping : List Nat} {token : UInt32}
    {pos i fuel : Nat} {d' : DataAddr} {c : Place} {h₁ : MessageHeap α}
    {orig : DataAddr → DataAddr}
    (hrank : ∀ n, ∀ m ∈ (h.next n).targets, rank m.1 < rank n.1)
    (ha : h.object? a = some (.decoratedTuple d mapping token)) (hi : mapping[pos]? = some i)
    (hdet : Detached h h₁ orig d d') (hvars : h₁.vars = h.vars)
    (ha₁ : h₁.object? a = some (.decoratedTuple d' mapping token))
    (hothers : ∀ b, b ≠ a → (h.object? b).isSome → h₁.object? b = h.object? b)
    (hheld : h₁.HeldBy d' a) (hwf : h.WellFormed)
    (hd : h₁.Reaches (fun b => rank (orig b)) (d', i) (h₁.target fuel (d', i)) h' c) :
    h.Reaches rank (a, pos) (h.target (fuel + 1) (a, pos)) h' c := by
  -- the view detaches its data and goes on in the copy
  have hcov := hdet.copies.covers
  have hsome : (h.object? a).isSome := by rw [ha]; rfl
  have horig : orig a = a := hdet.old a hsome
  have hsome₁ : ∀ b, (h.object? b).isSome → (h₁.object? b).isSome := fun b hb => by
    rw [hdet.copies.isSome_iff, hdet.old b hb]
    exact hb
  have hnext : h.next (a, pos) = .follow (d, i) := by
    rw [next_of_object ha, DataObject.step, hi]
    rfl
  have hlt : rank d < rank a :=
    hrank (a, pos) (d, i) (by rw [hnext]; exact List.mem_singleton_self _)
  have hlt₁ : rank (orig d') < rank (orig a) := by rwa [hdet.origin, horig]
  have hnext₁ : h₁.next (a, pos) = .follow (d', i) := by
    rw [next_of_object ha₁, DataObject.step, hi]
    rfl
  have hnext' : h'.next (a, pos) = .follow (d', i) := by
    rw [← hnext₁, next_of_object ((hd.above a (hsome₁ a hsome) hlt₁).trans ha₁),
      next_of_object ha₁]
    rfl
  have hsel : h.selects a = false := by rw [selects, ha]
  have hexp : h.exposed (fuel + 1) (a, pos) = h.exposed fuel (d, i) := by
    rw [exposed_of_follow hnext, hsel]
    exact Option.or_none
  -- every part of the conclusion is that of the smaller walk, read through `orig`
  refine ⟨hd.wellFormed, hd.vars.trans hvars, fun b hb => hd.old b (hsome₁ b hb),
    fun m hm t => ?_, fun b hb => ?_, fun b hb hab => ?_, .follow hnext' hd.leads, hd.cell,
    fun b q hb => ?_⟩
  · rw [hd.unfolds m (hsome₁ _ hm), hcov.unfolds_iff, hdet.origPlace_old hm]
  · rw [hd.sizes b (hsome₁ b hb), hdet.copies.sizeOf, hdet.old b hb]
  · have hba : b ≠ a := fun heq => Nat.lt_irrefl _ (heq ▸ hab)
    rw [hd.above b (hsome₁ b hb) (by rw [hdet.old b hb, hdet.origin]; exact Nat.lt_trans hlt hab),
      hothers b hba hb]
  · have hbsome : (h.object? b).isSome := hwf.vars b hb
    rw [hd.visits b q (hvars.symm ▸ hb)]
    cases hE : h₁.exposed fuel (d', i) with
    | none =>
      have ht₁ : h₁.target fuel (d', i) = (d', i) := by rw [target, hE]; rfl
      have ht : h.target (fuel + 1) (a, pos) = (a, pos) := by
        rw [target, hexp, hdet.exposed_none hE]
        rfl
      have had : a ≠ d := fun heq => Nat.lt_irrefl _ (heq ▸ hlt)
      rw [ht₁, ht, ← hdet.visits_iff hbsome (n := (a, pos)) horig had]
      -- the view is the only way to the data it detached
      refine ⟨hheld.visits hdet.wellFormed ha₁ hi (hvars.symm ▸ hb), fun hv => hv.tail ?_⟩
      rw [hnext₁]
      exact List.mem_singleton_self _
    | some l =>
      obtain ⟨hl, hold, hld⟩ := hdet.exposed hrank hE
      have ht₁ : h₁.target fuel (d', i) = l := by rw [target, hE]; rfl
      have ht : h.target (fuel + 1) (a, pos) = l := by rw [target, hexp, hl]; rfl
      rw [ht₁, ht, hdet.visits_iff hbsome hold hld]

/-- `mutable_at` returns an element, and says who else shows it. -/
theorem dataMutableAt_spec : ∀ (fuel : Nat) {h : MessageHeap α} {rank : DataAddr → Nat},
    h.WellFormed → (∀ n, ∀ m ∈ (h.next n).targets, rank m.1 < rank n.1) → ∀ {a pos : Nat},
    h.Valid (a, pos) → rank a < fuel →
    ∃ h' c, dataMutableAt fuel h a pos = some (h', c) ∧
      h.Reaches rank (a, pos) (h.target fuel (a, pos)) h' c
  | 0, _, _, _, _, _, _, _, hfuel => absurd hfuel (Nat.not_lt_zero _)
  | fuel + 1, h, rank, hwf, hrank, a, pos, hvalid, hfuel => by
    obtain ⟨o, ho, hpos⟩ := hvalid.object
    have hbelow : ∀ m, h.next (a, pos) = .follow m → h.Valid m ∧ rank m.1 < fuel := by
      intro m hm
      have hmem : m ∈ (h.next (a, pos)).targets := by
        rw [hm]
        exact List.mem_singleton_self m
      exact ⟨hwf.targets_valid hmem,
        Nat.lt_of_lt_of_le (hrank _ m hmem) (Nat.le_of_lt_succ hfuel)⟩
    -- data that keeps its elements is where the write happens
    cases o with
    | tupleVals data =>
      refine ⟨h, (a, pos), ?_, reaches_cell hwf ho trivial hpos⟩
      rw [dataMutableAt, ho]
      exact if_pos hpos
    | dynamicMsgData elements token =>
      refine ⟨h, (a, pos), ?_, reaches_cell hwf ho trivial hpos⟩
      rw [dataMutableAt, ho]
      exact if_pos hpos
    -- a concatenation is not detached, the walk goes on in the part
    | concatenatedTuple data token size =>
      have hstep : h.next (a, pos) = (h.select data pos).elim .stuck .follow := by
        rw [next_of_object ho, DataObject.step, selectAt_eq]
      cases hsel : h.select data pos with
      | none =>
        rw [hsel] at hstep
        exact absurd hstep (hwf.next_ne_stuck hvalid)
      | some m =>
        rw [hsel] at hstep
        obtain ⟨hvm, hfm⟩ := hbelow m hstep
        obtain ⟨h', c, hrun, hreach⟩ := dataMutableAt_spec fuel hwf hrank hvm hfm
        refine ⟨h', c, ?_, hreach.select hrank hwf ho hsel⟩
        rw [dataMutableAt, ho]
        exact (congrArg (Option.bind · _) hsel).trans hrun
    -- a decorator detaches its data first
    | decoratedTuple d mapping token =>
      have hi : mapping[pos]? = some mapping[pos] := List.getElem?_eq_getElem hpos
      have hstep : h.next (a, pos) = .follow (d, mapping[pos]) := by
        rw [next_of_object ho, DataObject.step, hi]
        rfl
      obtain ⟨orig, h₁, d', hun, hdet, hvars, ha₁, hothers, hheld⟩ := unshareDecorated_spec hwf ho
      obtain ⟨hvd, hfd⟩ := hbelow _ hstep
      have hvd' : h₁.Valid (d', mapping[pos]) := by
        unfold Valid at hvd ⊢
        rwa [hdet.copies.sizeOf, hdet.origin]
      obtain ⟨h', c, hrun, hreach⟩ := @dataMutableAt_spec fuel _ (fun b => rank (orig b))
        hdet.wellFormed (hdet.rank_lt hrank) _ _ hvd' (by rwa [hdet.origin])
      refine ⟨h', c, ?_, hreach.view hrank ho hi hdet hvars ha₁ hothers hheld hwf⟩
      rw [dataMutableAt, ho]
      show (mapping[pos]?.bind fun i => _) = _
      rw [hi, Option.bind_some, hun]
      exact hrun

end MessageHeap

end BoostActor
