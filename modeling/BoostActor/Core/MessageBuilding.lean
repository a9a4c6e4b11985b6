import BoostActor.Core.MessageIsolation

/-!
# Heaps that programs build

Messages are made, appended to, copied, sliced, concatenated, written and
destroyed. Every heap that a program reaches this way is well formed.
-/

namespace BoostActor

open Lib

namespace MessageHeap

variable {α : Type} {h h' : MessageHeap α} {a b d : DataAddr} {o : DataObject α} {x : Nat}

-- -------------------------
-- Objects at the top
-- -------------------------

/-- An object that no object points to is made or replaced. -/
theorem WellFormed.top (hwf : h.WellFormed) (hvars : h'.vars = h.vars)
    (ha : h'.object? a = some o) (hother : ∀ b, b ≠ a → h'.object? b = h.object? b)
    (hunref : ∀ c o, h.object? c = some o → a ∉ o.refs) (hself : a ∉ o.refs)
    (hrefs : ∀ b ∈ o.refs, (h.object? b).isSome)
    (hmapping : ∀ d mapping token, o = .decoratedTuple d mapping token →
      mapping.Nodup ∧ ∀ i ∈ mapping, i < h.sizeOf d)
    (hsize : ∀ data token size, o = .concatenatedTuple data token size →
      size = (data.map h.sizeOf).sum) : h'.WellFormed := by
  -- the objects that were there stay, and the new one is at `a`
  have hsome : ∀ b, (h.object? b).isSome → (h'.object? b).isSome := by
    intro b hb
    by_cases hba : b = a
    · rw [hba, ha]
      rfl
    · rwa [hother b hba]
  have hsizeOf : ∀ b, b ≠ a → h'.sizeOf b = h.sizeOf b := fun b hba => sizeOf_congr (hother b hba)
  have hobj : ∀ c o', h'.object? c = some o' →
      a ∉ o'.refs ∧ ∀ b ∈ o'.refs, (h.object? b).isSome := by
    intro c o' hc
    by_cases hca : c = a
    · rw [hca, ha] at hc
      obtain rfl := Option.some.inj hc
      exact ⟨hself, hrefs⟩
    · rw [hother c hca] at hc
      exact ⟨hunref c o' hc, hwf.refs c o' hc⟩
  constructor
  · exact fun b hb => hsome b (hwf.vars b (hvars ▸ hb))
  · exact fun c o' hc b hb => hsome b ((hobj c o' hc).2 b hb)
  · intro c d mapping token hc
    have hda : d ≠ a := fun heq => (hobj c _ hc).1 (heq ▸ List.mem_singleton_self d)
    rw [hsizeOf d hda]
    by_cases hca : c = a
    · rw [hca, ha] at hc
      exact hmapping d mapping token (Option.some.inj hc)
    · exact hwf.mapping c d mapping token (hother c hca ▸ hc)
  · intro c data token size hc
    have hdata : data.map h'.sizeOf = data.map h.sizeOf := List.map_congr_left fun b hb =>
      hsizeOf b fun heq => (hobj c _ hc).1 (heq ▸ hb)
    rw [hdata]
    by_cases hca : c = a
    · rw [hca, ha] at hc
      exact hsize data token size (Option.some.inj hc)
    · exact hwf.size c data token size (hother c hca ▸ hc)
  · obtain ⟨rank, hrank, hbound⟩ := hwf.exists_rank
    -- the new object ranks above all, the others keep their rank
    refine ⟨fun b => if b = a then h.objects.length + 1 else rank b, fun n m hm => ?_⟩
    cases hn : h'.object? n.1 with
    | none => rw [next, hn] at hm; cases hm
    | some o' =>
      rw [next, hn, Option.elim_some] at hm
      have hma : m.1 ≠ a := fun heq => (hobj n.1 o' hn).1 (heq ▸ DataObject.step_targets hm)
      show (if m.1 = a then _ else rank m.1) < if n.1 = a then _ else rank n.1
      rw [if_neg hma]
      by_cases hna : n.1 = a
      · rw [if_pos hna]
        exact Nat.lt_succ_of_le (hbound m.1)
      · rw [if_neg hna]
        refine hrank n m ?_
        rw [next, ← hother n.1 hna, hn, Option.elim_some]
        rwa [DataObject.step_congr fun b hb => hsizeOf b fun heq =>
          (hobj n.1 o' hn).1 (heq ▸ hb)] at hm

/-- The address that comes next is referred to by no object yet. -/
theorem WellFormed.fresh (hwf : h.WellFormed) (ho : h.object? a = some o) :
    h.objects.length ∉ o.refs := fun hmem => by
  obtain ⟨o', hold⟩ := Option.isSome_iff_exists.mp (hwf.refs a o ho _ hmem)
  exact Nat.lt_irrefl _ (lt_of_object hold)

/-- Allocating leaves the objects that exist as they are. -/
theorem object_alloc_old (hb : (h.object? b).isSome) (o : DataObject α) :
    (h.alloc o).1.object? b = h.object? b := by
  obtain ⟨o', hold⟩ := Option.isSome_iff_exists.mp hb
  rw [object_alloc, if_neg (Nat.ne_of_lt (lt_of_object hold))]

/-- The allocated object is found under the next address. -/
theorem object_alloc_new (h : MessageHeap α) (o : DataObject α) :
    (h.alloc o).1.object? h.objects.length = some o := by
  rw [object_alloc, if_pos rfl]

/-- A new object with pointers to old ones. -/
theorem WellFormed.alloc (hwf : h.WellFormed) (hrefs : ∀ b ∈ o.refs, (h.object? b).isSome)
    (hmapping : ∀ d mapping token, o = .decoratedTuple d mapping token →
      mapping.Nodup ∧ ∀ i ∈ mapping, i < h.sizeOf d)
    (hsize : ∀ data token size, o = .concatenatedTuple data token size →
      size = (data.map h.sizeOf).sum) : (h.alloc o).1.WellFormed := by
  have hnew : ∀ b, (h.object? b).isSome → b ≠ h.objects.length := fun b hb => by
    obtain ⟨o', hold⟩ := Option.isSome_iff_exists.mp hb
    exact Nat.ne_of_lt (lt_of_object hold)
  have hvars : (h.alloc o).1.vars = h.vars := rfl
  exact hwf.top hvars (object_alloc_new h o)
    (fun b hb => by rw [object_alloc, if_neg hb]) (fun c o' hc => hwf.fresh hc)
    (fun hmem => hnew _ (hrefs _ hmem) rfl) hrefs hmapping hsize

/-- A copy of an object. -/
theorem WellFormed.alloc_copy (hwf : h.WellFormed) (ho : h.object? a = some o) :
    (h.alloc o.copy).1.WellFormed := by
  refine hwf.alloc (fun b hb => hwf.refs a o ho b (o.refs_copy ▸ hb)) ?_ ?_
  · intro d mapping token heq
    cases o with
    | decoratedTuple _ _ _ => exact hwf.mapping a d mapping token (heq ▸ ho)
    | tupleVals _ => cases heq
    | dynamicMsgData _ _ => cases heq
    | concatenatedTuple _ _ _ => cases heq
  · intro data token size heq
    cases o with
    | concatenatedTuple _ _ _ => exact hwf.size a data token size (heq ▸ ho)
    | tupleVals _ => cases heq
    | dynamicMsgData _ _ => cases heq
    | decoratedTuple _ _ _ => cases heq

-- -------------------------
-- What each operation keeps
-- -------------------------

/-- A new variable keeps the heap well formed when its pointer is null or leads to an object. -/
theorem WellFormed.newVar (hwf : h.WellFormed) {vals : Option DataAddr}
    (hvals : ∀ b, vals = some b → (h.object? b).isSome) : (h.newVar vals).WellFormed where
  vars b hb := by
    rcases List.mem_append.mp hb with hold | hnew
    · exact hwf.vars b hold
    · exact hvals b (List.mem_singleton.mp hnew).symm
  refs := hwf.refs
  mapping := hwf.mapping
  size := hwf.size
  acyclic := hwf.acyclic

theorem isSome_of_var (hwf : h.WellFormed) {vals : Option DataAddr} (hx : h.vars[x]?.join = vals) :
    ∀ b, vals = some b → (h.object? b).isSome := by
  rintro b rfl
  exact hwf.vars b (List.mem_of_getElem? (Option.join_eq_some_iff.mp hx))

/-- Copying a message handle keeps the heap well formed. -/
theorem WellFormed.copyMessage (hwf : h.WellFormed) : (h.copyMessage x).WellFormed :=
  hwf.newVar (isSome_of_var hwf rfl)

/-- A message for a new object. -/
theorem WellFormed.newVar_alloc (hwf : (h.alloc o).1.WellFormed) :
    ((h.alloc o).1.newVar (some h.objects.length)).WellFormed :=
  hwf.newVar fun b hb => by
    rw [← Option.some.inj hb, object_alloc_new]
    rfl

/-- Elements whose messages the program holds. -/
def Holds (h : MessageHeap α) (xs : List (Element (Cell α))) : Prop :=
  ∀ e ∈ xs, ∀ b ∈ e.value.refs, some b ∈ h.vars

instance (h : MessageHeap α) (xs : List (Element (Cell α))) : Decidable (h.Holds xs) :=
  inferInstanceAs (Decidable (∀ e ∈ xs, ∀ b ∈ e.value.refs, _ ∈ _))

/-- The objects that the elements refer to exist. -/
theorem Holds.refs {xs : List (Element (Cell α))} (hh : h.Holds xs) (hwf : h.WellFormed) :
    ∀ b ∈ xs.flatMap fun e => e.value.refs, (h.object? b).isSome := by
  intro b hb
  obtain ⟨e, he, hbe⟩ := List.mem_flatMap.mp hb
  exact hwf.vars b (hh e he b hbe)

theorem WellFormed.makeMessage (hwf : h.WellFormed) {xs : List (Element (Cell α))}
    (hh : h.Holds xs) : (h.makeMessage xs).WellFormed :=
  (hwf.alloc (o := .tupleVals xs) (hh.refs hwf) (by simp) (by simp)).newVar_alloc

/-- So does building a message from a `message_builder`. -/
theorem WellFormed.makeBuilder (hwf : h.WellFormed) {xs : List (Element (Cell α))}
    (hh : h.Holds xs) : (h.makeBuilder xs).WellFormed :=
  (hwf.alloc (o := .dynamicMsgData xs _) (hh.refs hwf) (by simp) (by simp)).newVar_alloc

-- -------------------------
-- Views
-- -------------------------

/-- The mapping that `make` ends up with names different elements of the data. -/
theorem viewed_spec (hwf : h.WellFormed) (ha : (h.object? a).isSome) {v : List Nat}
    (hnodup : v.Nodup) (hv : ∀ i ∈ v, i < h.sizeOf a) :
    (h.object? (h.viewed a v).1).isSome ∧ (h.viewed a v).2.Nodup ∧
      ∀ i ∈ (h.viewed a v).2, i < h.sizeOf (h.viewed a v).1 := by
  unfold viewed
  split
  next d pmap token ho =>
    obtain ⟨hpnodup, hp⟩ := hwf.mapping a d pmap token ho
    have hlt : ∀ i ∈ v, i < pmap.length := fun i hi => by
      have hi' := hv i hi
      rwa [sizeOf_of_object ho] at hi'
    have hget : ∀ i (hi : i ∈ v), pmap.getD i 0 = pmap.get ⟨i, hlt i hi⟩ := fun i hi =>
      MessageData.getD_of_lt (hlt i hi)
    refine ⟨hwf.refs a _ ho d (List.mem_singleton_self d), ?_, fun j hj => ?_⟩
    · refine List.Nodup.map_on (fun i hi j hj hij => ?_) hnodup
      rw [hget i hi, hget j hj] at hij
      exact (hpnodup.getElem_inj_iff).mp hij
    · obtain ⟨i, hi, rfl⟩ := List.mem_map.mp hj
      rw [hget i hi]
      exact hp _ (List.getElem_mem _)
  · exact ⟨ha, hnodup, hv⟩

/-- The data viewed is there, copied or not. -/
theorem copyViewed_spec (hwf : h.WellFormed) (hd : (h.object? d).isSome) (v : List Nat) :
    (h.copyViewed d v).1.WellFormed ∧
      ((h.copyViewed d v).1.object? (h.copyViewed d v).2).isSome ∧
      (h.copyViewed d v).1.sizeOf (h.copyViewed d v).2 = h.sizeOf d := by
  obtain ⟨o, ho⟩ := Option.isSome_iff_exists.mp hd
  cases v with
  | nil => exact ⟨hwf, hd, rfl⟩
  | cons i v =>
    have hcopy : h.copyViewed d (i :: v) = h.alloc o.copy := by simp only [copyViewed, ho]
    rw [hcopy]
    have hnew := object_alloc_new h o.copy
    refine ⟨hwf.alloc_copy ho, ?_, ?_⟩
    · exact Option.isSome_iff_exists.mpr ⟨o.copy, hnew⟩
    · exact (sizeOf_of_object hnew).trans ((o.size_copy).trans (sizeOf_of_object ho).symm)

/-- A decorated view with valid positions keeps the heap well formed. -/
theorem WellFormed.decorate (hwf : h.WellFormed) {v : List Nat} (hnodup : v.Nodup)
    (hv : ∀ i ∈ v, i < h.varSize x) : (h.decorate x v).WellFormed := by
  unfold MessageHeap.decorate
  split
  · exact hwf
  next a ha =>
    have hsome : (h.object? a).isSome := isSome_of_var hwf ha a rfl
    rw [varSize, ha] at hv
    obtain ⟨hd, hnodup', hv'⟩ := viewed_spec hwf hsome hnodup hv
    obtain ⟨hwf', hd', hsize⟩ := copyViewed_spec hwf hd (h.viewed a v).2
    refine (hwf'.alloc (fun b hb => ?_) (fun d' mapping token heq => ?_) (by simp)).newVar_alloc
    · obtain rfl := List.mem_singleton.mp hb
      exact hd'
    · obtain ⟨rfl, rfl, rfl⟩ := DataObject.decoratedTuple.inj heq
      exact ⟨hnodup', fun i hi => Nat.lt_of_lt_of_eq (hv' i hi) hsize.symm⟩

/-- `drop` keeps the heap well formed. -/
theorem WellFormed.drop (hwf : h.WellFormed) (n : Nat) : (h.drop x n).WellFormed := by
  unfold MessageHeap.drop
  split_ifs
  · exact hwf.copyMessage
  · exact hwf.newVar (by simp)
  · refine hwf.decorate List.nodup_range' fun i hi => ?_
    have hi' := List.mem_range'_1.mp hi
    omega

/-- `drop_right` keeps the heap well formed. -/
theorem WellFormed.dropRight (hwf : h.WellFormed) (n : Nat) : (h.dropRight x n).WellFormed := by
  unfold MessageHeap.dropRight
  split_ifs
  · exact hwf.copyMessage
  · exact hwf.newVar (by simp)
  · refine hwf.decorate List.nodup_range fun i hi => ?_
    have hi' := List.mem_range.mp hi
    omega

/-- `slice` keeps the heap well formed. -/
theorem WellFormed.slice (hwf : h.WellFormed) (pos n : Nat) : (h.slice x pos n).WellFormed := by
  unfold MessageHeap.slice
  split_ifs
  · exact hwf.newVar (by simp)
  · refine hwf.decorate List.nodup_range' fun i hi => ?_
    have hi' := List.mem_range'_1.mp hi
    omega

-- -------------------------
-- Concatenations
-- -------------------------

/-- Copying the parts of a concatenation changes no variable and loses no object. -/
theorem copyParts_spec : ∀ {ms : List DataAddr} {h : MessageHeap α}, h.WellFormed →
    (h.copyParts ms).1.WellFormed ∧ (h.copyParts ms).1.vars = h.vars ∧
      (∀ b, (h.object? b).isSome → ((h.copyParts ms).1.object? b).isSome) ∧
      ∀ m ∈ (h.copyParts ms).2, ((h.copyParts ms).1.object? m).isSome
  | [], h, hwf => ⟨hwf, rfl, fun _ hb => hb, by simp [copyParts]⟩
  | m :: ms, h, hwf => by
    cases ho : h.object? m with
    | none =>
      have hstep : h.copyParts (m :: ms) = h.copyParts ms := by rw [copyParts, ho]
      rw [hstep]
      exact copyParts_spec hwf
    | some o =>
      have hstep : h.copyParts (m :: ms) = (((h.alloc o.copy).1.copyParts ms).1,
          h.objects.length :: ((h.alloc o.copy).1.copyParts ms).2) := by
        rw [copyParts, ho]
        rfl
      rw [hstep]
      obtain ⟨hwf', hvars, hold, hnew⟩ := @copyParts_spec ms _ (hwf.alloc_copy ho)
      refine ⟨hwf', hvars, fun b hb => hold b ?_, fun k hk => ?_⟩
      · rwa [object_alloc_old hb]
      · rcases List.mem_cons.mp hk with rfl | hk
        · exact hold _ (Option.isSome_iff_exists.mpr ⟨_, object_alloc_new h o.copy⟩)
        · exact hnew k hk

/-- `operator+` keeps the heap well formed. -/
theorem WellFormed.concat (hwf : h.WellFormed) (y : Nat) : (h.concat x y).WellFormed := by
  unfold MessageHeap.concat
  split
  · exact hwf.newVar (isSome_of_var hwf rfl)
  · exact hwf.newVar (isSome_of_var hwf rfl)
  next a b _ _ =>
    obtain ⟨hwf', -, -, hdata⟩ := @copyParts_spec _ (h.parts a ++ h.parts b) _ hwf
    refine (hwf'.alloc ?_ ?_ ?_).newVar_alloc
    · exact hdata
    · intro _ _ _ heq
      cases heq
    · intro data token size heq
      obtain ⟨rfl, rfl, rfl⟩ := DataObject.concatenatedTuple.inj heq
      rfl

-- -------------------------
-- Builders
-- -------------------------

/-- Nothing but the builder points to its data once it is detached, so an element
can be appended to it. -/
theorem WellFormed.append (hwf : h.WellFormed) {e : Element (Cell α)}
    (he : h.Assignable x e.value) : (h.append x e).WellFormed := by
  unfold MessageHeap.append
  split
  · exact hwf
  next a ha =>
    have hx := Option.join_eq_some_iff.mp ha
    obtain ⟨orig, h₁, a₁, hun, hdet, hvars, hheld, -⟩ := unshareVar_spec hwf hx
    have hs := hdet.sameValues hwf hx hvars
    rw [hun]
    dsimp only
    split
    -- only a `dynamic_msg_data` grows in place; its new references come from the element
    next elements token ho =>
      have hrefs : ∀ b ∈ (elements ++ [e]).flatMap fun e => e.value.refs,
          b ∈ elements.flatMap (fun e => e.value.refs) ∨
            ∃ y, y ≠ x ∧ h₁.vars[y]? = some (some b) := by
        intro b hb
        rw [List.flatMap_append, List.flatMap_singleton, List.mem_append] at hb
        refine hb.imp_right fun hbe => ?_
        obtain ⟨t, _ | _ | c⟩ := e
        · cases hbe
        · cases hbe
        · obtain ⟨y, hyx, hy⟩ := he
          obtain rfl := List.mem_singleton.mp hbe
          exact ⟨y, hyx, (hs.other hyx).trans hy⟩
      refine hdet.wellFormed.top (a := a₁)
        (o := .dynamicMsgData (elements ++ [e]) (addToTypeToken token e.type.nr)) rfl ?_
        (fun b hb => ?_) hheld.objects (fun hmem => ?_) (fun b hb => ?_) (by simp) (by simp)
      · rw [object_setObject _ (lt_of_object ho), if_pos rfl]
      · rw [object_setObject _ (lt_of_object ho), if_neg hb]
      · rcases hrefs _ hmem with hold | ⟨y, hyx, hy⟩
        · exact hheld.objects a₁ _ ho hold
        · exact hyx (hheld.vars y hy)
      · rcases hrefs _ hb with hold | ⟨y, -, hy⟩
        · exact hdet.wellFormed.refs a₁ _ ho b hold
        · exact hdet.wellFormed.vars b (List.mem_of_getElem? hy)
    · exact hdet.wellFormed

-- -------------------------
-- Destructors
-- -------------------------

/-- A sweep deletes exactly the objects without a reference. -/
theorem object_sweep (h : MessageHeap α) (b : DataAddr) :
    h.sweep.object? b = if h.refCount b = 0 then none else h.object? b := by
  rw [object?, sweep, List.getElem?_mapIdx]
  cases hb : h.objects[b]? with
  | none => rw [object?, hb]; simp
  | some o =>
    rw [object?, hb]
    split_ifs <;> simp [*]

/-- What something points to is kept. -/
theorem object_sweep_of_ref (ho : h.object? a = some o) (hb : b ∈ o.refs) :
    h.sweep.object? b = h.object? b := by
  have hpos := count_objects_pos ho hb
  rw [object_sweep, if_neg]
  rw [refCount_eq]
  omega

/-- A sweep keeps the heap well formed: what a kept object refers to has a reference and is
kept. -/
theorem WellFormed.sweep (hwf : h.WellFormed) : h.sweep.WellFormed := by
  have hobj : ∀ c o, h.sweep.object? c = some o → h.object? c = some o := by
    intro c o hc
    rw [object_sweep] at hc
    split_ifs at hc
    exact hc
  have hsize : ∀ {c o}, h.object? c = some o → ∀ b ∈ o.refs, h.sweep.sizeOf b = h.sizeOf b :=
    fun ho b hb => sizeOf_congr (object_sweep_of_ref ho hb)
  constructor
  · -- a variable counts as a reference, so the object it points to survives
    intro b hb
    obtain ⟨y, hy⟩ := List.mem_iff_getElem?.mp hb
    have hpos := count_vars_pos (h := h) hy
    rw [object_sweep, if_neg (by rw [refCount_eq]; omega)]
    exact hwf.vars b hb
  · -- what a kept object refers to survives for the same reason
    intro c o hc b hb
    rw [object_sweep_of_ref (hobj c o hc) hb]
    exact hwf.refs c o (hobj c o hc) b hb
  · intro c d mapping token hc
    rw [hsize (hobj c _ hc) d (List.mem_singleton_self d)]
    exact hwf.mapping c d mapping token (hobj c _ hc)
  · intro c data token size hc
    have hdata : data.map h.sweep.sizeOf = data.map h.sizeOf :=
      List.map_congr_left fun b hb => hsize (hobj c _ hc) b hb
    rw [hdata]
    exact hwf.size c data token size (hobj c _ hc)
  · obtain ⟨rank, hrank⟩ := hwf.acyclic
    refine ⟨rank, fun n m hm => hrank n m ?_⟩
    cases hn : h.sweep.object? n.1 with
    | none => rw [next, hn] at hm; cases hm
    | some o =>
      rw [next, hn, Option.elim_some] at hm
      rw [next, hobj n.1 o hn, Option.elim_some]
      rwa [DataObject.step_congr fun b hb => hsize (hobj n.1 o hn) b hb] at hm

theorem WellFormed.collect : ∀ (rounds : Nat) {h : MessageHeap α}, h.WellFormed →
    (h.collect rounds).WellFormed
  | 0, _, hwf => hwf
  | rounds + 1, _, hwf => WellFormed.collect rounds hwf.sweep

/-- Resetting a variable keeps the heap well formed. -/
theorem WellFormed.setVar_none (hwf : h.WellFormed) : (h.setVar x none).WellFormed where
  vars b hb := (List.mem_or_eq_of_mem_set hb).elim (hwf.vars b) fun heq => by cases heq
  refs := hwf.refs
  mapping := hwf.mapping
  size := hwf.size
  acyclic := hwf.acyclic

/-- Destroying a message handle keeps the heap well formed. -/
theorem WellFormed.release (hwf : h.WellFormed) : (h.release x).WellFormed :=
  hwf.setVar_none.collect h.objects.length

-- -------------------------
-- Writes of plain values
-- -------------------------

/-- A value without a pointer leaves the pointers well formed. -/
theorem WellFormed.store (hwf : h.WellFormed) {c : Place} (hc : (h.cell? c).isSome)
    {v : Cell α} (hv : v.refs = []) : (h.store c v).WellFormed := by
  obtain ⟨e, he⟩ := Option.isSome_iff_exists.mp hc
  have hsizes := sizeOf_store he v
  -- an object is the old one, or the old one with the value stored
  have hobj : ∀ b o', (h.store c v).object? b = some o' →
      ∃ o, h.object? b = some o ∧ (o' = o ∨ o' = o.store c.2 v ∧ o.KeepsElements) := by
    intro b o' hb
    rw [object_store he] at hb
    split_ifs at hb with hbc
    · obtain ⟨o, ho, rfl⟩ := Option.map_eq_some_iff.mp hb
      obtain ⟨o₂, ho₂, hkeeps, -⟩ := keepsElements_of_cell he
      obtain rfl : o = o₂ := Option.some.inj ((hbc ▸ ho).symm.trans ho₂)
      exact ⟨o, ho, .inr ⟨rfl, hkeeps⟩⟩
    · exact ⟨o', hb, .inl rfl⟩
  have hsome : ∀ b, (h.object? b).isSome → ((h.store c v).object? b).isSome := by
    intro b hb
    rw [object_store he]
    split_ifs
    · rwa [Option.isSome_map]
    · exact hb
  -- storing a value without references adds none
  have hmodify : ∀ (xs : List (Element (Cell α))) (pos : Nat), ∀ b ∈
      (xs.modify pos fun e => { e with value := v }).flatMap (fun e => e.value.refs),
      b ∈ xs.flatMap fun e => e.value.refs := by
    intro xs pos b hb
    obtain ⟨e', he', hbe⟩ := List.mem_flatMap.mp hb
    obtain ⟨i, hi⟩ := List.mem_iff_getElem?.mp he'
    rw [List.getElem?_modify] at hi
    obtain ⟨e₀, he₀, rfl⟩ := Option.map_eq_some_iff.mp hi
    by_cases hpi : pos = i
    · rw [if_pos hpi, hv] at hbe
      cases hbe
    · rw [if_neg hpi] at hbe
      exact List.mem_flatMap.mpr ⟨e₀, List.mem_of_getElem? he₀, hbe⟩
  have hrefs : ∀ o : DataObject α, ∀ b ∈ (o.store c.2 v).refs, b ∈ o.refs := by
    intro o b hb
    cases o with
    | tupleVals data => exact hmodify data c.2 b hb
    | dynamicMsgData elements token => exact hmodify elements c.2 b hb
    | decoratedTuple _ _ _ => exact hb
    | concatenatedTuple _ _ _ => exact hb
  constructor
  · rw [vars_store]
    exact fun b hb => hsome b (hwf.vars b hb)
  · intro a o' ha b hb
    obtain ⟨o, ho, heq⟩ := hobj a o' ha
    refine hsome b (hwf.refs a o ho b ?_)
    rcases heq with rfl | ⟨rfl, -⟩
    · exact hb
    · exact hrefs o b hb
  · intro a d mapping token ha
    obtain ⟨o, ho, heq⟩ := hobj a _ ha
    rw [hsizes]
    rcases heq with rfl | ⟨heq, hkeeps⟩
    · exact hwf.mapping a d mapping token ho
    · cases o <;> first | exact hkeeps.elim | cases heq
  · intro a data token size ha
    obtain ⟨o, ho, heq⟩ := hobj a _ ha
    rw [hsizes]
    rcases heq with rfl | ⟨heq, hkeeps⟩
    · exact hwf.size a data token size ho
    · cases o <;> first | exact hkeeps.elim | cases heq
  · obtain ⟨rank, hrank⟩ := hwf.acyclic
    refine ⟨rank, fun n m hm => ?_⟩
    rw [next_store he] at hm
    split_ifs at hm
    · -- the place written into leads nowhere, as the value is no message
      have hvalue := (DataObject.cellStep_targets hm).1
      rw [show v = .message (some m.1) from hvalue] at hv
      cases hv
    · exact hrank n m hm

/-- A write into one place leaves the others readable. -/
theorem cell_of_store {c n : Place} (hc : (h.cell? c).isSome) (v : Cell α)
    (hn : (h.cell? n).isSome) : ((h.store c v).cell? n).isSome := by
  obtain ⟨e, he⟩ := Option.isSome_iff_exists.mp hc
  rw [cell_store he]
  split_ifs
  · rfl
  · exact hn

/-- A sequence of writes without references keeps the heap well formed. -/
theorem WellFormed.storeAll : ∀ {ws : List (Place × Cell α)} {h : MessageHeap α}, h.WellFormed →
    (∀ w ∈ ws, (h.cell? w.1).isSome ∧ w.2.refs = []) → (h.storeAll ws).WellFormed
  | [], _, hwf, _ => hwf
  | w :: ws, h, hwf, hws => by
    obtain ⟨hcell, hrefs⟩ := hws w List.mem_cons_self
    show ((h.store w.1 w.2).storeAll ws).WellFormed
    refine WellFormed.storeAll (hwf.store hcell hrefs) fun w' hw' => ?_
    obtain ⟨hcell', hrefs'⟩ := hws w' (List.mem_cons_of_mem _ hw')
    exact ⟨cell_of_store hcell w.2 hcell', hrefs'⟩

/-- An assignment through `get_as_mutable` keeps the heap well formed. -/
theorem WellFormed.assignAt (hwf : h.WellFormed) (hx : h.vars[x]? = some (some a)) {pos : Nat}
    (hpos : pos < h.sizeOf a) {v : Cell α} (hv : v.refs = [])
    (hrun : h.assignAt x pos v = some h') : h'.WellFormed := by
  obtain ⟨h₁, a₁, c, hstore, hs, -, hcell, -⟩ := assignAt_spec hwf hx hpos
  obtain rfl := Option.some.inj ((hstore v).symm.trans hrun)
  exact hs.wellFormed₁.store hcell hv

/-- A handler that assigns to its arguments keeps the heap well formed. -/
theorem WellFormed.invokeManipulator (hwf : h.WellFormed) (hx : h.vars[x]? = some (some a))
    {ws : List (Nat × Cell α)} (hws : ∀ w ∈ ws, w.1 < h.sizeOf a ∧ w.2.refs = [])
    (hrun : h.invokeManipulator x ws = some h') : h'.WellFormed := by
  obtain ⟨h₀, a₀, place, hs, -, -, -, hlocate, hstore⟩ := invokeManipulator_spec hwf hx
  obtain rfl := Option.some.inj ((hstore ws fun w hw => (hws w hw).1).symm.trans hrun)
  refine hs.wellFormed₁.storeAll fun w hw => ?_
  obtain ⟨w', hw', rfl⟩ := List.mem_map.mp hw
  exact ⟨(hlocate w'.1 (hws w' hw').1).2.2, (hws w' hw').2⟩

-- -------------------------
-- Programs
-- -------------------------

/-- The heaps of programs that build, write and destroy messages. -/
inductive Built : MessageHeap α → Prop where
  | start : Built ⟨[], []⟩
  | makeMessage {h : MessageHeap α} {xs : List (Element (Cell α))} :
      Built h → h.Holds xs → Built (h.makeMessage xs)
  | makeBuilder {h : MessageHeap α} {xs : List (Element (Cell α))} :
      Built h → h.Holds xs → Built (h.makeBuilder xs)
  | append {h : MessageHeap α} {x : Nat} {e : Element (Cell α)} :
      Built h → h.Assignable x e.value → Built (h.append x e)
  | copyMessage {h : MessageHeap α} (x : Nat) : Built h → Built (h.copyMessage x)
  | drop {h : MessageHeap α} (x n : Nat) : Built h → Built (h.drop x n)
  | dropRight {h : MessageHeap α} (x n : Nat) : Built h → Built (h.dropRight x n)
  | slice {h : MessageHeap α} (x pos n : Nat) : Built h → Built (h.slice x pos n)
  | concat {h : MessageHeap α} (x y : Nat) : Built h → Built (h.concat x y)
  | release {h : MessageHeap α} (x : Nat) : Built h → Built (h.release x)
  | assignAt {h h' : MessageHeap α} {x pos : Nat} {a : DataAddr} {v : Cell α} :
      Built h → h.vars[x]? = some (some a) → pos < h.sizeOf a → v.refs = [] →
      h.assignAt x pos v = some h' → Built h'
  | invokeManipulator {h h' : MessageHeap α} {x : Nat} {a : DataAddr} {ws : List (Nat × Cell α)} :
      Built h → h.vars[x]? = some (some a) → (∀ w ∈ ws, w.1 < h.sizeOf a ∧ w.2.refs = []) →
      h.invokeManipulator x ws = some h' → Built h'

/-- The empty heap is well formed. -/
theorem wellFormed_start : WellFormed (⟨[], []⟩ : MessageHeap α) where
  vars a ha := by cases ha
  refs a o ho := by cases ho
  mapping a d mapping token ho := by cases ho
  size a data token size ho := by cases ho
  acyclic := ⟨fun _ => 0, fun n m hm => by cases hm⟩

/-- What programs build is well formed. -/
theorem Built.wellFormed (hb : Built h) : h.WellFormed := by
  induction hb with
  | start => exact wellFormed_start
  | makeMessage _ hh ih => exact ih.makeMessage hh
  | makeBuilder _ hh ih => exact ih.makeBuilder hh
  | append _ he ih => exact ih.append he
  | copyMessage x _ ih => exact ih.copyMessage
  | drop x n _ ih => exact ih.drop n
  | dropRight x n _ ih => exact ih.dropRight n
  | slice x pos n _ ih => exact ih.slice pos n
  | concat x y _ ih => exact ih.concat y
  | release x _ ih => exact ih.release
  | assignAt _ hx hpos hv hrun ih => exact ih.assignAt hx hpos hv hrun
  | invokeManipulator _ hx hws hrun ih => exact ih.invokeManipulator hx hws hrun

-- -------------------------
-- Value semantics
-- -------------------------

/-- Writing to a message, through `mutable_at` or by a handler with mutable
references, changes no other message and shows in that one, exactly in heaps where
the data written to is detached. -/
theorem value_semantics_iff (hwf : h.WellFormed) (hx : h.vars[x]? = some (some a)) :
    (∀ pos v, pos < h.sizeOf a → h.Assignable x v → ∃ h', h.assignAt x pos v = some h' ∧
      (h.Isolates h' x a [(pos, v)] ↔ h.MutableDetached x a pos v)) ∧
    ∀ ws, (∀ w ∈ ws, w.1 < h.sizeOf a ∧ h.Assignable x w.2) →
      ∃ h', h.invokeManipulator x ws = some h' ∧
        (h.Isolates h' x a ws ↔ h.HandlerDetached x a ws) :=
  ⟨fun _ _ hpos hv => assignAt_isolates_iff hwf hx hpos hv,
    fun _ hws => invokeManipulator_isolates_iff hwf hx hws⟩

namespace Sample

/-- An element of type `int32_t`. -/
def int (n : Nat) : Element (Cell Nat) := ⟨⟨14, 0⟩, .plain n⟩

/-- A message and its copy. -/
def copied : MessageHeap Nat :=
  ((⟨[], []⟩ : MessageHeap Nat).makeMessage [int 1, int 2]).copyMessage 0

/-- The concatenation of two messages, and its copy. -/
def concatenated : MessageHeap Nat :=
  (⟨[], []⟩ : MessageHeap Nat).makeMessage [int 1] |>.makeMessage [int 2] |>.concat 0 1
    |>.copyMessage 2

/-- A slice of a message, and its copy. -/
def sliced : MessageHeap Nat :=
  (((⟨[], []⟩ : MessageHeap Nat).makeMessage [int 1, int 2]).slice 0 0 1).copyMessage 1

theorem holds_int (h : MessageHeap Nat) (ns : List Nat) : h.Holds (ns.map int) := by
  intro e he b hb
  obtain ⟨n, -, rfl⟩ := List.mem_map.mp he
  cases hb

theorem copied_built : Built copied := .copyMessage 0 (.makeMessage .start (holds_int _ [1, 2]))

theorem concatenated_built : Built concatenated :=
  .copyMessage 2 (.concat 0 1
    (.makeMessage (.makeMessage .start (holds_int _ [1])) (holds_int _ [2])))

theorem sliced_built : Built sliced :=
  .copyMessage 1 (.slice 0 0 1 (.makeMessage .start (holds_int _ [1, 2])))

end Sample

open Sample

theorem value_semantics_copied : ∃ h', copied.assignAt 0 1 (.plain 9) = some h' ∧
    (copied.Isolates h' 0 0 [(1, .plain 9)] ↔ copied.MutableDetached 0 0 1 (.plain 9)) :=
  (value_semantics_iff copied_built.wellFormed (x := 0) (a := 0) (by decide)).1 1 (.plain 9)
    (by decide) trivial

/-- Another message shows another value at some element. -/
theorem not_othersUnchanged (hwf : h.WellFormed) {y q : Nat} {t t' : ValueTree (ElementLabel α)}
    (hyx : y ≠ x) (hy : h.vars[y]? = some (some b)) (hy' : h'.vars[y]? = some (some b))
    (hq : q < h.sizeOf b) (hq' : q < h'.sizeOf b) (ht : Unfolds h.next (b, q) t)
    (ht' : Unfolds h'.next (b, q) t') (hne : t ≠ t') : ¬ h.OthersUnchanged h' x := by
  intro hall
  obtain ⟨ts, hts⟩ := hwf.exists_messageValue hy
  obtain ⟨s, hs, hold⟩ := hts.element hy hq
  obtain ⟨s', hs', hnew⟩ := ((hall y hyx ts).mpr hts).element hy' hq'
  obtain rfl : s = s' := Option.some.inj (hs.symm.trans hs')
  exact hne ((ht.unique hold).trans (hnew.unique ht'))

/-- Writing to a concatenation changes its copy, and so does a handler on a slice. -/
theorem value_semantics_broken :
    (Built concatenated ∧ ∃ h', concatenated.assignAt 2 0 (.plain 9) = some h' ∧
      ¬ concatenated.OthersUnchanged h' 2) ∧
    (Built sliced ∧ ∃ h', sliced.invokeManipulator 1 [(0, .plain 9)] = some h' ∧
      ¬ sliced.OthersUnchanged h' 1) := by
  have hleaf : ∀ (h : MessageHeap Nat) (n m : Place) (k : Nat), h.next n = .follow m →
      h.next m = .value (⟨14, 0⟩, some k) [] → Unfolds h.next n (.node (⟨14, 0⟩, some k) []) :=
    fun _ _ _ _ hn hm => .follow hn (.value hm rfl (by simp))
  refine ⟨⟨concatenated_built, _, rfl, ?_⟩, ⟨sliced_built, _, rfl, ?_⟩⟩
  · exact not_othersUnchanged concatenated_built.wellFormed (y := 3) (b := 4) (q := 0) (by decide)
      rfl rfl (by decide) (by decide) (hleaf _ _ (2, 0) 1 rfl rfl) (hleaf _ _ (2, 0) 9 rfl rfl)
      (by simp)
  · exact not_othersUnchanged sliced_built.wellFormed (y := 2) (b := 2) (q := 0) (by decide)
      rfl rfl (by decide) (by decide) (hleaf _ _ (1, 0) 1 rfl rfl) (hleaf _ _ (1, 0) 9 rfl rfl)
      (by simp)

end MessageHeap

end BoostActor
