import BoostActor.Core.MessageValues

/-!
# Copying data on write

`cow_ptr::get_unshared` leaves every value as it is and makes its pointer the only
one to the data. `Copies` relates the heap after it to the heap before: every
object is a copy of the one `orig` names.
-/

namespace BoostActor

open Lib

-- -------------------------
-- Objects with other pointers
-- -------------------------

def Cell.mapRefs {α : Type} (f : DataAddr → DataAddr) : Cell α → Cell α
  | .plain v => .plain v
  | .message vals => .message (vals.map f)

/-- The element with another pointer. -/
def Element.mapRefs {α : Type} (f : DataAddr → DataAddr) (e : Element (Cell α)) :
    Element (Cell α) :=
  ⟨e.type, e.value.mapRefs f⟩

namespace DataObject

variable {α : Type}

def mapRefs (f : DataAddr → DataAddr) : DataObject α → DataObject α
  | tupleVals data => tupleVals (data.map (Element.mapRefs f))
  | dynamicMsgData elements token => dynamicMsgData (elements.map (Element.mapRefs f)) token
  | decoratedTuple d mapping token => decoratedTuple (f d) mapping token
  | concatenatedTuple data token size => concatenatedTuple (data.map f) token size

theorem size_mapRefs (f : DataAddr → DataAddr) (o : DataObject α) :
    (o.mapRefs f).size = o.size := by
  cases o <;> simp [mapRefs, size]

theorem map_cells_refs (f : DataAddr → DataAddr) (xs : List (Element (Cell α))) :
    (xs.map (Element.mapRefs f)).flatMap (fun e => e.value.refs) =
      (xs.flatMap fun e => e.value.refs).map f := by
  rw [List.flatMap_map, List.map_flatMap]
  refine List.flatMap_congr fun e _ => ?_
  obtain ⟨t, _ | _ | b⟩ := e <;> rfl

/-- The references are renamed along. -/
theorem refs_mapRefs (f : DataAddr → DataAddr) (o : DataObject α) :
    (o.mapRefs f).refs = o.refs.map f := by
  cases o with
  | tupleVals data => exact map_cells_refs f data
  | dynamicMsgData elements token => exact map_cells_refs f elements
  | decoratedTuple d mapping token => rfl
  | concatenatedTuple data token size => rfl

/-- Renaming nothing changes nothing. -/
theorem map_cells_id {f : DataAddr → DataAddr} {xs : List (Element (Cell α))}
    (h : ∀ b ∈ xs.flatMap fun e => e.value.refs, f b = b) : xs.map (Element.mapRefs f) = xs := by
  refine (List.map_congr_left fun e he => ?_).trans (List.map_id xs)
  obtain ⟨t, _ | _ | b⟩ := e
  · rfl
  · rfl
  · have hb : f b = b := h b (List.mem_flatMap.mpr ⟨_, he, List.mem_singleton_self b⟩)
    simp [Element.mapRefs, Cell.mapRefs, hb]

/-- Pointers that are not renamed. -/
theorem mapRefs_id {f : DataAddr → DataAddr} {o : DataObject α} (h : ∀ b ∈ o.refs, f b = b) :
    o.mapRefs f = o := by
  cases o with
  | tupleVals data => exact congrArg tupleVals (map_cells_id h)
  | dynamicMsgData elements token => exact congrArg (dynamicMsgData · token) (map_cells_id h)
  | decoratedTuple d mapping token => rw [mapRefs, h d (List.mem_singleton_self d)]
  | concatenatedTuple data token size =>
    have hdata : data.map f = data := (List.map_congr_left h).trans (List.map_id data)
    rw [mapRefs, hdata]

/-- Selecting a part commutes with the renaming. -/
theorem selectAt_map {sizes sizes' : DataAddr → Nat} {f : DataAddr → DataAddr} :
    ∀ (data : List DataAddr) (pos : Nat), (∀ b ∈ data, sizes (f b) = sizes' b) →
      selectAt (α := α) sizes (data.map f) pos =
        (selectAt sizes' data pos).map fun n => (f n.1, n.2)
  | [], _, _ => rfl
  | m :: data, pos, h => by
    rw [List.map_cons, selectAt, selectAt, h m (by simp),
      selectAt_map data _ fun b hb => h b (by simp [hb])]
    split_ifs <;> rfl

/-- So does a step from an element. -/
theorem cellStep_map {sizes sizes' : DataAddr → Nat} {f : DataAddr → DataAddr}
    {e : Element (Cell α)} (h : ∀ b ∈ e.value.refs, sizes (f b) = sizes' b) :
    cellStep sizes (e.mapRefs f) = (cellStep sizes' e).map fun n => (f n.1, n.2) := by
  obtain ⟨t, _ | _ | b⟩ := e
  · rfl
  · rfl
  · have hb : sizes (f b) = sizes' b := h b (List.mem_singleton_self b)
    simp [cellStep, Element.mapRefs, Cell.mapRefs, PointerStep.map, hb]

/-- An object with renamed pointers leads to the renamed places. -/
theorem step_mapRefs {sizes sizes' : DataAddr → Nat} {f : DataAddr → DataAddr} {o : DataObject α}
    (pos : Nat) (h : ∀ b ∈ o.refs, sizes (f b) = sizes' b) :
    (o.mapRefs f).step sizes pos = (o.step sizes' pos).map fun n => (f n.1, n.2) := by
  have hcells : ∀ xs : List (Element (Cell α)),
      (∀ b ∈ xs.flatMap fun e => e.value.refs, sizes (f b) = sizes' b) →
      (xs.map (Element.mapRefs f))[pos]?.elim .stuck (cellStep sizes) =
        (xs[pos]?.elim .stuck (cellStep sizes')).map fun n => (f n.1, n.2) := by
    intro xs hxs
    rw [List.getElem?_map]
    cases he : xs[pos]? with
    | none => rfl
    | some e =>
      exact cellStep_map fun b hb =>
        hxs b (List.mem_flatMap.mpr ⟨e, List.mem_of_getElem? he, hb⟩)
  cases o with
  | tupleVals data => exact hcells data h
  | dynamicMsgData elements token => exact hcells elements h
  | concatenatedTuple data token size => exact selectAt_map data pos h
  | decoratedTuple d mapping token =>
    rw [mapRefs, step, step]
    cases mapping[pos]? <;> rfl

end DataObject

-- -------------------------
-- Heaps with copied objects
-- -------------------------

namespace MessageHeap

variable {α : Type} {h h' : MessageHeap α} {a b d : DataAddr} {o : DataObject α}

/-- Every object of `h'` is a copy of the object of `h` that `orig` names. -/
def Copies (orig : DataAddr → DataAddr) (h' h : MessageHeap α) : Prop :=
  ∀ b, (h'.object? b).map (fun o => (o.mapRefs orig).copy) =
    (h.object? (orig b)).map DataObject.copy

/-- The place a place is a copy of. -/
def origPlace (orig : DataAddr → DataAddr) (n : Place) : Place := (orig n.1, n.2)

namespace Copies

variable {orig : DataAddr → DataAddr}

/-- An object of the copy exists where its original does. -/
theorem isSome_iff (hc : Copies orig h' h) (b : DataAddr) :
    (h'.object? b).isSome = (h.object? (orig b)).isSome := by
  have hb := congrArg Option.isSome (hc b)
  rwa [Option.isSome_map, Option.isSome_map] at hb

/-- The original of an object of the copy. -/
theorem object (hc : Copies orig h' h) (ho : h'.object? a = some o) :
    ∃ o', h.object? (orig a) = some o' ∧ o'.copy = (o.mapRefs orig).copy := by
  have ha := hc a
  rw [ho, Option.map_some] at ha
  obtain ⟨o', ho', heq⟩ := Option.map_eq_some_iff.mp ha.symm
  exact ⟨o', ho', heq⟩

theorem object_none (hc : Copies orig h' h) (ho : h'.object? b = none) :
    h.object? (orig b) = none := by
  have hb := hc b
  rw [ho] at hb
  exact Option.map_eq_none_iff.mp hb.symm

/-- The copy of an object is as long as the original. -/
theorem sizeOf (hc : Copies orig h' h) (b : DataAddr) : h'.sizeOf b = h.sizeOf (orig b) := by
  unfold MessageHeap.sizeOf
  cases ho : h'.object? b with
  | none => rw [hc.object_none ho]
  | some o =>
    obtain ⟨o', ho', heq⟩ := hc.object ho
    rw [ho', Option.elim_some, Option.elim_some, ← o'.size_copy, heq, DataObject.size_copy,
      DataObject.size_mapRefs]

/-- The heap with copies shows what the other one shows. -/
theorem covers (hc : Copies orig h' h) : Covers (origPlace orig) h'.next h.next := by
  intro n
  unfold next
  cases ho : h'.object? n.1 with
  | none =>
    rw [origPlace, hc.object_none ho]
    rfl
  | some o =>
    obtain ⟨o', ho', heq⟩ := hc.object ho
    rw [origPlace, ho', Option.elim_some, Option.elim_some, ← o'.step_copy, heq,
      DataObject.step_copy]
    exact DataObject.step_mapRefs n.2 fun b _ => (hc.sizeOf b).symm

/-- A heap with copies of the objects of a well formed one is well formed. -/
theorem wellFormed (hc : Copies orig h' h) (hwf : h.WellFormed)
    (hvars : ∀ a, some a ∈ h'.vars → (h.object? (orig a)).isSome) : h'.WellFormed where
  vars a ha := by
    -- every field of the copy is that of its original, under renamed addresses
    rw [hc.isSome_iff]
    exact hvars a ha
  refs a o ho b hb := by
    obtain ⟨o', ho', heq⟩ := hc.object ho
    have hrefs : o'.refs = o.refs.map orig := by
      rw [← o'.refs_copy, heq, DataObject.refs_copy, DataObject.refs_mapRefs]
    rw [hc.isSome_iff]
    exact hwf.refs _ _ ho' _ (hrefs ▸ List.mem_map_of_mem hb)
  mapping a d mapping token ho := by
    obtain ⟨o', ho', heq⟩ := hc.object ho
    cases o' with
    | decoratedTuple d' mapping' token' =>
      obtain ⟨rfl, rfl, rfl⟩ := DataObject.decoratedTuple.inj heq
      rw [hc.sizeOf d]
      exact hwf.mapping _ _ _ _ ho'
    | tupleVals _ => cases heq
    | dynamicMsgData _ _ => cases heq
    | concatenatedTuple _ _ _ => cases heq
  size a data token size ho := by
    obtain ⟨o', ho', heq⟩ := hc.object ho
    cases o' with
    | concatenatedTuple data' token' size' =>
      obtain ⟨rfl, rfl, rfl⟩ := DataObject.concatenatedTuple.inj heq
      rw [hwf.size _ _ _ _ ho', List.map_map]
      refine congrArg List.sum (List.map_congr_left fun b _ => (hc.sizeOf b).symm)
    | tupleVals _ => cases heq
    | dynamicMsgData _ _ => cases heq
    | decoratedTuple _ _ _ => cases heq
  acyclic := by
    obtain ⟨rank, hrank⟩ := hwf.acyclic
    refine ⟨fun b => rank (orig b), fun n m hm => ?_⟩
    have hcov := hc.covers n
    refine hrank (origPlace orig n) (origPlace orig m) ?_
    rw [hcov, PointerStep.targets_map]
    exact List.mem_map_of_mem hm

end Copies

-- -------------------------
-- Allocating and storing
-- -------------------------

theorem lt_of_object (ho : h.object? a = some o) : a < h.objects.length := by
  refine Nat.lt_of_not_le fun hle => ?_
  rw [object?, List.getElem?_eq_none hle] at ho
  cases ho

/-- What is found after an allocation. -/
theorem object_alloc (h : MessageHeap α) (o : DataObject α) (b : DataAddr) :
    (h.alloc o).1.object? b = if b = h.objects.length then some o else h.object? b := by
  rw [object?, alloc, List.getElem?_append]
  split_ifs with hlt heq heq
  · exact absurd (heq ▸ hlt) (Nat.lt_irrefl _)
  · rfl
  · rw [heq, Nat.sub_self]
    rfl
  · have hgt : h.objects.length < b := Nat.lt_of_le_of_ne (Nat.le_of_not_lt hlt) (Ne.symm heq)
    rw [object?, List.getElem?_eq_none (Nat.le_of_lt hgt),
      List.getElem?_eq_none (Nat.sub_pos_of_lt hgt)]

/-- What is found after an object was replaced. -/
theorem object_setObject (h : MessageHeap α) {a : DataAddr} (ha : a < h.objects.length)
    (o : DataObject α) (b : DataAddr) :
    (h.setObject a o).object? b = if b = a then some o else h.object? b := by
  rw [object?, setObject, List.getElem?_set]
  by_cases hab : a = b
  · rw [if_pos hab, if_pos (hab ▸ ha), if_pos hab.symm]
    rfl
  · rw [if_neg hab, if_neg (Ne.symm hab), object?]

theorem setObject_self (ho : h.object? a = some o) : h.setObject a o = h := by
  have hlt := lt_of_object ho
  have hget : h.objects[a] = some o := by
    rw [object?, List.getElem?_eq_getElem hlt] at ho
    exact ho
  rw [setObject, ← hget, List.set_getElem_self]

theorem setVar_self {x : Nat} {vals : Option DataAddr} (hx : h.vars[x]? = some vals) :
    h.setVar x vals = h := by
  obtain ⟨hlt, hget⟩ := List.getElem?_eq_some_iff.mp hx
  rw [setVar, ← hget, List.set_getElem_self]

-- -------------------------
-- Detaching a pointer
-- -------------------------

/-- The object an address names, if the object at `new` is a copy of the one at `d`. -/
def copyOrigin (new d : DataAddr) (b : DataAddr) : DataAddr := if b = new then d else b

/-- The new address stands for the one it was copied from. -/
theorem copyOrigin_new (new d : DataAddr) : copyOrigin new d new = d := if_pos rfl

theorem copyOrigin_of_ne {new b : DataAddr} (hb : b ≠ new) (d : DataAddr) :
    copyOrigin new d b = b := if_neg hb

/-- Old addresses name their own objects. -/
theorem copyOrigin_old (ho : (h.object? b).isSome) (d : DataAddr) :
    copyOrigin h.objects.length d b = b := by
  obtain ⟨o, ho⟩ := Option.isSome_iff_exists.mp ho
  exact copyOrigin_of_ne (Nat.ne_of_lt (lt_of_object ho)) d

/-- An object from before knows nothing of the new address. -/
theorem WellFormed.mapRefs_old (hwf : h.WellFormed) (ho : h.object? a = some o) (d : DataAddr) :
    o.mapRefs (copyOrigin h.objects.length d) = o :=
  DataObject.mapRefs_id fun b hb => copyOrigin_old (hwf.refs a o ho b hb) d

/-- A copy of `d` at a new address, and an object `a` that points to the copy instead. -/
theorem copies_of_redirect (hwf : h.WellFormed) (hd : h.object? d = some o)
    (hnew : h'.object? h.objects.length = some o.copy)
    (ha : (h'.object? a).map (DataObject.mapRefs (copyOrigin h.objects.length d)) = h.object? a)
    (hother : ∀ b, b ≠ h.objects.length → b ≠ a → h'.object? b = h.object? b) :
    Copies (copyOrigin h.objects.length d) h' h := by
  intro b
  by_cases hb : b = h.objects.length
  · have hmap : o.copy.mapRefs (copyOrigin h.objects.length d) = o.copy :=
      DataObject.mapRefs_id fun c hc => copyOrigin_old (hwf.refs d o hd c (o.refs_copy ▸ hc)) d
    rw [hb, hnew, copyOrigin_new, hd, Option.map_some, Option.map_some, hmap]
    cases o <;> rfl
  · rw [copyOrigin_of_ne hb]
    by_cases hba : b = a
    · rw [hba, ← ha, Option.map_map]
      rfl
    · rw [hother b hb hba]
      cases hob : h.object? b with
      | none => rfl
      | some o' => rw [Option.map_some, Option.map_some, hwf.mapRefs_old hob]

-- -------------------------
-- Objects with one holder
-- -------------------------

/-- The only pointer to `d` is in the object `a`. -/
structure HeldBy (h : MessageHeap α) (d a : DataAddr) : Prop where
  vars : some d ∉ h.vars
  objects : ∀ c o, h.object? c = some o → d ∈ o.refs → c = a

/-- The only pointer to `a` is the message `x`. -/
structure HeldByVar (h : MessageHeap α) (a : DataAddr) (x : Nat) : Prop where
  vars : ∀ y, h.vars[y]? = some (some a) → y = x
  objects : ∀ c o, h.object? c = some o → a ∉ o.refs

/-- Two entries of a list that contribute the same value. -/
theorem two_le_count_flatMap {β γ : Type} [DecidableEq γ] {f : β → List γ} {v : γ} :
    ∀ {xs : List β} {i j : Nat} {x y : β}, xs[i]? = some x → xs[j]? = some y → i ≠ j →
      v ∈ f x → v ∈ f y → 2 ≤ (xs.flatMap f).count v
  | [], _, _, _, _, hi, _, _, _, _ => by cases hi
  | z :: xs, i, j, x, y, hi, hj, hij, hx, hy => by
    -- a second position with `v` adds at least one to the count
    have htail : ∀ {k w}, xs[k]? = some w → v ∈ f w → 0 < (xs.flatMap f).count v :=
      fun hk hw => List.count_pos_iff.mpr (List.mem_flatMap.mpr ⟨_, List.mem_of_getElem? hk, hw⟩)
    rw [List.flatMap_cons, List.count_append]
    cases i with
    | zero =>
      obtain rfl : z = x := by simpa using hi
      cases j with
      | zero => exact absurd rfl hij
      | succ j =>
        have hhead := List.count_pos_iff.mpr hx
        have hrest := htail (by simpa using hj) hy
        omega
    | succ i =>
      cases j with
      | zero =>
        obtain rfl : z = y := by simpa using hj
        have hhead := List.count_pos_iff.mpr hy
        have hrest := htail (by simpa using hi) hx
        omega
      | succ j =>
        have hrest := two_le_count_flatMap (by simpa using hi) (by simpa using hj)
          (fun h => hij (congrArg _ h)) hx hy
        omega

theorem object_getElem (ho : h.object? a = some o) : h.objects[a]? = some (some o) := by
  have hlt := lt_of_object ho
  rw [object?, List.getElem?_eq_getElem hlt] at ho
  rw [List.getElem?_eq_getElem hlt]
  exact congrArg some ho

theorem refCount_eq (h : MessageHeap α) (d : DataAddr) :
    h.refCount d = (h.vars.flatMap Option.toList).count d +
      (h.objects.flatMap fun o => o.elim [] DataObject.refs).count d := by
  rw [refCount, references, List.count_append]

theorem count_vars_pos {x : Nat} (hx : h.vars[x]? = some (some d)) :
    0 < (h.vars.flatMap Option.toList).count d :=
  List.count_pos_iff.mpr (List.mem_flatMap.mpr
    ⟨_, List.mem_of_getElem? hx, List.mem_singleton_self d⟩)

theorem count_objects_pos (ho : h.object? a = some o) (hd : d ∈ o.refs) :
    0 < (h.objects.flatMap fun o => o.elim [] DataObject.refs).count d :=
  List.count_pos_iff.mpr (List.mem_flatMap.mpr ⟨_, List.mem_of_getElem? (object_getElem ho), hd⟩)

/-- A reference count of one, with the pointer known. -/
theorem heldBy_of_refCount (hrc : h.refCount d = 1) (ho : h.object? a = some o)
    (hd : d ∈ o.refs) : h.HeldBy d a where
  vars hv := by
    obtain ⟨x, hx⟩ := List.mem_iff_getElem?.mp hv
    have hone := count_vars_pos hx
    have htwo := count_objects_pos ho hd
    rw [refCount_eq] at hrc
    omega
  objects c o' ho' hd' := by
    by_contra hne
    have htwo := two_le_count_flatMap (object_getElem ho') (object_getElem ho) hne
      (f := fun o => o.elim [] DataObject.refs) hd' hd
    rw [refCount_eq] at hrc
    omega

/-- A reference count of one on a variable's data means that this variable is the only holder. -/
theorem heldByVar_of_refCount {x : Nat} (hrc : h.refCount a = 1) (hx : h.vars[x]? = some (some a)) :
    h.HeldByVar a x where
  vars y hy := by
    by_contra hne
    have htwo := two_le_count_flatMap hy hx hne (f := Option.toList) (List.mem_singleton_self a)
      (List.mem_singleton_self a)
    rw [refCount_eq] at hrc
    omega
  objects c o ho ha := by
    have hone := count_vars_pos hx
    have htwo := count_objects_pos ho ha
    rw [refCount_eq] at hrc
    omega

-- -------------------------
-- Detached data
-- -------------------------

/-- What detaching a pointer to `d` leaves behind: everything but that pointer as it was. -/
structure Detached (h h' : MessageHeap α) (orig : DataAddr → DataAddr)
    (d d' : DataAddr) : Prop where
  copies : Copies orig h' h
  wellFormed : h'.WellFormed
  old : ∀ b, (h.object? b).isSome → orig b = b
  origin : orig d' = d
  cases : ∀ b, orig b = b ∨ orig b = d

/-- Nothing is copied for the only pointer. -/
theorem Detached.refl (hwf : h.WellFormed) (d : DataAddr) : Detached h h id d d where
  copies b := by
    have hid : (fun o : DataObject α => (o.mapRefs id).copy) = DataObject.copy :=
      funext fun o => congrArg DataObject.copy (DataObject.mapRefs_id fun _ _ => rfl)
    rw [hid, id]
  wellFormed := hwf
  old _ _ := rfl
  origin := rfl
  cases _ := .inl rfl

/-- An address stands for itself or for the copied object. -/
theorem copyOrigin_cases (new d b : DataAddr) :
    copyOrigin new d b = b ∨ copyOrigin new d b = d := by
  unfold copyOrigin
  split_ifs
  · exact .inr rfl
  · exact .inl rfl

theorem getUnshared_of_shared (hrc : h.refCount d ≠ 1) (hd : h.object? d = some o) :
    h.getUnshared d = h.alloc o.copy := by
  rw [getUnshared, if_neg hrc, hd]

/-- `decorated_.unshare()`: the view is the only holder of its data. -/
theorem unshareDecorated_spec (hwf : h.WellFormed) {mapping : List Nat} {token : UInt32}
    (ho : h.object? a = some (.decoratedTuple d mapping token)) :
    ∃ orig h' d', h.unshareDecorated a d mapping token = (h', d') ∧ Detached h h' orig d d' ∧
      h'.vars = h.vars ∧ h'.object? a = some (.decoratedTuple d' mapping token) ∧
      (∀ b, b ≠ a → (h.object? b).isSome → h'.object? b = h.object? b) ∧ h'.HeldBy d' a := by
  by_cases hrc : h.refCount d = 1
  · -- unique data is used as it is
    refine ⟨id, h, d, ?_, .refl hwf d, rfl, ho, fun _ _ _ => rfl, ?_⟩
    · rw [unshareDecorated, getUnshared, if_pos hrc]
      exact congrArg (·, d) (setObject_self ho)
    · exact heldBy_of_refCount hrc ho (List.mem_singleton_self d)
  · obtain ⟨od, hd⟩ := Option.isSome_iff_exists.mp
      (hwf.refs a _ ho d (List.mem_singleton_self d))
    -- shared data is copied, and the decorator is pointed to the copy
    let new := h.objects.length
    let h' := (h.alloc od.copy).1.setObject a (.decoratedTuple new mapping token)
    have hlt : a < (h.alloc od.copy).1.objects.length :=
      Nat.lt_of_lt_of_le (lt_of_object ho) (by simp [alloc])
    have hanew : a ≠ new := Nat.ne_of_lt (lt_of_object ho)
    have hobj : ∀ b, h'.object? b = if b = a then some (.decoratedTuple new mapping token)
        else if b = new then some od.copy else h.object? b := fun b => by
      rw [object_setObject _ hlt, object_alloc]
    -- the copy stands for the original, everything else for itself
    have hcopies : Copies (copyOrigin new d) h' h := by
      refine copies_of_redirect (a := a) hwf hd ?_ ?_ fun b hb hba => ?_
      · rw [hobj, if_neg (Ne.symm hanew), if_pos rfl]
      · rw [hobj, if_pos rfl, ho, Option.map_some, DataObject.mapRefs, copyOrigin_new]
      · rw [hobj, if_neg hba, if_neg hb]
    have hwf' : h'.WellFormed := hcopies.wellFormed hwf fun b hb => by
      have hsome := hwf.vars b hb
      rwa [copyOrigin_old hsome]
    refine ⟨copyOrigin new d, h', new, ?_, ⟨hcopies, hwf', fun b hb => copyOrigin_old hb d,
      copyOrigin_new new d, copyOrigin_cases new d⟩, rfl, ?_, fun b hba hb => ?_, ?_, ?_⟩
    · rw [unshareDecorated, getUnshared_of_shared hrc hd]
      rfl
    · rw [hobj, if_pos rfl]
    · obtain ⟨o, hold⟩ := Option.isSome_iff_exists.mp hb
      rw [hobj, if_neg hba, if_neg (Nat.ne_of_lt (lt_of_object hold))]
    · intro hv
      obtain ⟨o, hold⟩ := Option.isSome_iff_exists.mp (hwf.vars new hv)
      exact Nat.lt_irrefl _ (lt_of_object hold)
    · -- the objects that were there before do not know the new address
      have hfresh : ∀ c o, h.object? c = some o → new ∉ o.refs := fun c o hc hmem => by
        obtain ⟨o', hold⟩ := Option.isSome_iff_exists.mp (hwf.refs c o hc new hmem)
        exact Nat.lt_irrefl _ (lt_of_object hold)
      intro c o hc hmem
      by_contra hca
      rw [hobj, if_neg hca] at hc
      split_ifs at hc with hcn
      · obtain rfl := Option.some.inj hc
        exact hfresh d od hd (od.refs_copy ▸ hmem)
      · exact hfresh c o hc hmem

/-- `vals_.unshare()`: the message is the only holder of its data. -/
theorem unshareVar_spec (hwf : h.WellFormed) {x : Nat} (hx : h.vars[x]? = some (some a)) :
    ∃ orig h' a', h.unshareVar x a = (h', a') ∧ Detached h h' orig a a' ∧
      h'.vars = h.vars.set x (some a') ∧ h'.HeldByVar a' x ∧
      (∀ b, (h.object? b).isSome → h'.object? b = h.object? b) ∧
      ∃ o, h.object? a = some o ∧ (h'.object? a' = some o ∨ h'.object? a' = some o.copy) := by
  by_cases hrc : h.refCount a = 1
  · obtain ⟨o, ho⟩ := Option.isSome_iff_exists.mp (hwf.vars a (List.mem_of_getElem? hx))
    refine ⟨id, h, a, ?_, .refl hwf a, ?_, heldByVar_of_refCount hrc hx, fun _ _ => rfl,
      o, ho, .inl ho⟩
    · rw [unshareVar, getUnshared, if_pos hrc]
      exact congrArg (·, a) (setVar_self hx)
    · exact congrArg vars (setVar_self hx).symm
  · obtain ⟨oa, ha⟩ := Option.isSome_iff_exists.mp (hwf.vars a (List.mem_of_getElem? hx))
    -- shared data is copied, and the variable is pointed to the copy
    let new := h.objects.length
    let h' := (h.alloc oa.copy).1.setVar x (some new)
    have hobj : ∀ b, h'.object? b = if b = new then some oa.copy else h.object? b :=
      fun b => object_alloc h oa.copy b
    have hcopies : Copies (copyOrigin new a) h' h := by
      refine copies_of_redirect (a := a) hwf ha ?_ ?_ fun b hb _ => ?_
      · rw [hobj, if_pos rfl]
      · rw [hobj, if_neg (Nat.ne_of_lt (lt_of_object ha)), ha, Option.map_some, hwf.mapRefs_old ha]
      · rw [hobj, if_neg hb]
    have hwf' : h'.WellFormed := hcopies.wellFormed hwf fun b hb => by
      rcases List.mem_or_eq_of_mem_set hb with hmem | heq
      · have hsome := hwf.vars b hmem
        rwa [copyOrigin_old hsome]
      · rw [Option.some.inj heq, copyOrigin_new, ha]
        rfl
    -- nothing that was there before has the new address
    have hfresh : ∀ b, (h.object? b).isSome → new ≠ b := fun b hb heq => by
      obtain ⟨o, hold⟩ := Option.isSome_iff_exists.mp hb
      exact Nat.lt_irrefl _ (heq ▸ lt_of_object hold)
    refine ⟨copyOrigin new a, h', new, ?_, ⟨hcopies, hwf', fun b hb => copyOrigin_old hb a,
      copyOrigin_new new a, copyOrigin_cases new a⟩, rfl, ⟨fun y hy => ?_, fun c o hc hmem => ?_⟩,
      fun b hb => ?_, oa, ha, .inr ?_⟩
    · rw [unshareVar, getUnshared_of_shared hrc ha]
      rfl
    · by_contra hyx
      have hold : h.vars[y]? = some (some new) := by
        rw [← hy]
        exact (List.getElem?_set_ne (Ne.symm hyx)).symm
      exact hfresh new (hwf.vars new (List.mem_of_getElem? hold)) rfl
    · rw [hobj] at hc
      split_ifs at hc with hcn
      · obtain rfl := Option.some.inj hc
        exact hfresh new (hwf.refs a oa ha new (oa.refs_copy ▸ hmem)) rfl
      · exact hfresh new (hwf.refs c o hc new hmem) rfl
    · rw [hobj, if_neg fun heq => hfresh b hb heq.symm]
    · rw [hobj, if_pos rfl]

end MessageHeap

end BoostActor
