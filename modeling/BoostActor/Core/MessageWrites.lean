import BoostActor.Core.MutableAt

/-!
# Assigning to elements

The pointers that `mutable_at` and a handler obtain name places of the heap.
Assigning through them shows in exactly the messages that come across these
places, each once the last assignment to it is done.
-/

namespace BoostActor

open Lib

/-- The last value written for a key. -/
def lastWrite {κ β : Type} [DecidableEq κ] : List (κ × β) → κ → Option β
  | [], _ => none
  | w :: ws, k => (lastWrite ws k).or (if w.1 = k then some w.2 else none)

section

variable {κ κ' β : Type} [DecidableEq κ] [DecidableEq κ']

/-- The last write is one of the writes. -/
theorem lastWrite_mem : ∀ {ws : List (κ × β)} {k : κ} {v : β}, lastWrite ws k = some v →
    (k, v) ∈ ws
  | [], _, _, h => by cases h
  | w :: ws, k, v, h => by
    rcases Option.or_eq_some_iff.mp h with hsome | ⟨-, hif⟩
    · exact List.mem_cons_of_mem _ (lastWrite_mem hsome)
    · split_ifs at hif with hk
      obtain rfl := Option.some.inj hif
      exact hk ▸ List.mem_cons_self

/-- A written key names a written place. -/
theorem lastWrite_map_ne_none {f : κ → κ'} : ∀ {ws : List (κ × β)} {k : κ} {c : κ'} {v : β},
    lastWrite ws k = some v → f k = c → lastWrite (ws.map fun w => (f w.1, w.2)) c ≠ none
  | [], _, _, _, h, _ => by cases h
  | w :: ws, k, c, v, h, hk => by
    rw [List.map_cons, lastWrite]
    rcases Option.or_eq_some_iff.mp h with hsome | ⟨-, hif⟩
    · have htail := lastWrite_map_ne_none hsome hk
      cases hlast : lastWrite (ws.map fun w => (f w.1, w.2)) c with
      | none => exact absurd hlast htail
      | some v' => simp
    · split_ifs at hif with hw
      rw [if_pos (by rw [hw]; exact hk)]
      cases lastWrite (ws.map fun w => (f w.1, w.2)) c <;> simp

/-- The last write to a place is the last write for some key that names it. -/
theorem lastWrite_map {f : κ → κ'} : ∀ {ws : List (κ × β)} {c : κ'} {v : β},
    lastWrite (ws.map fun w => (f w.1, w.2)) c = some v → ∃ k, f k = c ∧ lastWrite ws k = some v
  | [], _, _, h => by cases h
  | w :: ws, c, v, h => by
    rw [List.map_cons, lastWrite] at h
    rcases Option.or_eq_some_iff.mp h with hsome | ⟨hnone, hif⟩
    · obtain ⟨k, hk, hlast⟩ := lastWrite_map hsome
      exact ⟨k, hk, by rw [lastWrite, hlast]; rfl⟩
    · split_ifs at hif with hw
      refine ⟨w.1, hw, ?_⟩
      cases hlast : lastWrite ws w.1 with
      | none => rw [lastWrite, hlast, if_pos rfl]; exact hif
      -- a later write for the same key would be one to the same place
      | some v' => exact absurd hnone (lastWrite_map_ne_none hlast hw)

end

namespace MessageHeap

variable {α : Type} {h h' : MessageHeap α} {a b : DataAddr} {c n : Place} {v : Cell α}

-- -------------------------
-- Storing
-- -------------------------

/-- The element kept at a place itself. -/
def cell? (h : MessageHeap α) (n : Place) : Option (Element (Cell α)) :=
  (h.object? n.1).bind fun o => o.cells[n.2]?

/-- The step from a place with an element. -/
theorem next_of_cell {e : Element (Cell α)} (hc : h.cell? n = some e) :
    h.next n = DataObject.cellStep h.sizeOf e := by
  obtain ⟨o, ho, he⟩ := Option.bind_eq_some_iff.mp hc
  have hkeeps : o.KeepsElements := by
    cases o with
    | tupleVals _ => trivial
    | dynamicMsgData _ _ => trivial
    | decoratedTuple _ _ _ => cases he
    | concatenatedTuple _ _ _ => cases he
  rw [next, ho, Option.elim_some, hkeeps.step_eq, he, Option.elim_some]

theorem cells_store (o : DataObject α) (pos : Nat) (v : Cell α) :
    (o.store pos v).cells = o.cells.modify pos fun e => { e with value := v } := by
  cases o <;> first | rfl | simp [DataObject.store, DataObject.cells]

theorem size_store (o : DataObject α) (pos : Nat) (v : Cell α) : (o.store pos v).size = o.size := by
  cases o <;> simp [DataObject.store, DataObject.size]

/-- Only data that keeps its elements has cells. -/
theorem keepsElements_of_cell {e : Element (Cell α)} (hc : h.cell? n = some e) :
    ∃ o, h.object? n.1 = some o ∧ o.KeepsElements ∧ o.cells[n.2]? = some e := by
  obtain ⟨o, ho, he⟩ := Option.bind_eq_some_iff.mp hc
  refine ⟨o, ho, ?_, he⟩
  cases o with
  | tupleVals _ => trivial
  | dynamicMsgData _ _ => trivial
  | decoratedTuple _ _ _ => cases he
  | concatenatedTuple _ _ _ => cases he

/-- What is found after a store. -/
theorem object_store {e : Element (Cell α)} (hc : h.cell? c = some e) (v : Cell α)
    (b : DataAddr) : (h.store c v).object? b =
      if b = c.1 then (h.object? b).map (DataObject.store c.2 v) else h.object? b := by
  obtain ⟨o, ho, -⟩ := keepsElements_of_cell hc
  rw [store, ho]
  show (h.setObject c.1 (o.store c.2 v)).object? b = _
  rw [object_setObject _ (lt_of_object ho)]
  split_ifs with hb
  · rw [hb, ho, Option.map_some]
  · rfl

/-- A store keeps all sizes. -/
theorem sizeOf_store {e : Element (Cell α)} (hc : h.cell? c = some e) (v : Cell α) :
    (h.store c v).sizeOf = h.sizeOf := by
  funext b
  rw [sizeOf, sizeOf, object_store hc]
  split_ifs
  · cases h.object? b with
    | none => rfl
    | some o => exact size_store o c.2 v
  · rfl

/-- Storing replaces the value of one element. -/
theorem cell_store {e : Element (Cell α)} (hc : h.cell? c = some e) (v : Cell α) (n : Place) :
    (h.store c v).cell? n = if n = c then some ⟨e.type, v⟩ else h.cell? n := by
  obtain ⟨o, ho, -, he⟩ := keepsElements_of_cell hc
  rw [cell?, object_store hc]
  by_cases hn : n.1 = c.1
  · rw [if_pos hn, hn, ho, Option.map_some, Option.bind_some, cells_store]
    by_cases hpos : c.2 = n.2
    · rw [if_pos (Prod.ext hn hpos.symm), ← hpos, List.getElem?_modify_eq, he]
      rfl
    · have hne : n ≠ c := fun heq => hpos (congrArg Prod.snd heq).symm
      rw [if_neg hne, List.getElem?_modify_ne _ _ hpos, cell?, hn, ho, Option.bind_some]
  · have hne : n ≠ c := fun heq => hn (congrArg Prod.fst heq)
    rw [if_neg hn, if_neg hne, cell?]

/-- Everything but the element stays. -/
theorem next_store {e : Element (Cell α)} (hc : h.cell? c = some e) (v : Cell α) (n : Place) :
    (h.store c v).next n =
      if n = c then DataObject.cellStep h.sizeOf ⟨e.type, v⟩ else h.next n := by
  by_cases hn : n = c
  · rw [if_pos hn, next_of_cell (by rw [cell_store hc, if_pos hn]), sizeOf_store hc]
  · rw [if_neg hn]
    obtain ⟨o, ho, hkeeps, -⟩ := keepsElements_of_cell hc
    by_cases hobj : n.1 = c.1
    · have hne : n.2 ≠ c.2 := fun heq => hn (Prod.ext hobj heq)
      have hkeeps' : (o.store c.2 v).KeepsElements := by
        cases o <;> trivial
      rw [next, object_store hc, if_pos hobj, hobj, ho, Option.map_some, Option.elim_some,
        hkeeps'.step_eq, cells_store, List.getElem?_modify_ne _ _ (Ne.symm hne), sizeOf_store hc,
        next, hobj, ho, Option.elim_some, hkeeps.step_eq]
    · rw [next, object_store hc, if_neg hobj, sizeOf_store hc, next]

-- -------------------------
-- Sequences of writes
-- -------------------------

/-- Assignments one after the other. -/
def storeAll (h : MessageHeap α) (ws : List (Place × Cell α)) : MessageHeap α :=
  ws.foldl (fun h w => h.store w.1 w.2) h

theorem vars_store (h : MessageHeap α) (c : Place) (v : Cell α) : (h.store c v).vars = h.vars := by
  unfold store
  split <;> rfl

/-- After assignments to elements, each place holds the last value assigned to it. -/
theorem storeAll_spec : ∀ {ws : List (Place × Cell α)} {h : MessageHeap α},
    (∀ w ∈ ws, (h.cell? w.1).isSome) →
      (h.storeAll ws).vars = h.vars ∧ (h.storeAll ws).sizeOf = h.sizeOf ∧
      ∀ n, (h.storeAll ws).next n = match lastWrite ws n, h.cell? n with
        | some v, some e => DataObject.cellStep h.sizeOf ⟨e.type, v⟩
        | _, _ => h.next n
  | [], _, _ => ⟨rfl, rfl, fun _ => rfl⟩
  | w :: ws, h, hcells => by
    obtain ⟨e, he⟩ := Option.isSome_iff_exists.mp (hcells w List.mem_cons_self)
    have hrest : ∀ w' ∈ ws, ((h.store w.1 w.2).cell? w'.1).isSome := by
      intro w' hw'
      rw [cell_store he]
      split_ifs
      · rfl
      · exact hcells w' (List.mem_cons_of_mem _ hw')
    obtain ⟨hvars, hsizes, hnext⟩ := storeAll_spec hrest
    refine ⟨hvars.trans (vars_store ..), hsizes.trans (sizeOf_store he w.2), fun n => ?_⟩
    show ((h.store w.1 w.2).storeAll ws).next n = _
    rw [hnext n, cell_store he, next_store he, sizeOf_store he, lastWrite]
    by_cases hn : n = w.1
    · subst hn
      rw [if_pos rfl, if_pos rfl, if_pos rfl, he]
      cases lastWrite ws w.1 <;> rfl
    · rw [if_neg hn, if_neg hn, if_neg (Ne.symm hn), Option.or_none]

-- -------------------------
-- Data as a value
-- -------------------------

/-- The data at an address as a value, with the data it points to in place of the
pointers. -/
def dataAt (h : MessageHeap α) : (fuel : Nat) → DataAddr → Option (MessageData (Cell α))
  | 0, _ => none
  | fuel + 1, a =>
    match h.object? a with
    | none => none
    | some (.tupleVals data) => some (.tupleVals data)
    | some (.dynamicMsgData elements token) => some (.dynamicMsgData elements token)
    | some (.decoratedTuple d mapping token) =>
      (h.dataAt fuel d).map fun data => .decoratedTuple data mapping token
    | some (.concatenatedTuple data token size) =>
      (data.mapM (h.dataAt fuel)).map fun parts => .concatenatedTuple parts token size

/-- The data read from the heap is as long as the object. -/
theorem size_dataAt {fuel : Nat} {d : MessageData (Cell α)} (hd : h.dataAt fuel a = some d) :
    d.size = h.sizeOf a := by
  cases fuel with
  | zero => cases hd
  | succ fuel =>
    rw [dataAt] at hd
    cases ho : h.object? a with
    | none => rw [ho] at hd; cases hd
    | some o =>
      rw [ho] at hd
      rw [sizeOf, ho, Option.elim_some]
      cases o with
      | tupleVals _ => cases hd; rfl
      | dynamicMsgData _ _ => cases hd; rfl
      | decoratedTuple _ _ _ => obtain ⟨_, _, rfl⟩ := Option.map_eq_some_iff.mp hd; rfl
      | concatenatedTuple _ _ _ => obtain ⟨_, _, rfl⟩ := Option.map_eq_some_iff.mp hd; rfl

/-- `select` finds the part of the value that it finds on the heap. -/
theorem select_dataAt {fuel : Nat}
    (ih : ∀ {b : DataAddr} {d : MessageData (Cell α)}, h.dataAt fuel b = some d → ∀ pos,
      d.elementAt pos = (h.locate fuel b pos).bind h.cell?) :
    ∀ {data : List DataAddr} {parts : List (MessageData (Cell α))},
      data.mapM (h.dataAt fuel) = some parts → ∀ pos, MessageData.select parts pos =
        ((h.select data pos).bind fun m => h.locate fuel m.1 m.2).bind h.cell?
  | [], _, hparts, _ => by cases hparts; rfl
  | m :: data, _, hparts, pos => by
    rw [List.mapM_cons] at hparts
    obtain ⟨d, hd, hrest⟩ := Option.bind_eq_some_iff.mp hparts
    obtain ⟨parts, hrec, heq⟩ := Option.bind_eq_some_iff.mp hrest
    cases heq
    rw [MessageData.select, MessageHeap.select, size_dataAt hd]
    split_ifs
    · exact select_dataAt ih hrec _
    · exact ih hd pos

/-- The value of the data has the elements that `at` finds on the heap. -/
theorem elementAt_dataAt : ∀ {fuel : Nat} {b : DataAddr} {d : MessageData (Cell α)},
    h.dataAt fuel b = some d → ∀ pos, d.elementAt pos = (h.locate fuel b pos).bind h.cell?
  | 0, _, _, hd, _ => by cases hd
  | fuel + 1, b, d, hd, pos => by
    rw [dataAt] at hd
    rw [locate]
    cases ho : h.object? b with
    | none => rw [ho] at hd; cases hd
    | some o =>
      rw [ho] at hd
      -- data that keeps its elements is read cell by cell
      have hkept : ∀ xs : List (Element (Cell α)), o.cells = xs →
          xs[pos]? = (if pos < xs.length then some (b, pos) else none).bind h.cell? := by
        rintro xs rfl
        split_ifs with hpos
        · rw [Option.bind_some, cell?, ho, Option.bind_some]
        · rw [List.getElem?_eq_none (Nat.le_of_not_lt hpos), Option.bind_none]
      cases o with
      | tupleVals data => cases hd; exact hkept data rfl
      | dynamicMsgData elements token => cases hd; exact hkept elements rfl
      -- data that refers to others is read one step further, by induction
      | decoratedTuple d' mapping token =>
        obtain ⟨data, hdata, rfl⟩ := Option.map_eq_some_iff.mp hd
        show mapping[pos]?.bind data.elementAt =
          (mapping[pos]?.bind fun i => h.locate fuel d' i).bind h.cell?
        cases mapping[pos]? with
        | none => rfl
        | some i => exact elementAt_dataAt hdata i
      | concatenatedTuple data token size =>
        obtain ⟨parts, hparts, rfl⟩ := Option.map_eq_some_iff.mp hd
        exact select_dataAt (fun hd => elementAt_dataAt hd) hparts pos

end MessageHeap

end BoostActor
