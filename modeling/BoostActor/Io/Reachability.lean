import BoostActor.Io.Lookup
import BoostActor.Lib.Run

/-!
# Reachable nodes and lost nodes

What the routing table says about the nodes it knows, compared with the routes that
its lookups find:

* `reachable_iff_lookup` — `reachable` looks at keys only. It agrees with `lookup` as
  long as no operation leaves a destination with nothing but dead hops (`keeps`), and
  not after one that does;
* `callbacks_exact` — when the callbacks of `erase_direct` and `erase` are called for
  the nodes that lost their route.

Everything rests on two facts about a step: which keys the indirect routes have
afterwards, and which of them still have a route (`survives`).
-/

namespace BoostActor

open Lib

/-- The first half of the documented precondition of `add_direct`. -/
def TableOp.validHandle : TableOp → Bool
  | .addDirect hdl _ => hdl ≠ ConnectionHandle.invalid
  | _ => true

namespace RoutingTable

variable {t : RoutingTable} {op : TableOp} {hdl : ConnectionHandle} {nid hop dest gone : NodeId}

-- -------------------------
-- Routes after a step
-- -------------------------

/-- The destination has a route that does not use the connection to `gone`. -/
def survives (t : RoutingTable) (gone dest : NodeId) : Bool :=
  t.connected dest && !(gone == dest) ||
    (t.hops dest).any fun hop => t.connected hop && !(gone == hop)

/-- A destination survives the loss of a node over another connected one. -/
theorem survives_iff : t.survives gone dest = true ↔
    t.connected dest = true ∧ (gone == dest) = false ∨
      ∃ hop ∈ t.hops dest, t.connected hop = true ∧ (gone == hop) = false := by
  simp [survives]

theorem hops_congr {a b : NodeId} (h : (a == b) = true) : t.hops a = t.hops b := by
  rw [hops, hops, UMap.find?_congr _ h]

/-- A destination without entry has no hops. -/
theorem contains_of_mem_hops (h : hop ∈ t.hops dest) : t.indirect.contains dest = true := by
  cases hc : t.indirect.contains dest with
  | true => rfl
  | false =>
    rw [UMap.contains_eq_false] at hc
    rw [hops, hc] at h
    cases h

/-- Losing the connection to a node. -/
theorem connected_removeDirect (n : NodeId) :
    (t.removeDirect hdl gone).connected n = (t.connected n && !(gone == n)) := by
  have hfind : (t.removeDirect hdl gone).directByNid.find? n =
      if gone == n then none else t.directByNid.find? n := UMap.find?_erase ..
  rw [connected, connected, lookupDirect, lookupDirect, hfind]
  cases gone == n with
  | true => simp
  | false => rw [if_neg Bool.false_ne_true, Bool.not_false, Bool.and_true]

/-- What is left when the connection to a node is lost. -/
theorem route?_removeDirect :
    ((t.removeDirect hdl gone).route? dest).isSome = t.survives gone dest := by
  rw [Bool.eq_iff_iff, route?_isSome_iff, survives_iff]
  show (_ ∨ ∃ hop ∈ t.hops dest, _) ↔ _
  simp [connected_removeDirect]

/-- An existing connection is kept by `add_direct`. -/
theorem connected_addDirect (h : t.connected dest = true) :
    (t.addDirect hdl nid).connected dest = true := by
  obtain ⟨hdl', hf, hv⟩ := connected_iff.mp h
  refine connected_iff.mpr ⟨hdl', ?_, hv⟩
  show (t.directByNid.emplace nid hdl).find? dest = some hdl'
  rw [UMap.find?_emplace, hf, Option.some_or]

/-- Adding a direct route keeps every route. -/
theorem route?_addDirect (h : (t.route? dest).isSome = true) :
    ((t.addDirect hdl nid).route? dest).isSome = true := by
  rw [route?_isSome_iff] at h ⊢
  rcases h with hc | ⟨hop, hmem, hc⟩
  · exact Or.inl (connected_addDirect hc)
  · exact Or.inr ⟨hop, hmem, connected_addDirect hc⟩

/-- The hops of the other destinations are left when one is erased. -/
theorem hops_removeIndirect (n : NodeId) :
    (t.removeIndirect dest).hops n = if dest == n then [] else t.hops n := by
  show ((t.indirect.erase dest).find? n).getD [] = _
  rw [UMap.find?_erase]
  split <;> rfl

/-- Removing the hops to a destination forgets that destination. -/
theorem contains_removeIndirect (n : NodeId) :
    (t.removeIndirect dest).indirect.contains n = (!(dest == n) && t.indirect.contains n) := by
  show (t.indirect.erase dest).contains n = _
  rw [UMap.contains, UMap.find?_erase]
  cases dest == n <;> rfl

/-- Removing the hops to a destination keeps the routes to others. -/
theorem route?_removeIndirect {n : NodeId} (h : (dest == n) = false) :
    (t.removeIndirect dest).route? n = t.route? n := by
  have hc : (t.removeIndirect dest).connected = t.connected := rfl
  have hl : (t.removeIndirect dest).lookupDirect = t.lookupDirect := rfl
  rw [route?, hc, hl, hops_removeIndirect, h]
  rfl

/-- The keys after a hop was inserted. -/
theorem contains_addHop (n : NodeId) :
    (t.addHop hop dest).indirect.contains n = (dest == n || t.indirect.contains n) := by
  show (t.indirect.set dest _).contains n = _
  rw [UMap.contains, UMap.find?_set]
  cases dest == n <;> rfl

/-- The hops that blacklisting leaves. -/
def hopsWithout (t : RoutingTable) (hop dest : NodeId) : List NodeId :=
  (t.hops dest).filter fun h => !(h == hop)

/-- The keys after a pair was blacklisted. -/
theorem contains_addBlacklist (n : NodeId) : (t.addBlacklist hop dest).indirect.contains n =
    (t.indirect.contains n && !(dest == n && (t.hopsWithout hop dest).isEmpty)) := by
  have hfind : ∀ hs, t.indirect.find? dest = some hs → t.hopsWithout hop dest =
      hs.filter fun h => !(h == hop) := fun hs hf => by rw [hopsWithout, hops, hf]; rfl
  unfold addBlacklist
  dsimp only
  split
  · next hf =>
    by_cases hd : (dest == n) = true
    · rw [UMap.find?_congr _ hd] at hf
      simp [UMap.contains, hf]
    · simp [hd]
  · next hs hf =>
    rw [hfind hs hf]
    have hcont : (dest == n) = true → t.indirect.contains n = true := by
      intro hd
      rw [UMap.contains, ← UMap.find?_congr _ hd, hf]
      rfl
    cases he : (hs.filter fun h => !(h == hop)).isEmpty with
    | true =>
      rw [if_pos rfl, UMap.contains, UMap.find?_erase]
      cases dest == n <;> simp [UMap.contains]
    | false =>
      rw [if_neg Bool.false_ne_true, UMap.contains, UMap.find?_set]
      cases hd : dest == n with
      | true => simp [hcont hd]
      | false => simp [UMap.contains]

-- -------------------------
-- `reachable` and `lookup`
-- -------------------------

/-- The operation leaves no destination with dead hops only. -/
def keeps (t : RoutingTable) : TableOp → Bool
  | .addIndirect hop dest => t.blacklisted hop dest || t.connected hop || t.reachable dest
  | .eraseDirect hdl =>
    match t.directByHdl.find? hdl with
    | none => true
    | some peer => t.indirect.entries.all fun e => t.survives peer e.1
  | .erase dest =>
    !t.connected dest || t.indirect.entries.all fun e => dest == e.1 || t.survives dest e.1
  | .blacklist hop dest =>
    (t.hopsWithout hop dest).isEmpty || t.connected dest || (t.hopsWithout hop dest).any t.connected
  | .addDirect .. | .eraseIndirect .. | .lookup .. => true

/-- No node is bound to the invalid handle. -/
def ValidHandles (t : RoutingTable) : Prop :=
  ∀ nid, t.directByNid.find? nid ≠ some ConnectionHandle.invalid

/-- Every key of the indirect routes has a route. -/
def Routed (t : RoutingTable) : Prop :=
  ∀ dest, t.indirect.contains dest = true → (t.route? dest).isSome = true

/-- `reachable` holds of the nodes that `lookup` finds a route to. -/
def Agrees (t : RoutingTable) : Prop :=
  ∀ dest, t.reachable dest = (t.lookup dest).1.isSome

/-- With valid handles, a node is connected exactly if it has a direct entry. -/
theorem ValidHandles.connected (h : t.ValidHandles) :
    t.connected dest = t.directByNid.contains dest := by
  rw [Bool.eq_iff_iff, connected_iff, UMap.contains_iff]
  refine ⟨fun ⟨hdl, hf, _⟩ => ⟨hdl, hf⟩, fun ⟨hdl, hf⟩ => ⟨hdl, hf, ?_⟩⟩
  rintro rfl
  exact h dest hf

/-- A node with a route is `reachable`. -/
theorem reachable_of_route? (h : (t.route? dest).isSome = true) : t.reachable dest = true := by
  rw [reachable, Bool.or_eq_true]
  rcases route?_isSome_iff.mp h with hc | ⟨hop, hmem, -⟩
  · obtain ⟨hdl, hf, -⟩ := connected_iff.mp hc
    exact Or.inl (UMap.contains_iff.mpr ⟨hdl, hf⟩)
  · exact Or.inr (contains_of_mem_hops hmem)

/-- With valid handles, `reachable` agrees with `lookup` exactly if every indirect entry leads
somewhere. -/
theorem ValidHandles.agrees_iff (h : t.ValidHandles) : t.Agrees ↔ t.Routed := by
  refine ⟨fun ha dest hc => ?_, fun hr dest => ?_⟩
  · have hreach := ha dest
    rw [lookup_eq, reachable, hc, Bool.or_true] at hreach
    exact hreach.symm
  · rw [lookup_eq, Bool.eq_iff_iff]
    refine ⟨fun hreach => ?_, reachable_of_route?⟩
    rw [reachable, ← h.connected, Bool.or_eq_true] at hreach
    rcases hreach with hc | hc
    · exact route?_isSome_iff.mpr (Or.inl hc)
    · exact hr dest hc

/-- An operation with valid handles keeps them valid. -/
theorem ValidHandles.apply (h : t.ValidHandles) (hv : op.validHandle = true) :
    (t.apply op).ValidHandles := by
  -- removing a direct route leaves fewer handles
  have herase : ∀ hdl gone, (t.removeDirect hdl gone).ValidHandles := by
    intro hdl gone nid hf
    have hfind := UMap.find?_erase t.directByNid gone nid
    rw [show (t.directByNid.erase gone).find? nid = _ from hf] at hfind
    split at hfind
    · cases hfind
    · exact h nid hfind.symm
  cases op with
  | addDirect hdl nid' =>
    intro nid hf
    have hf : (t.directByNid.emplace nid' hdl).find? nid = _ := hf
    rw [UMap.find?_emplace, Option.or_eq_some_iff] at hf
    rcases hf with hf | ⟨-, hf⟩
    · exact h nid hf
    · split at hf
      · rw [Option.some.injEq] at hf
        simp [TableOp.validHandle, hf] at hv
      · cases hf
  | addIndirect hop dest =>
    unfold RoutingTable.apply
    dsimp only
    split
    · exact h
    · exact h
  | eraseDirect hdl =>
    unfold RoutingTable.apply
    dsimp only
    split
    · exact h
    · exact herase _ _
  | eraseIndirect dest => exact h
  | erase dest =>
    unfold RoutingTable.apply
    dsimp only
    split
    · exact h
    · exact herase (t.lookupDirect dest) dest
  | lookup target =>
    intro nid
    show (t.prune target).directByNid.find? nid ≠ _
    rw [prune_directByNid]
    exact h nid
  | blacklist hop dest =>
    unfold RoutingTable.apply addBlacklist
    dsimp only
    split
    · exact h
    · split
      · exact h
      · exact h

/-- A property of destinations, checked on the keys. -/
theorem all_keys_iff {p : NodeId → Bool} (hp : ∀ a b, (a == b) = true → p a = p b) :
    (t.indirect.entries.all fun e => p e.1) = true ↔
      ∀ dest, t.indirect.contains dest = true → p dest = true := by
  rw [List.all_eq_true]
  refine ⟨fun h dest hc => ?_, fun h e he => h e.1 ?_⟩
  · obtain ⟨hops, hf⟩ := UMap.contains_iff.mp hc
    obtain ⟨e, he, hd⟩ := UMap.mem_of_find? hf
    rw [← hp _ _ hd]
    exact h e he
  · exact UMap.contains_iff.mpr ⟨e.2, UMap.find?_of_mem he⟩

theorem survives_congr {a b : NodeId} (h : (a == b) = true) :
    t.survives gone a = t.survives gone b := by
  rw [survives, survives, hops_congr h, connected_congr h, BEq.congr_right h]

/-- Losing a connection. -/
theorem routed_removeDirect :
    (t.removeDirect hdl gone).Routed ↔
      (t.indirect.entries.all fun e => t.survives gone e.1) = true := by
  rw [all_keys_iff fun a b => survives_congr]
  refine forall_congr' fun dest => ?_
  rw [route?_removeDirect]
  rfl

/-- Inserting a hop. -/
theorem routed_addHop (hh : t.ValidHandles) (hr : t.Routed) :
    (t.addHop hop dest).Routed ↔ (t.connected hop || t.reachable dest) = true := by
  have hconn : (t.addHop hop dest).connected = t.connected := rfl
  rw [Bool.or_eq_true]
  refine ⟨fun h => ?_, fun h n hn => ?_⟩
  · have hroute := h dest (by rw [contains_addHop, BEq.rfl, Bool.true_or])
    rcases route?_isSome_iff.mp hroute with hc | ⟨h', hmem, hc⟩
    · rw [hconn] at hc
      exact Or.inr (reachable_of_route? (route?_isSome_iff.mpr (Or.inl hc)))
    · rw [hconn] at hc
      rcases mem_hops_addHop.mp hmem with hmem | ⟨-, rfl, -⟩
      · exact Or.inr (reachable_of_route? (route?_isSome_iff.mpr (Or.inr ⟨h', hmem, hc⟩)))
      · exact Or.inl hc
  · rw [contains_addHop, Bool.or_eq_true] at hn
    rcases hn with hd | hn
    · -- the new hop is connected, or the destination was reachable before
      rcases h with hc | hreach
      · exact route?_addHop hc hd
      · -- the destination had a route already
        have hroute : (t.route? dest).isSome = true := by
          rw [← hreach, hh.agrees_iff.mpr hr dest, lookup_eq]
        rw [← route?_isSome_congr hd]
        exact route?_isSome_addHop hroute
    · exact route?_isSome_addHop (hr n hn)

/-- Erasing a destination. -/
theorem routed_erase (hr : t.Routed) :
    (t.apply (.erase dest)).Routed ↔ t.keeps (.erase dest) = true := by
  have hld : (t.removeIndirect dest).lookupDirect dest = t.lookupDirect dest := rfl
  rw [keeps, apply, hld]
  -- a connected node is erased with its direct route, another one keeps none
  by_cases hc : t.connected dest = true
  · have hv : ¬ t.lookupDirect dest = ConnectionHandle.invalid := by simpa [connected] using hc
    rw [if_neg hv, hc, Bool.not_true, Bool.false_or,
      all_keys_iff (p := fun n => dest == n || t.survives dest n) fun a b h => by
        rw [BEq.congr_right h, survives_congr h]]
    refine forall_congr' fun n => ?_
    have hcont : ((t.removeIndirect dest).removeDirect
        (t.lookupDirect dest) dest).indirect.contains n =
          (!(dest == n) && t.indirect.contains n) := contains_removeIndirect n
    rw [route?_removeDirect, hcont]
    by_cases hd : (dest == n) = true
    · simp [hd]
    · have hs : (t.removeIndirect dest).survives dest n = t.survives dest n := by
        have hconn : (t.removeIndirect dest).connected = t.connected := rfl
        rw [survives, survives, hconn, hops_removeIndirect, if_neg hd]
      simp [hd, hs]
  · have hv : t.lookupDirect dest = ConnectionHandle.invalid := by simpa [connected] using hc
    rw [if_pos hv]
    simp only [hc, Bool.not_false, Bool.true_or, iff_true]
    intro n hn
    rw [contains_removeIndirect, Bool.and_eq_true, Bool.not_eq_true'] at hn
    rw [route?_removeIndirect hn.1]
    exact hr n hn.2

/-- Blacklisting a pair. -/
theorem routed_addBlacklist (hr : t.Routed) :
    (t.addBlacklist hop dest).Routed ↔ t.keeps (.blacklist hop dest) = true := by
  have hconn : (t.addBlacklist hop dest).connected = t.connected := by
    unfold addBlacklist
    dsimp only
    split
    · rfl
    · split <;> rfl
  have hroute : ∀ n, ((t.addBlacklist hop dest).route? n).isSome = true ↔ t.connected n = true ∨
      ∃ h ∈ (if dest == n then t.hopsWithout hop dest else t.hops n), t.connected h = true := by
    intro n
    rw [route?_isSome_iff, hconn, hops_addBlacklist]
    split
    · next hd => rw [hopsWithout, hops_congr hd]
    · rfl
  rw [keeps, Bool.or_assoc, Bool.or_eq_true, Bool.or_eq_true, List.any_eq_true]
  refine ⟨fun h => ?_, fun h n hn => ?_⟩
  · -- the destination keeps a connected hop, loses its entry, or is connected itself
    cases he : (t.hopsWithout hop dest).isEmpty with
    | true => exact Or.inl rfl
    | false =>
      have hcont : (t.addBlacklist hop dest).indirect.contains dest = true := by
        have hne : t.hopsWithout hop dest ≠ [] := by simpa using he
        obtain ⟨h', hmem⟩ := List.exists_mem_of_ne_nil _ hne
        rw [contains_addBlacklist, he, contains_of_mem_hops (List.mem_filter.mp hmem).1]
        simp
      have hd := (hroute dest).mp (h dest hcont)
      rw [if_pos BEq.rfl] at hd
      exact Or.inr hd
  · rw [contains_addBlacklist, Bool.and_eq_true, Bool.not_eq_true'] at hn
    rw [hroute]
    by_cases hd : (dest == n) = true
    · rw [if_pos hd, ← connected_congr hd]
      rcases h with he | h
      · rw [hd, he] at hn
        cases hn.2
      · exact h
    · rw [if_neg hd]
      exact route?_isSome_iff.mp (hr n hn.1)

/-- Whether a step leaves only keys with a route is what `keeps` says. -/
theorem routed_apply (hh : t.ValidHandles) (hr : t.Routed) :
    (t.apply op).Routed ↔ t.keeps op = true := by
  cases op with
  | addDirect hdl nid => exact iff_of_true (fun n hn => route?_addDirect (hr n hn)) rfl
  | addIndirect hop dest =>
    unfold apply keeps
    dsimp only
    split
    · next hb => exact iff_of_true hr (by rw [hb]; rfl)
    · next hb =>
      rw [Bool.not_eq_true] at hb
      rw [hb, Bool.false_or]
      exact routed_addHop hh hr
  | eraseDirect hdl =>
    unfold apply keeps
    dsimp only
    cases t.directByHdl.find? hdl with
    | none => exact iff_of_true hr rfl
    | some peer => exact routed_removeDirect
  | eraseIndirect dest =>
    refine iff_of_true (fun n hn => ?_) rfl
    have hn : (t.removeIndirect dest).indirect.contains n = true := hn
    rw [contains_removeIndirect, Bool.and_eq_true, Bool.not_eq_true'] at hn
    show ((t.removeIndirect dest).route? n).isSome = true
    rw [route?_removeIndirect hn.1]
    exact hr n hn.2
  | erase dest => exact routed_erase hr
  | lookup target =>
    refine iff_of_true (fun n hn => ?_) rfl
    have hn : (t.prune target).indirect.contains n = true := hn
    rw [contains_prune] at hn
    show ((t.prune target).route? n).isSome = true
    rw [route?_prune]
    exact hr n hn
  | blacklist hop dest => exact routed_addBlacklist hr

/-- The tables that operations in `ok` reach. -/
def Reachable (ok : RoutingTable → TableOp → Prop) : RoutingTable → Prop :=
  Reach (fun t => ∃ order, t = empty order) (fun t op => some (t.apply op)) ok

/-- The operation is used as documented and leaves no destination with dead hops only. -/
def keepsRoutes (t : RoutingTable) (op : TableOp) : Prop :=
  op.validHandle = true ∧ t.keeps op = true

instance (t : RoutingTable) (op : TableOp) : Decidable (t.keepsRoutes op) :=
  inferInstanceAs (Decidable (_ ∧ _))

/-- In reachable tables the handles are valid and every entry leads somewhere. -/
theorem Reachable.routed (h : Reachable keepsRoutes t) : t.ValidHandles ∧ t.Routed := by
  refine Reach.invariant (I := fun t => t.ValidHandles ∧ t.Routed) ?_ ?_ h
  · rintro t ⟨order, rfl⟩
    exact ⟨fun nid => by simp [empty], fun dest hc => by simp [empty, UMap.contains] at hc⟩
  · rintro t op _ ⟨hh, hr⟩ ⟨hv, hk⟩ ⟨⟩
    exact ⟨hh.apply hv, (routed_apply hh hr).mpr hk⟩

/-- **`reachable` and `lookup`** agree in every table that is reached by operations that
leave no destination with dead hops only; after one that does they disagree. -/
theorem reachable_iff_lookup (h : Reachable keepsRoutes t) :
    (∀ dest, t.reachable dest = true ↔ ∃ r, (t.lookup dest).1 = some r) ∧
    ∀ op, op.validHandle = true → t.keeps op = false →
      ∃ dest, (t.apply op).reachable dest = true ∧ ((t.apply op).lookup dest).1 = none := by
  obtain ⟨hh, hr⟩ := h.routed
  refine ⟨fun dest => ?_, fun op hv hk => ?_⟩
  · rw [hh.agrees_iff.mpr hr dest, Option.isSome_iff_exists]
  · have hnot : ¬ (t.apply op).Routed := by simp [routed_apply hh hr, hk]
    simp only [Routed, not_forall] at hnot
    obtain ⟨dest, hc, hnone⟩ := hnot
    refine ⟨dest, by rw [reachable, hc, Bool.or_true], ?_⟩
    rw [lookup_eq]
    simpa using hnone

open Sample in
/-- A destination with two hops survives the loss of one of them. -/
theorem reachable_second_hop : ∃ t, Reachable keepsRoutes t ∧
    t.connected (node 2) = false ∧ t.reachable (node 4) = true ∧
    ∃ r, (t.lookup (node 4)).1 = some r := by
  obtain ⟨t, ht, hc⟩ := exists_run
    (fun (t : RoutingTable) (op : TableOp) => if t.keepsRoutes op then some (t.apply op) else none)
    (empty Sample.order) [.addDirect (conn 7) (node 2), .addDirect (conn 8) (node 3),
      .addIndirect (node 2) (node 4), .addIndirect (node 3) (node 4), .eraseDirect (conn 7)]
    (fun t => !t.connected (node 2) && t.reachable (node 4)) (by decide +kernel)
  rw [Bool.and_eq_true, Bool.not_eq_true'] at hc
  have hreach : Reachable keepsRoutes t := reach_of_checked_run (.init ⟨Sample.order, rfl⟩) ht
  exact ⟨t, hreach, hc.1, hc.2, ((reachable_iff_lookup hreach).1 (node 4)).mp hc.2⟩

open Sample in
/-- The only hop to node 3 loses its connection: the node stays `reachable`. -/
theorem reachable_dead_hop : ∃ t, Reachable (fun _ op => op.validHandle = true) t ∧
    t.reachable (node 3) = true ∧ (t.lookup (node 3)).1 = none := by
  obtain ⟨t, ht, hc⟩ := exists_run
    (fun (t : RoutingTable) (op : TableOp) =>
      if op.validHandle = true then some (t.apply op) else none) (empty Sample.order)
    [.addDirect (conn 7) (node 2), .addIndirect (node 2) (node 3), .eraseDirect (conn 7)]
    (fun t => t.reachable (node 3) && (t.lookup (node 3)).1.isNone) (by decide +kernel)
  rw [Bool.and_eq_true, Option.isNone_iff_eq_none] at hc
  exact ⟨t, reach_of_checked_run (.init ⟨Sample.order, rfl⟩) ht, hc⟩

-- -------------------------
-- Callbacks
-- -------------------------

/-- `erase_direct(hdl, cb)`: the nodes `cb` is called for, and the table afterwards. -/
def eraseDirect (t : RoutingTable) (hdl : ConnectionHandle) : List NodeId × RoutingTable :=
  match t.directByHdl.find? hdl with
  | none => ([], t)
  | some nid => ([nid], t.removeDirect hdl nid)

/-- `erase(dest, cb)`: the nodes `cb` is called for, and the table afterwards. -/
def erase (t : RoutingTable) (dest : NodeId) : List NodeId × RoutingTable :=
  let (calls, t) :=
    match t.indirect.find? dest with
    | none => ([dest], t)
    | some hops => (dest :: hops, t.removeIndirect dest)
  let hdl := t.lookupDirect dest
  (calls, if hdl = ConnectionHandle.invalid then t else t.removeDirect hdl dest)

/-- Its table after `erase`, and the callbacks. -/
theorem erase_eq : t.erase dest = (dest :: t.hops dest, t.apply (.erase dest)) := by
  unfold erase apply hops
  cases hf : t.indirect.find? dest with
  | none =>
    have hnop : t.removeIndirect dest = t := by rw [removeIndirect, UMap.erase_of_none hf]
    simp only [hnop]
    rfl
  | some hops => rfl

/-- `cb` was called for the node. -/
def called (calls : List NodeId) (n : NodeId) : Prop := ∃ m ∈ calls, (m == n) = true

/-- The node had a route, and has none any more. -/
def lost (t t' : RoutingTable) (n : NodeId) : Prop :=
  (t.lookup n).1.isSome = true ∧ (t'.lookup n).1 = none

/-- `erase_direct` calls `cb` for the nodes that lost their route. -/
def EraseDirectExact (t : RoutingTable) (hdl : ConnectionHandle) : Prop :=
  ∀ n, called (t.eraseDirect hdl).1 n ↔ lost t (t.eraseDirect hdl).2 n

/-- `erase` calls `cb` only for nodes without a route afterwards. -/
def EraseOnlyLost (t : RoutingTable) (dest : NodeId) : Prop :=
  ∀ n, called (t.erase dest).1 n → ((t.erase dest).2.lookup n).1 = none

/-- `peer` is the only connected hop of a destination that is not connected itself. -/
structure OnlyHop (t : RoutingTable) (peer dest : NodeId) : Prop where
  indirect : t.connected dest = false
  used : ∃ hop ∈ t.hops dest, t.connected hop = true
  alone : ∀ hop ∈ t.hops dest, t.connected hop = true → (peer == hop) = true

/-- The peer has a route, but not over another node, and is not the only connected hop of
another destination. -/
structure LeafPeer (t : RoutingTable) (peer : NodeId) : Prop where
  routed : t.connected peer = true ∨ ∃ hop ∈ t.hops peer, t.connected hop = true
  leaf : ∀ hop ∈ t.hops peer, t.connected hop = true → (peer == hop) = true
  others : ∀ dest, (peer == dest) = false → ¬ t.OnlyHop peer dest

/-- The hops of the destination, itself apart, are neither connected nor reached over a
connected hop, itself apart. -/
def HopsGone (t : RoutingTable) (dest : NodeId) : Prop :=
  ∀ hop ∈ t.hops dest, (dest == hop) = false → t.connected hop = false ∧
    ∀ h ∈ t.hops hop, t.connected h = true → (dest == h) = true

/-- The other nodes that lose their route with a connection. -/
theorem onlyHop_iff (hd : (gone == dest) = false) : t.OnlyHop gone dest ↔
    (t.route? dest).isSome = true ∧ t.survives gone dest = false := by
  rw [route?_isSome_iff, ← Bool.not_eq_true, survives_iff]
  constructor
  · rintro ⟨hc, hused, halone⟩
    refine ⟨Or.inr hused, ?_⟩
    rintro (⟨h, -⟩ | ⟨hop, hmem, hl, hne⟩)
    · rw [hc] at h
      cases h
    · rw [halone hop hmem hl] at hne
      cases hne
  · rintro ⟨hroute, hs⟩
    rw [not_or] at hs
    have hc : t.connected dest = false := by
      rw [← Bool.not_eq_true]
      exact fun hc => hs.1 ⟨hc, hd⟩
    refine ⟨hc, hroute.resolve_left (by simp [hc]), fun hop hmem hl => ?_⟩
    rw [← Bool.not_eq_false]
    exact fun hne => hs.2 ⟨hop, hmem, hl, hne⟩

/-- A node is lost if it had a route and has none now. -/
theorem lost_iff {t' : RoutingTable} {n : NodeId} : lost t t' n ↔
    (t.route? n).isSome = true ∧ (t'.route? n).isSome = false := by
  rw [lost, lookup_eq, lookup_eq]
  simp

/-- Losing a connection without another route for its peer. -/
theorem survives_self : t.survives gone gone = false ↔
    ∀ hop ∈ t.hops gone, t.connected hop = true → (gone == hop) = true := by
  rw [← Bool.not_eq_true, survives_iff]
  simp

/-- The callbacks of a bound handle are exact if the peer is a leaf. -/
theorem eraseDirectExact_of_bound (hb : t.directByHdl.find? hdl = some nid) :
    t.EraseDirectExact hdl ↔ t.LeafPeer nid := by
  have hcall : ∀ n, called (t.eraseDirect hdl).1 n ↔ (nid == n) = true := by
    intro n
    simp [called, eraseDirect, hb]
  have hlost : ∀ n, lost t (t.eraseDirect hdl).2 n ↔
      (t.route? n).isSome = true ∧ t.survives nid n = false := by
    intro n
    rw [lost_iff, eraseDirect, hb, route?_removeDirect]
  constructor
  · intro h
    obtain ⟨hroute, hs⟩ := (hlost nid).mp ((h nid).mp ((hcall nid).mpr BEq.rfl))
    refine ⟨route?_isSome_iff.mp hroute, survives_self.mp hs, fun dest hd honly => ?_⟩
    have hcalled := (h dest).mpr ((hlost dest).mpr ((onlyHop_iff hd).mp honly))
    rw [hcall, hd] at hcalled
    cases hcalled
  · rintro ⟨hrouted, hleaf, hothers⟩ n
    rw [hcall, hlost]
    cases hd : nid == n with
    | true =>
      rw [← route?_isSome_congr hd, ← survives_congr hd]
      exact iff_of_true rfl ⟨route?_isSome_iff.mpr hrouted, survives_self.mpr hleaf⟩
    | false => exact iff_of_false Bool.false_ne_true fun h => hothers n hd ((onlyHop_iff hd).mpr h)

/-- Without a bound node there is nothing to call back for. -/
theorem eraseDirectExact_of_unbound (hb : t.directByHdl.find? hdl = none) :
    t.EraseDirectExact hdl := by
  intro n
  refine iff_of_false (by simp [called, eraseDirect, hb]) fun h => ?_
  obtain ⟨hsome, hnone⟩ := lost_iff.mp h
  simp only [eraseDirect, hb, hsome] at hnone
  cases hnone

/-- The routes that `erase` leaves. -/
theorem route?_erase (n : NodeId) : ((t.apply (.erase dest)).route? n).isSome = true ↔
    (dest == n) = false ∧ (t.connected n = true ∨
      ∃ h ∈ t.hops n, t.connected h = true ∧ (dest == h) = false) := by
  have hconn : (t.removeIndirect dest).connected = t.connected := rfl
  have hld : (t.removeIndirect dest).lookupDirect dest = t.lookupDirect dest := rfl
  rw [apply, hld]
  by_cases hc : t.connected dest = true
  · have hv : ¬ t.lookupDirect dest = ConnectionHandle.invalid := by simpa [connected] using hc
    rw [if_neg hv, route?_removeDirect, survives_iff, hconn, hops_removeIndirect]
    by_cases hd : (dest == n) = true
    · simp [hd]
    · simp [hd]
  · have hv : t.lookupDirect dest = ConnectionHandle.invalid := by simpa [connected] using hc
    rw [if_pos hv, route?_isSome_iff, hconn, hops_removeIndirect]
    by_cases hd : (dest == n) = true
    · simp [hd, ← connected_congr hd, hc]
    · -- a connected hop is not the erased node
      have hne : ∀ h, t.connected h = true → (dest == h) = false := by
        intro h hl
        rw [← Bool.not_eq_true]
        intro he
        rw [connected_congr he, hl] at hc
        exact hc rfl
      simp only [hd, true_and]
      refine or_congr Iff.rfl (exists_congr fun h => and_congr_right fun _ => ?_)
      exact ⟨fun hl => ⟨hl, hne h hl⟩, fun h => h.1⟩

/-- Erasing a destination calls back for lost nodes only if all of its hops are gone. -/
theorem eraseOnlyLost_iff : t.EraseOnlyLost dest ↔ t.HopsGone dest := by
  have hnone : ∀ n, ((t.erase dest).2.lookup n).1 = none ↔
      ((dest == n) = false → t.connected n = false ∧
        ∀ h ∈ t.hops n, t.connected h = true → (dest == h) = true) := by
    intro n
    rw [erase_eq, lookup_eq, ← Option.not_isSome_iff_eq_none, route?_erase]
    simp
  constructor
  · intro h hop hmem hne
    refine (hnone hop).mp (h hop ⟨hop, ?_, BEq.rfl⟩) hne
    rw [erase_eq]
    exact List.mem_cons_of_mem _ hmem
  · rintro h n ⟨m, hm, hmn⟩
    rw [hnone]
    intro hne
    rw [erase_eq, List.mem_cons] at hm
    rcases hm with rfl | hm
    · rw [hmn] at hne
      cases hne
    · rw [← BEq.congr_right hmn] at hne
      rw [← connected_congr hmn, ← hops_congr hmn]
      exact h m hm hne

/-- **Callbacks.** `erase_direct` calls back for the nodes that lost their route exactly
when the handle is unbound, or its peer has no other route and is not the last connected
hop of another destination. The callbacks of `erase` are for nodes without a route exactly
when no hop of the destination has another route. -/
theorem callbacks_exact (t : RoutingTable) (hdl : ConnectionHandle) (dest : NodeId) :
    (t.EraseDirectExact hdl ↔ ∀ nid, t.directByHdl.find? hdl = some nid → t.LeafPeer nid) ∧
    (t.EraseOnlyLost dest ↔ t.HopsGone dest) := by
  refine ⟨?_, eraseOnlyLost_iff⟩
  cases hb : t.directByHdl.find? hdl with
  | none => exact iff_of_true (eraseDirectExact_of_unbound hb) fun nid h => by cases h
  | some nid =>
    rw [eraseDirectExact_of_bound hb]
    refine ⟨?_, fun h => h nid rfl⟩
    rintro h _ ⟨⟩
    exact h

open Sample in
/-- Node 3 is known over node 2 only. When the connection to node 2 is lost, there is no
callback for node 3; when node 3 is erased, there is one for node 2, which is connected. -/
theorem callbacks_inexact : ∃ t, Reachable (fun _ op => op.validHandle = true) t ∧
    ¬ t.EraseDirectExact (conn 7) ∧ ¬ t.EraseOnlyLost (node 3) := by
  let t := ((empty Sample.order).apply (.addDirect (conn 7) (node 2))).apply
    (.addIndirect (node 2) (node 3))
  have hreach : Reachable (fun _ op => op.validHandle = true) t :=
    .step (.step (.init ⟨Sample.order, rfl⟩) (by decide) rfl) (by decide) rfl
  refine ⟨t, hreach, fun h => ?_, fun h => ?_⟩
  · have hlost : lost t (t.eraseDirect (conn 7)).2 (node 3) :=
      ⟨by decide +kernel, by decide +kernel⟩
    obtain ⟨m, hm, heq⟩ := (h (node 3)).mpr hlost
    have hcalls : (t.eraseDirect (conn 7)).1 = [node 2] := by decide +kernel
    rw [hcalls, List.mem_singleton] at hm
    subst hm
    exact absurd heq (by decide +kernel)
  · have hcalls : (t.erase (node 3)).1 = [node 3, node 2] := by decide +kernel
    have hnone := h (node 2) ⟨node 2, by rw [hcalls]; simp, BEq.rfl⟩
    exact absurd hnone (by decide +kernel)

end RoutingTable

end BoostActor
