import BoostActor.Io.Blacklist

/-!
# Lookups

`routing_table::lookup` as the source has it: a query whose loop erases the hops
without a connection that it comes across.

* `pickHop`, `RoutingTable.lookup` — the loop over the hops, and the function;
* `lookup_eq` — they compute the `route?` and the `prune` of `Io/RoutingTable.lean`;
* `lookup_correct` — which route is found, what is erased, and that no later lookup
  notices.

`after_lookup` is the same for the broker's program, in which the buffer of the
route's connection is looked up as well.
-/

namespace BoostActor

open Lib

namespace RoutingTable

variable {t : RoutingTable} {target hop dest : NodeId}

-- -------------------------
-- The function
-- -------------------------

/-- The loop of `lookup`: the route over the first hop with a connection, and the
hops that are left. -/
def pickHop (t : RoutingTable) : List NodeId → Option Route × List NodeId
  | [] => (none, [])
  | hop :: hops =>
    let hdl := t.lookupDirect hop
    if hdl ≠ ConnectionHandle.invalid then (some ⟨hop, hdl⟩, hop :: hops) else t.pickHop hops

/-- `lookup(target)`: the route, and the table afterwards. -/
def lookup (t : RoutingTable) (target : NodeId) : Option Route × RoutingTable :=
  let hdl := t.lookupDirect target
  if hdl ≠ ConnectionHandle.invalid then (some ⟨target, hdl⟩, t)
  else
    match t.indirect.find? target with
    | none => (none, t)
    | some hops =>
      let (path, hops) := t.pickHop hops
      (path, { t with indirect := t.indirect.adjust target fun _ => hops })

-- -------------------------
-- What it computes
-- -------------------------

/-- The loop stops at the first live hop. -/
theorem pickHop_eq (hops : List NodeId) : t.pickHop hops =
    ((hops.find? t.connected).map fun hop => ⟨hop, t.lookupDirect hop⟩,
      hops.dropWhile (!t.connected ·)) := by
  induction hops with
  | nil => rfl
  | cons hop hops ih =>
    rw [pickHop]
    by_cases hc : t.connected hop = true
    · have hv : t.lookupDirect hop ≠ ConnectionHandle.invalid := by simpa [connected] using hc
      rw [if_pos hv, List.find?_cons_of_pos hc, List.dropWhile_cons_of_neg (by simp [hc])]
      rfl
    · have hv : ¬ t.lookupDirect hop ≠ ConnectionHandle.invalid := by simpa [connected] using hc
      rw [if_neg hv, ih, List.find?_cons_of_neg hc, List.dropWhile_cons_of_pos (by simpa using hc)]

/-- `lookup` returns `route?` and leaves the pruned table. -/
theorem lookup_eq (t : RoutingTable) (target : NodeId) :
    t.lookup target = (t.route? target, t.prune target) := by
  unfold lookup route? prune
  by_cases hc : t.connected target = true
  · have hv : t.lookupDirect target ≠ ConnectionHandle.invalid := by simpa [connected] using hc
    rw [if_pos hc, if_pos hc]
    exact if_pos hv
  · have hv : ¬ t.lookupDirect target ≠ ConnectionHandle.invalid := by simpa [connected] using hc
    rw [if_neg hc, if_neg hc]
    refine (if_neg hv).trans ?_
    cases hf : t.indirect.find? target with
    | none => simp [hops, hf, UMap.adjust_of_none hf]
    | some hs =>
      have hadj := UMap.adjust_congr (f := fun _ => hs.dropWhile (!t.connected ·))
        (g := fun hops => hops.dropWhile (!t.connected ·)) hf rfl
      simp only [pickHop_eq, hops, hf, Option.getD_some, hadj]

/-- The hops that a lookup erases stand in front of the others and are dead. -/
theorem hops_prune_dead (t : RoutingTable) (target dest : NodeId) : ∃ dead,
    t.hops dest = dead ++ (t.prune target).hops dest ∧ ∀ h ∈ dead, t.connected h = false := by
  rw [hops_prune]
  split
  · refine ⟨(t.hops dest).takeWhile (!t.connected ·), List.takeWhile_append_dropWhile.symm, ?_⟩
    intro h hmem
    simpa using List.all_eq_true.mp List.all_takeWhile h hmem
  · exact ⟨[], rfl, fun _ hmem => absurd hmem (List.not_mem_nil)⟩

/-- Pruning keeps the keys of the indirect routes. -/
@[simp] theorem contains_prune (t : RoutingTable) (target dest : NodeId) :
    (t.prune target).indirect.contains dest = t.indirect.contains dest := by
  unfold prune
  split
  · rfl
  · exact UMap.contains_adjust _ _ _ _

/-- Without a connection of its own, a destination is reached over its first live hop. -/
theorem route?_first (hc : t.connected target = false) {dead rest : List NodeId}
    (hops : t.hops target = dead ++ hop :: rest) (hdead : ∀ h ∈ dead, t.connected h = false)
    (hlive : t.connected hop = true) : t.route? target = some ⟨hop, t.lookupDirect hop⟩ := by
  have hfind : dead.find? t.connected = none := by
    rw [List.find?_eq_none]
    intro h hmem
    simp [hdead h hmem]
  rw [route?, if_neg (by simp [hc]), hops, List.find?_append, hfind, Option.none_or,
    List.find?_cons_of_pos hlive]
  rfl

/-- There is no route exactly if neither the node nor any of its hops is connected. -/
theorem route?_eq_none : t.route? target = none ↔
    t.connected target = false ∧ ∀ hop ∈ t.hops target, t.connected hop = false := by
  rw [← Option.not_isSome_iff_eq_none, route?_isSome_iff]
  simp

end RoutingTable

-- -------------------------
-- The program
-- -------------------------

/-- The broker's `lookup` does the table's. It throws only when the connection of the
route has been closed. -/
theorem after_lookup (s : Broker) (target : NodeId) :
    let res := s.tbl.lookup target
    After (BoostActor.lookup target) s (fun path s' => path = res.1 ∧ s' = { s with tbl := res.2 })
      fun _ s' => s' = { s with tbl := res.2 } ∧
        ∃ r, res.1 = some r ∧ s.scribes.find? r.hdl = none := by
  rw [RoutingTable.lookup_eq]
  refine after_bind.mpr (after_get.mpr (after_bind.mpr (after_modify.mpr ?_)))
  cases hr : s.tbl.route? target with
  | none => exact ⟨rfl, rfl⟩
  | some r =>
    refine after_bind.mpr (after_bind.mpr (after_get.mpr ?_))
    dsimp only
    cases hf : s.scribes.find? r.hdl with
    | none => exact ⟨rfl, r, rfl, hf⟩
    | some c => exact ⟨rfl, rfl⟩

-- -------------------------
-- Correctness
-- -------------------------

namespace RoutingTable

/-- **Lookups.** A connection of the target itself is preferred; otherwise its first hop
in iteration order that has a connection is taken, with that connection; otherwise there
is no route. In a table whose direct maps are inverse, the handle is bound to the next
hop. What is erased are hops without a connection, so that every lookup afterwards
returns what it would have returned before. -/
theorem lookup_correct (t : RoutingTable) (target : NodeId) :
    (t.connected target = true →
      (t.lookup target).1 = some ⟨target, t.lookupDirect target⟩) ∧
    (t.connected target = false → ∀ dead hop rest, t.hops target = dead ++ hop :: rest →
      (∀ h ∈ dead, t.connected h = false) → t.connected hop = true →
        (t.lookup target).1 = some ⟨hop, t.lookupDirect hop⟩) ∧
    ((t.lookup target).1 = none ↔
      t.connected target = false ∧ ∀ hop ∈ t.hops target, t.connected hop = false) ∧
    (t.Inverse → ∀ r, (t.lookup target).1 = some r →
      ∃ n, t.directByHdl.find? r.hdl = some n ∧ (n == r.nextHop) = true) ∧
    (∀ dest, ∃ dead, t.hops dest = dead ++ (t.lookup target).2.hops dest ∧
      ∀ h ∈ dead, t.connected h = false) ∧
    ((t.lookup target).2.directByHdl = t.directByHdl ∧
      (t.lookup target).2.directByNid = t.directByNid ∧
      (t.lookup target).2.blacklist = t.blacklist ∧
      ∀ dest, (t.lookup target).2.indirect.contains dest = t.indirect.contains dest) ∧
    ∀ m, ((t.lookup target).2.lookup m).1 = (t.lookup m).1 := by
  simp only [lookup_eq]
  refine ⟨fun hc => ?_, fun hc dead hop rest => route?_first hc, route?_eq_none, ?_,
    hops_prune_dead t target, by simp, fun m => route?_prune t target m⟩
  · rw [route?, if_pos hc]
  · intro hinv r hr
    obtain ⟨hc, hhdl⟩ := route?_direct hr
    obtain ⟨hdl, hf, -⟩ := connected_iff.mp hc
    have hld : t.lookupDirect r.nextHop = hdl := by rw [lookupDirect, hf]; rfl
    rw [hhdl, hld]
    exact (hinv hdl r.nextHop).mpr hf

end RoutingTable

end BoostActor
