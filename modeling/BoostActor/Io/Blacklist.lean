import BoostActor.Io.Wiring

/-!
# Blacklisted routes

The routing table on its own, under any sequence of its operations: a pair of hop
and destination that has been blacklisted is not used again.

* `apply`, `run` — the operations of `routing_table` as one type;
* `Banned` — the pair is blacklisted and the hop is not among the hops;
* `blacklisted_unused` — it stays so, and lookups do not return the hop.

The broker's programs change its table by these operations only: `eraseDirect_apply`,
`eraseRoutes_apply`, `addIndirect_apply`.
-/

namespace BoostActor

open Lib

/-- An operation of `routing_table`. -/
inductive TableOp where
  | addDirect (hdl : ConnectionHandle) (nid : NodeId)
  | addIndirect (hop dest : NodeId)
  | eraseDirect (hdl : ConnectionHandle)
  | eraseIndirect (dest : NodeId)
  | erase (dest : NodeId)
  | lookup (target : NodeId)
  | blacklist (hop dest : NodeId)

namespace RoutingTable

-- -------------------------
-- Operations
-- -------------------------

/-- The table after an operation. -/
def apply (t : RoutingTable) : TableOp → RoutingTable
  | .addDirect hdl nid => t.addDirect hdl nid
  | .addIndirect hop dest => if t.blacklisted hop dest then t else t.addHop hop dest
  | .eraseDirect hdl =>
    match t.directByHdl.find? hdl with
    | none => t
    | some nid => t.removeDirect hdl nid
  | .eraseIndirect dest => t.removeIndirect dest
  | .erase dest =>
    let t := t.removeIndirect dest
    let hdl := t.lookupDirect dest
    if hdl = ConnectionHandle.invalid then t else t.removeDirect hdl dest
  | .lookup target => t.prune target
  | .blacklist hop dest => t.addBlacklist hop dest

/-- The table after a sequence of operations. -/
def run (t : RoutingTable) (ops : List TableOp) : RoutingTable := ops.foldl apply t

-- -------------------------
-- Blacklisted pairs
-- -------------------------

/-- The pair is blacklisted, and the hop is not among those of the destination. -/
structure Banned (hop dest : NodeId) (t : RoutingTable) : Prop where
  listed : t.blacklisted hop dest = true
  absent : ∀ h ∈ t.hops dest, (h == hop) = false

variable {t : RoutingTable} {hop dest : NodeId}

/-- The set of an entry after an insertion. -/
theorem any_insert (order : HopOrder) (xs : List NodeId) (x y : NodeId) :
    (if xs.any (· == x) then xs else order.arrange (x :: xs)).any (· == y) =
      (xs.any (· == y) || x == y) := by
  split
  · next hany =>
    rw [List.any_eq_true] at hany
    obtain ⟨z, hz, hzx⟩ := hany
    cases hxy : x == y with
    | false => simp
    | true =>
      have hmem : xs.any (· == y) = true := List.any_eq_true.mpr ⟨z, hz, BEq.trans hzx hxy⟩
      simp [hmem]
  · rw [(order.perm _).any_eq, List.any_cons, Bool.or_comm]

/-- Blacklisting a pair lists it, and unlists none. -/
theorem blacklisted_addBlacklist (hop' dest' : NodeId) :
    (t.addBlacklist hop dest).blacklisted hop' dest' =
      (t.blacklisted hop' dest' || (dest == dest') && (hop == hop')) := by
  have hset : (t.addBlacklist hop dest).blacklist = t.blacklist.set dest
      (if ((t.blacklist.find? dest).getD []).any (· == hop) then (t.blacklist.find? dest).getD []
        else t.order.arrange (hop :: (t.blacklist.find? dest).getD [])) := by
    unfold addBlacklist
    dsimp only
    split
    · rfl
    · split <;> rfl
  rw [blacklisted, hset, UMap.find?_set, blacklisted]
  by_cases hd : (dest == dest') = true
  · rw [if_pos hd, Option.getD_some, any_insert, UMap.find?_congr _ hd, hd, Bool.true_and]
  · rw [if_neg hd, Bool.not_eq_true] at *
    simp [hd]

/-- The hops after a pair was blacklisted. -/
theorem hops_addBlacklist (dest' : NodeId) : (t.addBlacklist hop dest).hops dest' =
    if (dest == dest') = true then (t.hops dest').filter fun h => !(h == hop)
    else t.hops dest' := by
  -- ids with one key have the same hops, so only the pair's destination changes
  have hcongr : (dest == dest') = true → t.indirect.find? dest = t.indirect.find? dest' :=
    fun hd => UMap.find?_congr _ hd
  unfold addBlacklist
  dsimp only
  split
  · next hnone =>
    show (t.indirect.find? dest').getD [] = _
    by_cases hd : (dest == dest') = true
    · rw [if_pos hd, hops, ← hcongr hd, hnone]
      rfl
    · rw [if_neg hd, hops]
  · next hs hsome =>
    by_cases hd : (dest == dest') = true
    · have hfind : t.hops dest' = hs := by rw [hops, ← hcongr hd, hsome]; rfl
      rw [if_pos hd, hfind]
      split
      · next hempty =>
        show ((t.indirect.erase dest).find? dest').getD [] = _
        rw [UMap.find?_erase, if_pos hd, List.isEmpty_iff.mp hempty]
        rfl
      · show ((t.indirect.set dest _).find? dest').getD [] = _
        rw [UMap.find?_set, if_pos hd]
        rfl
    · rw [if_neg hd]
      split
      · show ((t.indirect.erase dest).find? dest').getD [] = _
        rw [UMap.find?_erase, if_neg hd, hops]
      · show ((t.indirect.set dest _).find? dest').getD [] = _
        rw [UMap.find?_set, if_neg hd, hops]

/-- Blacklisting takes effect at once. -/
theorem banned_addBlacklist : Banned hop dest (t.addBlacklist hop dest) := by
  refine ⟨by simp [blacklisted_addBlacklist], fun h hmem => ?_⟩
  rw [hops_addBlacklist, if_pos BEq.rfl, List.mem_filter] at hmem
  simpa using hmem.2

namespace Banned

/-- Losing hops keeps the pair banned. -/
theorem of_subset {t' : RoutingTable} (h : Banned hop dest t) (hb : t'.blacklist = t.blacklist)
    (hh : t'.hops dest ⊆ t.hops dest) : Banned hop dest t' := by
  refine ⟨?_, fun x hx => h.absent x (hh hx)⟩
  rw [blacklisted, hb]
  exact h.listed

/-- Removing the hops to a destination keeps a pair banned. -/
theorem removeIndirect (h : Banned hop dest t) (dest' : NodeId) :
    Banned hop dest (t.removeIndirect dest') := by
  refine h.of_subset rfl ?_
  show ((t.indirect.erase dest').find? dest).getD [] ⊆ _
  rw [UMap.find?_erase]
  split
  · exact List.nil_subset _
  · exact List.Subset.refl _

/-- A blacklisted hop is not inserted; inserting another one does not matter. -/
theorem addIndirect (h : Banned hop dest t) (hop' dest' : NodeId) :
    Banned hop dest (t.apply (.addIndirect hop' dest')) := by
  unfold apply
  dsimp only
  split
  · exact h
  · next hnot =>
    refine ⟨h.listed, fun x hx => ?_⟩
    rcases mem_hops_addHop.mp hx with hx | ⟨hd, rfl, -⟩
    · exact h.absent x hx
    · -- a hop equal to the banned one would be blacklisted as well
      cases he : x == hop with
      | false => rfl
      | true =>
        refine absurd ?_ hnot
        have hl := h.listed
        rw [blacklisted] at hl ⊢
        rw [UMap.find?_congr _ hd]
        rw [List.any_eq_true] at hl ⊢
        obtain ⟨y, hy, hyh⟩ := hl
        exact ⟨y, hy, BEq.trans hyh (BEq.symm he)⟩

/-- Blacklisting another pair keeps a pair banned. -/
theorem addBlacklist (h : Banned hop dest t) (hop' dest' : NodeId) :
    Banned hop dest (t.addBlacklist hop' dest') := by
  refine ⟨by rw [blacklisted_addBlacklist, h.listed, Bool.true_or], fun x hx => h.absent x ?_⟩
  rw [hops_addBlacklist] at hx
  split at hx
  · exact (List.mem_filter.mp hx).1
  · exact hx

/-- No operation lifts a ban. -/
theorem apply (h : Banned hop dest t) (op : TableOp) : Banned hop dest (t.apply op) := by
  cases op with
  | addDirect => exact h.of_subset rfl (List.Subset.refl _)
  | addIndirect hop' dest' => exact h.addIndirect hop' dest'
  | eraseDirect =>
    unfold RoutingTable.apply
    dsimp only
    split
    · exact h
    · exact h.of_subset rfl (List.Subset.refl _)
  | eraseIndirect dest' => exact h.removeIndirect dest'
  | erase dest' =>
    unfold RoutingTable.apply
    dsimp only
    split
    · exact h.removeIndirect dest'
    · exact (h.removeIndirect dest').of_subset rfl (List.Subset.refl _)
  -- a lookup drops hops that are not connected
  | lookup target =>
    refine h.of_subset (prune_blacklist t target) ?_
    show (t.prune target).hops dest ⊆ _
    rw [hops_prune]
    split
    · exact (List.dropWhile_sublist _).subset
    · exact List.Subset.refl _
  | blacklist hop' dest' => exact h.addBlacklist hop' dest'

theorem run (h : Banned hop dest t) (ops : List TableOp) : Banned hop dest (t.run ops) := by
  induction ops generalizing t with
  | nil => exact h
  | cons op ops ih => exact ih (h.apply op)

end Banned

/-- **Blacklisting.** Whatever operations follow, the hop is not among those of the
destination, and a lookup returns it only for a destination that is connected itself. -/
theorem blacklisted_unused (before after : List TableOp) (order : HopOrder) (hop dest : NodeId) :
    let t := ((empty order).run before).apply (.blacklist hop dest) |>.run after
    (∀ h ∈ t.hops dest, (h == hop) = false) ∧
      ∀ r, t.route? dest = some r → (r.nextHop == hop) = true →
        (hop == dest) = true ∧ t.connected dest = true := by
  intro t
  have hban : Banned hop dest t := banned_addBlacklist.run after
  refine ⟨hban.absent, fun r hr hhop => ?_⟩
  rcases route?_nextHop hr with hd | ⟨-, hmem⟩
  · refine ⟨by rw [← hd]; exact BEq.symm hhop, ?_⟩
    rw [← hd]
    exact (route?_direct hr).1
  · rw [hban.absent _ hmem] at hhop
    cases hhop

end RoutingTable

-- -------------------------
-- The table of a broker
-- -------------------------

namespace Broker

variable {s : Broker}

/-- Purging contexts and proxies does not touch the table. -/
theorem eraseDirect_apply (hdl : ConnectionHandle) :
    (s.eraseDirect hdl).tbl = s.tbl.apply (.eraseDirect hdl) := by
  unfold eraseDirect RoutingTable.apply
  dsimp only
  cases s.tbl.directByHdl.find? hdl with
  | none => rfl
  | some nid =>
    show RoutingTable.removeDirect (s.purgeState nid).tbl hdl nid = _
    rw [(purgeState_tbl nid).1]

/-- Erasing the routes to a node is the operation of the table. -/
theorem eraseRoutes_apply (dest : NodeId) :
    (s.eraseRoutes dest).tbl = s.tbl.apply (.erase dest) :=
  eraseRoutes_tbl dest

/-- Learning an indirect route is the operation of the table. -/
theorem addIndirect_apply (hop dest : NodeId) :
    (final (BoostActor.addIndirect hop dest) s).tbl = s.tbl.apply (.addIndirect hop dest) := by
  show (final (if s.tbl.blacklisted hop dest then pure false else _) s).tbl = _
  unfold RoutingTable.apply
  dsimp only
  split
  · rfl
  · rfl

/-- A lookup prunes the table, whether or not the route is open. -/
theorem lookup_apply (target : NodeId) :
    (final (BoostActor.lookup target) s).tbl = s.tbl.apply (.lookup target) := by
  have hbyId : ∀ (s' : Broker) (r : Route), After (byId r.hdl >>= fun _ => pure (some r)) s'
      (fun _ s'' => s''.tbl = s'.tbl) fun _ s'' => s''.tbl = s'.tbl := by
    intro s' r
    refine after_bind.mpr (after_bind.mpr (after_get.mpr ?_))
    cases s'.scribes.find? r.hdl with
    | none => rfl
    | some c => rfl
  suffices hafter : After (BoostActor.lookup target) s (fun _ s' => s'.tbl = s.tbl.prune target)
      fun _ s' => s'.tbl = s.tbl.prune target from
    (after_final (P := fun s' : Broker => s'.tbl = s.tbl.prune target)).mp hafter
  refine after_bind.mpr (after_get.mpr (after_bind.mpr (after_modify.mpr ?_)))
  cases s.tbl.route? target with
  | none => rfl
  | some r => exact hbyId { s with tbl := s.tbl.prune target } r

end Broker

end BoostActor
