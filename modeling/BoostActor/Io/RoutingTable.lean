import BoostActor.Lib.UnorderedMap
import BoostActor.Io.Header

/-!
# The routing table

`basp::routing_table`: direct routes, kept in two maps (by handle and by node),
indirect routes (destination to a set of hops) and a blacklist. This module has
the data and the operations on it; the hooks and callbacks that the operations
run are added in `Io/Instance.lean`.

The hops of a destination are an unordered set, of which `lookup` takes the
first in iteration order. That order is up to the standard library and may
change with every insertion, so the table carries it as a parameter `HopOrder`.

* `route?_direct`, `route?_nextHop`, `route?_isSome_iff` — the route that a lookup
  finds, and when it finds one;
* `route?_prune` — dropping dead hops on the way does not change it.
-/

namespace BoostActor

open Lib

/-- `connection_handle`: the descriptor of a socket. -/
structure ConnectionHandle where
  id : Int
deriving DecidableEq, Repr

/-- `invalid_connection_handle`. -/
def ConnectionHandle.invalid : ConnectionHandle := ⟨-1⟩

/-- How an `unordered_set` of node ids is arranged after an insertion. -/
structure HopOrder where
  arrange : List NodeId → List NodeId
  perm : ∀ hops, (arrange hops).Perm hops

/-- `basp::routing_table`. The hops of a destination stand in iteration order. -/
structure RoutingTable where
  order : HopOrder
  directByHdl : UMap ConnectionHandle NodeId
  directByNid : UMap NodeId ConnectionHandle
  indirect : UMap NodeId (List NodeId)
  blacklist : UMap NodeId (List NodeId)

/-- `routing_table::route`; its `wr_buf` is the buffer of the scribe of `hdl`. -/
structure Route where
  nextHop : NodeId
  hdl : ConnectionHandle
deriving DecidableEq, Repr

namespace RoutingTable

/-- A new table. -/
def empty (order : HopOrder) : RoutingTable :=
  ⟨order, UMap.empty, UMap.empty, UMap.empty, UMap.empty⟩

/-- `lookup_direct(hdl)`. -/
def lookupNode (t : RoutingTable) (hdl : ConnectionHandle) : NodeId :=
  (t.directByHdl.find? hdl).getD NodeId.invalid

/-- `lookup_direct(nid)`. -/
def lookupDirect (t : RoutingTable) (nid : NodeId) : ConnectionHandle :=
  (t.directByNid.find? nid).getD ConnectionHandle.invalid

/-- `lookup_direct(nid) != invalid_connection_handle`. -/
def connected (t : RoutingTable) (nid : NodeId) : Bool :=
  t.lookupDirect nid ≠ ConnectionHandle.invalid

/-- The hops of a destination. -/
def hops (t : RoutingTable) (dest : NodeId) : List NodeId := (t.indirect.find? dest).getD []

/-- `lookup_indirect(nid)`. -/
def lookupIndirect (t : RoutingTable) (nid : NodeId) : NodeId :=
  (t.hops nid).headD NodeId.invalid

/-- `lookup(target)` without the pruning of dead hops. -/
def route? (t : RoutingTable) (target : NodeId) : Option Route :=
  if t.connected target then some ⟨target, t.lookupDirect target⟩
  else ((t.hops target).find? t.connected).map fun hop => ⟨hop, t.lookupDirect hop⟩

/-- The pruning that `lookup(target)` does: hops without a connection are dropped
up to the first live one. -/
def prune (t : RoutingTable) (target : NodeId) : RoutingTable :=
  if t.connected target then t
  else { t with indirect := t.indirect.adjust target fun hops => hops.dropWhile (!t.connected ·) }

/-- `blacklist(hop, dest)`. -/
def addBlacklist (t : RoutingTable) (hop dest : NodeId) : RoutingTable :=
  let listed := (t.blacklist.find? dest).getD []
  let t := { t with
    blacklist := t.blacklist.set dest
      (if listed.any (· == hop) then listed else t.order.arrange (hop :: listed)) }
  match t.indirect.find? dest with
  | none => t
  | some hops =>
    let hops := hops.filter fun h => !(h == hop)
    if hops.isEmpty then { t with indirect := t.indirect.erase dest }
    else { t with indirect := t.indirect.set dest hops }

/-- The pair `(hop, dest)` is blacklisted. -/
def blacklisted (t : RoutingTable) (hop dest : NodeId) : Bool :=
  ((t.blacklist.find? dest).getD []).any (· == hop)

/-- The two insertions of `add_direct(hdl, nid)`. -/
def addDirect (t : RoutingTable) (hdl : ConnectionHandle) (nid : NodeId) : RoutingTable :=
  { t with
    directByHdl := t.directByHdl.emplace hdl nid
    directByNid := t.directByNid.emplace nid hdl }

/-- The two erasures of `erase_direct` and `erase`. -/
def removeDirect (t : RoutingTable) (hdl : ConnectionHandle) (nid : NodeId) : RoutingTable :=
  { t with directByHdl := t.directByHdl.erase hdl, directByNid := t.directByNid.erase nid }

/-- The erasure of `erase_indirect(dest)`. -/
def removeIndirect (t : RoutingTable) (dest : NodeId) : RoutingTable :=
  { t with indirect := t.indirect.erase dest }

/-- The insertion of `add_indirect(hop, dest)`, for a pair that is not blacklisted. -/
def addHop (t : RoutingTable) (hop dest : NodeId) : RoutingTable :=
  let hops := t.hops dest
  { t with
    indirect := t.indirect.set dest
      (if hops.any (· == hop) then hops else t.order.arrange (hop :: hops)) }

/-- `reachable(dest)`. -/
def reachable (t : RoutingTable) (dest : NodeId) : Bool :=
  t.directByNid.contains dest || t.indirect.contains dest

/-! ## Routes -/

section

variable {t : RoutingTable} {target hop dest : NodeId}

/-- A node is connected if its direct entry has a valid handle. -/
theorem connected_iff : t.connected target = true ↔
    ∃ hdl, t.directByNid.find? target = some hdl ∧ hdl ≠ ConnectionHandle.invalid := by
  rw [connected, lookupDirect, decide_eq_true_iff]
  cases t.directByNid.find? target with
  | none => simp
  | some hdl => simp

theorem not_connected_of_none (h : t.directByNid.find? target = none) :
    t.connected target = false := by
  simp [connected, lookupDirect, h]

/-- Nodes with one key have the same direct connection. -/
theorem lookupDirect_congr {a b : NodeId} (h : (a == b) = true) :
    t.lookupDirect a = t.lookupDirect b := by
  rw [lookupDirect, lookupDirect, UMap.find?_congr _ h]

theorem connected_congr {a b : NodeId} (h : (a == b) = true) : t.connected a = t.connected b := by
  rw [connected, connected, lookupDirect_congr h]

/-- Whatever route there is, it goes over a direct connection to its next hop. -/
theorem route?_direct {r : Route} (h : t.route? target = some r) :
    t.connected r.nextHop = true ∧ r.hdl = t.lookupDirect r.nextHop := by
  unfold route? at h
  split at h
  · next hc =>
    cases h
    exact ⟨hc, rfl⟩
  · rw [Option.map_eq_some_iff] at h
    obtain ⟨hop, hfind, rfl⟩ := h
    exact ⟨List.find?_some hfind, rfl⟩

/-- The next hop is the target itself or one of its hops. -/
theorem route?_nextHop {r : Route} (h : t.route? target = some r) :
    r.nextHop = target ∨ t.connected target = false ∧ r.nextHop ∈ t.hops target := by
  unfold route? at h
  split at h
  · cases h
    exact Or.inl rfl
  · next hc =>
    rw [Option.map_eq_some_iff] at h
    obtain ⟨hop, hfind, rfl⟩ := h
    exact Or.inr ⟨by simpa using hc, List.mem_of_find?_eq_some hfind⟩

/-- A node has a route if it is connected or one of its hops is. -/
theorem route?_isSome_iff : (t.route? target).isSome = true ↔
    t.connected target = true ∨ ∃ hop ∈ t.hops target, t.connected hop = true := by
  unfold route?
  split
  · next hc => simp [hc]
  · next hc =>
    rw [Option.isSome_map, List.find?_isSome]
    simp [hc]

/-- The hops after an insertion. -/
theorem mem_hops_addHop {nid h : NodeId} : h ∈ (t.addHop hop dest).hops nid ↔
    h ∈ t.hops nid ∨ (dest == nid) = true ∧ h = hop ∧ (t.hops nid).any (· == hop) = false := by
  show h ∈ ((t.indirect.set dest _).find? nid).getD [] ↔ _
  rw [UMap.find?_set]
  by_cases hk : (dest == nid) = true
  · have hh : t.hops dest = t.hops nid := by rw [hops, hops, UMap.find?_congr _ hk]
    rw [if_pos hk, Option.getD_some, hh]
    split
    · next hany => simp [hany]
    · next hany =>
      rw [Bool.not_eq_true] at hany
      rw [(t.order.perm _).mem_iff, List.mem_cons, or_comm]
      simp [hk, hany]
  · rw [if_neg hk]
    simp [hops, hk]

/-- A connected hop is a route. -/
theorem route?_addHop (h : t.connected hop = true) {nid : NodeId} (hd : (dest == nid) = true) :
    ((t.addHop hop dest).route? nid).isSome = true := by
  rw [route?_isSome_iff]
  right
  have hc : (t.addHop hop dest).connected = t.connected := rfl
  cases hany : (t.hops nid).any (· == hop) with
  | false => exact ⟨hop, mem_hops_addHop.mpr (Or.inr ⟨hd, rfl, hany⟩), by rw [hc, h]⟩
  | true =>
    obtain ⟨h', hmem, heq⟩ := List.any_eq_true.mp hany
    exact ⟨h', mem_hops_addHop.mpr (Or.inl hmem), by rw [hc, connected_congr heq, h]⟩

/-- A route stays when hops are added. -/
theorem route?_isSome_addHop {nid : NodeId} (h : (t.route? nid).isSome = true) :
    ((t.addHop hop dest).route? nid).isSome = true := by
  rw [route?_isSome_iff] at h ⊢
  rcases h with hc | ⟨h', hmem, hc⟩
  · exact Or.inl hc
  · exact Or.inr ⟨h', mem_hops_addHop.mpr (Or.inl hmem), hc⟩

theorem route?_isSome_congr {a b : NodeId} (h : (a == b) = true) :
    (t.route? a).isSome = (t.route? b).isSome := by
  have hh : t.hops a = t.hops b := by rw [hops, hops, UMap.find?_congr _ h]
  rw [Bool.eq_iff_iff, route?_isSome_iff, route?_isSome_iff, connected_congr h, hh]

end

/-! ## Pruning -/

section

variable (t : RoutingTable) (target : NodeId)

@[simp] theorem prune_directByHdl : (t.prune target).directByHdl = t.directByHdl := by
  unfold prune
  split <;> rfl

@[simp] theorem prune_directByNid : (t.prune target).directByNid = t.directByNid := by
  unfold prune
  split <;> rfl

@[simp] theorem prune_order : (t.prune target).order = t.order := by
  unfold prune
  split <;> rfl

@[simp] theorem prune_blacklist : (t.prune target).blacklist = t.blacklist := by
  unfold prune
  split <;> rfl

@[simp] theorem connected_prune (nid : NodeId) :
    (t.prune target).connected nid = t.connected nid := by
  rw [connected, connected, lookupDirect, lookupDirect, prune_directByNid]

/-- The hops that are left after pruning. -/
theorem hops_prune (dest : NodeId) : (t.prune target).hops dest =
    if t.connected target = false ∧ (target == dest) = true then
      (t.hops dest).dropWhile (!t.connected ·)
    else t.hops dest := by
  unfold prune
  split
  · next hc => simp [hc]
  · next hc =>
    rw [hops, UMap.find?_adjust]
    by_cases hk : (target == dest) = true
    · rw [if_pos hk, if_pos ⟨by simpa using hc, hk⟩, hops]
      cases t.indirect.find? dest <;> rfl
    · rw [if_neg hk, if_neg (fun h => hk h.2), hops]

/-- The first element found is not dropped before. -/
theorem find?_dropWhile {α : Type} (p : α → Bool) (xs : List α) :
    (xs.dropWhile (!p ·)).find? p = xs.find? p := by
  induction xs with
  | nil => rfl
  | cons x xs ih =>
    by_cases hx : p x = true
    · simp [hx]
    · simp [hx, ih]

/-- Pruning does not change which route is taken. -/
@[simp] theorem route?_prune (dest : NodeId) : (t.prune target).route? dest = t.route? dest := by
  have hld : ∀ n, (t.prune target).lookupDirect n = t.lookupDirect n := by
    intro n
    rw [lookupDirect, lookupDirect, prune_directByNid]
  have hfun : (t.prune target).connected = t.connected := by
    funext n
    exact connected_prune t target n
  unfold route?
  rw [hfun, hops_prune]
  simp only [hld]
  split
  · rfl
  · split
    · rw [find?_dropWhile]
    · rfl

end

/-! ## The two direct maps -/

/-- `direct_by_hdl_[h] = n` iff `direct_by_nid_[n] = h`. -/
def Inverse (t : RoutingTable) : Prop :=
  ∀ hdl nid, (∃ n, t.directByHdl.find? hdl = some n ∧ (n == nid) = true) ↔
    t.directByNid.find? nid = some hdl

/-- The maps are inverse, and no node is bound to the invalid handle. -/
structure Sound (t : RoutingTable) : Prop where
  inverse : t.Inverse
  valid : t.directByHdl.find? ConnectionHandle.invalid = none

theorem sound_empty (order : HopOrder) : (empty order).Sound := by
  refine ⟨fun hdl nid => ?_, rfl⟩
  simp [empty]

namespace Sound

variable {t : RoutingTable} {hdl : ConnectionHandle} {nid : NodeId}

/-- The two direct maps decide about soundness. -/
theorem congr {t' : RoutingTable} (h : t.Sound) (hh : t'.directByHdl = t.directByHdl)
    (hn : t'.directByNid = t.directByNid) : t'.Sound := by
  refine ⟨fun hdl nid => ?_, by rw [hh, h.valid]⟩
  rw [hh, hn]
  exact h.inverse hdl nid

/-- In a sound table the node of a handle leads back to the handle. -/
theorem lookup (h : t.Sound) (hb : t.directByHdl.find? hdl = some nid) :
    t.directByNid.find? nid = some hdl :=
  (h.inverse hdl nid).mp ⟨nid, hb, BEq.rfl⟩

/-- A node has a connection iff it has an entry. -/
theorem connected_iff (h : t.Sound) :
    t.connected nid = true ↔ ∃ hdl, t.directByNid.find? nid = some hdl := by
  rw [RoutingTable.connected_iff]
  refine ⟨fun ⟨hdl, hf, _⟩ => ⟨hdl, hf⟩, fun ⟨hdl, hf⟩ => ⟨hdl, hf, ?_⟩⟩
  rintro rfl
  obtain ⟨n, hb, -⟩ := (h.inverse _ _).mpr hf
  rw [h.valid] at hb
  cases hb

/-- In a sound table a node that is not connected has no entry. -/
theorem find?_of_not_connected (h : t.Sound) (hc : t.connected nid = false) :
    t.directByNid.find? nid = none := by
  cases hf : t.directByNid.find? nid with
  | none => rfl
  | some hdl =>
    rw [h.connected_iff.mpr ⟨hdl, hf⟩] at hc
    cases hc

/-- Binding a free node to a free, valid handle keeps the table sound. -/
theorem addDirect (h : t.Sound) (hh : t.directByHdl.find? hdl = none)
    (hn : t.directByNid.find? nid = none) (hv : hdl ≠ ConnectionHandle.invalid) :
    (t.addDirect hdl nid).Sound := by
  refine ⟨fun hdl' nid' => ?_, ?_⟩
  · show (∃ n, (t.directByHdl.emplace hdl nid).find? hdl' = some n ∧ _) ↔
      (t.directByNid.emplace nid hdl).find? nid' = some hdl'
    rw [UMap.find?_emplace_of_none hh, UMap.find?_emplace_of_none hn]
    have hinv := h.inverse hdl' nid'
    by_cases hk : hdl = hdl'
    · subst hk
      by_cases hm : (nid == nid') = true
      · simp [hm]
      · -- nothing else was bound to the handle
        rw [hh] at hinv
        simpa [hm] using hinv
    · by_cases hm : (nid == nid') = true
      · -- the node had no other handle
        rw [← UMap.find?_congr _ hm, hn] at hinv
        simpa [hk, hm] using hinv
      · simpa [hk, hm] using hinv
  · show (t.directByHdl.emplace hdl nid).find? _ = none
    rw [UMap.find?_emplace_of_none hh, if_neg (by simpa using hv), h.valid]

/-- Removing a direct route keeps the table sound. -/
theorem removeDirect (h : t.Sound) (hb : t.directByNid.find? nid = some hdl) :
    (t.removeDirect hdl nid).Sound := by
  obtain ⟨m, hm, hmn⟩ := (h.inverse hdl nid).mpr hb
  refine ⟨fun hdl' nid' => ?_, ?_⟩
  · show (∃ n, (t.directByHdl.erase hdl).find? hdl' = some n ∧ _) ↔
      (t.directByNid.erase nid).find? nid' = some hdl'
    rw [UMap.find?_erase, UMap.find?_erase]
    have hinv := h.inverse hdl' nid'
    -- the handle that is erased, and the ids that share the key of the erased one
    by_cases hk : hdl = hdl'
    · subst hk
      by_cases hn : (nid == nid') = true
      · simp [hn]
      · have hne : (m == nid') = false := by
          rw [BEq.congr_left hmn]
          simpa using hn
        rw [hm] at hinv
        simpa [hn, hne] using hinv
    · by_cases hn : (nid == nid') = true
      · rw [← UMap.find?_congr _ hn, hb] at hinv
        simpa [hk, hn] using hinv
      · simpa [hk, hn] using hinv
  · show (t.directByHdl.erase hdl).find? _ = none
    rw [UMap.find?_erase]
    split
    · rfl
    · exact h.valid

end Sound

end RoutingTable

end BoostActor
