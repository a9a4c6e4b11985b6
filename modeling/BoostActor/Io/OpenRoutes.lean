import BoostActor.Io.Namespace
import BoostActor.Io.LocalActors

/-!
# Routes over open connections

Looking up a route and writing to it works if the route goes over an open connection, and
learning a node does nothing else that could fail.

* `Steady` — what stays the same while a node is learned;
* `OpenRoute` — the route to a node goes over an open connection;
* `OpenRoute.learnedNewNodeIndirectly` — then the node is learned without a fault.
-/

namespace BoostActor

open Lib

variable {s s' : Broker} {nid : NodeId} {hdl : ConnectionHandle}

-- -------------------------
-- What learning a node leaves alone
-- -------------------------

/-- Routes, connections and proxies are what they were. -/
structure Steady (s s' : Broker) : Prop where
  routes : s'.tbl.route? = s.tbl.route?
  opened : ∀ hdl, s'.scribes.contains hdl = s.scribes.contains hdl
  context : s'.context? = s.context?
  heap : s'.heap = s.heap
  process : s'.process = s.process

instance : Frame Steady where
  refl _ := ⟨rfl, fun _ => rfl, rfl, rfl, rfl⟩
  trans h h' := ⟨h'.routes.trans h.routes, fun hdl => (h'.opened hdl).trans (h.opened hdl),
    h'.context.trans h.context, h'.heap.trans h.heap, h'.process.trans h.process⟩

/-- A lookup prunes the table and answers with its route. -/
theorem steady_lookup (nid : NodeId) : Within Steady (lookup nid) s fun r s' =>
    s' = { s with tbl := s.tbl.prune nid } ∧ r = s.tbl.route? nid ∧
      ∀ path, r = some path → s.scribes.contains path.hdl = true := by
  have hprune : Steady s { s with tbl := s.tbl.prune nid } :=
    ⟨funext (RoutingTable.route?_prune _ _), fun _ => rfl, rfl, rfl, rfl⟩
  refine within_get ((within_modify_eq hprune).bind ?_)
  rintro _ _ - rfl
  split
  · next h => exact within_pure ⟨rfl, h.symm, by simp⟩
  · next path h =>
    refine (within_byId _).bind ?_
    rintro d _ - ⟨rfl, hd⟩
    refine within_pure ⟨rfl, h.symm, ?_⟩
    rintro _ ⟨rfl⟩
    exact UMap.contains_iff.mpr ⟨d, hd⟩

theorem steady_flush (k : ConnectionHandle) : Within Steady (flush k) s fun _ _ => True := by
  refine (within_byId k).bind ?_
  rintro _ _ - ⟨rfl, -⟩
  exact within_modify ⟨rfl, fun hdl => UMap.contains_adjust _ k _ hdl, rfl, rfl, rfl⟩ trivial

theorem steady_write (k : ConnectionHandle) (hdr : Header) (pw : Option Bytes) :
    Within Steady (write k hdr pw) s fun _ _ => True :=
  within_modify ⟨rfl, fun hdl => UMap.contains_adjust _ k _ hdl, rfl, rfl, rfl⟩ trivial

theorem steady_requestNamed (path : Route) (name : String) (nid : NodeId) (tmp : ActorRef)
    (msg : Message) : Within Steady (requestNamed path name nid tmp msg) s fun _ _ => True :=
  within_get ((steady_write _ _ _).bind fun _ _ _ _ => steady_flush path.hdl)

theorem steady_spawn : Within Steady spawn s fun _ _ => True := by
  refine within_get (Within.bind (within_modify_eq ⟨rfl, fun _ => rfl, rfl, rfl, rfl⟩) ?_)
  exact fun _ _ _ _ => within_pure trivial

/-- Registering an actor is steady. -/
theorem steady_registerLocal (ref : ActorRef) :
    Within Steady (registerLocal ref) s fun _ _ => True := by
  have hsame : ∀ {f : Broker → Broker} {s : Broker}, Steady s (f s) →
      Within Steady (modify f : M Unit) s fun _ _ => True := fun h => within_modify h trivial
  refine within_get (within_get (within_ite (fun _ => within_pure trivial) fun _ => ?_))
  refine (hsame ⟨rfl, fun _ => rfl, rfl, rfl, rfl⟩).bind fun _ _ _ _ => within_get ?_
  split
  · exact within_pure trivial
  · exact within_ite (fun _ => hsame ⟨rfl, fun _ => rfl, rfl, rfl, rfl⟩) fun _ =>
      hsame ⟨rfl, fun _ => rfl, rfl, rfl, rfl⟩

/-- `learned_new_node` is steady. -/
theorem steady_learnedNewNode (nid : NodeId) :
    Within Steady (learnedNewNode nid) s fun _ _ => True := by
  refine steady_spawn.bind fun tmp _ _ _ => ?_
  refine Within.bind (within_modify_eq ⟨rfl, fun _ => rfl, rfl, rfl, rfl⟩) fun _ _ _ _ => ?_
  refine (steady_registerLocal tmp).bind fun _ _ _ _ => ?_
  refine (steady_lookup nid).bind fun path _ _ _ => ?_
  cases path with
  | none => exact within_pure trivial
  | some path => exact steady_requestNamed path _ nid tmp _

/-- `learned_new_node_indirectly` is steady. -/
theorem steady_learnedNewNodeIndirectly (nid : NodeId) :
    Within Steady (learnedNewNodeIndirectly nid) s fun _ _ => True := by
  refine (steady_learnedNewNode nid).bind fun _ _ _ _ => within_get ?_
  refine within_ite (fun _ => within_pure trivial) fun _ => ?_
  refine (steady_lookup nid).bind fun path _ _ _ => ?_
  cases path with
  | none => exact within_pure trivial
  | some path =>
    refine within_ite (fun _ => within_pure trivial) fun _ => ?_
    refine steady_spawn.bind fun tmp _ _ _ => ?_
    refine (steady_registerLocal tmp).bind fun _ _ _ _ => ?_
    exact steady_requestNamed path _ nid tmp _

-- -------------------------
-- Learning a node without a fault
-- -------------------------

/-- The route to a node, if there is one, goes over an open connection. -/
def OpenRoute (s : Broker) (nid : NodeId) : Prop :=
  ∀ path, s.tbl.route? nid = some path → s.scribes.contains path.hdl = true

/-- An open route stays open in steady steps. -/
theorem OpenRoute.steady (h : OpenRoute s nid) (hs : Steady s s') : OpenRoute s' nid := by
  intro path hpath
  rw [hs.opened]
  rw [hs.routes] at hpath
  exact h path hpath

theorem noThrow_byId (h : s.scribes.contains hdl = true) : NoThrow (byId hdl) s := by
  obtain ⟨d, hd⟩ := UMap.contains_iff.mp h
  exact (after_byId hd).mpr trivial

/-- A lookup of an open route does not throw. -/
theorem OpenRoute.lookup (h : OpenRoute s nid) : NoThrow (lookup nid) s := by
  refine noThrow_get (after_bind.mpr (after_modify.mpr ?_))
  split
  · exact noThrow_pure _
  · next path hpath =>
    have hopen := noThrow_byId (s := { s with tbl := s.tbl.prune nid }) (h path hpath)
    exact after_bind.mpr (hopen.mono (fun _ _ _ => noThrow_pure _) fun _ _ h => h)

theorem noThrow_openFlush (h : s.scribes.contains hdl = true) : NoThrow (flush hdl) s :=
  after_bind.mpr ((noThrow_byId h).mono (fun _ _ _ => noThrow_modify _) fun _ _ h => h)

/-- Writing to a connection, open or closed, and flushing an open one. -/
theorem noThrow_openWriteFlush (h : s.scribes.contains hdl = true) (hdl' : ConnectionHandle)
    (hdr : Header) (pw : Option Bytes) : NoThrow (do write hdl' hdr pw; flush hdl) s := by
  refine after_bind.mpr (after_modify.mpr (noThrow_openFlush ?_))
  exact (UMap.contains_adjust _ hdl' _ hdl).trans h

theorem noThrow_openRequest {path : Route} (h : s.scribes.contains path.hdl = true)
    (name : String) (nid : NodeId) (tmp : ActorRef) (msg : Message) :
    NoThrow (requestNamed path name nid tmp msg) s :=
  noThrow_get (noThrow_openWriteFlush h path.hdl _ _)

theorem noThrow_spawn : NoThrow spawn s := trivial

/-- `learned_new_node` does not throw on an open route. -/
theorem OpenRoute.learnedNewNode (h : OpenRoute s nid) : NoThrow (learnedNewNode nid) s := by
  refine noThrow_spawn.bind steady_spawn fun tmp s₁ h₁ _ => ?_
  refine (noThrow_modify _).bind (within_modify_eq (R := Steady)
    ⟨rfl, fun _ => rfl, rfl, rfl, rfl⟩) fun _ s₂ h₂ _ => ?_
  refine (noThrow_registerLocal tmp).bind (steady_registerLocal tmp) fun _ s₃ h₃ _ => ?_
  have hopen := ((h.steady h₁).steady h₂).steady h₃
  refine hopen.lookup.bind (steady_lookup nid) fun path s₄ h₄ hpath => ?_
  cases path with
  | none => exact noThrow_pure _
  | some path =>
    refine noThrow_openRequest ?_ _ nid tmp _
    rw [h₄.opened]
    exact hpath.2.2 path rfl

/-- `learned_new_node_indirectly` does not throw on an open route. -/
theorem OpenRoute.learnedNewNodeIndirectly (h : OpenRoute s nid) :
    NoThrow (learnedNewNodeIndirectly nid) s := by
  refine h.learnedNewNode.bind (steady_learnedNewNode nid) fun _ s₁ h₁ _ => noThrow_get ?_
  refine noThrow_ite (fun _ => noThrow_pure _) fun _ => ?_
  -- the second request goes over the same route
  refine (h.steady h₁).lookup.bind (steady_lookup nid) fun path s₂ h₂ hpath => ?_
  cases path with
  | none => exact noThrow_pure _
  | some path =>
    refine noThrow_ite (fun _ => noThrow_pure _) fun _ => ?_
    refine noThrow_spawn.bind steady_spawn fun tmp s₃ h₃ _ => ?_
    refine (noThrow_registerLocal tmp).bind (steady_registerLocal tmp) fun _ s₄ h₄ _ => ?_
    refine noThrow_openRequest ?_ _ nid tmp _
    rw [h₄.opened, h₃.opened, h₂.opened]
    exact hpath.2.2 path rfl

end BoostActor
