import BoostActor.Io.Flushes

/-!
# Where proxies are announced

`make_proxy` looks up a route to the node of the actor, "use a direct route if
possible", but it announces the proxy to the connection of the current context. The
route is used for the flush only.

* `makeProxy_announces` — the announcement goes to the connection of the context, and
  to no other;
* `announced_on_route` — it goes over the route exactly when the two are the same.
-/

namespace BoostActor

open Lib

variable {ok : Packet → Prop} {hdl : ConnectionHandle} {s s' : Broker}
  {nid : NodeId} {aid : ActorId}

/-- What was appended to a connection between two states. -/
def Broker.appended (s s' : Broker) (hdl : ConnectionHandle) : List Packet :=
  (s'.stream hdl).drop (s.stream hdl).length

/-- The message is not the announcement of a proxy. -/
def NoAnnouncement (p : Packet) : Prop := p.hdr.operation ≠ .announceProxyInstance

/-- A packet that is no announcement is not the announcement of a proxy. -/
theorem NoAnnouncement.ne {p : Packet} (h : NoAnnouncement p) (self : NodeId) :
    p ≠ announcement self nid aid := by
  rintro rfl
  exact h rfl

/-- The last part of `make_proxy` changes no route and appends the announcement to the
connection of the context. -/
theorem after_announceProxy (c : ConnectionContext) (path : Route) :
    After (announceProxy c path nid aid) s
      (fun _ s' => s'.tbl = s.tbl ∧ ∀ hdl', s'.stream hdl' =
        s.stream hdl' ++ if c.hdl = hdl' then [announcement s.thisNode nid aid] else [])
      fun _ _ => True := by
  unfold announceProxy newProxy
  simp only [bind_assoc, pure_bind]
  refine after_bind.mpr (after_get.mpr (after_bind.mpr (after_modify.mpr ?_)))
  refine after_bind.mpr ((byId_spec c.hdl).mono ?_ fun _ _ _ => trivial)
  rintro d _ ⟨rfl, hd⟩
  refine after_bind.mpr (after_get.mpr (after_bind.mpr (after_modify.mpr ?_)))
  refine after_bind.mpr (after_bind.mpr ((byId_spec path.hdl).mono ?_ fun _ _ _ => trivial))
  rintro d' _ ⟨rfl, -⟩
  refine after_modify.mpr (after_bind.mpr (after_modify.mpr (after_pure.mpr ⟨rfl, fun hdl' => ?_⟩)))
  have hopen : (s.addProxy nid aid).scribes.contains c.hdl = true := UMap.contains_iff.mpr ⟨d, hd⟩
  show (((s.addProxy nid aid).write c.hdl _ none).flush path.hdl).stream hdl' = _
  rw [Broker.stream_flush, Broker.stream_write hopen, announcement_eq]
  rfl

/-- The proxy `x` is announced to the connection `k`, and to no other. -/
def Announces (k : ConnectionHandle) (s s' : Broker) (nid : NodeId) (aid : ActorId) : Prop :=
  ∀ hdl', announcement s.thisNode nid aid ∈ s.appended s' hdl' ↔ hdl' = k

/-- Appending messages that announce nothing, and then the announcement. -/
theorem announces_of_appended {s₁ : Broker} (hf : Flushed NoAnnouncement hdl s s₁)
    {k : ConnectionHandle} (hs : ∀ hdl', s'.stream hdl' = s₁.stream hdl' ++
      if k = hdl' then [announcement s₁.thisNode nid aid] else []) : Announces k s s' nid aid := by
  have hself : s₁.thisNode = s.thisNode := by rw [Broker.thisNode, hf.process, Broker.thisNode]
  intro hdl'
  obtain ⟨new, hnew, hok⟩ := hf.appended hdl'
  have happ : s.appended s' hdl' = new ++
      if k = hdl' then [announcement s.thisNode nid aid] else [] := by
    rw [Broker.appended, hs, hnew, hself, List.append_assoc, List.drop_left]
  have hnone : announcement s.thisNode nid aid ∉ new := fun hm => (hok _ hm).ne _ rfl
  rw [happ, List.mem_append, or_iff_right hnone]
  split
  · next h => simp [h]
  · next h => simp [Ne.symm h]

/-- What `make_proxy` does when it returns a proxy: the route is that of the table in which
the node of the context has been added as a hop, the announcement goes to the connection of
the context. -/
theorem makeProxy_announces (s : Broker) (nid : NodeId) (aid : ActorId) :
    After (makeProxy nid aid) s (fun r s' => ∀ x, r = some x → ∃ c path,
      s.context? = some c ∧ (s.tbl.offered c nid).route? nid = some path ∧
        s'.tbl.route? nid = some path ∧ Announces c.hdl s s' nid aid) fun _ _ => True := by
  -- an invalid handle makes no proxy
  refine after_ite.mpr ⟨fun _ => after_pure.mpr (by simp), fun _ => ?_⟩
  have hctx : Within (Flushed NoAnnouncement ConnectionHandle.invalid) context s
      fun c s' => s' = s ∧ s.context? = some c := within_context
  refine after_bind.mpr (After.mono hctx ?_ fun _ _ _ => trivial)
  rintro c s₁ ⟨-, rfl, hc⟩
  have hok : Dispatches NoAnnouncement := fun p hp => by
    rw [NoAnnouncement, hp]
    decide
  refine after_bind.mpr (After.mono (flushed_learnHandle hok c nid :
    Within (Flushed NoAnnouncement c.hdl) _ _ _) ?_ fun _ _ _ => trivial)
  rintro _ s₂ ⟨h₂, hr₂⟩
  refine after_bind.mpr (After.mono (flushed_lookup nid :
    Within (Flushed NoAnnouncement c.hdl) _ _ _) ?_ fun _ _ _ => trivial)
  rintro path s₃ ⟨h₃, hpath, hr₃⟩
  cases path with
  -- without a route there is no proxy, and nothing to announce
  | none => exact after_pure.mpr (by simp)
  | some path =>
    refine after_bind.mpr ((after_announceProxy c path).mono ?_ fun _ _ _ => trivial)
    rintro r s' ⟨htbl, hstream⟩
    refine after_pure.mpr fun x _ => ⟨c, path, hc, ?_, ?_, ?_⟩
    · rw [← hr₂, ← hpath]
    · rw [htbl, hr₃, ← hpath]
    · exact announces_of_appended (Frame.trans h₂ h₃) hstream

/-- The announcement is among the messages appended to the connection that `lookup`
selects for the node. -/
def AnnouncedOnRoute (s s' : Broker) (nid : NodeId) (aid : ActorId) : Prop :=
  ∃ path, (s'.tbl.lookup nid).1 = some path ∧
    announcement s.thisNode nid aid ∈ s.appended s' path.hdl

/-- The connection of the context is the one that `lookup` selects for the node, once the
node of the context has been added as a hop. -/
def OnRoute (s : Broker) (nid : NodeId) : Prop :=
  ∃ c path, s.context? = some c ∧ ((s.tbl.offered c nid).lookup nid).1 = some path ∧
    path.hdl = c.hdl

/-- **Announcements.** A proxy that `make_proxy` returns is announced over the route to its
node exactly when that route is the connection which the handle arrived on. -/
theorem announced_on_route (s : Broker) (nid : NodeId) (aid : ActorId) :
    After (makeProxy nid aid) s
      (fun r s' => ∀ x, r = some x → (AnnouncedOnRoute s s' nid aid ↔ OnRoute s nid))
      fun _ _ => True := by
  refine (makeProxy_announces s nid aid).mono (fun r s' h x hx => ?_) fun _ _ _ => trivial
  obtain ⟨c, path, hc, hoff, hroute, hann⟩ := h x hx
  have hroute : (s'.tbl.lookup nid).1 = some path := by rw [RoutingTable.lookup_eq, hroute]
  have hoff : ((s.tbl.offered c nid).lookup nid).1 = some path := by
    rw [RoutingTable.lookup_eq, hoff]
  have hann : announcement s.thisNode nid aid ∈ s.appended s' path.hdl ↔ path.hdl = c.hdl :=
    hann path.hdl
  constructor
  · rintro ⟨path', hp, hm⟩
    rw [hroute, Option.some.injEq] at hp
    subst hp
    exact ⟨c, path, hc, hoff, hann.mp hm⟩
  · rintro ⟨c', path', hc', hoff', he⟩
    rw [hc, Option.some.injEq] at hc'
    subst hc'
    rw [hoff, Option.some.injEq] at hoff'
    subst hoff'
    exact ⟨path, hroute, hann.mpr he⟩

/-- `make_proxy` returns a proxy and changes the state so that it passes a check. -/
def makesProxy (s : Broker) (nid : NodeId) (aid : ActorId) (check : Broker → Bool) : Bool :=
  match makeProxy nid aid s with
  | .ok (some _) s' => check s'
  | _ => false

/-- The check runs exactly on the state that making the proxy leaves behind. -/
theorem makesProxy_iff {check : Broker → Bool} : makesProxy s nid aid check = true ↔
    ∃ x s', makeProxy nid aid s = .ok (some x) s' ∧ check s' = true := by
  unfold makesProxy
  split
  · next x s' h => simp [h]
  · next h =>
    refine iff_of_false Bool.false_ne_true ?_
    rintro ⟨x, s', hx, -⟩
    exact h x s' hx

open Sample in
/-- Node 2 passes on a handle of an actor on node 3, to which there is a connection: the
proxy is announced to node 2. -/
theorem announced_off_route : ∃ s dm, Broker.Reachable anyStep s ∧
    s.enabled (.newData dm) = true ∧ dm.handle = conn 7 ∧
    ((s.exec (.newData dm)).tbl.lookup (node 3)).1 = some ⟨node 3, conn 8⟩ ∧
    announcement (node 1) (node 3) 5 ∈ s.appended (s.exec (.newData dm)) (conn 7) ∧
    announcement (node 1) (node 3) 5 ∉ s.appended (s.exec (.newData dm)) (conn 8) ∧
    ∃ x s', makeProxy (node 3) 5 (s.enter dm.handle) = .ok (some x) s' ∧
      ¬ AnnouncedOnRoute (s.enter dm.handle) s' (node 3) 5 := by
  obtain ⟨s, hs, hc⟩ := exists_run Broker.step (broker 1)
    [accepts 7, hears 7 (clientHello (node 2) (node 1)), accepts 8,
      hears 8 (clientHello (node 3) (node 1)), hears 7 (dispatches (node 2) (node 1) (carries 3 5))]
    (fun s =>
      let s' := s.exec (reads 7 (carries 3 5).bytes)
      s.enabled (reads 7 (carries 3 5).bytes) ∧
        (s'.tbl.lookup (node 3)).1 = some ⟨node 3, conn 8⟩ ∧
        announcement (node 1) (node 3) 5 ∈ s.appended s' (conn 7) ∧
        announcement (node 1) (node 3) 5 ∉ s.appended s' (conn 8) ∧ s.thisNode = node 1 ∧
        makesProxy (s.enter (conn 7)) (node 3) 5 fun s' =>
          (s'.tbl.lookup (node 3)).1 = some ⟨node 3, conn 8⟩ ∧
            announcement (node 1) (node 3) 5 ∉ (s.enter (conn 7)).appended s' (conn 8))
    (by decide +kernel)
  obtain ⟨he, hroute, h7, h8, hself, hmake⟩ := of_decide_eq_true hc
  obtain ⟨x, s', hx, hcheck⟩ := makesProxy_iff.mp hmake
  obtain ⟨hr, hnot⟩ := of_decide_eq_true hcheck
  refine ⟨s, received 7 (carries 3 5).bytes, reach_of_run (broker_reachable 1) hs, he, rfl,
    hroute, h7, h8, x, s', hx, ?_⟩
  rintro ⟨path, hp, hm⟩
  -- the announcement would have to be on connection 8, where it is not
  rw [hr, Option.some.injEq] at hp
  subst hp
  have hself : (s.enter (conn 7)).thisNode = node 1 := hself
  have hm : announcement (s.enter (conn 7)).thisNode (node 3) 5 ∈ _ := hm
  rw [hself] at hm
  exact hnot hm

end BoostActor
