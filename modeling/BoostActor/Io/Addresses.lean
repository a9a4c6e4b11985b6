import BoostActor.Io.Announcements
import BoostActor.Io.Cleanup
import BoostActor.Io.NoFaults

/-!
# Addresses on the wire

`actor_namespace::write` and `actor_namespace::read`: an address is written as 28 bytes, the
id of the actor, the host id and the process id of its node. Reading makes a proxy for an
actor of another node, if there is none.

* `CanMake`, `after_makeProxy` — when `make_proxy` makes a proxy, in any state of the broker;
* `readRight_iff` — when an address can be read;
* `roundTrip_invalid`, `roundTrip_local`, `roundTrip_proxy_iff` — which addresses are read back;
* `read_right_iff` — all of this, for every state.
-/

namespace BoostActor

open Lib

variable {s s' : Broker} {nid : NodeId} {aid : ActorId} {hdl : ConnectionHandle}

-- -------------------------
-- Proxies
-- -------------------------

/-- The broker with a hop that was learned. -/
def Broker.learn (s : Broker) (hop dest : NodeId) : Broker :=
  { s with tbl := s.tbl.learned hop dest }

/-- The broker with the table in which `make_proxy` looks for a route. -/
def Broker.offer (s : Broker) (c : ConnectionContext) (nid : NodeId) : Broker :=
  { s with tbl := s.tbl.offered c nid }

/-- Inserting a hop, up to the history. -/
theorem after_addIndirect (hop dest : NodeId) :
    After (addIndirect hop dest) s (fun _ s' => Steady (s.learn hop dest) s')
      fun _ _ => False := by
  unfold Broker.learn RoutingTable.learned
  refine after_bind.mpr (after_get.mpr (after_ite.mpr ⟨fun hb => ?_, fun hb => ?_⟩))
  · rw [if_pos hb]
    exact after_pure.mpr (Frame.refl _)
  · rw [if_neg hb]
    exact after_bind.mpr (after_modify.mpr (after_pure.mpr ⟨rfl, fun _ => rfl, rfl, rfl, rfl⟩))

/-- Learning a route adds the hop, and whatever happens next is steady. -/
theorem after_learnRoute (hop dest : NodeId) :
    After (learnRoute hop dest) s (fun _ s' => Steady (s.learn hop dest) s')
      fun _ s' => Steady (s.learn hop dest) s' := by
  refine after_bind.mpr ((after_addIndirect hop dest).mono (fun added s₁ h₁ => ?_)
    fun _ _ h => h.elim)
  refine after_ite.mpr ⟨fun _ => ?_, fun _ => after_pure.mpr h₁⟩
  exact After.mono (steady_learnedNewNodeIndirectly dest)
    (fun _ _ h => Frame.trans h₁ h.1) fun _ _ h => Frame.trans h₁ h

/-- An open route keeps `learn_route` from throwing. -/
theorem OpenRoute.learnRoute {hop : NodeId} (h : OpenRoute (s.learn hop nid) nid) :
    NoThrow (learnRoute hop nid) s := by
  refine after_bind.mpr ((after_addIndirect hop nid).mono (fun added s₁ h₁ => ?_)
    fun _ _ h => h)
  exact noThrow_ite (fun _ => (h.steady h₁).learnedNewNodeIndirectly) fun _ => noThrow_pure _

/-- After a handle was read, the table has what the connection offers for it. -/
theorem after_learnHandle (c : ConnectionContext) (nid : NodeId) :
    After (learnHandle c nid) s (fun _ s' => Steady (s.offer c nid) s')
      fun _ s' => Steady (s.offer c nid) s' := by
  unfold Broker.offer RoutingTable.offered
  refine after_bind.mpr (after_get.mpr (after_ite.mpr ⟨fun h => ?_, fun h => ?_⟩))
  · rw [if_pos h]
    exact after_learnRoute c.id nid
  · rw [if_neg h]
    exact after_pure.mpr (Frame.refl _)

/-- An open route keeps the broker's part of `make_proxy` from throwing. -/
theorem OpenRoute.learnHandle {c : ConnectionContext} (h : OpenRoute (s.offer c nid) nid) :
    NoThrow (learnHandle c nid) s := by
  unfold Broker.offer RoutingTable.offered at h
  refine noThrow_get (noThrow_ite (fun hc => ?_) fun _ => noThrow_pure _)
  rw [if_pos hc] at h
  exact h.learnRoute

/-- Nothing is thrown on the way, unless the route goes over a closed connection. -/
theorem learnHandle_outcome (c : ConnectionContext) (nid : NodeId) :
    After (learnHandle c nid) s (fun _ s' => Steady (s.offer c nid) s')
      fun _ _ => ¬ OpenRoute (s.offer c nid) nid := by
  by_cases hopen : OpenRoute (s.offer c nid) nid
  · exact (After.and (after_learnHandle c nid) hopen.learnHandle).mono (fun _ _ h => h.1)
      fun _ _ h => h.2.elim
  · exact (after_learnHandle c nid).mono (fun _ _ h => h) fun _ _ _ => hopen

/-- A lookup answers with the route of the table, over an open connection. -/
theorem lookup_outcome (nid : NodeId) :
    After (lookup nid) s (fun r s' => Steady s s' ∧ r = s.tbl.route? nid ∧
      ∀ path, r = some path → s.scribes.contains path.hdl = true)
      fun _ _ => ¬ OpenRoute s nid := by
  by_cases hopen : OpenRoute s nid
  · exact (After.and (steady_lookup nid) hopen.lookup).mono (fun _ _ h => ⟨h.1.1, h.1.2.2⟩)
      fun _ _ h => h.2.elim
  · exact After.mono (steady_lookup nid) (fun _ _ h => ⟨h.1, h.2.2⟩) fun _ _ _ => hopen

/-- `make_proxy` makes a proxy for an actor: the table, with the node of the context as a hop,
has a route to its node, over an open connection. -/
def CanMake (s : Broker) (nid : NodeId) (aid : ActorId) : Prop :=
  nid.valid = true ∧ aid ≠ 0 ∧ ∃ c path, s.context? = some c ∧
    (s.tbl.offered c nid).route? nid = some path ∧
      s.scribes.contains path.hdl = true ∧ s.scribes.contains c.hdl = true

/-- A new proxy for an actor. -/
def freshProxy (nid : NodeId) (aid : ActorId) : Proxy :=
  ⟨nid, aid, true, ExitReason.notExited, true, false⟩

/-- A proxy was made: it is the last one. -/
structure Made (s s' : Broker) (nid : NodeId) (aid : ActorId) (r : ProxyRef) : Prop where
  ref : r = s.heap.length
  heap : s'.heap = s.heap ++ [freshProxy nid aid]
  process : s'.process = s.process

/-- What the broker did before does not matter for the proxy that was made. -/
theorem Made.steady {s₀ : Broker} {r : ProxyRef} (h : Made s s' nid aid r) (hs : Steady s₀ s) :
    Made s₀ s' nid aid r :=
  ⟨by rw [h.ref, hs.heap], by rw [h.heap, hs.heap], h.process.trans hs.process⟩

/-- The connections that an announcement goes over have to be open, and then it is made. -/
theorem after_announce {c : ConnectionContext} {path : Route} :
    After (announceProxy c path nid aid) s
      (fun r s' => s.scribes.contains c.hdl = true ∧ Made s s' nid aid r)
      fun _ _ => ¬ (s.scribes.contains path.hdl = true ∧ s.scribes.contains c.hdl = true) := by
  unfold announceProxy newProxy
  simp only [bind_assoc, pure_bind]
  refine after_bind.mpr (after_get.mpr (after_bind.mpr (after_modify.mpr ?_)))
  refine after_bind.mpr ((byId_spec c.hdl).mono ?_ fun _ _ h hopen => h.2 hopen.2)
  rintro _ _ ⟨rfl, hc⟩
  refine after_bind.mpr (after_get.mpr (after_bind.mpr (after_modify.mpr ?_)))
  refine after_bind.mpr (after_bind.mpr ((byId_spec path.hdl).mono ?_ fun _ _ h hopen => h.2 ?_))
  · rintro _ _ ⟨rfl, -⟩
    refine after_modify.mpr (after_bind.mpr (after_modify.mpr (after_pure.mpr ⟨?_, rfl, rfl, rfl⟩)))
    exact UMap.contains_iff.mpr ⟨_, hc⟩
  · exact (UMap.contains_adjust _ c.hdl _ path.hdl).trans hopen.1

/-- In a context, a proxy is made if there is a route over an open connection. -/
theorem canMake_iff {c : ConnectionContext} (hc : s.context? = some c) : CanMake s nid aid ↔
    nid.valid = true ∧ aid ≠ 0 ∧ ∃ path, (s.offer c nid).tbl.route? nid = some path ∧
      s.scribes.contains path.hdl = true ∧ s.scribes.contains c.hdl = true := by
  refine and_congr_right fun _ => and_congr_right fun _ => ⟨?_, ?_⟩
  · rintro ⟨c', path, hc', h⟩
    rw [hc, Option.some.injEq] at hc'
    subst hc'
    exact ⟨path, h⟩
  · rintro ⟨path, h⟩
    exact ⟨c, path, hc, h⟩

/-- A proxy that can be made needs an open route only. -/
theorem CanMake.openRoute {c : ConnectionContext} (h : CanMake s nid aid)
    (hc : s.context? = some c) : OpenRoute (s.offer c nid) nid := by
  obtain ⟨-, -, path, hroute, hopen, -⟩ := (canMake_iff hc).mp h
  intro path' hpath'
  rw [hroute, Option.some.injEq] at hpath'
  rw [← hpath']
  exact hopen

/-- What `make_proxy` returns: a new proxy, if and only if it can be made. -/
theorem after_makeProxy (s : Broker) (nid : NodeId) (aid : ActorId) :
    After (makeProxy nid aid) s
      (fun r s' => (r.isSome = true ↔ CanMake s nid aid) ∧ ∀ x, r = some x → Made s s' nid aid x)
      fun _ _ => ¬ CanMake s nid aid := by
  refine after_ite.mpr ⟨fun hcond => ?_, fun hcond => ?_⟩
  · -- the handle is invalid, so no proxy is made
    refine after_pure.mpr ⟨iff_of_false (by simp) ?_, by simp⟩
    rintro ⟨hv, ha, -⟩
    simp only [Bool.or_eq_true, beq_iff_eq] at hcond
    rcases hcond with hcond | hcond
    · rw [NodeId.valid_iff, hcond] at hv
      cases hv
    · exact ha hcond
  simp only [Bool.or_eq_true, beq_iff_eq, not_or, Bool.not_eq_true] at hcond
  have hv : nid.valid = true := NodeId.valid_iff.mpr hcond.1
  cases hc : s.context? with
  -- there is no connection whose context could be read
  | none =>
    have hno : ¬ CanMake s nid aid := by
      rintro ⟨-, -, c, path, hc', -⟩
      rw [hc] at hc'
      cases hc'
    refine after_bind.mpr (after_bind.mpr (after_get.mpr ?_))
    rw [hc]
    exact after_throw.mpr hno
  | some c =>
    refine after_bind.mpr ((after_context hc).mpr (after_bind.mpr ?_))
    refine (learnHandle_outcome c nid).mono (fun _ s₁ h₁ => ?_) fun _ _ h hmake =>
      h (hmake.openRoute hc)
    refine after_bind.mpr ((lookup_outcome nid).mono ?_ fun _ _ h hmake =>
      h ((hmake.openRoute hc).steady h₁))
    -- the route is that of the table with the hop, and nothing else has changed
    rintro r s₂ ⟨h₂, hr, hopen⟩
    have hsteady : Steady (s.offer c nid) s₂ := Frame.trans h₁ h₂
    rw [h₁.routes] at hr
    cases r with
    | none =>
      refine after_pure.mpr ⟨iff_of_false (by simp) fun hmake => ?_, by simp⟩
      obtain ⟨-, -, path, hroute, -⟩ := (canMake_iff hc).mp hmake
      rw [← hr] at hroute
      cases hroute
    | some path =>
      have hpath : s.scribes.contains path.hdl = true := by
        rw [← hopen path rfl, h₁.opened]
        rfl
      refine after_bind.mpr (after_announce.mono ?_ fun _ _ h hmake => h ?_)
      · rintro x s₃ ⟨hctx, hmade⟩
        rw [hsteady.opened] at hctx
        obtain ⟨href, hheap, hprocess⟩ := hmade.steady hsteady
        have hmake : CanMake s nid aid :=
          (canMake_iff hc).mpr ⟨hv, hcond.2, path, hr.symm, hpath, hctx⟩
        refine after_pure.mpr ⟨iff_of_true rfl hmake, ?_⟩
        rintro _ ⟨rfl⟩
        exact ⟨href, hheap, hprocess⟩
      · obtain ⟨-, -, path', hroute, hopen'⟩ := (canMake_iff hc).mp hmake
        rw [← hr, Option.some.injEq] at hroute
        subst hroute
        rw [hsteady.opened, hsteady.opened]
        exact hopen'

/-- In a state that can be reached, the node of the actor has to be reached, too. -/
theorem Routed.canMake {c : ConnectionContext} (h : Routed s) (hc : s.context? = some c)
    (hlive : s.liveProxy nid aid = none) (hv : nid.valid = true) (ha : aid ≠ 0)
    (hr : Reaches s c nid) : CanMake s nid aid := by
  obtain ⟨r, -, hmakes, hiff, -⟩ :=
    After.exists_and (makeProxy_spec h hc hlive) (after_makeProxy s nid aid)
  exact hiff.mp (hmakes hv ha hr)

-- -------------------------
-- The namespace
-- -------------------------

/-- A live proxy of the namespace is found. -/
theorem after_getOrPut_live {r : ProxyRef} {Q : Option ProxyRef → Broker → Prop}
    {E : Fault → Broker → Prop} (h : s.liveProxy nid aid = some r) :
    After (getOrPut nid aid) s Q E ↔ Q (some r) (s.reserve nid aid) := by
  have hlive : (s.reserve nid aid).liveProxy nid aid = some r := by
    rw [Broker.liveProxy, Broker.anchor_reserve]
    exact h
  unfold getOrPut
  rw [after_bind, after_modify, after_bind, after_get, hlive, after_pure]

/-- Without one, what `make_proxy` makes is stored. -/
theorem getOrPut_none (h : s.liveProxy nid aid = none) :
    After (getOrPut nid aid) s
      (fun r s' => (r.isSome = true ↔ CanMake s nid aid) ∧ ∀ x, r = some x → Made s s' nid aid x)
      fun _ _ => ¬ CanMake s nid aid := by
  have hnone : (s.reserve nid aid).liveProxy nid aid = none := by
    rw [Broker.liveProxy, Broker.anchor_reserve]
    exact h
  refine after_bind.mpr (after_modify.mpr (after_bind.mpr (after_get.mpr ?_)))
  rw [hnone]
  refine after_bind.mpr ((after_makeProxy (s.reserve nid aid) nid aid).mono ?_ fun _ _ h => h)
  rintro r s₁ ⟨hmake, hmade⟩
  cases r with
  | none => exact after_pure.mpr ⟨hmake, by simp⟩
  | some r =>
    obtain ⟨href, hheap, hprocess⟩ := hmade r rfl
    refine after_bind.mpr (after_modify.mpr (after_pure.mpr ⟨hmake, ?_⟩))
    rintro _ ⟨rfl⟩
    exact ⟨href, hheap, hprocess⟩

-- -------------------------
-- Reading and writing
-- -------------------------

/-- The bytes of an address. -/
def AddrRef.serialize (a : AddrRef) : Bytes :=
  writeUInt32 a.aid ++ a.host.bytes ++ writeUInt32 a.pid

/-- The three fields of an address. -/
def readAddrRef : Reader AddrRef := do
  let aid ← readUInt32
  let host ← readHostId
  let pid ← readUInt32
  return ⟨aid, host, pid⟩

/-- `actor_namespace::read`, once the fields have been read. -/
def resolveAddr (a : AddrRef) : M ActorAddr := do
  -- 0:0 identifies an invalid actor
  if a.aid = 0 ∧ a.pid = 0 then return .invalid
  let s ← get
  if a.pid = s.thisNode.processId ∧ a.host = s.thisNode.hostId then
    -- identifies this exact process on this host, ergo: local actor
    return s.registryAddr a.aid
  -- identifies a remote actor; create proxy if needed
  match ← getOrPut a.node a.aid with
  | some r => return .proxy r
  | none => throw (.undefined "null actor_proxy")

/-- `actor_namespace::read`: the address, and the input that is left. -/
def readActorAddr (source : Bytes) : M (ActorAddr × Bytes) :=
  match readAddrRef source with
  | .error e => throw e
  | .ok (a, rest) => do
    let addr ← resolveAddr a
    return (addr, rest)

/-- `actor_namespace::write` -/
def writeActorAddr : ActorAddr → M Bytes
  | .invalid => return AddrRef.serialize ⟨0, NodeId.invalidHostId, 0⟩
  | addr => do
    -- register locally running actors to be able to deserialize them later
    registerIfLocal addr
    let s ← get
    return AddrRef.serialize
      ⟨s.addrId addr, (s.addrNode addr).hostId, (s.addrNode addr).processId⟩

/-- `readAddr` is `resolveAddr`, for a caller that has no use for the address. -/
theorem readAddr_eq (a : AddrRef) :
    readAddr a = (do
      let _ ← resolveAddr a
      return ()) := by
  funext s
  unfold readAddr resolveAddr
  by_cases hzero : a.aid = 0 ∧ a.pid = 0
  · simp only [if_pos hzero]
    rfl
  · simp only [if_neg hzero, bind_assoc]
    show (if _ then _ else _ : M Unit) s = ((if _ then _ else _ : M ActorAddr) >>= _) s
    by_cases hself : a.pid = s.thisNode.processId ∧ a.host = s.thisNode.hostId
    · rw [if_pos hself, if_pos hself]
      rfl
    · rw [if_neg hself, if_neg hself, bind_assoc]
      refine congrFun (congrArg (getOrPut a.node a.aid >>= ·) (funext fun r => ?_)) s
      cases r with
      | none => rfl
      | some r => rfl

/-- Reading an address undoes writing it. -/
theorem undoes_readAddrRef : Undoes AddrRef.serialize readAddrRef := by
  intro bs a rest h
  obtain ⟨aid, bs₁, haid, h⟩ := reader_bind_ok h
  obtain ⟨host, bs₂, hhost, h⟩ := reader_bind_ok h
  obtain ⟨pid, bs₃, hpid, h⟩ := reader_bind_ok h
  injection h with h
  injection h with ha hrest
  subst ha hrest
  rw [AddrRef.serialize, List.append_assoc, List.append_assoc, undoes_readUInt32 _ _ _ hpid,
    undoes_readHostId _ _ _ hhost, undoes_readUInt32 _ _ _ haid]

/-- Every input of 28 bytes is an address. -/
theorem exists_serialize (bs : Bytes) (h : bs.length = 28) : ∃ a : AddrRef, a.serialize = bs := by
  have htakes : Takes readAddrRef 28 := Takes.readUInt32.bind fun _ =>
    Takes.readHostId.bind fun _ => Takes.readUInt32.bind fun _ => Takes.pure _
  obtain ⟨a, ha⟩ := htakes bs (Nat.le_of_eq h.symm)
  refine ⟨a, ?_⟩
  have hall := undoes_readAddrRef bs a _ ha
  rw [← h, List.drop_length, List.append_nil] at hall
  exact hall

/-- The address of an actor on this node or of a proxy for exactly the actor that was named, or
the invalid address. -/
def RightAddr (s : Broker) (a : AddrRef) : ActorAddr → Prop
  | .invalid => True
  | .localActor ref => a.pid = s.thisNode.processId ∧ a.host = s.thisNode.hostId ∧
      s.registryAddr a.aid = .localActor ref
  | .proxy r => s.addrNode (.proxy r) = a.node ∧ s.addrId (.proxy r) = a.aid

/-- The address is read, and nothing is called on a null pointer. -/
def ReadRight (s : Broker) (a : AddrRef) (rest : Bytes) : Prop :=
  After (readActorAddr (a.serialize ++ rest)) s
    (fun x s' => RightAddr s' a x.1 ∧ x.2 = rest) fun _ _ => False

/-- There is a proxy for the actor, or one can be made. -/
def Proxied (s : Broker) (a : AddrRef) : Prop :=
  match s.liveProxy a.node a.aid with
  | some r => RightAddr s a (.proxy r)
  | none => CanMake s a.node a.aid

/-- Without a live proxy, a handle that is proxied is one for which a proxy can be made. -/
theorem Proxied.canMake {a : AddrRef} (h : Proxied s a) (hlive : s.liveProxy a.node a.aid = none) :
    CanMake s a.node a.aid := by
  rw [Proxied, hlive] at h
  exact h

/-- The address is none of another node, or its actor has a proxy. -/
def Readable (s : Broker) (a : AddrRef) : Prop :=
  (a.aid = 0 ∧ a.pid = 0) ∨ (a.pid = s.thisNode.processId ∧ a.host = s.thisNode.hostId) ∨
    Proxied s a

/-- An address is written and read, and what comes back is the same. -/
def ReadBack (s : Broker) (addr : ActorAddr) (same : ActorAddr → Broker → Prop) : Prop :=
  After (do
    let bs ← writeActorAddr addr
    readActorAddr bs) s (fun x s' => same x.1 s' ∧ x.2 = []) fun _ _ => False

/-- The address that was written is read back. -/
def RoundTrip (s : Broker) (addr : ActorAddr) : Prop := ReadBack s addr fun addr' _ => addr' = addr

/-- The address of an actor with the same id, on the same node. -/
def SameActor (s : Broker) (addr addr' : ActorAddr) (s' : Broker) : Prop :=
  s'.addrNode addr' = s.addrNode addr ∧ s'.addrId addr' = s.addrId addr

/-- What is written for a proxy. -/
def Proxy.addrRef (p : Proxy) : AddrRef := ⟨p.aid, p.nid.hostId, p.nid.processId⟩

/-- A written address is read back. -/
theorem readAddrRef_serialize (a : AddrRef) (rest : Bytes) :
    readAddrRef (a.serialize ++ rest) = .ok (a, rest) := by
  unfold readAddrRef AddrRef.serialize
  rw [List.append_assoc, List.append_assoc, reader_bind (readUInt32_append a.aid _),
    reader_bind (readHostId_append a.host _), reader_bind (readUInt32_append a.pid rest)]
  rfl

/-- Reading the bytes of an address resolves that address. -/
theorem readActorAddr_serialize (a : AddrRef) (rest : Bytes) :
    readActorAddr (a.serialize ++ rest) = (do
      let addr ← resolveAddr a
      return (addr, rest)) := by
  unfold readActorAddr
  rw [readAddrRef_serialize]

/-- An address of another node. -/
theorem after_resolveAddr_foreign {a : AddrRef} (h : a.foreign s.thisNode)
    {Q : ActorAddr → Broker → Prop} {E : Fault → Broker → Prop} :
    After (resolveAddr a) s Q E ↔ After (getOrPut a.node a.aid) s
      (fun r s' => match r with
        | some r => Q (.proxy r) s'
        | none => E (.undefined "null actor_proxy") s') E := by
  unfold resolveAddr
  rw [if_neg h.1, after_bind, after_get, if_neg h.2, after_bind]
  refine iff_of_eq (congrArg (fun Q => After (getOrPut a.node a.aid) s Q E) ?_)
  funext r s'
  cases r with
  | none => rfl
  | some r => rfl

/-- Reading is resolving what was read. -/
theorem after_readActorAddr {a : AddrRef} {rest : Bytes} {Q : ActorAddr × Bytes → Broker → Prop}
    {E : Fault → Broker → Prop} :
    After (readActorAddr (a.serialize ++ rest)) s Q E ↔
      After (resolveAddr a) s (fun addr s' => Q (addr, rest) s') E := by
  rw [readActorAddr_serialize, after_bind]
  exact iff_of_eq (congrArg (fun Q => After (resolveAddr a) s Q E)
    (funext fun _ => funext fun _ => propext after_pure))

/-- The registry knows actors of this node only. -/
theorem rightAddr_registry {a : AddrRef} (h : a.pid = s.thisNode.processId)
    (hh : a.host = s.thisNode.hostId) : RightAddr s a (s.registryAddr a.aid) := by
  cases hreg : s.registryAddr a.aid with
  | invalid => trivial
  | localActor ref => exact ⟨h, hh, hreg⟩
  | proxy r =>
    unfold Broker.registryAddr at hreg
    split at hreg <;> cases hreg

/-- An address of another node is read if and only if there is a proxy for its actor, or one can
be made; and a proxy is what comes out. -/
theorem resolveAddr_foreign_iff {a : AddrRef} (h : a.foreign s.thisNode)
    {same : ActorAddr → Broker → Prop}
    (hsame : ∀ r s', same (.proxy r) s' ↔ RightAddr s' a (.proxy r)) :
    After (resolveAddr a) s same (fun _ _ => False) ↔ Proxied s a := by
  rw [after_resolveAddr_foreign h, Proxied]
  cases hlive : s.liveProxy a.node a.aid with
  | some r =>
    rw [after_getOrPut_live hlive]
    exact hsame r _
  | none =>
    -- `get_or_put` returns what `make_proxy` makes
    constructor
    · intro hread
      -- `make_proxy` may return nothing, which `read` then dereferences
      obtain ⟨r, s', hr, ⟨hmake, -⟩⟩ := After.exists_and hread (getOrPut_none hlive)
      cases r with
      | none => exact hr.elim
      | some r => exact hmake.mp rfl
    · intro hmake
      refine (getOrPut_none hlive).mono ?_ fun _ _ h => h hmake
      rintro r s' ⟨hiff, hmade⟩
      cases r with
      | none => cases hiff.mpr hmake
      | some r =>
        obtain ⟨rfl, hheap, -⟩ := hmade r rfl
        have hget : s'.heap[s.heap.length]? = some (freshProxy a.node a.aid) := by
          rw [hheap, List.getElem?_concat_length]
        refine (hsame _ _).mpr ⟨?_, ?_⟩
        · rw [Broker.addrNode, hget]
          rfl
        · rw [Broker.addrId, hget]
          rfl

/-- Reading any 28 bytes is right exactly when they are readable. -/
theorem readRight_iff (a : AddrRef) (rest : Bytes) : ReadRight s a rest ↔ Readable s a := by
  have hrest : ReadRight s a rest ↔
      After (resolveAddr a) s (fun addr s' => RightAddr s' a addr) fun _ _ => False := by
    rw [ReadRight, after_readActorAddr]
    simp only [and_true]
  rw [hrest, Readable]
  by_cases hzero : a.aid = 0 ∧ a.pid = 0
  · refine iff_of_true ?_ (Or.inl hzero)
    rw [resolveAddr, if_pos hzero]
    exact after_pure.mpr trivial
  by_cases hself : a.pid = s.thisNode.processId ∧ a.host = s.thisNode.hostId
  · refine iff_of_true ?_ (Or.inr (Or.inl hself))
    rw [resolveAddr, if_neg hzero, after_bind, after_get, if_pos hself]
    exact after_pure.mpr (rightAddr_registry hself.1 hself.2)
  · rw [resolveAddr_foreign_iff ⟨hzero, hself⟩ fun _ _ => Iff.rfl]
    exact ⟨fun h => Or.inr (Or.inr h), fun h => (h.resolve_left hzero).resolve_left hself⟩

-- -------------------------
-- Round trips
-- -------------------------

/-- The invalid address is written and read back. -/
theorem roundTrip_invalid : RoundTrip s .invalid := by
  have h := @after_readActorAddr s ⟨0, NodeId.invalidHostId, 0⟩ []
    (fun x _ => x.1 = .invalid ∧ x.2 = []) fun _ _ => False
  rw [List.append_nil] at h
  refine after_bind.mpr (after_pure.mpr (h.mpr ?_))
  exact after_pure.mpr ⟨rfl, rfl⟩

/-- A registered actor is not registered again. -/
theorem after_registerLocal {ref : ActorRef} {Q : Unit → Broker → Prop}
    {E : Fault → Broker → Prop}
    (h : s.registryAddr (s.addrId (.localActor ref)) = .localActor ref) :
    After (registerLocal ref) s Q E ↔ Q () s := by
  have hkey : s.registry.contains (s.addrId (.localActor ref)) = true := by
    rw [UMap.contains_iff]
    cases hfind : s.registry.find? (s.addrId (.localActor ref)) with
    | some e => exact ⟨e, rfl⟩
    | none =>
      rw [Broker.registryAddr, Broker.getEntry, hfind] at h
      cases h
  unfold registerLocal registryPut
  rw [after_bind, after_get, after_bind, after_get, if_pos hkey, after_pure]

/-- A registered local actor is written and read back. -/
theorem roundTrip_local {ref : ActorRef}
    (h : s.registryAddr (s.addrId (.localActor ref)) = .localActor ref) :
    RoundTrip s (.localActor ref) := by
  have hread := @after_readActorAddr s
    ⟨s.addrId (.localActor ref), s.thisNode.hostId, s.thisNode.processId⟩ []
    (fun x _ => x.1 = .localActor ref ∧ x.2 = []) fun _ _ => False
  rw [List.append_nil] at hread
  refine after_bind.mpr (after_bind.mpr ((after_registerLocal h).mpr ?_))
  refine after_bind.mpr (after_get.mpr (after_pure.mpr (hread.mpr ?_)))
  -- the process id of a node is not zero
  have hzero : ¬ (s.addrId (.localActor ref) = 0 ∧ s.thisNode.processId = 0) :=
    fun h => s.process.pid_ne_zero h.2
  rw [resolveAddr, if_neg hzero, after_bind, after_get, if_pos ⟨rfl, rfl⟩]
  exact after_pure.mpr ⟨h, rfl⟩

/-- What is written for a proxy is resolved. -/
theorem readBack_proxy {r : ProxyRef} {p : Proxy} (h : s.heap[r]? = some p)
    (same : ActorAddr → Broker → Prop) :
    ReadBack s (.proxy r) same ↔ After (resolveAddr p.addrRef) s same fun _ _ => False := by
  have hwritten : (⟨s.addrId (.proxy r), (s.addrNode (.proxy r)).hostId,
      (s.addrNode (.proxy r)).processId⟩ : AddrRef) = p.addrRef := by
    rw [Broker.addrId, Broker.addrNode, h]
    rfl
  have hread := @after_readActorAddr s p.addrRef [] (fun x s' => same x.1 s' ∧ x.2 = [])
    fun _ _ => False
  rw [List.append_nil] at hread
  simp only [and_true] at hread
  rw [ReadBack, after_bind, ← hread]
  unfold writeActorAddr registerIfLocal
  rw [after_bind, after_pure, after_bind, after_get, after_pure, hwritten]

/-- A proxy for an actor of another node. -/
def Proxy.remote (p : Proxy) (self : NodeId) : Prop :=
  p.nid.valid = true ∧ p.nid.equals self = false ∧ p.aid ≠ 0

/-- A valid node id consists of its process and host. -/
theorem NodeId.eq_of_parts {a b : NodeId} (ha : a.valid = true) (hb : b.valid = true)
    (hpid : a.processId = b.processId) (hhost : a.hostId = b.hostId) : a = b := by
  obtain ⟨_ | ⟨pid, host⟩⟩ := a
  · cases ha
  obtain ⟨_ | ⟨pid', host'⟩⟩ := b
  · cases hb
  · cases hpid
    cases hhost
    rfl

theorem Proxy.node_addrRef {p : Proxy} (h : p.nid.valid = true) : p.addrRef.node = p.nid := by
  obtain ⟨⟨_ | d⟩, aid, manager, rsn, functor, destroyed⟩ := p
  · cases h
  · rfl

/-- A remote proxy is foreign to this node. -/
theorem Proxy.remote.foreign {p : Proxy} (h : p.remote s.thisNode) :
    p.addrRef.foreign s.thisNode := by
  refine ⟨fun hzero => h.2.2 hzero.1, fun hself => ?_⟩
  have hnode : p.nid = s.thisNode := NodeId.eq_of_parts h.1 s.process.id_valid hself.1 hself.2
  have hne := h.2.1
  rw [hnode, NodeId.equals_refl] at hne
  cases hne

/-- A proxy for the actor of `r` is read back if and only if its address can be read. -/
theorem readBack_sameActor_iff {r : ProxyRef} {p : Proxy} (h : s.heap[r]? = some p)
    (hp : p.remote s.thisNode) :
    ReadBack s (.proxy r) (SameActor s (.proxy r)) ↔ Proxied s p.addrRef := by
  rw [readBack_proxy h]
  refine resolveAddr_foreign_iff hp.foreign fun r' s' => ?_
  rw [SameActor, RightAddr, Proxy.node_addrRef hp.1]
  have hnode : s.addrNode (.proxy r) = p.nid := by
    rw [Broker.addrNode, h]
    rfl
  have hid : s.addrId (.proxy r) = p.addrRef.aid := by
    rw [Broker.addrId, h]
    rfl
  rw [hnode, hid]

/-- The proxy itself is read back if and only if the namespace holds it. -/
theorem roundTrip_proxy_iff {r : ProxyRef} {p : Proxy} (h : s.heap[r]? = some p)
    (hp : p.remote s.thisNode) :
    RoundTrip s (.proxy r) ↔ s.liveProxy p.nid p.aid = some r := by
  rw [RoundTrip, readBack_proxy h, after_resolveAddr_foreign hp.foreign,
    Proxy.node_addrRef hp.1]
  show After (getOrPut p.nid p.aid) s _ _ ↔ _
  cases hlive : s.liveProxy p.nid p.aid with
  | some r' =>
    rw [after_getOrPut_live hlive]
    simp
  | none =>
    refine iff_of_false (fun hread => ?_) (by simp)
    obtain ⟨x, s', hx, -, hmade⟩ := After.exists_and hread (getOrPut_none hlive)
    cases x with
    | none => exact hx
    | some x =>
      -- a new proxy is none of those there were
      injection hx with hx
      have hlt : r < s.heap.length := (List.getElem?_eq_some_iff.mp h).1
      have hnew := (hmade x rfl).ref
      rw [← hnew, hx] at hlt
      exact Nat.lt_irrefl r hlt

end BoostActor
