import BoostActor.Io.Activity

/-!
# Quiet programs

The programs of the broker that leave its connections alone, one lemma for each:
whatever state they start in and however they end, they only do what `Act` lists.
The hypotheses say what the turn has to allow for it.

* `quiet_makeProxy`, `quiet_getOrPut` — creating proxies;
* `quiet_deserialize`, `quiet_deliver` — what a dispatched message causes;
* `quiet_proxyAnnounced`, `quiet_forwardMessage`, `quiet_dispatch`.
-/

namespace BoostActor

open Lib

variable {T : Turn} {s : Broker}

/-! ## Routes and messages -/

theorem quiet_notify {e : Event} (he : e.plain = true) :
    Within (Quiet T) (notify e) s fun _ s' => s' = s.note e :=
  within_modify_eq (Act.note e he).quiet

/-- Looking up a scribe changes nothing. -/
theorem within_byId {R : Broker → Broker → Prop} [Frame R] (hdl : ConnectionHandle) :
    Within R (byId hdl) s fun c s' => s' = s ∧ s.scribes.find? hdl = some c := by
  refine within_get ?_
  split
  · next c h => exact within_pure ⟨rfl, h⟩
  · exact within_throw _

/-- Reading the current context changes nothing. -/
theorem within_context {R : Broker → Broker → Prop} [Frame R] :
    Within R context s fun c s' => s' = s ∧ s.context? = some c := by
  refine within_get ?_
  split
  · next c h => exact within_pure ⟨rfl, h⟩
  · exact within_throw _

/-- A result that was computed before is returned or thrown. -/
theorem ofExcept_spec {α : Type} (x : Except Fault α) :
    After (ofExcept x) s (fun a s' => s' = s ∧ x = .ok a) (fun e s' => s' = s ∧ x = .error e) := by
  cases x with
  | ok a => exact ⟨rfl, rfl⟩
  | error e => exact ⟨rfl, rfl⟩

/-- Using a result that was computed before changes nothing. -/
theorem within_ofExcept {R : Broker → Broker → Prop} [Frame R] {α : Type} (x : Except Fault α) :
    Within R (ofExcept x) s fun a s' => s' = s ∧ x = .ok a := by
  refine (ofExcept_spec x).mono (fun a s' h => ⟨?_, h⟩) fun _ s' h => ?_
  · rw [h.1]
    exact Frame.refl s
  · rw [h.1]
    exact Frame.refl s

/-- A lookup prunes dead hops; the route it returns is an open connection. -/
theorem quiet_openLookup (target : NodeId) :
    Within (Quiet T) (lookup target) s fun r s' =>
      (s' = { s with tbl := s.tbl.prune target } ∧ r = s.tbl.route? target) ∧
        ∀ path, r = some path → s.scribes.contains path.hdl = true := by
  refine within_get ((within_modify_eq (Act.prune target).quiet).bind ?_)
  rintro _ _ - rfl
  split
  · next h => exact within_pure ⟨⟨rfl, h.symm⟩, by simp⟩
  · next r h =>
    refine (within_byId _).bind ?_
    rintro c _ - ⟨rfl, hc⟩
    refine within_pure ⟨⟨rfl, h.symm⟩, ?_⟩
    rintro path ⟨rfl⟩
    exact UMap.contains_iff.mpr ⟨c, hc⟩

/-- A lookup prunes dead hops. -/
theorem quiet_lookup (target : NodeId) :
    Within (Quiet T) (lookup target) s fun r s' =>
      s' = { s with tbl := s.tbl.prune target } ∧ r = s.tbl.route? target :=
  (quiet_openLookup target).mono fun _ _ _ h => h.1

/-- A route found by a lookup is still the route after the pruning. -/
theorem route?_of_lookup {target : NodeId} {path : Route} {s' : Broker}
    (h : s' = { s with tbl := s.tbl.prune target } ∧ some path = s.tbl.route? target) :
    s'.tbl.route? target = some path := by
  obtain ⟨rfl, hr⟩ := h
  simp [← hr]

/-- A route goes over the connection of a node. -/
theorem routes_of_lookup {target : NodeId} {path : Route} {s' : Broker}
    (h : s' = { s with tbl := s.tbl.prune target } ∧ some path = s.tbl.route? target) :
    s'.routes path.hdl := by
  obtain ⟨hc, he⟩ := RoutingTable.route?_direct (route?_of_lookup h)
  exact ⟨path.nextHop, hc, he⟩

theorem quiet_flush (hdl : ConnectionHandle) :
    Within (Quiet T) (flush hdl) s fun _ s' => s' = s.flush hdl := by
  refine (within_byId hdl).bind ?_
  rintro _ _ - ⟨rfl, -⟩
  exact within_modify_eq (Act.flush hdl).quiet

theorem quiet_write {hdl : ConnectionHandle} {hdr : Header} {pw : Option Bytes}
    (ho : Origin T s hdl hdr pw) :
    Within (Quiet T) (write hdl hdr pw) s fun _ s' => s' = s.write hdl hdr pw :=
  within_modify_eq (Act.write ho).quiet

/-- Writing to an open connection appends to its stream. -/
theorem Broker.stream_write {hdl : ConnectionHandle} {hdr : Header} {pw : Option Bytes}
    (ho : s.scribes.contains hdl = true) (hdl' : ConnectionHandle) :
    (s.write hdl hdr pw).stream hdl' = s.stream hdl' ++
      if hdl = hdl' then [⟨hdr.withPayload pw, pw.getD [], []⟩] else [] := by
  show (((s.scribes.adjust hdl _).find? hdl').map _).getD [] = _
  obtain ⟨c, hc⟩ := UMap.contains_iff.mp ho
  rw [UMap.find?_adjust, stream]
  by_cases he : hdl = hdl'
  · subst he
    simp [hc]
  · simp [he]

/-- Flushing does not change what has been written. -/
@[simp] theorem Broker.stream_flush (hdl hdl' : ConnectionHandle) :
    (s.flush hdl').stream hdl = s.stream hdl := by
  show (((s.scribes.adjust hdl' _).find? hdl).map _).getD [] = _
  rw [UMap.find?_adjust, stream]
  split
  · cases s.scribes.find? hdl with
    | none => rfl
    | some c => simp
  · rfl

/-- The message that tells `nid` about the exit of an actor. -/
def killMessage (self nid : NodeId) (aid : ActorId) (rsn : ExitReason) : Packet :=
  ⟨⟨.killProxyInstance, 0, rsn.toUInt64, self, nid, aid, 0⟩, [], []⟩

/-- If there was a route to `nid`, the exit of the actor `aid` has been written to it. -/
def SentKill (nid : NodeId) (aid : ActorId) (rsn : ExitReason) (s s' : Broker) : Prop :=
  ∀ path, s.tbl.route? nid = some path →
    s'.stream path.hdl = s.stream path.hdl ++ [killMessage s.thisNode nid aid rsn]

/-- Reporting a dead proxy that the turn watches is quiet. -/
theorem quiet_sendKillProxyInstance {nid : NodeId} {aid : ActorId} {rsn : ExitReason}
    (hw : T.watches nid aid rsn) :
    Within (Quiet T) (sendKillProxyInstance nid aid rsn) s fun _ => SentKill nid aid rsn s := by
  refine (quiet_openLookup nid).bind fun path s₁ _ hpath => ?_
  cases path with
  | none =>
    refine within_pure fun path hp => ?_
    rw [← hpath.1.2] at hp
    cases hp
  | some path =>
    refine Within.bind (within_get (quiet_write (.kill hw (route?_of_lookup hpath.1)))) ?_
    rintro _ _ - rfl
    refine (quiet_flush _).mono ?_
    rintro _ _ - rfl path' hp
    rw [← hpath.1.2, Option.some.injEq] at hp
    subst hp
    have ho : s₁.scribes.contains path.hdl = true := by
      rw [hpath.1.1]
      exact hpath.2 path rfl
    rw [Broker.stream_flush, Broker.stream_write ho, if_pos rfl, hpath.1.1]
    rfl

/-! ## Local actors -/

/-- What an attachable does when it is called at once. -/
def Fired (a : Attachable) (rsn : ExitReason) (s s' : Broker) : Prop :=
  match a with
  | .eraseEntry key => s' = s.eraseEntry key rsn
  | .sendKillProxyInstance nid aid => SentKill nid aid rsn s s'

/-- A functor is attached to an actor that lives, and called at once otherwise. -/
def Attached (ref : ActorRef) (a : Attachable) (s s' : Broker) : Prop :=
  match s.actors[ref]? with
  | none => s' = s
  | some act =>
    act.exitReason = ExitReason.notExited ∧ s' = s.attachTo ref a ∨
    act.exitReason ≠ ExitReason.notExited ∧ Fired a act.exitReason s s'

/-- Attaching what the turn may attach is quiet. -/
theorem quiet_attach {ref : ActorRef} {a : Attachable} (ha : T.attaches a) :
    Within (Quiet T) (attach ref a) s fun _ => Attached ref a s := by
  refine within_get ?_
  split
  · next hnone =>
    refine within_pure ?_
    rw [Attached, hnone]
  · next act hact =>
    refine within_ite (fun he => within_modify (Act.attach hact he ha).quiet ?_) fun he => ?_
    · rw [Attached, hact]
      exact Or.inl ⟨he, rfl⟩
    · have hfired : ∀ s', Fired a act.exitReason s s' → Attached ref a s s' := by
        intro s' hf
        rw [Attached, hact]
        exact Or.inr ⟨he, hf⟩
      cases a with
      | eraseEntry key => exact within_modify (Act.eraseEntry he).quiet (hfired _ rfl)
      | sendKillProxyInstance nid aid =>
        exact (quiet_sendKillProxyInstance (ha _ he)).mono fun _ _ _ h => hfired _ h

/-- Attaching the functor of the registry changes no route. -/
theorem Attached.tbl {ref : ActorRef} {key : ActorId} {s s' : Broker}
    (h : Attached ref (.eraseEntry key) s s') : s'.tbl = s.tbl := by
  unfold Attached at h
  split at h
  · rw [h]
  · rcases h with ⟨-, rfl⟩ | ⟨-, hf⟩
    · rfl
    · rw [Fired] at hf
      rw [hf]
      rfl

/-- Registering an actor under its own id is quiet. -/
theorem quiet_registryPut {ref : ActorRef} {act : LocalActor} (ha : s.actors[ref]? = some act) :
    Within (Quiet T) (registryPut act.id ref) s fun _ s' => s'.tbl = s.tbl := by
  refine within_get (within_ite (fun _ => within_pure rfl) fun hk => ?_)
  rw [Bool.not_eq_true] at hk
  refine Within.bind (within_modify_eq (Act.register ha hk).quiet) ?_
  rintro _ _ - rfl
  have hatt : T.attaches (.eraseEntry act.id) := trivial
  exact (quiet_attach hatt).mono fun _ _ _ h => h.tbl

/-- Registering an actor of this node is quiet. -/
theorem quiet_registerLocal {ref : ActorRef} (hr : ref < s.actors.length) :
    Within (Quiet T) (registerLocal ref) s fun _ s' => s'.tbl = s.tbl := by
  have ha : s.actors[ref]? = some s.actors[ref] := List.getElem?_eq_getElem hr
  have hid : s.addrId (.localActor ref) = s.actors[ref].id := by
    rw [Broker.addrId, ha]
    rfl
  refine within_get ?_
  rw [hid]
  exact quiet_registryPut ha

theorem quiet_spawn :
    Within (Quiet T) spawn s fun tmp s' => tmp < s'.actors.length ∧ s'.tbl = s.tbl := by
  refine within_get (Within.bind (within_modify_eq Act.spawn.quiet) ?_)
  rintro _ _ - rfl
  exact within_pure ⟨by simp [Broker.addActor], rfl⟩

/-! ## New nodes -/

/-- Asking a known node for a named actor is quiet. -/
theorem quiet_requestNamed {path : Route} {name : String} {nid : NodeId} {ref : ActorRef}
    {msg : Message} (hk : T.knows nid) (hm : msg = infoRequest ∨ msg = connectivityRequest)
    (hr : s.tbl.route? nid = some path) :
    Within (Quiet T) (requestNamed path name nid ref msg) s fun _ _ => True := by
  refine within_get (Within.bind (quiet_write (.request hk hm hr)) ?_)
  exact fun _ _ _ _ => (quiet_flush _).mono fun _ _ _ _ => trivial

/-- `learned_new_node` is quiet for a known node, which is served then. -/
theorem quiet_learnedNewNode {nid : NodeId} (hk : T.knows nid) :
    Within (Quiet T) (learnedNewNode nid) s fun _ s' => s'.served nid = true := by
  refine quiet_spawn.bind fun tmp s₁ _ htmp => ?_
  refine Within.bind (within_modify_eq (Act.serve nid tmp).quiet) ?_
  rintro _ s₂ - hs₂
  have hserved : s₂.served nid = true := by
    rw [hs₂, Broker.served_set, BEq.rfl, Bool.true_or]
  have hr : tmp < s₂.actors.length := by
    rw [hs₂]
    exact htmp.1
  refine (quiet_registerLocal hr).bind fun _ s₃ h₃ _ => ?_
  refine (quiet_lookup nid).bind fun path s₄ h₄ hpath => ?_
  have hserved₄ : s₄.served nid = true := h₄.served (h₃.served hserved)
  cases path with
  | none => exact within_pure hserved₄
  | some path =>
    exact (quiet_requestNamed hk (Or.inl rfl) (route?_of_lookup hpath)).mono fun _ _ h _ =>
      h.served hserved₄

/-- `learned_new_node_directly` is quiet for a known node. -/
theorem quiet_learnedNewNodeDirectly {nid : NodeId} (hk : T.knows nid) (was : Bool) :
    Within (Quiet T) (learnedNewNodeDirectly nid was) s fun _ _ => True :=
  within_ite (fun _ => within_pure trivial) fun _ =>
    (quiet_learnedNewNode hk).mono fun _ _ _ _ => trivial

/-- `learned_new_node_indirectly` is quiet for a known node, which is served then. -/
theorem quiet_learnedNewNodeIndirectly {nid : NodeId} (hk : T.knows nid) :
    Within (Quiet T) (learnedNewNodeIndirectly nid) s fun _ s' => s'.served nid = true := by
  refine (quiet_learnedNewNode hk).bind fun _ s₁ _ hserved => within_get ?_
  refine within_ite (fun _ => within_pure hserved) fun _ => ?_
  refine (quiet_lookup nid).bind fun path s₂ h₂ hpath => ?_
  cases path with
  | none => exact within_pure (h₂.served hserved)
  | some path =>
    refine within_ite (fun _ => within_pure (h₂.served hserved)) fun _ => ?_
    refine quiet_spawn.bind fun tmp s₃ h₃ htmp => ?_
    refine (quiet_registerLocal htmp.1).bind fun _ s₄ h₄ htbl => ?_
    have hroute : s₄.tbl.route? nid = some path := by
      rw [htbl, htmp.2, route?_of_lookup hpath]
    exact (quiet_requestNamed hk (Or.inr rfl) hroute).mono fun _ _ h _ =>
      h.served (h₄.served (h₃.served (h₂.served hserved)))

/-- Learning a route that the turn offers is quiet. -/
theorem quiet_learnRoute {hop dest : NodeId} {aid : ActorId} (hn : T.names dest aid)
    (ho : Offers T s dest aid hop) (hv : dest.valid = true) (hc : s.tbl.connected dest = false) :
    Within (Quiet T) (learnRoute hop dest) s fun _ _ => True := by
  have hadd : Within (Quiet T) (addIndirect hop dest) s fun _ _ => True := by
    refine within_get (within_ite (fun _ => within_pure trivial) fun _ => ?_)
    refine Within.bind (within_modify_eq (Act.learn hn ho hv hc).quiet) ?_
    exact fun _ _ _ _ => within_pure trivial
  have hknows : T.knows dest := by
    refine Or.inr ⟨hv, ?_⟩
    cases ho with
    | lastHop hs => exact Or.inl hs
    | context _ _ ha => exact Or.inr ⟨aid, hn, ha⟩
  refine hadd.bind fun added _ _ _ => ?_
  refine within_ite (fun _ => ?_) fun _ => within_pure trivial
  exact (quiet_learnedNewNodeIndirectly hknows).mono fun _ _ _ _ => trivial

/-! ## Proxies -/

/-- The state `s'` is reached from `s` by creating the proxy `r` and announcing it, after
other activities: once it is stored in the namespace, it is adopted. -/
def Announced (T : Turn) (s : Broker) (nid : NodeId) (aid : ActorId) (r : ProxyRef) (s' : Broker) :
    Prop :=
  ∃ s₀ c hdl, Quiet T s s₀ ∧ s₀.context? = some c ∧ s₀.scribes.contains c.hdl = true ∧
    nid.valid = true ∧ aid ≠ 0 ∧ (s₀.tbl.route? nid).isSome = true ∧
    s'.setAnchor nid aid r = s₀.adopted c.hdl hdl nid aid

/-- Announcing a proxy for a node with a route is quiet. -/
theorem quiet_announceProxy {c : ConnectionContext} {path : Route} {nid : NodeId} {aid : ActorId}
    (hn : T.names nid aid) (hv : nid.valid = true) (ha : aid ≠ 0) (hc : s.context? = some c)
    (hr : (s.tbl.route? nid).isSome = true) :
    Within (Quiet T) (announceProxy c path nid aid) s (Announced T s nid aid) := by
  unfold announceProxy newProxy
  simp only [bind_assoc, pure_bind]
  refine within_get (Within.bind (within_modify_eq (Act.addProxy hn hv ha).quiet) ?_)
  rintro _ _ - rfl
  refine (within_byId c.hdl).bind ?_
  rintro d _ - ⟨rfl, hd⟩
  refine within_get (Within.bind (quiet_write (.announce hn hv ha hc hr)) ?_)
  rintro _ _ - rfl
  refine (quiet_flush path.hdl).bind ?_
  rintro _ _ - rfl
  refine Within.bind (quiet_notify rfl) ?_
  rintro _ _ - rfl
  refine within_pure ⟨s, c, path.hdl, .refl, hc, UMap.contains_iff.mpr ⟨d, hd⟩, hv, ha, hr, ?_⟩
  have hlen : castUInt32 0 = 0 := by decide
  simp [Broker.adopted, Broker.setAnchor, Broker.note, Broker.flush, Broker.write, Broker.append,
    Broker.addProxy, announcement, Header.withPayload, Broker.thisNode, hlen]

/-- Learning from a handle without a live proxy is quiet. -/
theorem quiet_learnHandle {c : ConnectionContext} {nid : NodeId} {aid : ActorId}
    (hn : T.names nid aid) (hv : nid.valid = true) (ha : aid ≠ 0) (hc : s.context? = some c)
    (hl : s.liveProxy nid aid = none) :
    Within (Quiet T) (learnHandle c nid) s fun _ _ => True := by
  refine within_get (within_ite (fun h => ?_) fun _ => within_pure trivial)
  simp only [Bool.and_eq_true, Bool.not_eq_true'] at h
  exact quiet_learnRoute hn (.context hc h.1 ha hl) hv h.2

/-- Making a proxy is quiet, and what it makes was announced. -/
theorem quiet_makeProxy {nid : NodeId} {aid : ActorId} (hn : T.names nid aid)
    (hl : s.liveProxy nid aid = none) :
    Within (Quiet T) (makeProxy nid aid) s fun r s' =>
      ∀ x, r = some x → Announced T s nid aid x s' := by
  refine within_ite (fun _ => within_pure (by simp)) fun hcond => ?_
  simp only [Bool.or_eq_true, beq_iff_eq, not_or, Bool.not_eq_true] at hcond
  have hv : nid.valid = true := NodeId.valid_iff.mpr hcond.1
  refine within_context.bind ?_
  rintro c _ - ⟨rfl, hc⟩
  refine (quiet_learnHandle hn hv hcond.2 hc hl).bind fun _ s₁ h₁ _ => ?_
  refine (quiet_lookup nid).bind fun path s₂ h₂ hpath => ?_
  cases path with
  | none => exact within_pure (by simp)
  | some path =>
    have hr₂ : (s₂.tbl.route? nid).isSome = true := by rw [route?_of_lookup hpath]; rfl
    have hc₂ : s₂.context? = some c := by rw [h₂.untouched.context?, h₁.untouched.context?, hc]
    refine (quiet_announceProxy hn hv hcond.2 hc₂ hr₂).bind fun r s₃ _ hr => within_pure ?_
    rintro x ⟨rfl⟩
    obtain ⟨s₀, c', hdl, h₀, hrest⟩ := hr
    exact ⟨s₀, c', hdl, h₁.trans (h₂.trans h₀), hrest⟩

/-- The same turn, without access to the namespace. -/
def Turn.unanchored (T : Turn) : Turn := { T with anchors := False }

/-- A turn with anchors has the origins of the one without. -/
theorem Origin.of_unanchored {hdl : ConnectionHandle} {hdr : Header} {pw : Option Bytes}
    (h : Origin T.unanchored s hdl hdr pw) : Origin T s hdl hdr pw := by
  cases h with
  | clientHandshake hp hr => exact .clientHandshake hp hr
  | request hk hm hr => exact .request hk hm hr
  | announce hn hv ha hc hr => exact .announce hn hv ha hc hr
  | kill hw hp => exact .kill hw hp
  | dispatchError hb hr => exact .dispatchError hb hr
  | dispatch hs hr => exact .dispatch hs hr
  | serverHandshake ha => exact .serverHandshake ha
  | publishedHandshake ha hw => exact .publishedHandshake ha hw

/-- A turn with anchors has the offers of the one without. -/
theorem Offers.of_unanchored {dest hop : NodeId} {aid : ActorId}
    (h : Offers T.unanchored s dest aid hop) : Offers T s dest aid hop := by
  cases h with
  | lastHop hs h => exact .lastHop hs h
  | context hc h ha hl => exact .context hc h ha hl

/-- A turn with anchors has the acts of the one without, which leave the proxies alone. -/
theorem Act.of_unanchored {s' : Broker} (h : Act T.unanchored s s') :
    Act T s s' ∧ s'.proxies = s.proxies ∧ s.heap <+: s'.heap := by
  cases h with
  | note e he => exact ⟨.note e he, rfl, List.prefix_rfl⟩
  | prune target => exact ⟨.prune target, rfl, List.prefix_rfl⟩
  | write ho => exact ⟨.write ho.of_unanchored, rfl, List.prefix_rfl⟩
  | relay hT hp hd hh => exact ⟨.relay hT hp hd hh, rfl, List.prefix_rfl⟩
  | flush hdl => exact ⟨.flush hdl, rfl, List.prefix_rfl⟩
  | learn hn ho hv hc => exact ⟨.learn hn ho.of_unanchored hv hc, rfl, List.prefix_rfl⟩
  | spawn => exact ⟨.spawn, rfl, List.prefix_rfl⟩
  | serve nid ref => exact ⟨.serve nid ref, rfl, List.prefix_rfl⟩
  | register ha hk => exact ⟨.register ha hk, rfl, List.prefix_rfl⟩
  | attach ha he hT => exact ⟨.attach ha he hT, rfl, List.prefix_rfl⟩
  | eraseEntry hr => exact ⟨.eraseEntry hr, rfl, List.prefix_rfl⟩
  | remember nid port addr => exact ⟨.remember nid port addr, rfl, List.prefix_rfl⟩
  | addProxy hn hv ha => exact ⟨.addProxy hn hv ha, rfl, List.prefix_append _ _⟩
  | reserve ha => exact ha.elim
  | adopt _ ha => exact ha.elim

/-- Quiet steps without anchors leave the proxies alone. -/
theorem Quiet.of_unanchored {s' : Broker} (h : Quiet T.unanchored s s') :
    Quiet T s s' ∧ s'.proxies = s.proxies ∧ s.heap <+: s'.heap := by
  induction h with
  | refl => exact ⟨.refl, rfl, List.prefix_rfl⟩
  | tail _ hlast ih =>
    obtain ⟨hq, hp, hh⟩ := ih
    obtain ⟨ha, hp', hh'⟩ := hlast.of_unanchored
    exact ⟨hq.tail ha, hp'.trans hp, hh.trans hh'⟩

/-- A proxy that has been destroyed stays so while the heap grows. -/
theorem Broker.liveProxy_of_prefix {s' : Broker} {nid : NodeId} {aid : ActorId}
    (hp : s'.proxies = s.proxies) (hh : s.heap <+: s'.heap)
    (hl : s.liveProxy nid aid = none) : s'.liveProxy nid aid = none := by
  have ha : s'.anchor nid aid = s.anchor nid aid := by rw [anchor, hp, anchor]
  -- the anchor is the same, and proxies that were dead are dead
  rw [liveProxy, ha]
  rw [liveProxy] at hl
  cases hr : s.anchor nid aid with
  | none => rfl
  | some r =>
    rw [hr] at hl
    have hdead : s.live r = false := by simpa [Option.filter] using hl
    have hdead' : s'.live r = false := by
      cases hg : s.heap[r]? with
      | none => simp [live, hg] at hdead
      | some p =>
        have hp' : s'.heap[r]? = some p := by
          rw [List.getElem?_eq_some_iff] at hg
          obtain ⟨hlt, hg⟩ := hg
          rw [List.getElem?_eq_some_iff]
          exact ⟨by have := hh.length_le; omega, by rw [← hh.getElem hlt, hg]⟩
        rw [live, hp']
        rw [live, hg] at hdead
        exact hdead
    simp [Option.filter, hdead']

/-- `get_or_put` is quiet. -/
theorem quiet_getOrPut {nid : NodeId} {aid : ActorId} (ha : T.anchors) (hn : T.names nid aid) :
    Within (Quiet T) (getOrPut nid aid) s fun _ _ => True := by
  refine Within.bind (within_modify_eq (Act.reserve ha nid aid).quiet) ?_
  rintro _ s₁ - rfl
  refine within_get ?_
  split
  · exact within_pure trivial
  · next hl =>
    -- nothing in `make_proxy` touches the namespace, so the entry is still free
    have hmake := quiet_makeProxy (T := T.unanchored) (s := s.reserve nid aid) hn hl
    refine after_bind.mpr (After.mono hmake ?_ fun _ _ h => h.of_unanchored.1)
    rintro r s₂ ⟨h₂, hr⟩
    cases r with
    | none => exact ⟨h₂.of_unanchored.1, trivial⟩
    | some r =>
      obtain ⟨s₀, c, hdl, h₀, hc, ho, hv, hz, hroute, heq⟩ := hr r rfl
      obtain ⟨hq, hp, hh⟩ := h₀.of_unanchored
      have hl₀ : s₀.liveProxy nid aid = none := Broker.liveProxy_of_prefix hp hh hl
      refine after_bind.mpr (after_modify.mpr (after_pure.mpr ⟨?_, trivial⟩))
      rw [heq]
      exact hq.tail (.adopt hdl ha hn hv hz hl₀ hc ho hroute)

/-- Resolving an address that the turn names is quiet. -/
theorem quiet_resolve {nid : NodeId} {aid : ActorId} (ha : T.anchors)
    (hn : nid.equals s.thisNode = false → T.names nid aid) :
    Within (Quiet T) (resolve nid aid) s fun _ _ => True := by
  refine within_get (within_ite (fun _ => within_pure trivial) fun hne => ?_)
  refine (quiet_getOrPut ha (hn (by simpa using hne))).bind fun r _ _ _ => ?_
  cases r with
  | none => exact within_pure trivial
  | some r => exact within_pure trivial

/-! ## Dispatched messages -/

/-- Reading an address that the turn names is quiet. -/
theorem quiet_readAddr {a : AddrRef} (ha : T.anchors)
    (hn : a.foreign s.thisNode → T.names a.node a.aid) :
    Within (Quiet T) (readAddr a) s fun _ _ => True := by
  refine within_ite (fun _ => within_pure trivial) fun hz => within_get ?_
  refine within_ite (fun _ => within_pure trivial) fun hself => ?_
  refine (quiet_getOrPut ha (hn ⟨hz, hself⟩)).bind fun r _ _ _ => ?_
  cases r with
  | none => exact within_throw _
  | some r => exact within_pure trivial

/-- Reading a message is quiet if the turn names its handles. -/
theorem quiet_deserialize {payload : Bytes} (ha : T.anchors)
    (hn : ∀ a ∈ (Message.deserialize s.process.types payload).addrs, a.foreign s.thisNode →
      T.names a.node a.aid) :
    Within (Quiet T) (deserialize payload) s fun _ _ => True := by
  refine within_get (Within.bind (within_forM (I := fun s' => s'.thisNode = s.thisNode) ?_ rfl) ?_)
  · intro a hmem s' hs'
    rw [← hs'] at hn
    exact (quiet_readAddr ha (hn a hmem)).mono fun _ _ hq _ => hq.untouched.thisNode.trans hs'
  · intro _ _ _ _
    split
    · exact within_pure trivial
    · exact within_throw _

theorem quiet_bounce (rsn : ExitReason) (sender : ActorAddr) (mid : MessageId) :
    Within (Quiet T) (bounce rsn sender mid) s fun _ _ => True :=
  within_ite (fun _ => (quiet_notify rfl).mono fun _ _ _ _ => trivial) fun _ => within_pure trivial

/-- Delivering to an actor of this node is quiet. -/
theorem quiet_deliverTo {destNode : NodeId} {destActor : ActorId} {mid : MessageId}
    (hd : destNode.equals s.thisNode = true) :
    Within (Quiet T) (deliverTo destNode destActor mid) s fun _ _ => True := by
  refine within_get (within_ite (fun h => ?_) fun _ => within_ite (fun _ => ?_) fun _ => ?_)
  · simp [hd] at h
  · split <;> exact within_pure trivial
  · exact within_pure trivial

/-- `deliver` is quiet for an actor of this node. -/
theorem quiet_deliver {sourceNode destNode : NodeId} {sourceActor destActor : ActorId}
    {mid : MessageId} (ha : T.anchors)
    (hn : sourceNode.equals s.thisNode = false → T.names sourceNode sourceActor)
    (hd : destNode.equals s.thisNode = true) :
    Within (Quiet T) (deliver sourceNode sourceActor destNode destActor mid) s fun _ _ => True := by
  refine (quiet_resolve ha hn).bind fun src s₁ h₁ _ => ?_
  refine (quiet_deliverTo (by rw [h₁.untouched.thisNode, hd])).bind fun dest _ _ _ => ?_
  refine within_ite (fun _ => ?_) fun _ => (quiet_notify rfl).mono fun _ _ _ _ => trivial
  refine (quiet_notify rfl).bind fun _ _ _ _ => ?_
  exact within_ite (fun _ => quiet_bounce _ _ _) fun _ => within_pure trivial

/-- Learning from the source of a message is quiet. -/
theorem quiet_learnSource {sourceNode : NodeId} {aid : ActorId}
    (hs : sourceNode.equals s.thisNode = false → T.sender sourceNode)
    (hn : sourceNode.equals s.thisNode = false → T.names sourceNode aid) :
    Within (Quiet T) (learnSource T.hdl sourceNode) s fun _ _ => True := by
  refine within_get (within_ite (fun h => ?_) fun _ => within_pure trivial)
  simp only [Bool.and_eq_true, Bool.not_eq_true'] at h
  exact quiet_learnRoute (hn h.1.1.2) (.lastHop (hs h.1.1.2) h.1.2)
    (NodeId.valid_iff.mpr h.1.1.1) h.2

/-! ## Other messages -/

/-- What an announcement of a proxy for the actor `aid` on `nid` leads to: the actor is
watched from now on, or `nid` is told that it has exited. -/
def Watched (nid : NodeId) (aid : ActorId) (s s' : Broker) : Prop :=
  (s.getEntry aid).2 ≠ ExitReason.notExited ∧ SentKill nid aid (s.getEntry aid).2 s s' ∨
  ∃ ref, s.getEntry aid = (some ref, ExitReason.notExited) ∧
    Attached ref (.sendKillProxyInstance nid aid) s s'

/-- The handler of `announce_proxy_instance` is quiet. -/
theorem quiet_proxyAnnounced {nid : NodeId} {aid : ActorId}
    (hw : ∀ rsn, rsn ≠ ExitReason.notExited → T.watches nid aid rsn) :
    Within (Quiet T) (proxyAnnounced nid aid) s fun _ => Watched nid aid s := by
  refine within_get (within_ite (fun he => ?_) fun he => ?_)
  · exact (quiet_sendKillProxyInstance (hw _ he)).mono fun _ _ _ h => Or.inl ⟨he, h⟩
  · split
    · next ref href =>
      have hentry : s.getEntry aid = (some ref, ExitReason.notExited) :=
        Prod.ext href (by simpa using he)
      have hatt : T.attaches (.sendKillProxyInstance nid aid) := hw
      exact (quiet_attach hatt).mono fun _ _ _ h => Or.inr ⟨ref, hentry, h⟩
    · exact within_throw _

/-- Reporting an undeliverable message is quiet. -/
theorem quiet_reportNoRoute {hdr : Header} {payload : Option Bytes}
    (hb : hdr.sourceNode.equals s.thisNode = false → (s.tbl.route? hdr.sourceNode).isSome = true →
      T.bounces hdr.sourceNode) :
    Within (Quiet T) (reportNoRoute hdr payload) s fun _ _ => True := by
  refine within_get (within_ite (fun _ => within_pure trivial) fun hself => ?_)
  refine (quiet_lookup hdr.sourceNode).bind fun path s₁ h₁ hpath => ?_
  cases path with
  | none => exact within_pure trivial
  | some path =>
    have hroute : (s.tbl.route? hdr.sourceNode).isSome = true := by rw [← hpath.2]; rfl
    rw [← h₁.untouched.thisNode]
    exact (quiet_write (.dispatchError (hb (by simpa using hself) hroute)
      (route?_of_lookup hpath))).mono fun _ _ _ _ => trivial

/-- Forwarding a message is quiet. -/
theorem quiet_forwardMessage {hdr : Header} {payload : Option Bytes} {via : List NodeId}
    (hT : T.relays hdr (payload.getD []) via)
    (hb : hdr.sourceNode.equals s.thisNode = false → s.tbl.route? hdr.destNode = none →
      (s.tbl.route? hdr.sourceNode).isSome = true → T.bounces hdr.sourceNode)
    (hd : hdr.destNode.equals s.thisNode = false) (hh : hdr.isHandshake = false) :
    Within (Quiet T) (forwardMessage hdr payload via) s fun _ _ => True := by
  refine within_get ((quiet_lookup hdr.destNode).bind fun path s₁ h₁ hpath => ?_)
  have hself : s₁.thisNode = s.thisNode := h₁.untouched.thisNode
  cases path with
  | some path =>
    have hrelay : Act T s₁ (s₁.append path.hdl ⟨hdr, payload.getD [], via ++ [s.thisNode]⟩) := by
      rw [← hself]
      exact .relay hT (route?_of_lookup hpath) (by rw [hself, hd]) hh
    refine Within.bind (within_modify_eq hrelay.quiet) fun _ _ _ _ => ?_
    exact (quiet_flush _).bind fun _ _ _ _ => (quiet_notify rfl).mono fun _ _ _ _ => trivial
  | none =>
    refine (quiet_reportNoRoute fun hs hr => ?_).bind fun _ _ _ _ =>
      (quiet_notify rfl).mono fun _ _ _ _ => trivial
    obtain ⟨rfl, hnone⟩ := hpath
    exact hb hs hnone.symm (by simpa using hr)

/-- Dispatching a message that the turn sends is quiet. -/
theorem quiet_dispatch {sender receiver : ActorAddr} {mid : MessageId} {msg : Message}
    (hs : T.sends sender receiver msg) (hh : ∀ r, receiver = .proxy r → r < s.heap.length)
    (hl : ∀ ref ∈ msg.locals, ref < s.actors.length) :
    Within (Quiet T) (dispatch sender receiver mid msg) s fun _ _ => True := by
  refine within_get ((quiet_lookup _).bind fun path s₁ h₁ hpath => ?_)
  cases path with
  | none => exact (quiet_notify rfl).bind fun _ _ _ _ => within_pure trivial
  | some path =>
    -- registering the actors in the message changes no route
    refine Within.bind (within_forM (I := fun s' => s₁.actors.length ≤ s'.actors.length ∧
      s'.tbl = s₁.tbl) ?_ ⟨Nat.le_refl _, rfl⟩) fun _ s₂ h₂ htbl => ?_
    · intro ref hmem s' hle
      have hr : ref < s'.actors.length := by
        have := hl ref hmem
        have := h₁.actors
        omega
      exact (quiet_registerLocal hr).mono fun _ _ hq ht =>
        ⟨Nat.le_trans hle.1 hq.actors, ht.trans hle.2⟩
    have hroute : s₂.tbl.route? (s₂.addrNode receiver) = some path := by
      rw [htbl.2, (h₁.trans h₂).addrNode hh, route?_of_lookup hpath]
    -- nothing is written if the message cannot be serialized
    refine (within_ofExcept _).bind ?_
    rintro payload _ - ⟨rfl, hp⟩
    obtain ⟨-, rfl⟩ := Message.serialize_eq_ok.mp hp
    refine within_get ?_
    refine Within.bind (quiet_write (.dispatch hs hroute)) fun _ _ _ _ => ?_
    refine (quiet_flush _).bind fun _ _ _ _ => ?_
    exact (quiet_notify rfl).bind fun _ _ _ _ => within_pure trivial

end BoostActor
