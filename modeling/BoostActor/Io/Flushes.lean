import BoostActor.Io.NoFaults
import BoostActor.Io.DataStep
import BoostActor.Io.Streams
import BoostActor.Io.Lookup

/-!
# What is flushed

A scribe flushes the connection that it has read from. Whatever else a handler writes,
it has to flush itself. `Flushed` is the frame of the programs that do so:

* `flushed_makeProxy`, `flushed_deserialize`, `flushed_deliver`, ... — one lemma for each
  program, whatever state it starts in and however it ends;
* `others_flushed` — a message leaves no bytes behind on other connections, unless a
  dispatch error goes out over one of them.

The frame also records what kind of messages a program appends.
-/

namespace BoostActor

open Lib

/-- What a program may do to connections while the broker reads from `hdl`: other
connections are left as they are, or flushed. It appends messages in `ok` only. -/
structure Flushed (ok : Packet → Prop) (hdl : ConnectionHandle) (s s' : Broker) : Prop where
  others : ∀ {hdl' c'}, hdl' ≠ hdl → s'.scribes.find? hdl' = some c' →
    s.scribes.find? hdl' = some c' ∨ c'.wrBuf = []
  appended : ∀ hdl', ∃ new, s'.stream hdl' = s.stream hdl' ++ new ∧ ∀ p ∈ new, ok p
  process : s'.process = s.process
  context : s'.thisContext = s.thisContext
  /-- contexts keep their handles -/
  ctx : ∀ {hdl' c'}, s'.ctx.find? hdl' = some c' → ∃ c, s.ctx.find? hdl' = some c ∧ c'.hdl = c.hdl

variable {ok : Packet → Prop} {hdl : ConnectionHandle} {s s' : Broker}

instance : Frame (Flushed ok hdl) where
  refl _ := ⟨fun _ h => Or.inl h, fun _ => ⟨[], by simp, by simp⟩, rfl, rfl, fun h => ⟨_, h, rfl⟩⟩
  trans h h' := by
    refine ⟨fun hne hc => ?_, fun hdl' => ?_, h'.process.trans h.process,
      h'.context.trans h.context, fun hc => ?_⟩
    · rcases h'.others hne hc with hb | he
      · exact h.others hne hb
      · exact Or.inr he
    · obtain ⟨new, hs, hok⟩ := h.appended hdl'
      obtain ⟨new', hs', hok'⟩ := h'.appended hdl'
      refine ⟨new ++ new', by rw [hs', hs, List.append_assoc], fun p hp => ?_⟩
      exact (List.mem_append.mp hp).elim (hok p) (hok' p)
    · obtain ⟨c, hb, hh⟩ := h'.ctx hc
      obtain ⟨c₀, ha, hh₀⟩ := h.ctx hb
      exact ⟨c₀, ha, hh.trans hh₀⟩

/-- The program stays in the frame. -/
abbrev Flushes {α : Type} (ok : Packet → Prop) (hdl : ConnectionHandle) (x : M α) (s : Broker) :
    Prop := Within (Flushed ok hdl) x s fun _ _ => True

/-- Any message at all. -/
def anyPacket (_ : Packet) : Prop := True

theorem flushes_pure {α : Type} (a : α) : Flushes ok hdl (pure a) s := within_pure trivial

-- -------------------------
-- States
-- -------------------------

namespace Flushed

/-- Changes that concern neither connections nor contexts. -/
theorem of_same (hs : s'.scribes = s.scribes) (hp : s'.process = s.process)
    (ht : s'.thisContext = s.thisContext) (hc : s'.ctx = s.ctx) : Flushed ok hdl s s' := by
  refine ⟨fun _ h => Or.inl (hs ▸ h), fun hdl' => ⟨[], ?_, by simp⟩, hp, ht,
    fun h => ⟨_, hc ▸ h, rfl⟩⟩
  rw [Broker.stream_of_scribes hs, List.append_nil]

theorem note (e : Event) : Flushed ok hdl s (s.note e) := of_same rfl rfl rfl rfl

theorem killsOnly (h : KillsOnly s s') : Flushed ok hdl s s' := by
  obtain ⟨_, _, _, rfl⟩ := h.eq
  exact of_same rfl rfl rfl rfl

/-- Changing a context, but not its handle. -/
theorem modifyCtx {f : ConnectionContext → ConnectionContext} (hf : ∀ c, (f c).hdl = c.hdl)
    (k : ConnectionHandle) : Flushed ok hdl s (s.modifyCtx k f) := by
  refine ⟨fun _ h => Or.inl h, fun _ => ⟨[], (List.append_nil _).symm, by simp⟩, rfl, rfl, ?_⟩
  intro hdl' c' h
  rw [Broker.find?_modifyCtx] at h
  split at h
  · rw [Option.map_eq_some_iff] at h
    obtain ⟨c, hc, rfl⟩ := h
    exact ⟨c, hc, hf c⟩
  · exact ⟨c', h, rfl⟩

/-- Erasing a context. -/
theorem eraseCtx (k : ConnectionHandle) : Flushed ok hdl s { s with ctx := s.ctx.erase k } := by
  refine ⟨fun _ h => Or.inl h, fun _ => ⟨[], (List.append_nil _).symm, by simp⟩, rfl, rfl, ?_⟩
  intro hdl' c' h
  have h : (s.ctx.erase k).find? hdl' = some c' := h
  rw [UMap.find?_erase] at h
  split at h
  · cases h
  · exact ⟨c', h, rfl⟩

/-- Purging a node writes to nothing. -/
theorem purgeState (nid : NodeId) : Flushed ok hdl s (s.purgeState nid) := by
  unfold Broker.purgeState
  dsimp only
  split
  · exact Frame.refl s
  · refine Frame.trans (killsOnly (Broker.eraseNode_killsOnly nid)) ?_
    exact Frame.trans (eraseCtx (s.tbl.lookupDirect nid)) (of_same rfl rfl rfl rfl)

/-- Erasing a direct route writes to nothing. -/
theorem eraseDirect (k : ConnectionHandle) : Flushed ok hdl s (s.eraseDirect k) := by
  unfold Broker.eraseDirect
  split
  · exact Frame.refl s
  · exact Frame.trans (purgeState _) (of_same rfl rfl rfl rfl)

theorem bindDirect (k : ConnectionHandle) (nid : NodeId) :
    Flushed ok hdl s (s.bindDirect k nid) := by
  rw [Broker.bindDirect_eq]
  exact of_same rfl rfl rfl rfl

/-- A message to the connection that is read from. -/
theorem appendSelf {p : Packet} (hp : ok p) : Flushed ok hdl s (s.append hdl p) := by
  refine ⟨fun {hdl' c'} hne h => Or.inl ?_, fun hdl' => ?_, rfl, rfl, fun h => ⟨_, h, rfl⟩⟩
  · have h : (s.scribes.adjust hdl _).find? hdl' = some c' := h
    rwa [UMap.find?_adjust, if_neg (by simpa using hne.symm)] at h
  · rw [Broker.stream_append]
    refine ⟨_, rfl, fun q hq => ?_⟩
    split at hq
    · rw [List.mem_singleton.mp hq]
      exact hp
    · cases hq

/-- Flushing a connection leaves nothing unflushed there. -/
theorem flush (k : ConnectionHandle) : Flushed ok hdl s (s.flush k) := by
  refine ⟨fun {hdl' c'} _ h => ?_, fun hdl' => ⟨[], by simp, by simp⟩, rfl, rfl,
    fun h => ⟨_, h, rfl⟩⟩
  have h : (s.scribes.adjust k _).find? hdl' = some c' := h
  rw [UMap.find?_adjust] at h
  split at h
  · rw [Option.map_eq_some_iff] at h
    obtain ⟨c, -, rfl⟩ := h
    exact Or.inr rfl
  · exact Or.inl h

/-- A message to a connection that has been closed is dropped. -/
theorem appendClosed {k : ConnectionHandle} (hc : s.scribes.find? k = none) (p : Packet) :
    Flushed ok hdl s (s.append k p) := by
  have hadj : s.append k p = s := by
    rw [Broker.append, UMap.adjust_of_none hc]
  rw [hadj]
  exact Frame.refl s

/-- A message to any connection, which is flushed then. -/
theorem appendFlush {k : ConnectionHandle} {p : Packet} (hp : ok p) :
    Flushed ok hdl s ((s.append k p).flush k) := by
  refine ⟨fun {hdl' c'} _ h => ?_, fun hdl' => ?_, rfl, rfl, fun h => ⟨_, h, rfl⟩⟩
  · have h : ((s.scribes.adjust k _).adjust k _).find? hdl' = some c' := h
    rw [UMap.find?_adjust] at h
    split at h
    · rw [Option.map_eq_some_iff] at h
      obtain ⟨c, -, rfl⟩ := h
      exact Or.inr rfl
    · next hk => rwa [UMap.find?_adjust, if_neg hk, or_iff_left_of_imp fun _ => h] at *
  · rw [Broker.stream_flush, Broker.stream_append]
    refine ⟨_, rfl, fun q hq => ?_⟩
    split at hq
    · rw [List.mem_singleton.mp hq]
      exact hp
    · cases hq

end Flushed

/-- The current context is that of the connection that is read from. -/
structure InContext (hdl : ConnectionHandle) (s : Broker) : Prop where
  current : s.thisContext = some hdl
  handle : ∀ {c}, s.ctx.find? hdl = some c → c.hdl = hdl

/-- The context of the connection stays the current one. -/
theorem InContext.mono (h : InContext hdl s) (hf : Flushed ok hdl s s') : InContext hdl s' := by
  refine ⟨hf.context.trans h.current, fun hc => ?_⟩
  obtain ⟨c, hc₀, hh⟩ := hf.ctx hc
  rw [hh, h.handle hc₀]

theorem InContext.hdl_eq (h : InContext hdl s) {c : ConnectionContext}
    (hc : s.context? = some c) : c.hdl = hdl := by
  rw [Broker.context?, h.current, Option.bind_some] at hc
  exact h.handle hc

-- -------------------------
-- Messages
-- -------------------------

/-- A change of the state that keeps to the frame is a program that does. -/
theorem flushed_modify {f : Broker → Broker} (h : Flushed ok hdl s (f s)) :
    Flushes ok hdl (modify f) s := within_modify h trivial

/-- Noting an event is a program that writes to nothing. -/
theorem flushed_notify (e : Event) : Flushes ok hdl (notify e) s := flushed_modify (.note e)

theorem flushed_byId (k : ConnectionHandle) : Flushes ok hdl (byId k) s :=
  (within_byId k).mono fun _ _ _ _ => trivial

/-- Changing the current context writes to nothing. -/
theorem flushed_modifyContext {f : ConnectionContext → ConnectionContext}
    (hf : ∀ c, (f c).hdl = c.hdl) : Flushes ok hdl (modifyContext f) s := by
  refine flushed_modify ?_
  cases s.thisContext with
  | none => exact Frame.refl s
  | some k => exact .modifyCtx hf k

/-- A lookup prunes dead hops; the route it returns is an open connection. -/
theorem flushed_openLookup (nid : NodeId) :
    Within (Flushed ok hdl) (lookup nid) s fun r s' =>
      (s' = { s with tbl := s.tbl.prune nid } ∧ r = s.tbl.route? nid) ∧
        ∀ path, r = some path → s.scribes.contains path.hdl = true := by
  have hprune : Flushed ok hdl s { s with tbl := s.tbl.prune nid } := .of_same rfl rfl rfl rfl
  refine within_get ((within_modify_eq hprune).bind ?_)
  rintro _ _ - rfl
  split
  · next h => exact within_pure ⟨⟨rfl, h.symm⟩, by simp⟩
  · next r h =>
    refine (within_byId _).bind ?_
    rintro c _ - ⟨rfl, hc⟩
    refine within_pure ⟨⟨rfl, h.symm⟩, ?_⟩
    rintro path ⟨rfl⟩
    exact UMap.contains_iff.mpr ⟨c, hc⟩

/-- A lookup changes which hops are listed, not which routes there are. -/
theorem flushed_lookup (nid : NodeId) : Within (Flushed ok hdl) (lookup nid) s fun r s' =>
    r = s.tbl.route? nid ∧ s'.tbl.route? = s.tbl.route? := by
  refine (flushed_openLookup nid).mono ?_
  rintro r _ - ⟨⟨rfl, hr⟩, -⟩
  exact ⟨hr, funext (RoutingTable.route?_prune _ _)⟩

/-- `flush` leaves the table alone. -/
theorem flushed_flush (k : ConnectionHandle) :
    Within (Flushed ok hdl) (flush k) s fun _ s' => s'.tbl = s.tbl := by
  refine (within_byId k).bind ?_
  rintro _ _ - ⟨rfl, -⟩
  exact within_modify (.flush k) rfl

/-- A message to the connection that is read from. -/
theorem flushed_write {hdr : Header} {pw : Option Bytes}
    (hp : ok ⟨hdr.withPayload pw, pw.getD [], []⟩) :
    Within (Flushed ok hdl) (write hdl hdr pw) s fun _ s' => s' = s.write hdl hdr pw :=
  within_modify_eq (Frame.trans (Flushed.appendSelf hp) (.note _))

/-- Appending a message, and flushing at once. -/
theorem flushed_appendFlush {k : ConnectionHandle} {p : Packet} (es : List Event) (hp : ok p) :
    Within (Flushed ok hdl)
      (do modify (fun s => es.foldl Broker.note (s.append k p)); flush k) s
      fun _ s' => s'.tbl = s.tbl := by
  have hnotes : ∀ (es : List Event) (u : Broker), (es.foldl Broker.note u).scribes = u.scribes ∧
      (es.foldl Broker.note u).tbl = u.tbl ∧
      Flushed ok hdl u (es.foldl Broker.note u) ∧
      (es.foldl Broker.note u).flush k = es.foldl Broker.note (u.flush k) := by
    intro es
    induction es with
    | nil => exact fun u => ⟨rfl, rfl, Frame.refl u, rfl⟩
    | cons e es ih =>
      intro u
      obtain ⟨hs, ht, hf, hfl⟩ := ih (u.note e)
      exact ⟨hs, ht, Frame.trans (Flushed.note e) hf, hfl⟩
  obtain ⟨hs, ht, hf, hfl⟩ := hnotes es (s.append k p)
  refine after_bind.mpr (after_modify.mpr (after_bind.mpr (after_bind.mpr (after_get.mpr ?_))))
  rw [hs]
  -- a connection that is closed takes nothing, so nothing stays behind
  cases hc : s.scribes.find? k with
  | none =>
    have hnone : (s.append k p).scribes.find? k = none := by
      rw [Broker.append, UMap.adjust_of_none hc, hc]
    rw [hnone]
    exact Frame.trans (Flushed.appendClosed hc p) hf
  | some c =>
    have hsome : (s.append k p).scribes.find? k = some { c with wrBuf := c.wrBuf ++ [p] } := by
      show (s.scribes.adjust k _).find? k = _
      rw [UMap.find?_adjust, if_pos BEq.rfl, hc]
      rfl
    rw [hsome]
    refine ⟨?_, ht⟩
    show Flushed ok hdl s (Broker.flush _ k)
    rw [hfl]
    exact Frame.trans (Flushed.appendFlush hp) (hnotes es _).2.2.1

/-- Writing a message, and flushing at once. -/
theorem flushed_writeFlush {k : ConnectionHandle} {hdr : Header} {pw : Option Bytes}
    (hp : ok ⟨hdr.withPayload pw, pw.getD [], []⟩) :
    Within (Flushed ok hdl) (do write k hdr pw; flush k) s fun _ s' => s'.tbl = s.tbl :=
  flushed_appendFlush [.wrote k ⟨hdr.withPayload pw, pw.getD [], []⟩] hp

/-- Reporting a dead proxy writes and flushes. -/
theorem flushed_sendKillProxyInstance (nid : NodeId) (aid : ActorId) (rsn : ExitReason) :
    Flushes anyPacket hdl (sendKillProxyInstance nid aid rsn) s := by
  refine (flushed_lookup nid).bind fun path s₁ _ _ => ?_
  cases path with
  | none => exact flushes_pure _
  | some path =>
    dsimp only [writeKillProxyInstance]
    rw [bind_assoc]
    exact within_get ((flushed_writeFlush trivial).mono fun _ _ _ _ => trivial)

-- -------------------------
-- Local actors
-- -------------------------

/-- Attaching the functor of the registry writes nothing. -/
theorem flushed_attachEntry (ref : ActorRef) (key : ActorId) :
    Within (Flushed ok hdl) (attach ref (.eraseEntry key)) s fun _ s' => s'.tbl = s.tbl := by
  refine within_get ?_
  split
  · exact within_pure rfl
  · refine within_ite (fun _ => within_modify (.of_same rfl rfl rfl rfl) rfl) fun _ => ?_
    exact within_modify (.of_same rfl rfl rfl rfl) rfl

/-- Attaching a functor writes only what it flushes. -/
theorem flushed_attach (ref : ActorRef) (a : Attachable) :
    Flushes anyPacket hdl (attach ref a) s := by
  refine within_get ?_
  split
  · exact flushes_pure _
  · refine within_ite (fun _ => flushed_modify (.of_same rfl rfl rfl rfl)) fun _ => ?_
    cases a with
    | eraseEntry key => exact flushed_modify (.of_same rfl rfl rfl rfl)
    | sendKillProxyInstance nid aid => exact flushed_sendKillProxyInstance nid aid _

/-- Registering an actor writes to nothing. -/
theorem flushed_registerLocal (ref : ActorRef) :
    Within (Flushed ok hdl) (registerLocal ref) s fun _ s' => s'.tbl = s.tbl := by
  refine within_get (within_get (within_ite (fun _ => within_pure rfl) fun _ => ?_))
  refine Within.bind (within_modify_eq (.of_same rfl rfl rfl rfl)) ?_
  rintro _ _ - rfl
  exact flushed_attachEntry ref _

theorem flushed_spawn : Within (Flushed ok hdl) spawn s fun _ s' => s'.tbl = s.tbl := by
  refine within_get (Within.bind (within_modify_eq (.of_same rfl rfl rfl rfl)) ?_)
  rintro _ _ - rfl
  exact within_pure rfl

-- -------------------------
-- New nodes
-- -------------------------

/-- Messages that are dispatched to an actor are among those in question. -/
def Dispatches (ok : Packet → Prop) : Prop := ∀ p, p.hdr.operation = .dispatchMessage → ok p

/-- Asking a node for a named actor writes and flushes. -/
theorem flushed_requestNamed (hok : Dispatches ok) (path : Route) (name : String) (nid : NodeId)
    (ref : ActorRef) (msg : Message) :
    Within (Flushed ok hdl) (requestNamed path name nid ref msg) s fun _ s' => s'.tbl = s.tbl :=
  within_get (flushed_writeFlush (hok _ rfl))

/-- The routes are those that there were. -/
def SameRoutes (s s' : Broker) : Prop := s'.tbl.route? = s.tbl.route?

theorem SameRoutes.of_tbl (h : s'.tbl = s.tbl) : SameRoutes s s' := by
  rw [SameRoutes, h]

/-- `learned_new_node` keeps the routes and flushes what it writes. -/
theorem flushed_learnedNewNode (hok : Dispatches ok) (nid : NodeId) :
    Within (Flushed ok hdl) (learnedNewNode nid) s fun _ => SameRoutes s := by
  refine flushed_spawn.bind fun tmp s₁ _ h₁ => ?_
  refine Within.bind (within_modify_eq (.of_same rfl rfl rfl rfl)) ?_
  rintro _ _ - rfl
  refine (flushed_registerLocal tmp).bind fun _ s₂ _ h₂ => ?_
  have hs₂ : SameRoutes s s₂ := .of_tbl (h₂.trans h₁)
  refine (flushed_lookup nid).bind fun path s₃ _ h₃ => ?_
  have hs₃ : SameRoutes s s₃ := h₃.2.trans hs₂
  cases path with
  | none => exact within_pure hs₃
  | some path =>
    refine (flushed_requestNamed hok path _ nid tmp _).mono fun _ _ _ h => ?_
    rw [SameRoutes, h]
    exact hs₃

/-- `learned_new_node_indirectly` keeps the routes and flushes what it writes. -/
theorem flushed_learnedNewNodeIndirectly (hok : Dispatches ok) (nid : NodeId) :
    Within (Flushed ok hdl) (learnedNewNodeIndirectly nid) s fun _ => SameRoutes s := by
  refine (flushed_learnedNewNode hok nid).bind fun _ s₁ _ h₁ => within_get ?_
  refine within_ite (fun _ => within_pure h₁) fun _ => ?_
  refine (flushed_lookup nid).bind fun path s₂ _ h₂ => ?_
  have hs₂ : SameRoutes s s₂ := h₂.2.trans h₁
  cases path with
  | none => exact within_pure hs₂
  | some path =>
    refine within_ite (fun _ => within_pure hs₂) fun _ => ?_
    refine flushed_spawn.bind fun tmp s₃ _ h₃ => ?_
    refine (flushed_registerLocal tmp).bind fun _ s₄ _ h₄ => ?_
    refine (flushed_requestNamed hok path _ nid tmp _).mono fun _ _ _ h => ?_
    rw [SameRoutes, h, h₄, h₃]
    exact hs₂

/-- The table after a hop was learned. -/
def RoutingTable.learned (t : RoutingTable) (hop dest : NodeId) : RoutingTable :=
  if t.blacklisted hop dest then t else t.addHop hop dest

/-- Learning a route adds the hop and flushes what it writes. -/
theorem flushed_learnRoute (hok : Dispatches ok) (hop dest : NodeId) :
    Within (Flushed ok hdl) (learnRoute hop dest) s fun _ s' =>
      s'.tbl.route? = (s.tbl.learned hop dest).route? := by
  have hadd : Within (Flushed ok hdl) (addIndirect hop dest) s fun _ s' =>
      s'.tbl = s.tbl.learned hop dest := by
    unfold RoutingTable.learned
    refine within_get (within_ite (fun hb => within_pure (by rw [if_pos hb])) fun hb => ?_)
    refine Within.bind (within_modify_eq (.of_same rfl rfl rfl rfl)) ?_
    rintro _ _ - rfl
    exact within_pure (by rw [if_neg hb]; rfl)
  refine hadd.bind fun added s₁ _ h₁ => ?_
  rw [← h₁]
  exact within_ite (fun _ => flushed_learnedNewNodeIndirectly hok dest) fun _ => within_pure rfl

/-- `learned_new_node_directly` flushes what it writes. -/
theorem flushed_learnedNewNodeDirectly (nid : NodeId) (was : Bool) :
    Flushes anyPacket hdl (learnedNewNodeDirectly nid was) s :=
  within_ite (fun _ => flushes_pure _) fun _ =>
    (flushed_learnedNewNode (fun _ _ => trivial) nid).mono fun _ _ _ _ => trivial

-- -------------------------
-- Proxies
-- -------------------------

/-- The table in which `make_proxy` looks up a node, when the handle arrived in the
context `c`. -/
def RoutingTable.offered (t : RoutingTable) (c : ConnectionContext) (nid : NodeId) : RoutingTable :=
  if !nid.equals c.id && !t.connected nid then t.learned c.id nid else t

/-- Learning from a handle adds the hop of the connection and flushes what it writes. -/
theorem flushed_learnHandle (hok : Dispatches ok) (c : ConnectionContext) (nid : NodeId) :
    Within (Flushed ok hdl) (learnHandle c nid) s fun _ s' =>
      s'.tbl.route? = (s.tbl.offered c nid).route? := by
  unfold RoutingTable.offered
  refine within_get (within_ite (fun h => ?_) fun h => within_pure ?_)
  · rw [if_pos h]
    exact flushed_learnRoute hok c.id nid
  · rw [if_neg h]

/-- The announcement goes to the connection of the context, which is the one that is
read from. -/
theorem flushed_announceProxy {c : ConnectionContext} (hc : c.hdl = hdl) (path : Route)
    (nid : NodeId) (aid : ActorId) : Flushes anyPacket hdl (announceProxy c path nid aid) s := by
  unfold announceProxy newProxy
  simp only [bind_assoc, pure_bind]
  refine within_get (Within.bind (flushed_modify (.of_same rfl rfl rfl rfl)) fun _ _ _ _ => ?_)
  refine (flushed_byId c.hdl).bind fun _ _ _ _ => within_get ?_
  rw [hc]
  refine Within.bind (flushed_write trivial) fun _ _ _ _ => ?_
  refine (flushed_flush path.hdl).bind fun _ _ _ _ => ?_
  exact (flushed_notify _).bind fun _ _ _ _ => flushes_pure _

/-- `make_proxy` flushes what it writes to other connections. -/
theorem flushed_makeProxy (hi : InContext hdl s) (nid : NodeId) (aid : ActorId) :
    Flushes anyPacket hdl (makeProxy nid aid) s := by
  refine within_ite (fun _ => flushes_pure _) fun _ => ?_
  refine within_context.bind ?_
  rintro c _ - ⟨rfl, hc⟩
  refine (flushed_learnHandle (fun _ _ => trivial) c nid).bind fun _ _ _ _ => ?_
  refine (flushed_lookup nid).bind fun path _ _ _ => ?_
  cases path with
  | none => exact flushes_pure _
  | some path =>
    exact (flushed_announceProxy (hi.hdl_eq hc) path nid aid).bind fun _ _ _ _ => flushes_pure _

/-- `get_or_put` flushes what it writes to other connections. -/
theorem flushed_getOrPut (hi : InContext hdl s) (nid : NodeId) (aid : ActorId) :
    Flushes anyPacket hdl (getOrPut nid aid) s := by
  have hreserve : Flushed anyPacket hdl s (s.reserve nid aid) := .of_same rfl rfl rfl rfl
  refine Within.bind (within_modify_eq hreserve) ?_
  rintro _ _ - rfl
  refine within_get ?_
  split
  · exact flushes_pure _
  · refine (flushed_makeProxy (hi.mono hreserve) nid aid).bind fun r _ _ _ => ?_
    cases r with
    | none => exact flushes_pure _
    | some r => exact (flushed_modify (.of_same rfl rfl rfl rfl)).bind fun _ _ _ _ => flushes_pure _

/-- Reading an address flushes what it writes to other connections. -/
theorem flushed_readAddr (hi : InContext hdl s) (a : AddrRef) :
    Flushes anyPacket hdl (readAddr a) s := by
  refine within_ite (fun _ => flushes_pure _) fun _ => within_get ?_
  refine within_ite (fun _ => flushes_pure _) fun _ => ?_
  refine (flushed_getOrPut hi a.node a.aid).bind fun r _ _ _ => ?_
  cases r with
  | none => exact within_throw _
  | some r => exact flushes_pure _

/-- Reading a message flushes what it writes to other connections. -/
theorem flushed_deserialize (hi : InContext hdl s) (payload : Bytes) :
    Flushes anyPacket hdl (deserialize payload) s := by
  refine within_get (Within.bind (within_forM (I := InContext hdl) ?_ hi) ?_)
  · intro a _ u hu
    exact (flushed_readAddr hu a).mono fun _ _ hf _ => hu.mono hf
  · intro _ _ _ _
    split
    · exact flushes_pure _
    · exact within_throw _

/-- Resolving an address flushes what it writes to other connections. -/
theorem flushed_resolve (hi : InContext hdl s) (nid : NodeId) (aid : ActorId) :
    Flushes anyPacket hdl (resolve nid aid) s := by
  refine within_get (within_ite (fun _ => flushes_pure _) fun _ => ?_)
  refine (flushed_getOrPut hi nid aid).bind fun r _ _ _ => ?_
  cases r with
  | none => exact flushes_pure _
  | some r => exact flushes_pure _

/-- The handler of `announce_proxy_instance` flushes what it writes to other connections. -/
theorem flushed_proxyAnnounced (nid : NodeId) (aid : ActorId) :
    Flushes anyPacket hdl (proxyAnnounced nid aid) s := by
  refine within_get (within_ite (fun _ => flushed_sendKillProxyInstance nid aid _) fun _ => ?_)
  split
  · exact flushed_attach _ _
  · exact within_throw _

-- -------------------------
-- Complete messages
-- -------------------------

/-- Delivering to an actor flushes what it writes to other connections. -/
theorem flushed_deliverTo (hi : InContext hdl s) (destNode : NodeId) (destActor : ActorId)
    (mid : MessageId) : Flushes anyPacket hdl (deliverTo destNode destActor mid) s := by
  refine within_get (within_ite (fun _ => ?_) fun _ => within_ite (fun _ => ?_) fun _ => ?_)
  · refine (flushed_getOrPut hi destNode destActor).bind fun r _ _ _ => ?_
    cases r with
    | none => exact flushes_pure _
    | some r => exact flushes_pure _
  · split <;> exact flushes_pure _
  · exact flushes_pure _

/-- `deliver` flushes what it writes to other connections. -/
theorem flushed_deliver (hi : InContext hdl s) (sourceNode : NodeId) (sourceActor : ActorId)
    (destNode : NodeId) (destActor : ActorId) (mid : MessageId) :
    Flushes anyPacket hdl (deliver sourceNode sourceActor destNode destActor mid) s := by
  refine (flushed_resolve hi sourceNode sourceActor).bind fun src s₁ h₁ _ => ?_
  refine (flushed_deliverTo (hi.mono h₁) destNode destActor mid).bind fun dest _ _ _ => ?_
  refine within_ite (fun _ => ?_) fun _ => flushed_notify _
  refine (flushed_notify _).bind fun _ _ _ _ => within_ite (fun _ => ?_) fun _ => flushes_pure _
  exact within_ite (fun _ => flushed_notify _) fun _ => flushes_pure _

/-- The end of a handshake flushes what it writes to other connections. -/
theorem flushed_finalizeHandshake (hi : InContext hdl s) (nid : NodeId) (aid : ActorId)
    (sigs : List Bytes) : Flushes anyPacket hdl (finalizeHandshake nid aid sigs) s := by
  have hid : Flushes anyPacket hdl (modifyContext fun c => { c with id := nid }) s :=
    flushed_modifyContext fun _ => rfl
  refine hid.bind fun _ s₁ h₁ _ => ?_
  refine within_context.bind ?_
  rintro c _ - ⟨rfl, -⟩
  split
  · exact flushes_pure _
  · have htake : ∀ u, Flushes anyPacket hdl
        (modifyContext fun c => { c with callback := none }) u :=
      fun _ => flushed_modifyContext fun _ => rfl
    refine (htake _).bind fun _ s₂ h₂ _ => ?_
    refine within_ite (fun _ => flushed_notify _) fun _ => ?_
    refine (flushed_resolve ((hi.mono h₁).mono h₂) nid aid).bind fun addr _ _ _ => ?_
    have hremember : ∀ u, Flushes anyPacket hdl (rememberRemote nid c.remotePort addr) u :=
      fun u => within_get (within_ite (fun _ => flushed_modify (.of_same rfl rfl rfl rfl))
        fun _ => flushes_pure _)
    exact (hremember _).bind fun _ _ _ _ => flushed_notify _

theorem flushed_err (k : ConnectionHandle) : Flushes anyPacket hdl (err k) s :=
  (flushed_modify (.eraseDirect k)).bind fun _ _ _ _ => flushes_pure _

/-- The route to a node that has just been bound goes over its connection. -/
theorem RoutingTable.route?_bound {t : RoutingTable} {nid : NodeId} {r : Route}
    (hf : t.directByNid.find? nid = some hdl) (hi : t.hops nid = [])
    (hr : t.route? nid = some r) : r.hdl = hdl := by
  unfold route? at hr
  split at hr
  · cases hr
    rw [lookupDirect, hf]
    rfl
  · rw [hi] at hr
    cases hr

/-- A node that has just been bound is reached over its connection. -/
theorem Broker.bindDirect_route {nid : NodeId} {r : Route}
    (hf : s.tbl.directByNid.find? nid = none)
    (hr : (s.bindDirect hdl nid).tbl.route? nid = some r) : r.hdl = hdl := by
  rw [bindDirect_eq] at hr
  refine RoutingTable.route?_bound ?_ ?_ hr
  · show (s.tbl.directByNid.emplace nid hdl).find? nid = some hdl
    rw [UMap.find?_emplace_of_none hf, if_pos BEq.rfl]
  · show ((s.tbl.indirect.erase nid).find? nid).getD [] = []
    rw [UMap.find?_erase_self]
    rfl

/-- A server handshake flushes what it writes to other connections. -/
theorem flushed_serverHandshake (hi : InContext hdl s) (hdr : Header) (payload : Option Bytes)
    (hn : s.tbl.connected hdr.sourceNode = false → s.tbl.directByNid.find? hdr.sourceNode = none) :
    Flushes anyPacket hdl (serverHandshake hdl hdr payload) s := by
  unfold serverHandshake
  cases hp : handshakePayload hdr payload with
  | error e => exact within_throw _
  | ok r =>
    obtain ⟨aid, sigs⟩ := r
    refine within_get (within_ite (fun _ => ?_) fun hnew => ?_)
    · -- the node is this one or known already: the handshake is refused
      refine (flushed_finalizeHandshake hi hdr.sourceNode aid sigs).bind fun _ _ _ _ => ?_
      exact flushed_err hdl
    · rw [Bool.or_eq_true, not_or, Bool.not_eq_true, Bool.not_eq_true] at hnew
      have hbind : Flushed anyPacket hdl s (s.bindDirect hdl hdr.sourceNode) := .bindDirect hdl _
      refine Within.bind (within_modify_eq hbind) ?_
      rintro _ _ - rfl
      refine (flushed_lookup hdr.sourceNode).bind fun path s₁ h₁ hpath => ?_
      cases path with
      | none => exact flushed_err hdl
      | some path =>
        -- the route of the new node is the connection itself
        have hself : path.hdl = hdl := Broker.bindDirect_route (hn hnew.2) hpath.1.symm
        dsimp only
        rw [hself]
        have hwrite : ∀ u, Flushes anyPacket hdl (writeClientHandshake hdl hdr.sourceNode) u :=
          fun u => within_get ((flushed_write trivial).mono fun _ _ _ _ => trivial)
        refine (hwrite s₁).bind fun _ s₂ h₂ _ => ?_
        refine (flushed_learnedNewNodeDirectly _ _).bind fun _ s₃ h₃ _ => ?_
        have hi₃ := (((hi.mono hbind).mono h₁).mono h₂).mono h₃
        refine (flushed_finalizeHandshake hi₃ _ aid sigs).bind fun _ _ _ _ => ?_
        exact (flushed_flush hdl).bind fun _ _ _ _ => flushes_pure _

/-- A client handshake flushes what it writes to other connections. -/
theorem flushed_clientHandshake (hdr : Header) :
    Flushes anyPacket hdl (clientHandshake hdl hdr) s := by
  refine within_get (within_ite (fun _ => flushes_pure _) fun _ => ?_)
  refine (flushed_modify (.bindDirect hdl _)).bind fun _ _ _ _ => ?_
  exact (flushed_learnedNewNodeDirectly _ _).bind fun _ _ _ _ => flushes_pure _

/-- Dispatching a message flushes what it writes to other connections. -/
theorem flushed_dispatchMessage (hi : InContext hdl s) (hdr : Header) (payload : Option Bytes) :
    Flushes anyPacket hdl (dispatchMessage hdl hdr payload) s := by
  have hlearn : Flushes anyPacket hdl (learnSource hdl hdr.sourceNode) s := by
    refine within_get (within_ite (fun _ => ?_) fun _ => flushes_pure _)
    exact (flushed_learnRoute (fun _ _ => trivial) _ _).mono fun _ _ _ _ => trivial
  refine within_ite (fun _ => flushed_err hdl) fun _ => ?_
  refine hlearn.bind fun _ s₁ h₁ _ => ?_
  refine (flushed_deserialize (hi.mono h₁) _).bind fun _ s₂ h₂ _ => ?_
  exact (flushed_deliver ((hi.mono h₁).mono h₂) _ _ _ _ _).bind fun _ _ _ _ => flushes_pure _

/-- A valid message for another node cannot be passed on, and its source is told so over
the connection `path`. -/
structure Undeliverable (s : Broker) (hdr : Header) (path : Route) : Prop where
  valid : hdr.valid = true
  plain : hdr.isHandshake = false
  elsewhere : hdr.destNode.equals s.thisNode = false
  unrouted : s.tbl.route? hdr.destNode = none
  foreign : hdr.sourceNode.equals s.thisNode = false
  reverse : s.tbl.route? hdr.sourceNode = some path
  opened : s.scribes.contains path.hdl = true

/-- Passing a message on is flushed; a dispatch error is not, so that it must go over the
connection that is read from. -/
theorem flushed_forwardMessage {hdr : Header} (payload : Option Bytes) (via : List NodeId)
    (hv : hdr.valid = true) (hh : hdr.isHandshake = false)
    (hd : hdr.destNode.equals s.thisNode = false)
    (hb : ∀ path, Undeliverable s hdr path → path.hdl = hdl) :
    Flushes anyPacket hdl (forwardMessage hdr payload via) s := by
  refine within_get ?_
  refine (flushed_openLookup hdr.destNode).bind ?_
  rintro path s₁ - ⟨⟨rfl, hpath⟩, -⟩
  cases path with
  | some path =>
    dsimp only
    rw [← bind_assoc]
    exact (flushed_appendFlush [] trivial).bind fun _ _ _ _ => flushed_notify _
  | none =>
    -- without a route the sender gets an error, which is written but not flushed
    suffices hreport : Flushes anyPacket hdl (reportNoRoute hdr payload)
        { s with tbl := s.tbl.prune hdr.destNode } from
      hreport.bind fun _ _ _ _ => flushed_notify _
    refine within_get (within_ite (fun _ => flushes_pure _) fun hforeign => ?_)
    refine (flushed_openLookup hdr.sourceNode).bind ?_
    rintro reverse s₂ - ⟨⟨rfl, hreverse⟩, hopen⟩
    cases reverse with
    | none => exact flushes_pure _
    | some reverse =>
      rw [RoutingTable.route?_prune] at hreverse
      have hforeign : ¬ hdr.sourceNode.equals s.thisNode = true := hforeign
      have hbad : Undeliverable s hdr reverse :=
        ⟨hv, hh, hd, hpath.symm, by simpa using hforeign, hreverse.symm, hopen reverse rfl⟩
      dsimp only [writeDispatchError]
      -- the way back is this connection, where writing is no offence
      rw [hb reverse hbad]
      exact (flushed_write trivial).mono fun _ _ _ _ => trivial

/-- Processing a message flushes what it writes to other connections, errors of undeliverable
messages apart. -/
theorem flushed_processMessage (hi : InContext hdl s) (hdr : Header) (payload : Option Bytes)
    (via : List NodeId)
    (hn : s.tbl.connected hdr.sourceNode = false → s.tbl.directByNid.find? hdr.sourceNode = none)
    (hb : ∀ path, Undeliverable s hdr path → path.hdl = hdl) :
    Flushes anyPacket hdl (processMessage hdl hdr payload via) s := by
  refine within_ite (fun _ => flushed_err hdl) fun hv => within_get ?_
  refine within_ite (fun hfwd => ?_) fun _ => ?_
  · simp only [Bool.and_eq_true, Bool.not_eq_true'] at hv hfwd
    exact (flushed_forwardMessage payload via (by simpa using hv) hfwd.1 hfwd.2 hb).bind
      fun _ _ _ _ => flushes_pure _
  · split
    · exact flushed_serverHandshake hi hdr payload hn
    · exact flushed_clientHandshake hdr
    · exact flushed_dispatchMessage hi hdr payload
    · exact (flushed_proxyAnnounced _ _).bind fun _ _ _ _ => flushes_pure _
    · refine Within.bind (flushed_modify (.killsOnly ?_)) fun _ _ _ _ => flushes_pure _
      exact Broker.eraseProxy_killsOnly _ _ _
    · exact flushed_err hdl

-- -------------------------
-- Data
-- -------------------------

variable {dm : NewData}

/-- The connections other than `hdl` are left alone. -/
def SameOthers (hdl : ConnectionHandle) (s s' : Broker) : Prop :=
  ∀ hdl', hdl' ≠ hdl → s'.scribes.find? hdl' = s.scribes.find? hdl'

instance : Frame (SameOthers hdl) where
  refl _ := fun _ _ => rfl
  trans h h' := fun hdl' hne => (h' hdl' hne).trans (h hdl' hne)

/-- The end of the handler for new data is about the connection that was read from. -/
theorem newDataMsg_tail (next : ConnectionState) : Within (SameOthers dm.handle)
    (if next = .closeConnection then do
        close dm.handle
        modify fun s => { s with ctx := s.ctx.erase dm.handle }
      else do
        let c ← context
        if next ≠ c.cstate then
          configureRead dm.handle
            (if next = .awaitPayload then c.hdr.payloadLen.toNat else headerSize)
          modifyContext fun c => { c with cstate := next } : M Unit) s fun _ _ => True := by
  refine within_ite (fun _ => ?_) fun _ => ?_
  · have hclose : Within (SameOthers dm.handle) (close dm.handle) s fun _ _ => True := by
      refine (within_byId dm.handle).bind ?_
      rintro _ _ - ⟨rfl, -⟩
      refine within_modify (fun hdl' hne => ?_) trivial
      show (UMap.erase _ dm.handle).find? hdl' = _
      rw [UMap.find?_erase, if_neg (by simpa using hne.symm)]
    exact hclose.bind fun _ _ _ _ => within_modify (fun _ _ => rfl) trivial
  · refine within_context.bind ?_
    rintro c _ - ⟨rfl, -⟩
    refine within_ite (fun _ => ?_) fun _ => within_pure trivial
    have hconf : ∀ n u, Within (SameOthers dm.handle) (configureRead dm.handle n) u
        fun _ _ => True := by
      intro n u
      refine (within_byId dm.handle).bind ?_
      rintro _ _ - ⟨rfl, -⟩
      refine within_modify (fun hdl' hne => ?_) trivial
      show (UMap.adjust _ dm.handle _).find? hdl' = _
      rw [UMap.find?_adjust, if_neg (by simpa using hne.symm)]
    refine (hconf _ _).bind fun _ u _ _ => within_modify ?_ trivial
    cases u.thisContext with
    | none => exact fun _ _ => rfl
    | some k => exact fun _ _ => rfl

/-- What the handler for new data does to other connections, `instance::handle` does. -/
theorem newDataMsg_others {P : Broker → Prop} {c : ConnectionContext}
    (hc : (s.enter dm.handle).ctx.find? dm.handle = some c)
    (hh : After (handle dm (c.cstate = .awaitPayload)) (s.enter dm.handle) (fun _ s₁ => P s₁)
      fun _ s₁ => P s₁) :
    ∃ s₁, P s₁ ∧ SameOthers dm.handle s₁ (final (newDataMsg dm) s) := by
  have ht : (s.enter dm.handle).thisContext = some dm.handle := rfl
  have hctx : (s.enter dm.handle).context? = some c := by rw [Broker.context?_eq ht, hc]
  refine (after_final (P := fun s' => ∃ s₁, P s₁ ∧ SameOthers dm.handle s₁ s')).mp ?_
  refine after_bind.mpr (after_modify.mpr (after_bind.mpr ((after_context hctx).mpr ?_)))
  refine after_bind.mpr (hh.mono (fun next s₁ hp => ?_) fun _ s₁ hp => ⟨s₁, hp, Frame.refl s₁⟩)
  exact After.mono (newDataMsg_tail next) (fun _ _ h => ⟨s₁, hp, h.1⟩) fun _ _ h => ⟨s₁, hp, h⟩

/-- The message that the data completes is processed in this state. -/
theorem after_handle {c : ConnectionContext} {hdr : Header} {payload : Option Bytes}
    {Q : ConnectionState → Broker → Prop} {E : Fault → Broker → Prop}
    (ht : s.thisContext = some dm.handle) (hc : s.ctx.find? dm.handle = some c)
    (hm : s.completed dm = some (hdr, payload))
    (hp : ∀ s₁, Arrived dm s s₁ hdr payload →
      After (processMessage dm.handle hdr payload dm.via) s₁ Q E) :
    After (handle dm (c.cstate = .awaitPayload)) s Q E := by
  have hctx : s.context? = some c := by rw [Broker.context?_eq ht, hc]
  unfold Broker.completed completes at hm
  -- the message is complete, with its payload or without one
  rw [hc, Option.getD_some] at hm
  by_cases hs : c.cstate = .awaitPayload
  · simp only [hs, decide_true, if_true] at hm
    split at hm
    · next hl =>
      cases hm
      refine after_ite.mpr ⟨fun _ => ?_, fun h => absurd (decide_eq_true hs) h⟩
      refine after_bind.mpr ((after_context hctx).mpr (after_ite.mpr ⟨fun h => absurd hl h, ?_⟩))
      exact fun _ => hp s (.payload hc hs hl)
    · cases hm
  · simp only [hs, decide_false, Bool.false_eq_true, if_false] at hm
    refine after_ite.mpr ⟨fun h => absurd (of_decide_eq_true h) hs, fun _ => ?_⟩
    split at hm
    · next hdr' hr =>
      split at hm
      · next hl =>
        cases hm
        rw [hr]
        show After (modifyContext (fun c => { c with hdr := hdr }) >>= fun _ =>
          if 0 < hdr.payloadLen then pure .awaitPayload
          else processMessage dm.handle hdr none dm.via) s Q E
        refine after_bind.mpr ((after_modifyContext ht).mpr
          (after_ite.mpr ⟨fun h => ?_, fun _ => ?_⟩))
        · rw [hl] at h
          exact absurd h (by decide)
        · exact hp _ (.header hc hs hr hl)
      · cases hm
    · cases hm

/-- Whether a message has arrived or not, handling the data flushes what it writes. -/
theorem flushed_handle {c : ConnectionContext} (hw : Wired s)
    (ht : s.thisContext = some dm.handle) (hc : s.ctx.find? dm.handle = some c)
    (hb : ∀ hdr payload path, s.completed dm = some (hdr, payload) → Undeliverable s hdr path →
      path.hdl = dm.handle) :
    Flushes anyPacket dm.handle (handle dm (c.cstate = .awaitPayload)) s := by
  have hi : InContext dm.handle s := ⟨ht, fun hc => (hw.opened hc).2⟩
  have hctx : s.context? = some c := by rw [Broker.context?_eq ht, hc]
  have hprocess : ∀ {hdr payload s₁}, Arrived dm s s₁ hdr payload →
      Flushed anyPacket dm.handle s s₁ →
      s₁.scribes = s.scribes → Flushes anyPacket dm.handle
        (processMessage dm.handle hdr payload dm.via) s₁ := by
    intro hdr payload s₁ ha hf hs
    obtain ⟨htbl, hproc⟩ := ha.tbl
    have hself : s₁.thisNode = s.thisNode := by rw [Broker.thisNode, hproc, Broker.thisNode]
    refine flushed_processMessage (hi.mono hf) hdr payload dm.via ?_ fun path hu => ?_
    · rw [htbl]
      exact hw.find?_of_not_connected
    · refine hb hdr payload path ha.completed ?_
      obtain ⟨hv, hh, hd, hun, hfo, hre, hop⟩ := hu
      rw [hself] at hd hfo
      rw [htbl] at hun hre
      rw [hs] at hop
      exact ⟨hv, hh, hd, hun, hfo, hre, hop⟩
  refine within_ite (fun hs => ?_) fun hs => ?_
  · refine within_context.bind ?_
    rintro c' _ - ⟨rfl, hc'⟩
    rw [hctx, Option.some.injEq] at hc'
    subst hc'
    refine within_ite (fun _ => flushed_err _) fun hl => ?_
    exact hprocess (.payload hc (of_decide_eq_true hs) (by simpa using hl)) (Frame.refl _) rfl
  · have hs : c.cstate ≠ .awaitPayload := fun h => hs (decide_eq_true h)
    cases hr : parse readHdr dm.buf with
    | error e => exact within_throw _
    | ok hdr =>
      have hstore : Flushed anyPacket dm.handle s (s.storeHdr dm.handle hdr) :=
        .modifyCtx (f := fun c => { c with hdr := hdr }) (fun _ => rfl) dm.handle
      have hmod : Within (Flushed anyPacket dm.handle)
          (modifyContext fun c => { c with hdr := hdr }) s
          fun _ s' => s' = s.storeHdr dm.handle hdr :=
        (after_modifyContext ht).mpr ⟨hstore, rfl⟩
      show Within (Flushed anyPacket dm.handle) (modifyContext (fun c => { c with hdr := hdr }) >>=
        fun _ => if 0 < hdr.payloadLen then pure .awaitPayload
          else processMessage dm.handle hdr none dm.via) s fun _ _ => True
      refine Within.bind hmod ?_
      rintro _ _ - rfl
      refine within_ite (fun _ => flushes_pure _) fun hl => ?_
      have hl0 : hdr.payloadLen = 0 := by
        apply UInt32.toNat_inj.mp
        have := UInt32.lt_iff_toNat_lt.not.mp hl
        simpa using this
      exact hprocess (.header hc hs hr hl0) hstore rfl

-- -------------------------
-- Other connections
-- -------------------------

/-- What the handler appends to other connections than the one that was read from, it
flushes. -/
def FlushesOthers (s : Broker) (dm : NewData) : Prop :=
  ∀ hdl c', hdl ≠ dm.handle → (final (newDataMsg dm) s).scribes.find? hdl = some c' →
    s.scribes.find? hdl = some c' ∨ c'.wrBuf = []

/-- The data completes a message whose dispatch error goes out over another connection. -/
def LeavesError (s : Broker) (dm : NewData) : Prop :=
  ∃ hdr payload path, s.completed dm = some (hdr, payload) ∧ Undeliverable s hdr path ∧
    path.hdl ≠ dm.handle

/-- Nothing happens to a dispatch error after it was written. -/
theorem after_forwardMessage {hdr : Header} {path : Route} (payload : Option Bytes)
    (via : List NodeId) (hu : Undeliverable s hdr path) :
    After (forwardMessage hdr payload via) s
      (fun _ s' => ∃ p, s'.scribes = (s.append path.hdl p).scribes) fun _ _ => False := by
  have hopen : s.scribes.find? path.hdl ≠ none := by
    obtain ⟨d, hd⟩ := UMap.contains_iff.mp hu.opened
    simp [hd]
  refine after_bind.mpr (after_get.mpr (after_bind.mpr ((after_lookup s hdr.destNode).mono ?_ ?_)))
  · rintro _ _ ⟨rfl, rfl⟩
    rw [RoutingTable.lookup_eq]
    dsimp only
    rw [hu.unrouted]
    refine after_bind.mpr (after_bind.mpr (after_get.mpr
      (after_ite.mpr ⟨fun h => ?_, fun _ => ?_⟩)))
    · have h : hdr.sourceNode.equals s.thisNode = true := h
      rw [hu.foreign] at h
      cases h
    · refine after_bind.mpr ((after_lookup _ hdr.sourceNode).mono ?_ ?_)
      · rintro _ _ ⟨rfl, rfl⟩
        rw [RoutingTable.lookup_eq]
        dsimp only
        rw [RoutingTable.route?_prune, hu.reverse]
        exact after_modify.mpr (after_modify.mpr ⟨_, rfl⟩)
      · rintro _ _ ⟨-, r, hr, hnone⟩
        rw [RoutingTable.lookup_eq] at hr
        dsimp only at hr
        rw [RoutingTable.route?_prune, hu.reverse, Option.some.injEq] at hr
        subst hr
        exact hopen hnone
  · rintro _ _ ⟨-, r, hr, -⟩
    rw [RoutingTable.lookup_eq] at hr
    dsimp only at hr
    rw [hu.unrouted] at hr
    cases hr

/-- An error that goes back over another connection stays unflushed there. -/
theorem leavesError_unflushed (he : LeavesError s dm) : ¬ FlushesOthers s dm := by
  obtain ⟨hdr, payload, path, hm, hu, hne⟩ := he
  obtain ⟨c, hc⟩ := Broker.enter_ctx (s := s) dm.handle
  have hpost : After (handle dm (c.cstate = .awaitPayload)) (s.enter dm.handle)
      (fun _ s' => ∃ p, s'.scribes = (s.append path.hdl p).scribes)
      fun _ s' => ∃ p, s'.scribes = (s.append path.hdl p).scribes := by
    refine after_handle rfl hc (by rw [Broker.completed_enter, hm]) fun s₁ ha => ?_
    obtain ⟨htbl, hproc⟩ := ha.tbl
    have hself : s₁.thisNode = s.thisNode := by rw [Broker.thisNode, hproc]; rfl
    have hscr : s₁.scribes = s.scribes := by cases ha <;> rfl
    have hu₁ : Undeliverable s₁ hdr path := by
      refine ⟨hu.valid, hu.plain, ?_, ?_, ?_, ?_, ?_⟩
      · rw [hself, hu.elsewhere]
      · rw [htbl]
        exact hu.unrouted
      · rw [hself, hu.foreign]
      · rw [htbl]
        exact hu.reverse
      · rw [hscr, hu.opened]
    refine after_ite.mpr ⟨fun h => by simp [hu.valid] at h, fun _ => ?_⟩
    refine after_bind.mpr (after_get.mpr (after_ite.mpr ⟨fun _ => ?_, fun h => ?_⟩))
    · refine after_bind.mpr ((after_forwardMessage payload dm.via hu₁).mono ?_ fun _ _ h => h.elim)
      rintro _ s₂ ⟨p, hp⟩
      refine after_pure.mpr ⟨p, ?_⟩
      rw [hp, Broker.append, hscr, Broker.append]
    · simp [hu.plain, hu₁.elsewhere] at h
  obtain ⟨s₂, ⟨p, hp⟩, hsame⟩ := newDataMsg_others hc hpost
  intro hflush
  obtain ⟨d, hd⟩ := UMap.contains_iff.mp hu.opened
  have hfin : (final (newDataMsg dm) s).scribes.find? path.hdl =
      some { d with wrBuf := d.wrBuf ++ [p] } := by
    rw [hsame path.hdl hne, hp]
    show (s.scribes.adjust path.hdl _).find? path.hdl = _
    rw [UMap.find?_adjust, if_pos BEq.rfl, hd]
    rfl
  -- the error is in the write buffer, which was not flushed
  rcases hflush path.hdl _ hne hfin with h | h
  · rw [hd, Option.some.injEq] at h
    have hlen := congrArg (fun c => c.wrBuf.length) h
    simp at hlen
  · simp at h

/-- **Other connections are flushed** when data is handled, unless the message that it
completes is for a node without a route, and the dispatch error for its source goes out
over another connection. -/
theorem others_flushed {ok : Broker → Input → Prop} (h : Broker.Reachable ok s)
    (he : s.enabled (.newData dm) = true) : FlushesOthers s dm ↔ ¬ LeavesError s dm := by
  refine ⟨fun hf hl => leavesError_unflushed hl hf, fun hl => ?_⟩
  have hw : Wired (s.enter dm.handle) := (wired_of_reachable h).enter (rdSize?_of_enabled he)
  obtain ⟨c, hc⟩ := Broker.enter_ctx (s := s) dm.handle
  have hflush := flushed_handle hw rfl hc fun hdr payload path hm hu => by
    rw [Broker.completed_enter] at hm
    by_contra hne
    obtain ⟨hv, hh, hd, hun, hfo, hre, hop⟩ := hu
    exact hl ⟨hdr, payload, path, hm, ⟨hv, hh, hd, hun, hfo, hre, hop⟩, hne⟩
  have hframe : After (handle dm (c.cstate = .awaitPayload)) (s.enter dm.handle)
      (fun _ s₁ => Flushed anyPacket dm.handle (s.enter dm.handle) s₁)
      fun _ s₁ => Flushed anyPacket dm.handle (s.enter dm.handle) s₁ :=
    After.mono hflush (fun _ _ h => h.1) fun _ _ h => h
  obtain ⟨s₁, hs₁, hsame⟩ := newDataMsg_others hc hframe
  intro hdl c' hne hfin
  rw [hsame hdl hne] at hfin
  exact hs₁.others hne hfin

/-- On connection 8 arrives the announcement of a proxy that `source` has made for an
actor of `dest`. -/
def Sample.announced (source dest : NodeId) : Header :=
  ⟨.announceProxyInstance, 0, 0, source, dest, 0, 1⟩

/-- The data of such a message. -/
def Sample.announces (source dest : NodeId) : NewData :=
  received 8 (writeHdr (announced source dest))

open Sample in
/-- A message for a connected node is passed on. -/
theorem others_flushed_forward : ∃ s, Broker.Reachable anyStep s ∧
    s.enabled (.newData (announces (node 3) (node 2))) = true ∧
    (s.exec (.newData (announces (node 3) (node 2)))).stream (conn 7) ≠ s.stream (conn 7) ∧
    FlushesOthers s (announces (node 3) (node 2)) := by
  obtain ⟨s, hs, hc⟩ := exists_run Broker.step (broker 1)
    [accepts 7, hears 7 (clientHello (node 2) (node 1)), accepts 8,
      hears 8 (clientHello (node 3) (node 1))]
    (fun s => s.enabled (.newData (announces (node 3) (node 2))) ∧
      (s.exec (.newData (announces (node 3) (node 2)))).stream (conn 7) ≠ s.stream (conn 7) ∧
      s.completed (announces (node 3) (node 2)) = some (announced (node 3) (node 2), none) ∧
      (s.tbl.route? (node 2)).isSome) (by decide +kernel)
  obtain ⟨he, hstream, hm, hr⟩ := of_decide_eq_true hc
  have hreach : Broker.Reachable anyStep s := reach_of_run (broker_reachable 1) hs
  refine ⟨s, hreach, he, hstream, (others_flushed hreach he).mpr ?_⟩
  rintro ⟨hdr, payload, path, hm', hu, -⟩
  rw [hm] at hm'
  cases hm'
  have hnone : s.tbl.route? (node 2) = none := hu.unrouted
  rw [hnone] at hr
  cases hr

open Sample in
/-- A message for an unknown node arrives on connection 8, its source is on connection 7:
the error is written there, and stays in the buffer. -/
theorem others_unflushed : ∃ s, Broker.Reachable anyStep s ∧
    s.enabled (.newData (announces (node 2) (node 4))) = true ∧
    ¬ FlushesOthers s (announces (node 2) (node 4)) := by
  obtain ⟨s, hs, hc⟩ := exists_run Broker.step (broker 1)
    [accepts 7, hears 7 (clientHello (node 2) (node 1)), accepts 8,
      hears 8 (clientHello (node 3) (node 1))]
    (fun s => s.enabled (.newData (announces (node 2) (node 4))) ∧
      s.completed (announces (node 2) (node 4)) = some (announced (node 2) (node 4), none) ∧
      s.thisNode = node 1 ∧ s.tbl.route? (node 4) = none ∧
      s.tbl.route? (node 2) = some ⟨node 2, conn 7⟩ ∧ s.scribes.contains (conn 7))
    (by decide +kernel)
  obtain ⟨he, hm, hself, hun, hre, hop⟩ := of_decide_eq_true hc
  refine ⟨s, reach_of_run (broker_reachable 1) hs, he, leavesError_unflushed ?_⟩
  refine ⟨_, _, ⟨node 2, conn 7⟩, hm, ⟨by decide, by decide, ?_, hun, ?_, hre, hop⟩, by decide⟩
  · rw [hself]
    decide +kernel
  · rw [hself]
    decide +kernel

end BoostActor
