import BoostActor.Io.DataStep
import BoostActor.Io.Namespace

/-!
# The other steps

Inversion of every input other than data. Those that are not about a connection
share a frame condition: what concerns connections stays as it is (`Calm`).

* `newConnection_cases`, `connect_cases` — new connections;
* `other_of_step` — the inputs that are not about a connection: `Other`;
* `Other.calm` — they leave all connections alone.
-/

namespace BoostActor

open Lib

variable {s s' : Broker}

/-! ## Turns of the other inputs -/

namespace Turn

/-- A local actor sends a message to a proxy. -/
def sending (sender receiver : ActorAddr) (msg : Message) : Turn :=
  { hdl := ConnectionHandle.invalid
    sends := fun a b m => a = sender ∧ b = receiver ∧ m = msg ∧ ∃ r, receiver = .proxy r }

/-- An actor that a remote node watches has exited. -/
def reporting (nid : NodeId) (aid : ActorId) (rsn : ExitReason) : Turn :=
  { hdl := ConnectionHandle.invalid, watches := fun n a r => n = nid ∧ a = aid ∧ r = rsn }

/-- A connection has been accepted at a port. -/
def accepting (hdl : ConnectionHandle) (port : UInt16) : Turn := { hdl, accepts := (· = port) }

/-- Nothing but registering actors. -/
def registering : Turn := { hdl := ConnectionHandle.invalid }

end Turn

/-- A step ends normally in a state of `P`, or the broker terminates in one. -/
def EndsIn (P : Broker → Prop) (s' : Broker) : Prop := ∃ s₁, P s₁ ∧ (s' = s₁ ∨ s' = s₁.terminate)

/-- An exception ends the broker. -/
theorem Broker.invoke_spec {x : M Unit} {P : Broker → Prop}
    (h : After x s (fun _ s' => P s') (fun _ s' => P s'.terminate)) : P (s.invoke x) := by
  unfold After at h
  unfold invoke
  split
  · next hok => simpa only [hok] using h
  · next herr => simpa only [herr] using h

/-- A program within a frame ends in a state of that frame, or throws out of one. -/
theorem Broker.invoke_endsIn {R : Broker → Broker → Prop} {x : M Unit} {Q : Unit → Broker → Prop}
    (h : Within R x s Q) : EndsIn (R s) (s.invoke x) :=
  invoke_spec (After.mono h (fun _ _ h => ⟨_, h.1, Or.inl rfl⟩) fun _ _ h => ⟨_, h, Or.inr rfl⟩)

/-- Registering a handle of this node is quiet. -/
theorem quiet_registerIfLocal {T : Turn} {addr : ActorAddr} (hh : s.holds addr = true) :
    Within (Quiet T) (registerIfLocal addr) s fun _ s' => s'.tbl = s.tbl := by
  cases addr with
  | localActor ref => exact quiet_registerLocal (by simpa [Broker.holds] using hh)
  | invalid => exact within_pure rfl
  | proxy r => exact within_pure rfl

/-- Registering an actor does not throw: its functor only marks the entry. -/
theorem noThrow_registerLocal (ref : ActorRef) : NoThrow (registerLocal ref) s := by
  refine noThrow_get (noThrow_get (noThrow_ite (fun _ => noThrow_pure _) fun _ => ?_))
  refine after_bind.mpr (after_modify.mpr (noThrow_get ?_))
  split
  · exact noThrow_pure _
  · exact noThrow_ite (fun _ => noThrow_modify _) fun _ => noThrow_modify _

/-- Registering a handle does not throw. -/
theorem noThrow_registerIfLocal (addr : ActorAddr) : NoThrow (registerIfLocal addr) s := by
  cases addr with
  | localActor ref => exact noThrow_registerLocal ref
  | invalid => exact noThrow_pure _
  | proxy r => exact noThrow_pure _

/-- A remote actor is represented by a proxy. -/
theorem Broker.proxy_of_isRemote {addr : ActorAddr} (h : s.isRemote addr = true) :
    ∃ r, addr = .proxy r := by
  simp only [isRemote, Bool.and_eq_true, decide_eq_true_eq] at h
  cases addr with
  | invalid => exact absurd rfl h.1
  | localActor r => simp [addrNode] at h
  | proxy r => exact ⟨r, rfl⟩

/-- A message from a local actor. -/
theorem quiet_forwardMsg {sender receiver : ActorAddr} (mid : MessageId) {msg : Message}
    (hh : s.holds sender = true) (hr : s.holds receiver = true)
    (hl : ∀ ref ∈ msg.locals, ref < s.actors.length) :
    Within (Quiet (Turn.sending sender receiver msg)) (forwardMsg sender receiver mid msg) s
      fun _ _ => True := by
  refine within_get (within_ite (fun _ => within_pure trivial) fun hcond => ?_)
  have hproxy : ∃ r, receiver = .proxy r := by
    simp only [Bool.or_eq_true, decide_eq_true_eq, Bool.not_eq_true', not_or,
      Bool.not_eq_false] at hcond
    exact Broker.proxy_of_isRemote hcond.2
  refine (quiet_registerIfLocal hh).bind fun _ s₁ h₁ _ => ?_
  have hheap : ∀ r, receiver = .proxy r → r < s₁.heap.length := by
    rintro r rfl
    have hlt : r < s.heap.length := by simpa [Broker.holds] using hr
    exact Nat.lt_of_lt_of_le hlt h₁.heap.length_le
  refine (quiet_dispatch (T := Turn.sending sender receiver msg) ⟨rfl, rfl, rfl, hproxy⟩ hheap
    fun ref hmem => Nat.lt_of_lt_of_le (hl ref hmem) h₁.actors).bind fun _ _ _ _ => ?_
  exact within_ite (fun _ => quiet_bounce _ _ _) fun _ => within_pure trivial

/-- The scribe of a new connection. -/
def Broker.opened (s : Broker) (hdl : ConnectionHandle) : Broker :=
  { s with scribes := s.scribes.emplace hdl ⟨0, [], []⟩ }

/-- The scribe of an opened connection is there. -/
theorem Broker.opened_scribe {hdl : ConnectionHandle} (h : s.scribes.contains hdl = false) :
    (s.opened hdl).scribes.find? hdl = some ⟨0, [], []⟩ := by
  show (s.scribes.emplace hdl _).find? hdl = _
  rw [UMap.find?_emplace, UMap.contains_eq_false.mp h, if_pos BEq.rfl]
  rfl

/-- The server handshake is written without a fault. -/
theorem writeServerHandshake_spec {hdl : ConnectionHandle} (port : UInt16) :
    After (writeServerHandshake hdl (some port)) s
      (fun _ s' => ∃ hdr pw, Origin (Turn.accepting hdl port) s hdl hdr pw ∧
        s' = s.write hdl hdr pw) (fun _ _ => False) := by
  refine after_bind.mpr (after_get.mpr ?_)
  cases hp : s.publishedActors.find? port with
  | none =>
    simp only [Option.bind_some, hp]
    exact ⟨_, _, .serverHandshake rfl, rfl⟩
  | some pa =>
    simp only [Option.bind_some, hp]
    exact ⟨_, _, .publishedHandshake rfl hp, rfl⟩

/-- The first message on a connection that was accepted is a server handshake. -/
def Welcomed (hdl : ConnectionHandle) (port : UInt16) (s s₁ : Broker) : Prop :=
  ∃ hdr pw, Origin (Turn.accepting hdl port) (s.opened hdl) hdl hdr pw ∧
    s₁ = ((s.opened hdl).write hdl hdr pw).flush hdl

theorem Welcomed.quiet {hdl : ConnectionHandle} {port : UInt16} (h : Welcomed hdl port s s') :
    Quiet (Turn.accepting hdl port) (s.opened hdl) s' := by
  obtain ⟨hdr, pw, ho, rfl⟩ := h
  exact (Act.write ho).quiet.trans (Act.flush hdl).quiet

/-- A new connection is greeted and configured for a header; nothing is thrown. -/
theorem newConnection_cases {hdl : ConnectionHandle} (source : AcceptHandle)
    (h : s.scribes.contains hdl = false) :
    ∃ s₁, Welcomed hdl (s.localPort source) s s₁ ∧
      s.exec (.newConnection hdl source) = s₁.configure hdl headerSize := by
  -- the new scribe is there throughout the handler
  have hopen : ∀ {s₁ : Broker}, Quiet (Turn.accepting hdl (s.localPort source)) (s.opened hdl) s₁ →
      ∃ d, s₁.scribes.find? hdl = some d := by
    intro s₁ hq
    have hr := hq.rdSize? hdl
    rw [Broker.rdSize?, Broker.rdSize?, Broker.opened_scribe h, Option.map_some,
      Option.map_eq_some_iff] at hr
    exact ⟨_, hr.choose_spec.1⟩
  have hspec : After (newConnectionMsg hdl source) (s.opened hdl)
      (fun _ s' => ∃ s₁, Welcomed hdl (s.localPort source) s s₁ ∧
        s' = s₁.configure hdl headerSize) (fun _ _ => False) := by
    refine after_bind.mpr ((after_byId (Broker.opened_scribe h)).mpr ?_)
    refine after_bind.mpr (after_get.mpr ?_)
    refine after_bind.mpr ((writeServerHandshake_spec _).mono ?_ fun _ _ h => h)
    rintro _ s₁ ⟨hdr, pw, ho, rfl⟩
    obtain ⟨d, hd⟩ := hopen (Act.write ho).quiet
    refine after_bind.mpr (after_bind.mpr ((after_byId hd).mpr (after_modify.mpr ?_)))
    have hw : Welcomed hdl (s.localPort source) s (((s.opened hdl).write hdl hdr pw).flush hdl) :=
      ⟨hdr, pw, ho, rfl⟩
    obtain ⟨d, hd⟩ := hopen hw.quiet
    exact after_bind.mpr ((after_byId hd).mpr ⟨_, hw, rfl⟩)
  exact Broker.invoke_spec (hspec.mono (fun _ _ h => h) fun _ _ h => h.elim)

/-- The context of a connect request. -/
def Broker.requested (s : Broker) (hdl : ConnectionHandle) (port : UInt16) : Broker :=
  let c := (s.ctx.find? hdl).getD (ConnectionContext.initial hdl)
  { s with
    promises := s.promises + 1
    ctx := s.ctx.set hdl
      { c with hdl, remotePort := port, cstate := .awaitHeader, callback := some s.promises }
    history := s.history ++ [.requestAccepted s.promises hdl] }

/-- A connect request opens the connection and stores its promise, or is answered
at once. -/
theorem connect_cases {hdl : ConnectionHandle} (port : UInt16) (failure : Option Bytes)
    (h : s.scribes.contains hdl = false) :
    (∃ what, s.exec (.connect hdl port failure) =
      { s with promises := s.promises + 1 }.note (.answered s.promises (.error what))) ∨
    s.exec (.connect hdl port failure) =
      ((s.opened hdl).requested hdl port).configure hdl headerSize := by
  have hspec : After (connectMsg hdl port failure) s
      (fun _ s' => (∃ what, s' =
          { s with promises := s.promises + 1 }.note (.answered s.promises (.error what))) ∨
        s' = ((s.opened hdl).requested hdl port).configure hdl headerSize)
      (fun _ _ => False) := by
    refine after_bind.mpr (after_bind.mpr (after_get.mpr (after_bind.mpr (after_modify.mpr ?_))))
    refine after_pure.mpr ?_
    cases failure with
    | some what => exact Or.inl ⟨_, rfl⟩
    | none =>
      refine after_bind.mpr (after_modify.mpr (after_bind.mpr (after_modify.mpr ?_)))
      refine after_bind.mpr (after_modify.mpr ?_)
      refine after_bind.mpr ((after_byId (c := ⟨0, [], []⟩) ?_).mpr (after_modify.mpr (Or.inr rfl)))
      exact Broker.opened_scribe h
  exact Broker.invoke_spec (P := fun s' => (∃ what, s' = _) ∨ s' = _)
    (hspec.mono (fun _ _ h => h) fun _ _ h => h.elim)

/-! ## Terminating -/

/-- What is left of a broker that has terminated. -/
theorem Broker.terminate_eq : ∃ heap tasks, s.terminate =
    { s with
      heap, tasks
      tbl := RoutingTable.empty s.tbl.order
      publishedActors := UMap.empty
      ctx := UMap.empty
      thisContext := none
      proxies := UMap.empty
      knownRemotes := UMap.empty
      spawnServers := UMap.empty
      scribes := UMap.empty
      doormen := UMap.empty
      exitReason := ExitReason.unhandledException } := by
  have hfold : ∀ (es : List (NodeId × UMap ActorId (Option ProxyRef))) (s : Broker),
      KillsOnly s (es.foldl (fun s e => s.resetAll e.2.entries) s) := by
    intro es
    induction es with
    | nil => exact fun s => .refl s
    | cons e es ih => exact fun s => (resetAll_killsOnly _).trans (ih _)
  obtain ⟨heap, tasks, proxies, he⟩ := (hfold s.proxies.entries s).eq
  refine ⟨heap, tasks, ?_⟩
  unfold terminate
  rw [he]

/-- A broker that terminates kills all its proxies. -/
theorem Kills.terminate : Kills (fun _ _ => True) s s.terminate := by
  have hfold : ∀ (es : List (NodeId × UMap ActorId (Option ProxyRef))) (s : Broker),
      Resets (fun r => ∃ e ∈ es, ∃ aid, (aid, some r) ∈ e.2.entries) s
        (es.foldl (fun s e => s.resetAll e.2.entries) s) := by
    intro es
    induction es with
    | nil => exact fun s => .refl _ s
    | cons e es ih =>
      intro s
      have h₁ : Resets (fun r => ∃ e' ∈ e :: es, ∃ aid, (aid, some r) ∈ e'.2.entries) s
          (s.resetAll e.2.entries) :=
        (Resets.resetAll e.2.entries).weaken fun _ hr => ⟨e, List.mem_cons_self .., hr⟩
      exact h₁.trans ((ih _).weaken fun _ ⟨e', hmem, hr⟩ => ⟨e', List.mem_cons_of_mem _ hmem, hr⟩)
  refine Kills.of_resets (hfold s.proxies.entries s) (fun r ⟨e, hmem, aid, hr⟩ =>
    ⟨e.1, aid, trivial, ?_⟩) rfl rfl (fun _ => rfl) fun h => absurd trivial h
  have hsub : s.proxies.find? e.1 = some e.2 := UMap.find?_of_mem hmem
  rw [Broker.anchor_eq, hsub, Broker.entry, Option.bind_some, UMap.find?_of_mem hr]
  rfl

@[simp] theorem Broker.terminate_history : s.terminate.history = s.history := by
  obtain ⟨_, _, he⟩ := terminate_eq (s := s)
  rw [he]

@[simp] theorem Broker.terminate_tbl : s.terminate.tbl = RoutingTable.empty s.tbl.order := by
  obtain ⟨_, _, he⟩ := terminate_eq (s := s)
  rw [he]

@[simp] theorem Broker.terminate_ctx : s.terminate.ctx = UMap.empty := by
  obtain ⟨_, _, he⟩ := terminate_eq (s := s)
  rw [he]

@[simp] theorem Broker.terminate_scribes : s.terminate.scribes = UMap.empty := by
  obtain ⟨_, _, he⟩ := terminate_eq (s := s)
  rw [he]

@[simp] theorem Broker.terminate_promises : s.terminate.promises = s.promises := by
  obtain ⟨_, _, he⟩ := terminate_eq (s := s)
  rw [he]

@[simp] theorem Broker.terminate_exitReason :
    s.terminate.exitReason = ExitReason.unhandledException := by
  obtain ⟨_, _, he⟩ := terminate_eq (s := s)
  rw [he]

/-! ## Inputs that are not about a connection -/

/-- Events that do not concern connections. -/
def Event.calm : Event → Bool
  | .requestAccepted _ _ | .answered _ _ | .assertionFailed _ | .newRouteAdded _ _ _ => false
  | _ => true

/-- No indirect route has been added. -/
def FewerHops (s s' : Broker) : Prop :=
  ∀ nid hops', s'.tbl.indirect.find? nid = some hops' →
    ∃ hops, s.tbl.indirect.find? nid = some hops ∧ hops' ⊆ hops

theorem FewerHops.of_eq (h : s'.tbl.indirect = s.tbl.indirect) : FewerHops s s' := by
  intro nid hops' hf
  exact ⟨hops', by rw [← h, hf], List.Subset.refl _⟩

theorem FewerHops.trans {a b c : Broker} (h : FewerHops a b) (h' : FewerHops b c) :
    FewerHops a c := by
  intro nid hops hf
  obtain ⟨hops', hf', hsub'⟩ := h' nid hops hf
  obtain ⟨hops'', hf'', hsub''⟩ := h nid hops' hf'
  exact ⟨hops'', hf'', List.Subset.trans hsub' hsub''⟩

/-- Pruning the table leaves fewer hops. -/
theorem FewerHops.prune (target : NodeId) :
    FewerHops s { s with tbl := s.tbl.prune target } := by
  intro nid hops' hf
  replace hf : (s.tbl.prune target).indirect.find? nid = some hops' := hf
  unfold RoutingTable.prune at hf
  split at hf
  · exact ⟨hops', hf, List.Subset.refl _⟩
  · rw [UMap.find?_adjust] at hf
    split at hf
    · rw [Option.map_eq_some_iff] at hf
      obtain ⟨hops, hf, rfl⟩ := hf
      exact ⟨hops, hf, (List.dropWhile_sublist _).subset⟩
    · exact ⟨hops', hf, List.Subset.refl _⟩

/-- What concerns connections stays as it is. -/
structure Calm (s s' : Broker) : Prop where
  process : s'.process = s.process
  directByHdl : s'.tbl.directByHdl = s.tbl.directByHdl
  directByNid : s'.tbl.directByNid = s.tbl.directByNid
  ctx : s'.ctx = s.ctx
  promises : s'.promises = s.promises
  exitReason : s'.exitReason = s.exitReason
  rdSize? : ∀ hdl, s'.rdSize? hdl = s.rdSize? hdl
  fewer : FewerHops s s'
  history : ∃ es, s'.history = s.history ++ es ∧ ∀ e ∈ es, e.calm = true

instance : Frame Calm where
  refl s := ⟨rfl, rfl, rfl, rfl, rfl, rfl, fun _ => rfl, .of_eq rfl, [], by simp, by simp⟩
  trans h h' := by
    obtain ⟨es, he, hes⟩ := h.history
    obtain ⟨es', he', hes'⟩ := h'.history
    refine ⟨h'.process.trans h.process, h'.directByHdl.trans h.directByHdl,
      h'.directByNid.trans h.directByNid, h'.ctx.trans h.ctx, h'.promises.trans h.promises,
      h'.exitReason.trans h.exitReason, fun hdl => (h'.rdSize? hdl).trans (h.rdSize? hdl),
      h.fewer.trans h'.fewer, es ++ es', by rw [he', he, List.append_assoc], fun e hmem => ?_⟩
    rcases List.mem_append.mp hmem with hmem | hmem
    · exact hes e hmem
    · exact hes' e hmem

/-- The events that a turn can lead to. -/
def Turn.emits (T : Turn) : Event → Prop
  | .requestAccepted _ _ | .answered _ _ | .assertionFailed _ => False
  | .newRouteAdded _ dest _ => ∃ aid, T.names dest aid
  | _ => True

/-- An act adds events of its turn. -/
theorem Act.history {T : Turn} (h : Act T s s') :
    ∃ es, s'.history = s.history ++ es ∧ ∀ e ∈ es, T.emits e := by
  -- acts that note nothing
  have hnone : s'.history = s.history → ∃ es, s'.history = s.history ++ es ∧ ∀ e ∈ es, T.emits e :=
    fun he => ⟨[], by simpa using he, by simp⟩
  cases h with
  | note e he =>
    refine ⟨[e], rfl, ?_⟩
    rintro _ (_ | ⟨_, ⟨⟩⟩)
    cases e <;> first | exact trivial | cases he
  | write =>
    refine ⟨[_], rfl, ?_⟩
    rintro _ (_ | ⟨_, ⟨⟩⟩)
    exact trivial
  | learn hn =>
    refine ⟨[_], rfl, ?_⟩
    rintro _ (_ | ⟨_, ⟨⟩⟩)
    exact ⟨_, hn⟩
  | adopt =>
    refine ⟨[_, _], rfl, ?_⟩
    rintro _ (_ | ⟨_, _ | ⟨_, ⟨⟩⟩⟩)
    · exact trivial
    · exact trivial
  | _ => exact hnone rfl

/-- Side activities answer no request and violate no assertion. -/
theorem Quiet.history {T : Turn} (h : Quiet T s s') :
    ∃ es, s'.history = s.history ++ es ∧ ∀ e ∈ es, T.emits e := by
  refine h.preserves (P := fun b => ∃ es, b.history = s.history ++ es ∧ ∀ e ∈ es, T.emits e) ?_
    ⟨[], by simp, by simp⟩
  rintro a b ⟨es, he, hes⟩ hact
  obtain ⟨es', he', hes'⟩ := hact.history
  refine ⟨es ++ es', by rw [he', he, List.append_assoc], fun e hmem => ?_⟩
  rcases List.mem_append.mp hmem with hmem | hmem
  · exact hes e hmem
  · exact hes' e hmem

/-- Quiet steps of a turn that names no handles leave fewer hops. -/
theorem Quiet.fewerHops {T : Turn} (h : Quiet T s s') (hn : ∀ nid aid, ¬ T.names nid aid) :
    FewerHops s s' := by
  refine h.preserves (fun a b hp ha => hp.trans ?_) (.of_eq rfl)
  cases ha with
  | prune target => exact .prune target
  | learn hn' => exact absurd hn' (hn _ _)
  | _ => exact .of_eq rfl

/-- A turn that names no actors is calm. -/
theorem Quiet.calm {T : Turn} (h : Quiet T s s') (hn : ∀ nid aid, ¬ T.names nid aid) :
    Calm s s' := by
  obtain ⟨es, he, hes⟩ := h.history
  refine ⟨h.untouched.process, h.untouched.directByHdl, h.untouched.directByNid, h.untouched.ctx,
    h.untouched.promises, h.untouched.exitReason, h.rdSize?, h.fewerHops hn, es, he,
    fun e hmem => ?_⟩
  have := hes e hmem
  cases e <;> simp_all [Turn.emits, Event.calm]

theorem KillsOnly.calm (h : KillsOnly s s') : Calm s s' := by
  obtain ⟨_, _, _, rfl⟩ := h
  exact ⟨rfl, rfl, rfl, rfl, rfl, rfl, fun _ => rfl, .of_eq rfl, [], by simp, by simp⟩

/-- Changes to the other parts of a node are calm. -/
theorem calm_of_eq (h : s'.process = s.process ∧ s'.tbl = s.tbl ∧ s'.ctx = s.ctx ∧
    s'.promises = s.promises ∧ s'.exitReason = s.exitReason ∧ s'.scribes = s.scribes ∧
    s'.history = s.history) : Calm s s' := by
  obtain ⟨h₁, h₂, h₃, h₄, h₅, h₆, h₇⟩ := h
  exact ⟨h₁, by rw [h₂], by rw [h₂], h₃, h₄, h₅,
    fun _ => by rw [Broker.rdSize?, h₆, Broker.rdSize?],
    .of_eq (by rw [h₂]), [], by simpa using h₇, by simp⟩

/-- Whether an input is about a connection. -/
def Input.aboutConnection : Input → Bool
  | .newConnection _ _ | .newData _ | .connectionClosed _ | .connect _ _ _ => true
  | _ => false

/-- Nothing changes but names, doormen and the configuration; published actors may
be withdrawn. -/
structure PortsOnly (s s' : Broker) : Prop where
  eq : ∃ publishedActors doormen enableAutomaticConnections named,
    s' = { s with publishedActors, doormen, enableAutomaticConnections, named }
  fewer : ∀ port pa, s'.publishedActors.find? port = some pa →
    s.publishedActors.find? port = some pa

instance : Frame PortsOnly where
  refl s := ⟨⟨_, _, _, _, rfl⟩, fun _ _ h => h⟩
  trans h h' := by
    refine ⟨?_, fun port pa hf => h.fewer port pa (h'.fewer port pa hf)⟩
    obtain ⟨_, _, _, _, rfl⟩ := h.eq
    obtain ⟨_, _, _, _, rfl⟩ := h'.eq
    exact ⟨_, _, _, _, rfl⟩

theorem PortsOnly.calm (h : PortsOnly s s') : Calm s s' := by
  obtain ⟨_, _, _, _, rfl⟩ := h.eq
  exact calm_of_eq ⟨rfl, rfl, rfl, rfl, rfl, rfl, rfl⟩

/-- Withdrawing a published actor. -/
theorem PortsOnly.unpublish (port : UInt16) :
    PortsOnly s { s with publishedActors := s.publishedActors.erase port } := by
  refine ⟨⟨_, _, _, _, rfl⟩, fun port' pa hf => ?_⟩
  replace hf : (s.publishedActors.erase port).find? port' = some pa := hf
  rw [UMap.find?_erase] at hf
  split at hf
  · cases hf
  · exact hf

/-- Removing a published actor concerns ports only. -/
theorem ports_removePublishedActorAt (port : UInt16) :
    Within PortsOnly (removePublishedActorAt port) s fun _ _ => True := by
  refine within_get (within_ite (fun _ => within_pure trivial) fun _ => ?_)
  refine Within.bind (within_modify_eq (.unpublish port)) ?_
  exact fun _ _ _ _ => within_pure trivial

/-- Closing an acceptor concerns ports only. -/
theorem ports_closeAcceptor (port : UInt16) :
    Within PortsOnly (closeAcceptor port) s fun _ _ => True := by
  refine within_get ?_
  split
  · refine Within.bind (within_modify_eq ⟨⟨_, _, _, _, rfl⟩, fun _ _ h => h⟩) ?_
    exact fun _ _ _ _ => within_pure trivial
  · exact within_pure trivial

/-- Unpublishing an actor concerns ports only. -/
theorem ports_removePublishedActor (whom : ActorAddr) (port : UInt16) {cb : UInt16 → M Unit}
    (hcb : ∀ p s, Within PortsOnly (cb p) s fun _ _ => True) :
    Within PortsOnly (removePublishedActor whom port cb) s fun _ _ => True := by
  refine within_get (Within.bind (within_forM (I := fun _ => True) ?_ trivial) ?_)
  · intro e _ s _
    refine (hcb e.1 s).bind fun _ _ _ _ => ?_
    exact (within_modify_eq (.unpublish e.1)).mono fun _ _ _ _ => trivial
  · exact fun _ _ _ _ => within_pure trivial

/-- The handler for closed acceptors concerns ports only. -/
theorem ports_acceptorClosedMsg (hdl : AcceptHandle) :
    Within PortsOnly (acceptorClosedMsg hdl) s fun _ _ => True :=
  within_get ((ports_removePublishedActorAt _).bind fun _ _ _ _ => within_pure trivial)

/-- The handler for `unpublish` concerns ports only. -/
theorem ports_unpublishMsg (whom : ActorAddr) (port : UInt16) :
    Within PortsOnly (unpublishMsg whom port) s fun _ _ => True := by
  refine within_ite (fun _ => within_pure trivial) fun _ => ?_
  refine Within.bind (ports_removePublishedActor whom port fun p s => ?_)
    fun _ _ _ _ => within_pure trivial
  exact (ports_closeAcceptor p).bind fun _ _ _ _ => within_pure trivial

theorem ports_closeMsg (port : UInt16) :
    Within PortsOnly (closeMsg port) s fun _ _ => True := by
  refine within_ite (fun _ => within_pure trivial) fun _ => ?_
  exact Within.bind (ports_removePublishedActorAt port) fun _ _ _ _ => ports_closeAcceptor port

/-- What the multiplexer does with a task, once it is taken from its queue. -/
inductive TaskDone (s : Broker) : Task → Broker → Prop where
  | eraseProxy (res : ProxyRef) (nid : NodeId) (rsn : ExitReason) :
      TaskDone s (.eraseProxy res nid rsn) (s.eraseProxy nid (s.addrId (.proxy res)) rsn)
  | sendKillProxyInstance {nid : NodeId} {aid : ActorId} {rsn : ExitReason} {s' : Broker}
      (hq : Quiet (Turn.reporting nid aid rsn) s s')
      (hk : (∀ path, s.tbl.route? nid = some path → s.scribes.contains path.hdl = true) →
        SentKill nid aid rsn s s') :
      TaskDone s (.sendKillProxyInstance nid aid rsn) s'
  | deleteProxy (nid : NodeId) (aid : ActorId) :
      TaskDone s (.deleteProxy nid aid)
        (s.eraseProxy nid aid ExitReason.remoteLinkUnreachable)

/-- What is written waits in the buffer of its scribe. -/
theorem Broker.find?_write {hdl : ConnectionHandle} {c : Scribe}
    (hc : s.scribes.find? hdl = some c) (hdr : Header) (pw : Option Bytes) :
    (s.write hdl hdr pw).scribes.find? hdl =
      some { c with wrBuf := c.wrBuf ++ [⟨hdr.withPayload pw, pw.getD [], []⟩] } := by
  show (s.scribes.adjust hdl _).find? hdl = _
  rw [UMap.find?_adjust, hc, if_pos BEq.rfl]
  rfl

/-- Reporting an exit fails only when the connection of the route is closed. -/
theorem sendKillProxyInstance_throws (nid : NodeId) (aid : ActorId) (rsn : ExitReason) :
    After (sendKillProxyInstance nid aid rsn) s (fun _ _ => True)
      (fun _ _ => ∃ path, s.tbl.route? nid = some path ∧ s.scribes.contains path.hdl = false) := by
  refine after_bind.mpr (after_bind.mpr (after_get.mpr (after_bind.mpr (after_modify.mpr ?_))))
  cases hp : s.tbl.route? nid with
  | none => exact trivial
  | some path =>
    cases hc : s.scribes.find? path.hdl with
    | none =>
      refine after_bind.mpr ((after_byId_closed (s := { s with tbl := s.tbl.prune nid }) hc).mpr ?_)
      exact ⟨path, rfl, by simp [UMap.contains, hc]⟩
    | some c =>
      refine after_bind.mpr ((after_byId (s := { s with tbl := s.tbl.prune nid }) hc).mpr ?_)
      refine after_pure.mpr (after_bind.mpr (after_bind.mpr (after_get.mpr (after_modify.mpr ?_))))
      refine after_bind.mpr ?_
      rw [after_byId (Broker.find?_write (s := { s with tbl := s.tbl.prune nid }) hc _ _)]
      exact trivial

/-- Running a task ends as the task says. -/
theorem runTask_cases (t : Task) : EndsIn (TaskDone s t) (s.invoke (BoostActor.runTask t)) := by
  cases t with
  | eraseProxy res nid rsn => exact ⟨_, .eraseProxy res nid rsn, Or.inl rfl⟩
  | sendKillProxyInstance nid aid rsn =>
    refine Broker.invoke_spec (After.mono (After.and (quiet_sendKillProxyInstance (s := s)
      (T := Turn.reporting nid aid rsn) ⟨rfl, rfl, rfl⟩) (sendKillProxyInstance_throws nid aid rsn))
      ?_ ?_)
    · rintro _ s₁ ⟨⟨hq, hk⟩, -⟩
      exact ⟨s₁, .sendKillProxyInstance hq fun _ => hk, Or.inl rfl⟩
    · rintro _ s₁ ⟨hq, path, hp, hclosed⟩
      refine ⟨s₁, .sendKillProxyInstance hq fun hopen => ?_, Or.inr rfl⟩
      rw [hopen path hp] at hclosed
      cases hclosed
  | deleteProxy nid aid => exact ⟨_, .deleteProxy nid aid, Or.inl rfl⟩

/-- What an input that is not about a connection does. -/
inductive Other (s : Broker) : Input → Broker → Prop where
  | ports {i : Input} {s' : Broker} (hi : i.aboutConnection = false) (hp : PortsOnly s s') :
      Other s i s'
  | publish {hdl : AcceptHandle} {port : UInt16} {whom : ActorAddr} {sigs : List Bytes}
      {assigned : Bool} {s₁ s₂ : Broker} (hw : s.holds whom = true) (hv : whom ≠ .invalid)
      (hp : PortsOnly s s₁) (hq : Quiet Turn.registering s₁ s₂) :
      Other s (.publish hdl port whom sigs assigned)
        ({ s₂ with publishedActors := s₂.publishedActors.set port (whom, sigs) }.note
          (.actorPublished whom sigs port))
  | forward {sender receiver : ActorAddr} {mid : MessageId} {msg : Message} {s' : Broker}
      (hs : s.holds sender = true) (hr : s.holds receiver = true)
      (hq : Quiet (Turn.sending sender receiver msg) s s') :
      Other s (.forward sender receiver mid msg) s'
  | task {index : Nat} {t : Task} {s' : Broker} (ht : s.tasks[index]? = some t)
      (hd : TaskDone { s with tasks := s.tasks.eraseIdx index } t s') :
      Other s (.runTask index) s'
  | spawn : Other s .spawnActor s.addActor
  | exit {ref : ActorRef} {rsn : ExitReason} {act : LocalActor} (ha : s.actors[ref]? = some act)
      (he : act.exitReason = ExitReason.notExited) (hr : rsn ≠ ExitReason.notExited) :
      Other s (.exitActor ref rsn) (s.exitActor ref rsn)
  | attachable (ref : ActorRef) : Other s (.callAttachable ref) (s.callAttachable ref)
  | destroy {r : ProxyRef} {p : Proxy} (hp : s.heap[r]? = some p) (hd : p.destroyed = false)
      (hr : s.referenced r = false) : Other s (.destroyProxy r) (s.destroyProxy r)

/-- Publishing an actor is one of the other steps. -/
theorem publish_cases {hdl : AcceptHandle} {port : UInt16} {whom : ActorAddr} {sigs : List Bytes}
    {assigned : Bool} (hw : s.holds whom = true) :
    Other s (.publish hdl port whom sigs assigned)
      (s.exec (.publish hdl port whom sigs assigned)) := by
  refine Broker.invoke_spec (P := Other s (.publish hdl port whom sigs assigned)) ?_
  refine after_ite.mpr ⟨fun _ => after_pure.mpr (.ports rfl (Frame.refl (R := PortsOnly) s)),
    fun hcond => ?_⟩
  simp only [not_or] at hcond
  refine after_bind.mpr (after_modify.mpr (after_bind.mpr ?_))
  refine ((noThrow_registerIfLocal whom).within (quiet_registerIfLocal
    (T := Turn.registering) (s := { s with doormen := s.doormen.emplace hdl port }) hw)).mono
    (fun _ s₂ hq => ?_) fun _ _ h => h.elim
  have hp : PortsOnly s { s with doormen := s.doormen.emplace hdl port } :=
    ⟨⟨_, _, _, _, rfl⟩, fun _ _ h => h⟩
  exact .publish hw hcond.2.1 hp hq.1

/-- Inversion of the inputs that are not about a connection. -/
theorem other_of_step {i : Input} (hi : i.aboutConnection = false) (he : s.enabled i = true) :
    EndsIn (Other s i) (s.exec i) := by
  have hdone : ∀ {s'}, Other s i s' → EndsIn (Other s i) s' := fun h => ⟨_, h, Or.inl rfl⟩
  -- inputs about connections are excluded; each of the others ends as its constructor says
  simp only [Broker.enabled, Bool.and_eq_true] at he
  cases i with
  | newConnection | newData | connectionClosed | connect => cases hi
  | acceptorClosed hdl =>
    have h₀ : PortsOnly s { s with doormen := s.doormen.erase hdl } :=
      ⟨⟨_, _, _, _, rfl⟩, fun _ _ h => h⟩
    obtain ⟨s₁, hp, hend⟩ := Broker.invoke_endsIn
      (ports_acceptorClosedMsg (s := { s with doormen := s.doormen.erase hdl }) hdl)
    exact ⟨s₁, .ports rfl (Frame.trans h₀ hp), hend⟩
  | forward sender receiver mid msg =>
    simp only [Bool.and_eq_true, List.all_eq_true, decide_eq_true_eq] at he
    obtain ⟨s₁, h₁, hend⟩ := Broker.invoke_endsIn (quiet_forwardMsg mid he.2.1.1 he.2.1.2 he.2.2)
    exact ⟨s₁, .forward he.2.1.1 he.2.1.2 h₁, hend⟩
  | publish hdl port whom sigs assigned => exact hdone (publish_cases he.2)
  | unpublish whom port =>
    obtain ⟨s₁, hp, hend⟩ := Broker.invoke_endsIn (Q := fun _ _ => True)
      ((ports_unpublishMsg (s := s) whom port).bind fun _ _ _ _ => within_pure trivial)
    exact ⟨s₁, .ports rfl hp, hend⟩
  | closePort port =>
    obtain ⟨s₁, hp, hend⟩ := Broker.invoke_endsIn (Q := fun _ _ => True)
      ((ports_closeMsg (s := s) port).bind fun _ _ _ _ => within_pure trivial)
    exact ⟨s₁, .ports rfl hp, hend⟩
  | enableAutomaticConnections hdl port =>
    exact hdone (.ports rfl ⟨⟨_, _, _, _, rfl⟩, fun _ _ h => h⟩)
  | putNamed key ref => exact hdone (.ports rfl ⟨⟨_, _, _, _, rfl⟩, fun _ _ h => h⟩)
  | runTask index =>
    unfold Broker.exec
    dsimp only
    split
    · next t ht =>
      obtain ⟨s₁, hd, hend⟩ := runTask_cases (s := { s with tasks := s.tasks.eraseIdx index }) t
      exact ⟨s₁, .task ht hd, hend⟩
    · exact hdone (.ports rfl (Frame.refl (R := PortsOnly) s))
  | spawnActor => exact hdone .spawn
  | exitActor ref rsn =>
    cases ha : s.actors[ref]? with
    | none => simp [ha] at he
    | some act =>
      simp only [ha, Bool.and_eq_true, decide_eq_true_eq] at he
      exact hdone (.exit ha he.2.1 he.2.2)
  | callAttachable ref => exact hdone (.attachable ref)
  | destroyProxy r =>
    cases hp : s.heap[r]? with
    | none => simp [hp] at he
    | some p =>
      simp only [hp, Bool.and_eq_true, Bool.not_eq_true'] at he
      exact hdone (.destroy hp he.2.1 he.2.2)

/-- Calling an attachable is calm. -/
theorem Broker.callAttachable_calm (ref : ActorRef) : Calm s (s.callAttachable ref) := by
  unfold callAttachable
  split
  · exact Frame.refl s
  · split
    · exact Frame.refl s
    · split
      · exact calm_of_eq ⟨rfl, rfl, rfl, rfl, rfl, rfl, rfl⟩
      · exact calm_of_eq ⟨rfl, rfl, rfl, rfl, rfl, rfl, rfl⟩

theorem Broker.destroyProxy_calm (r : ProxyRef) : Calm s (s.destroyProxy r) := by
  unfold destroyProxy
  split
  · exact Frame.refl s
  · exact calm_of_eq ⟨rfl, rfl, rfl, rfl, rfl, rfl, rfl⟩

theorem TaskDone.calm {t : Task} (h : TaskDone s t s') : Calm s s' := by
  cases h with
  | eraseProxy => exact (Broker.eraseProxy_killsOnly _ _ _).calm
  | sendKillProxyInstance hq => exact hq.calm fun _ _ => id
  | deleteProxy => exact (Broker.eraseProxy_killsOnly _ _ _).calm

/-- Inputs that are not about a connection leave all connections alone. -/
theorem Other.calm {i : Input} (h : Other s i s') : Calm s s' := by
  cases h with
  | ports _ hp => exact hp.calm
  | publish _ _ hp hq =>
    refine Frame.trans hp.calm (Frame.trans (hq.calm fun _ _ => id) ?_)
    exact ⟨rfl, rfl, rfl, rfl, rfl, rfl, fun _ => rfl, .of_eq rfl, [_], rfl, by simp [Event.calm]⟩
  | forward _ _ hq => exact hq.calm fun _ _ => id
  | @task index _ _ _ hd =>
    have ht : Calm s { s with tasks := s.tasks.eraseIdx index } :=
      calm_of_eq ⟨rfl, rfl, rfl, rfl, rfl, rfl, rfl⟩
    exact Frame.trans ht hd.calm
  | spawn => exact calm_of_eq ⟨rfl, rfl, rfl, rfl, rfl, rfl, rfl⟩
  | exit => exact calm_of_eq ⟨rfl, rfl, rfl, rfl, rfl, rfl, rfl⟩
  | attachable ref => exact Broker.callAttachable_calm ref
  | destroy => exact Broker.destroyProxy_calm _

end BoostActor
