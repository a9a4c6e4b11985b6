import BoostActor.Io.Isolation

/-!
# Answers to connect requests

A connect request that the broker accepts leaves its promise in the context of the
new connection. A server handshake delivers it, and so does losing the connection.
An invalid message closes the connection without looking at the promise: there, and
when the broker terminates, the request is never answered. Besides data, a message of a
proxy can end the broker, if the type of an element has not been announced.

* `Accounted` — every promise is stored in one context, or has been delivered once;
* `requests_answered` — it is so in every run without such messages;
* `request_dropped` — an invalid header before the handshake.
-/

namespace BoostActor

open Lib

variable {hdl : ConnectionHandle} {hdr : Header} {payload : Option Bytes} {via : List NodeId}
  {s s' : Broker}

/-- The event delivers the promise `p`. -/
def Event.answers (p : Promise) : Event → Bool
  | .answered q _ => q = p
  | _ => false

/-- How often a promise has been delivered. -/
def Broker.answers (s : Broker) (p : Promise) : Nat := s.history.countP (Event.answers p)

/-- The promise that is stored in the context of a connection. -/
def Broker.pending (s : Broker) (hdl : ConnectionHandle) : Option Promise :=
  (s.ctx.find? hdl).bind (·.callback)

/-- Every request that was accepted has been answered exactly once, unless its
promise is still stored in the context of its connection. -/
def Broker.answersOnce (s : Broker) : Prop :=
  ∀ p hdl, .requestAccepted p hdl ∈ s.history →
    s.pending hdl = some p ∧ s.answers p = 0 ∨ s.answers p = 1

/-- Data can be processed, and while a connect request is pending on its connection
it completes messages with a valid header only. Messages that proxies pass on can be
serialized. -/
def keepsPromise (s : Broker) : Input → Prop
  | .newData dm => harmless s (.newData dm) ∧
      ∀ hdr payload, s.completed dm = some (hdr, payload) → s.pending dm.handle ≠ none →
        hdr.valid = true
  | i => s.serializes i

/-! ## Steps that are not about requests -/

/-- Events about connect requests. -/
def Event.aboutRequest : Event → Bool
  | .requestAccepted _ _ | .answered _ _ => true
  | _ => false

/-- The stored promises stay, and none is delivered. -/
structure SameRequests (s s' : Broker) : Prop where
  promises : s'.promises = s.promises
  pending : ∀ hdl, s'.pending hdl = s.pending hdl
  history : ∃ es, s'.history = s.history ++ es ∧ ∀ e ∈ es, e.aboutRequest = false

namespace SameRequests

/-- What keeps promises and contexts and notes nothing about requests keeps the requests. -/
theorem of_ctx (hp : s'.promises = s.promises) (hc : s'.ctx = s.ctx)
    (hh : ∃ es, s'.history = s.history ++ es ∧ ∀ e ∈ es, e.aboutRequest = false) :
    SameRequests s s' :=
  ⟨hp, fun _ => by rw [Broker.pending, hc, Broker.pending], hh⟩

/-- What keeps promises, history and the pending requests keeps the requests. -/
theorem of_pending (hp : s'.promises = s.promises) (hh : s'.history = s.history)
    (hc : ∀ hdl, s'.pending hdl = s.pending hdl) : SameRequests s s' :=
  ⟨hp, hc, [], by rw [hh, List.append_nil], fun _ hmem => by cases hmem⟩

theorem refl (s : Broker) : SameRequests s s := of_pending rfl rfl fun _ => rfl

/-- Keeping the requests composes. -/
theorem trans {a b c : Broker} (h : SameRequests a b) (h' : SameRequests b c) :
    SameRequests a c := by
  obtain ⟨es, he, hes⟩ := h.history
  obtain ⟨es', he', hes'⟩ := h'.history
  refine ⟨h'.promises.trans h.promises, fun hdl => (h'.pending hdl).trans (h.pending hdl),
    es ++ es', by rw [he', he, List.append_assoc], fun e hmem => ?_⟩
  rcases List.mem_append.mp hmem with hmem | hmem
  · exact hes e hmem
  · exact hes' e hmem

/-- Quiet steps keep the requests. -/
theorem quiet {T : Turn} (h : Quiet T s s') : SameRequests s s' := by
  obtain ⟨es, he, hes⟩ := h.history
  refine of_ctx h.untouched.promises h.untouched.ctx ⟨es, he, fun e hmem => ?_⟩
  have := hes e hmem
  cases e <;> simp_all [Turn.emits, Event.aboutRequest]

theorem calm (h : Calm s s') : SameRequests s s' := by
  obtain ⟨es, he, hes⟩ := h.history
  refine of_ctx h.promises h.ctx ⟨es, he, fun e hmem => ?_⟩
  have := hes e hmem
  cases e <;> simp_all [Event.calm, Event.aboutRequest]

/-- Changing the context of a connection, but not its promise. -/
theorem modifyCtx {f : ConnectionContext → ConnectionContext}
    (hf : ∀ c, (f c).callback = c.callback) : SameRequests s (s.modifyCtx hdl f) := by
  refine of_pending rfl rfl fun hdl' => ?_
  rw [Broker.pending, Broker.find?_modifyCtx, Broker.pending]
  split
  · cases s.ctx.find? hdl' with
    | none => rfl
    | some c => exact hf c
  · rfl

/-- Binding a node keeps the requests. -/
theorem bindDirect (nid : NodeId) : SameRequests s (s.bindDirect hdl nid) := by
  rw [Broker.bindDirect_eq]
  refine of_ctx rfl rfl ⟨_, rfl, fun e hmem => ?_⟩
  unfold Broker.bindEvents at hmem
  simp only [List.mem_append, List.mem_cons, List.mem_map] at hmem
  rcases hmem with (hmem | hmem) | rfl | ⟨_, -, rfl⟩
  · split at hmem <;> simp_all [Event.aboutRequest]
  · split at hmem <;> simp_all [Event.aboutRequest]
  · rfl
  · rfl

/-- A context that is erased, of a connection without a stored promise. -/
theorem pending_erase {ctx : UMap ConnectionHandle ConnectionContext}
    (h : (ctx.find? hdl).bind (·.callback) = none) (hdl' : ConnectionHandle) :
    ((ctx.erase hdl).find? hdl').bind (·.callback) = (ctx.find? hdl').bind (·.callback) := by
  rw [UMap.find?_erase]
  split
  · next he => rw [← beq_iff_eq.mp he, h, Option.bind_none]
  · rfl

/-- Erasing a direct route keeps the requests if none is pending on the connection. -/
theorem eraseDirect (hw : Wired s) (hp : s.pending hdl = none) :
    SameRequests s (s.eraseDirect hdl) := by
  cases hb : s.tbl.directByHdl.find? hdl with
  | none =>
    rw [Broker.eraseDirect_of_unbound hb]
    exact refl s
  | some nid =>
    obtain ⟨_, _, _, he⟩ := Broker.purgeState_eq_of_bound hw hb
    rw [Broker.eraseDirect_eq hb, he]
    exact ⟨rfl, pending_erase hp, [_], rfl, by simp [Event.aboutRequest]⟩

/-- Dropping a connection keeps the requests if none is pending on it. -/
theorem drop (hp : s.pending hdl = none) : SameRequests s (s.drop hdl) :=
  of_pending rfl rfl (pending_erase hp)

/-- Entering a connection keeps the requests. -/
theorem enter : SameRequests s (s.enter hdl) := by
  refine of_pending rfl rfl fun hdl' => ?_
  show ((s.ctx.emplace hdl _).find? hdl').bind _ = (s.ctx.find? hdl').bind _
  rw [UMap.find?_emplace]
  cases s.ctx.find? hdl' with
  | some c => rfl
  | none =>
    rw [Option.none_or]
    split <;> rfl

theorem arrived {dm : NewData} (h : Arrived dm s s' hdr payload) : SameRequests s s' := by
  cases h with
  | payload => exact refl s
  | header => exact modifyCtx fun _ => rfl

/-- Going on to the next state keeps the requests. -/
theorem settle (next : ConnectionState) : SameRequests s (s.settle hdl next) := by
  unfold Broker.settle
  split
  · exact refl s
  · split
    · next c _ _ =>
      have hconf : ∀ n, SameRequests s (s.configure hdl n) := fun _ =>
        of_pending rfl rfl fun _ => rfl
      exact (hconf _).trans (modifyCtx fun _ => rfl)
    · exact refl s

end SameRequests

/-! ## Accounts of promises -/

/-- Every promise of an accepted request is stored in the context of its connection
and nowhere else, or has been delivered once. -/
structure Accounted (s : Broker) : Prop where
  numbered : ∀ {p hdl}, .requestAccepted p hdl ∈ s.history → p < s.promises
  unanswered : ∀ {p}, s.promises ≤ p → s.answers p = 0
  unique : ∀ {p hdl hdl'}, .requestAccepted p hdl ∈ s.history →
    .requestAccepted p hdl' ∈ s.history → hdl = hdl'
  stored : ∀ {p hdl}, s.pending hdl = some p →
    .requestAccepted p hdl ∈ s.history ∧ s.answers p = 0
  once : s.answersOnce

theorem Broker.answers_append {es : List Event} (h : s'.history = s.history ++ es) (p : Promise) :
    s'.answers p = s.answers p + es.countP (Event.answers p) := by
  rw [answers, h, List.countP_append, answers]

/-- Events that are not about requests answer no promise. -/
theorem countP_answers {es : List Event} (h : ∀ e ∈ es, e.aboutRequest = false) (p : Promise) :
    es.countP (Event.answers p) = 0 := by
  rw [List.countP_eq_zero]
  intro e hmem ha
  have := h e hmem
  cases e <;> simp_all [Event.answers, Event.aboutRequest]

namespace Accounted

/-- A state with the same requests accounts for them. -/
theorem same (h : Accounted s) (hs : SameRequests s s') : Accounted s' := by
  obtain ⟨es, he, hes⟩ := hs.history
  have hacc : ∀ {p hdl}, Event.requestAccepted p hdl ∈ s'.history ↔
      .requestAccepted p hdl ∈ s.history := by
    intro p hdl
    rw [he, List.mem_append, or_iff_left]
    intro hmem
    cases hes _ hmem
  have hans : ∀ p, s'.answers p = s.answers p := by
    intro p
    rw [Broker.answers_append he, countP_answers hes, Nat.add_zero]
  refine ⟨?_, ?_, ?_, ?_, ?_⟩
  · intro p hdl hmem
    rw [hs.promises]
    exact h.numbered (hacc.mp hmem)
  · intro p hle
    rw [hans]
    exact h.unanswered (by rwa [hs.promises] at hle)
  · exact fun hmem hmem' => h.unique (hacc.mp hmem) (hacc.mp hmem')
  · intro p hdl hp
    rw [hs.pending] at hp
    rw [hans]
    exact ⟨hacc.mpr (h.stored hp).1, (h.stored hp).2⟩
  · intro p hdl hmem
    rw [hs.pending, hans]
    exact h.once p hdl (hacc.mp hmem)

/-- A stored promise is taken out of its context and delivered. -/
theorem answer {p : Promise} {es : List Event} {r : Response} (h : Accounted s)
    (hp : s.pending hdl = some p) (hpr : s'.promises = s.promises)
    (hpend : ∀ hdl', s'.pending hdl' = if hdl = hdl' then none else s.pending hdl')
    (he : s'.history = s.history ++ (es ++ [.answered p r]))
    -- at most the promise of this connection gets an answer
    (hes : ∀ e ∈ es, e.aboutRequest = false) : Accounted s' := by
  obtain ⟨hmem₀, hzero⟩ := h.stored hp
  have hacc : ∀ {q hdl}, Event.requestAccepted q hdl ∈ s'.history ↔
      .requestAccepted q hdl ∈ s.history := by
    intro q hdl
    rw [he, List.mem_append, or_iff_left]
    intro hmem
    rcases List.mem_append.mp hmem with hmem | hmem
    · cases hes _ hmem
    · cases List.mem_singleton.mp hmem
  have hans : ∀ q, s'.answers q = s.answers q + if p = q then 1 else 0 := by
    intro q
    rw [Broker.answers_append he, List.countP_append, countP_answers hes, Nat.zero_add]
    congr 1
    simp [List.countP_cons, Event.answers]
  refine ⟨?_, ?_, ?_, ?_, ?_⟩
  · intro q hdl' hmem
    rw [hpr]
    exact h.numbered (hacc.mp hmem)
  · intro q hle
    rw [hpr] at hle
    have hne : p ≠ q := fun heq => Nat.not_lt.mpr hle (heq ▸ h.numbered hmem₀)
    rw [hans, if_neg hne, h.unanswered hle]
  · exact fun hmem hmem' => h.unique (hacc.mp hmem) (hacc.mp hmem')
  · intro q hdl' hq
    rw [hpend] at hq
    split at hq
    · cases hq
    · next hne =>
      obtain ⟨hmem, hz⟩ := h.stored hq
      have hpq : p ≠ q := by
        rintro rfl
        exact hne (h.unique hmem₀ hmem)
      rw [hans, if_neg hpq, hz]
      exact ⟨hacc.mpr hmem, rfl⟩
  · intro q hdl' hmem
    have hmem := hacc.mp hmem
    rw [hans, hpend]
    by_cases hpq : p = q
    · subst hpq
      rw [if_pos rfl, hzero]
      exact Or.inr rfl
    · rw [if_neg hpq, Nat.add_zero]
      rcases h.once q hdl' hmem with ⟨hq, hz⟩ | hone
      · refine Or.inl ⟨?_, hz⟩
        rw [if_neg, hq]
        rintro rfl
        rw [hp] at hq
        exact hpq (Option.some.inj hq)
      · exact Or.inr hone

/-- A new request: its promise is stored in the context of a new connection. -/
theorem request (h : Accounted s) (hp : s.pending hdl = none)
    (hpr : s'.promises = s.promises + 1)
    (hpend : ∀ hdl', s'.pending hdl' = if hdl = hdl' then some s.promises else s.pending hdl')
    -- the promise is a new one, which no event mentions
    (he : s'.history = s.history ++ [.requestAccepted s.promises hdl]) : Accounted s' := by
  have hans : ∀ q, s'.answers q = s.answers q := by
    intro q
    rw [Broker.answers_append he]
    rfl
  have hacc : ∀ {q hdl'}, Event.requestAccepted q hdl' ∈ s'.history ↔
      .requestAccepted q hdl' ∈ s.history ∨ q = s.promises ∧ hdl' = hdl := by
    intro q hdl'
    rw [he, List.mem_append, List.mem_singleton, Event.requestAccepted.injEq]
  have hnew : ∀ {hdl'}, .requestAccepted s.promises hdl' ∉ s.history :=
    fun hmem => Nat.lt_irrefl _ (h.numbered hmem)
  refine ⟨?_, ?_, ?_, ?_, ?_⟩
  · intro q hdl' hmem
    rw [hpr]
    rcases hacc.mp hmem with hmem | ⟨rfl, -⟩
    · exact Nat.lt_succ_of_lt (h.numbered hmem)
    · exact Nat.lt_succ_self _
  · intro q hle
    rw [hpr] at hle
    rw [hans]
    exact h.unanswered (Nat.le_of_succ_le hle)
  · intro q hdl₁ hdl₂ h₁ h₂
    rcases hacc.mp h₁ with h₁ | ⟨rfl, rfl⟩
    · rcases hacc.mp h₂ with h₂ | ⟨rfl, rfl⟩
      · exact h.unique h₁ h₂
      · exact absurd h₁ hnew
    · rcases hacc.mp h₂ with h₂ | ⟨-, rfl⟩
      · exact absurd h₂ hnew
      · rfl
  · intro q hdl' hq
    rw [hpend] at hq
    rw [hans]
    split at hq
    · next heq =>
      cases hq
      exact ⟨hacc.mpr (Or.inr ⟨rfl, heq.symm⟩), h.unanswered (Nat.le_refl _)⟩
    · exact ⟨hacc.mpr (Or.inl (h.stored hq).1), (h.stored hq).2⟩
  · intro q hdl' hmem
    rw [hans, hpend]
    rcases hacc.mp hmem with hmem | ⟨rfl, rfl⟩
    · rcases h.once q hdl' hmem with ⟨hq, hz⟩ | hone
      · refine Or.inl ⟨?_, hz⟩
        rw [if_neg, hq]
        rintro rfl
        rw [hp] at hq
        cases hq
      · exact Or.inr hone
    · rw [if_pos rfl]
      exact Or.inl ⟨rfl, h.unanswered (Nat.le_refl _)⟩

/-- A request that is answered at once and not accepted. -/
theorem refuse (h : Accounted s) (r : Response) :
    Accounted ({ s with promises := s.promises + 1 }.note (.answered s.promises r)) := by
  have hacc : ∀ {q hdl}, Event.requestAccepted q hdl ∈ s.history ++ [.answered s.promises r] ↔
      .requestAccepted q hdl ∈ s.history := by
    intro q hdl
    simp
  have hans : ∀ q, ({ s with promises := s.promises + 1 }.note (.answered s.promises r)).answers q =
      s.answers q + if s.promises = q then 1 else 0 := by
    intro q
    rw [Broker.answers_append rfl]
    congr 1
    simp [List.countP_cons, Event.answers]
  have hne : ∀ {q hdl}, .requestAccepted q hdl ∈ s.history → s.promises ≠ q :=
    fun hmem heq => Nat.lt_irrefl _ (heq ▸ h.numbered hmem)
  refine ⟨fun hmem => Nat.lt_succ_of_lt (h.numbered (hacc.mp hmem)), fun {q} hle => ?_,
    fun hmem hmem' => h.unique (hacc.mp hmem) (hacc.mp hmem'), fun {q hdl} hq => ?_,
    fun q hdl hmem => ?_⟩
  · have hlt : s.promises < q := hle
    rw [hans, if_neg (Nat.ne_of_lt hlt), h.unanswered (Nat.le_of_lt hlt)]
  · have hq' : s.pending hdl = some q := hq
    obtain ⟨hmem, hz⟩ := h.stored hq'
    rw [hans, if_neg (hne hmem), hz]
    exact ⟨hacc.mpr hmem, rfl⟩
  · have hmem := hacc.mp hmem
    rw [hans, if_neg (hne hmem)]
    exact h.once q hdl hmem

end Accounted

/-! ## Messages -/

/-- After a handshake, nothing is stored any more. -/
theorem Finalized.pending {nid : NodeId} {aid : ActorId} (h : Finalized hdl nid aid s s')
    (hdl' : ConnectionHandle) :
    s'.pending hdl' = if hdl = hdl' then none else s.pending hdl' := by
  obtain ⟨c, hc, hc', hother⟩ := h.ctx
  split
  · next he =>
    subst he
    rw [Broker.pending, hc']
    rfl
  · next hne => rw [Broker.pending, hother hdl' (Ne.symm hne), Broker.pending]

/-- The end of a handshake answers the pending request and accounts for it. -/
theorem Accounted.finalized {nid : NodeId} {aid : ActorId} (h : Accounted s)
    (hf : Finalized hdl nid aid s s') : Accounted s' := by
  have hpend := hf.pending
  cases hf with
  | silent => exact h.same (.modifyCtx fun _ => rfl)
  | @answer c cb s₁ addr sigs hc hcb hq =>
    obtain ⟨es, he, hes⟩ := (SameRequests.quiet hq).history
    have hp : s.pending hdl = some cb := by rw [Broker.pending, hc, Option.bind_some, hcb]
    have hhist : (s₁.note (.answered cb (.ok nid addr sigs))).history =
        s.history ++ (es ++ [.answered cb (.ok nid addr sigs)]) := by
      rw [Broker.note_history, he, List.append_assoc]
      rfl
    exact h.answer hp hq.untouched.promises hpend hhist hes

/-- A message that is not rejected delivers a stored promise, or leaves it stored in
a connection that stays open. -/
theorem Accounted.processed {next : ConnectionState} {c : ConnectionContext} (h : Accounted s)
    (hw : Wired s) (hc : s.ctx.find? hdl = some c) (hp : Processed hdl hdr payload via s next s')
    (hrej : hdr.valid = false ∨ hdr.operation = .dispatchMessage ∧
    payloadValid hdr payload = false →
      s.pending hdl = none) :
    Accounted s' ∧ (next = .closeConnection → s'.pending hdl = none) := by
  -- the connection is closed in the cases that have answered its request before
  cases hp with
  | reject hr =>
    have hsame := SameRequests.eraseDirect hw (hrej hr)
    exact ⟨h.same hsame, fun _ => by rw [hsame.pending, hrej hr]⟩
  | side _ _ hq => exact ⟨h.same (.quiet hq), fun hn => by cases hn⟩
  | kill =>
    exact ⟨h.same (.calm (Broker.eraseProxy_killsOnly _ _ _).calm), fun hn => by cases hn⟩
  | refuse _ _ _ _ hf =>
    have hnone := hf.pending hdl
    rw [if_pos rfl] at hnone
    have hsame := SameRequests.eraseDirect (hw.finalized hf) hnone
    exact ⟨(h.finalized hf).same hsame, fun _ => by rw [hsame.pending, hnone]⟩
  | server _ _ _ _ _ hq hf hq' =>
    have h₁ := h.same ((SameRequests.bindDirect hdr.sourceNode).trans (.quiet hq))
    exact ⟨(h₁.finalized hf).same (.quiet hq'), fun hn => by cases hn⟩
  | noRoute hv ho _ _ hk hq hr =>
    -- there is a route after the binding
    have hval := hdr.sourceNode_valid hv (by simp [Header.isHandshake, ho])
    have hroute := hq.route (hw.route_of_bind hc hval hk)
    rw [hr] at hroute
    cases hroute
  | client _ _ _ hq =>
    exact ⟨h.same ((SameRequests.bindDirect hdr.sourceNode).trans (.quiet hq)),
      fun hn => by cases hn⟩

/-- A complete dispatched message with a valid header has a valid payload. -/
theorem Arrived.payloadValid {dm : NewData} (h : Arrived dm s s' hdr payload)
    (hv : hdr.valid = true) (ho : hdr.operation = .dispatchMessage) :
    BoostActor.payloadValid hdr payload = true := by
  cases h with
  | payload _ _ hl => simpa [BoostActor.payloadValid] using hl
  | header _ _ _ hl => simp [Header.valid, ho, dispatchMessageValid, hl] at hv

/-- Handling data accounts for the requests if a message on a pending connection is valid. -/
theorem Accounted.handled {dm : NewData} {next : ConnectionState} (h : Accounted s) (hw : Wired s)
    (hlen : ∀ c, s.ctx.find? dm.handle = some c → c.cstate = .awaitPayload →
      dm.buf.length = c.hdr.payloadLen.toNat)
    (hok : ∀ hdr payload, s.completed dm = some (hdr, payload) → s.pending dm.handle ≠ none →
      hdr.valid = true) (hh : Handled dm s next s') :
    Accounted s' ∧ (next = .closeConnection → s'.pending dm.handle = none) := by
  cases hh with
  | mismatch hc hs hl => exact absurd (hlen _ hc hs) hl
  | await => exact ⟨h.same (.modifyCtx fun _ => rfl), fun hn => by cases hn⟩
  | @message s₁ _ hdr payload _ ha hp =>
    obtain ⟨_, _, _, hc₁, -⟩ := ha.ctx
    have hsame := SameRequests.arrived ha
    refine (h.same hsame).processed (hw.arrived ha) hc₁ hp fun hr => ?_
    rw [hsame.pending]
    by_contra hne
    have hv := hok hdr payload ha.completed hne
    rcases hr with hr | ⟨ho, hr⟩
    · rw [hv] at hr
      cases hr
    · rw [ha.payloadValid hv ho] at hr
      cases hr

/-! ## Runs -/

/-- New data accounts for the requests if the promise is kept. -/
theorem Accounted.data {dm : NewData} (h : Accounted s) (hw : Wired s) (hf : Framed s)
    (hr : s.rdSize? dm.handle = some dm.buf.length) (hok : keepsPromise s (.newData dm))
    (hd : DataStep dm s s') (hrun : s'.exitReason = ExitReason.notExited) : Accounted s' := by
  have ho : (s.rdSize? dm.handle).isSome = true := by rw [hr]; rfl
  have hlen : ∀ c, (s.enter dm.handle).ctx.find? dm.handle = some c → c.cstate = .awaitPayload →
      dm.buf.length = c.hdr.payloadLen.toNat := by
    intro c hc hs
    rw [Broker.contextOf_enter] at hc
    cases hc
    rcases hf dm.handle _ hr with ⟨hst, -⟩ | ⟨-, hn, -⟩
    · rw [hst] at hs
      cases hs
    · exact hn
  -- while a request is pending, only valid messages arrive
  have hvalid : ∀ hdr payload, (s.enter dm.handle).completed dm = some (hdr, payload) →
      (s.enter dm.handle).pending dm.handle ≠ none → hdr.valid = true := by
    intro hdr payload hm hp
    rw [Broker.completed_enter] at hm
    rw [SameRequests.enter.pending] at hp
    exact hok.2 hdr payload hm hp
  have hhandled : ∀ {next s₁}, Handled dm (s.enter dm.handle) next s₁ →
      Accounted s₁ ∧ (next = .closeConnection → s₁.pending dm.handle = none) :=
    (h.same .enter).handled (hw.enter ho) hlen hvalid
  have hflush : ∀ {s₁ : Broker}, SameRequests s₁ (s₁.flush dm.handle) :=
    .quiet (Act.flush (T := Turn.registering) dm.handle).quiet
  cases hd with
  | closed hh =>
    obtain ⟨h₁, hnone⟩ := hhandled hh
    exact (h₁.same (.drop (hnone rfl))).same hflush
  | «open» _ hh => exact ((hhandled hh).1.same (.settle _)).same hflush
  | terminated =>
    rw [Broker.terminate_exitReason] at hrun
    cases hrun

theorem Other.not_about {i : Input} (h : Other s i s') : i.aboutConnection = false := by
  cases h with
  | ports hi => exact hi
  | _ => rfl

/-- The promises of a lost connection. -/
theorem Accounted.lose (h : Accounted s) (hpr : s'.promises = s.promises)
    (hctx : s'.ctx = s.ctx.erase hdl)
    (hh : s'.history = s.history ++ s.disconnectAnswers hdl) : Accounted s' := by
  have hpend : ∀ hdl', s'.pending hdl' = if hdl = hdl' then none else s.pending hdl' := by
    intro hdl'
    rw [Broker.pending, hctx, UMap.find?_erase]
    by_cases he : hdl = hdl'
    · rw [if_pos (beq_iff_eq.mpr he), if_pos he]
      rfl
    · rw [if_neg (by simpa using he), if_neg he]
      rfl
  unfold Broker.disconnectAnswers at hh
  cases hp : s.pending hdl with
  | none =>
    rw [Broker.pending] at hp
    rw [hp, List.append_nil] at hh
    refine h.same (.of_pending hpr hh fun hdl' => ?_)
    rw [Broker.pending, hctx]
    exact SameRequests.pending_erase hp hdl'
  | some p =>
    rw [show (s.ctx.find? hdl).bind (·.callback) = some p from hp] at hh
    have hnil : ∀ e ∈ ([] : List Event), e.aboutRequest = false := by simp
    exact h.answer hp hpr hpend hh hnil

/-- Every step that keeps its promise accounts for the requests. -/
theorem Accounted.step {i : Input} (h : Accounted s) (hrouted : Routed s) (hreg : Registered s)
    (hf : Framed s) (hok : keepsPromise s i) (hs : s.step i = some s') : Accounted s' := by
  obtain ⟨he, hexec⟩ := Broker.step_eq_some.mp hs
  have hrun : s.exitReason = ExitReason.notExited := by
    simp only [Broker.enabled, Bool.and_eq_true, decide_eq_true_eq] at he
    exact he.1
  cases step_cases hrouted.wired hs with
  | other ho => exact h.same (.calm ho.calm)
  | ended ho =>
    -- nothing is thrown while every route is open
    have hser : s.serializes i := by
      cases i with
      | newData dm => trivial
      | _ => exact hok
    have hexit := hrouted.exitReason ho.not_about hser he
    rw [← hexec, Broker.terminate_exitReason, hrun] at hexit
    cases hexit
  | @data dm _ _ hd =>
    have hr := (Broker.enabled_newData he).2
    have hexit := (running_of_harmless hrouted hreg hf hr hok.1).2
    rw [← hexec, hrun] at hexit
    exact h.data hrouted.wired hf hr hok hd hexit
  | @accepted hdl _ _ _ _ hq =>
    have h₀ : SameRequests s (s.opened hdl) := .of_pending rfl rfl fun _ => rfl
    exact h.same ((h₀.trans (.quiet hq)).trans (.of_pending rfl rfl fun _ => rfl))
  | @requested hdl port _ _ ho =>
    -- the handle is a new one, so no request is pending there
    have hctx : s.ctx.find? hdl = none := by
      cases hc : s.ctx.find? hdl with
      | none => rfl
      | some c =>
        have := (hrouted.wired.opened hc).1
        rw [ho] at this
        cases this
    have hp : s.pending hdl = none := by rw [Broker.pending, hctx, Option.bind_none]
    refine h.request hp rfl (fun hdl' => ?_) rfl
    show ((s.ctx.set hdl _).find? hdl').bind _ = _
    rw [UMap.find?_set]
    by_cases heq : hdl = hdl'
    · rw [if_pos (beq_iff_eq.mpr heq), if_pos heq]
      rfl
    · rw [if_neg (by simpa using heq), if_neg heq]
      rfl
  | refused => exact h.refuse _
  | lost => exact h.lose rfl rfl rfl
  | @lostNode hdl nid _ _ _ hb =>
    have h₁ : Accounted { s with
        scribes := s.scribes.erase hdl
        ctx := s.ctx.erase hdl
        history := s.history ++ s.disconnectAnswers hdl } := h.lose rfl rfl rfl
    exact h₁.same (.of_ctx rfl rfl ⟨[_], rfl, by simp [Event.aboutRequest]⟩)

/-- A broker without requests accounts for them. -/
theorem Accounted.initial : s.isInitial → Accounted s := by
  rintro ⟨process, order, rfl⟩
  refine ⟨?_, ?_, ?_, ?_, ?_⟩
  · exact fun hmem => by cases hmem
  · exact fun _ => rfl
  · exact fun hmem => by cases hmem
  · exact fun hp => by cases hp
  · exact fun _ _ hmem => by cases hmem

end BoostActor
