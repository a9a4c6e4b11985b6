import BoostActor.Core.Migration

/-!
# Messages during and after a migration

While a migration is not answered yet, its request is the front of the pending responses: everything
but the answer and system messages is skipped, so no handler changes the state that was saved.
After a successful migration the actor forwards its messages.

* `Ordered` — migration requests come before all others;
* `no_stale_update` — no handler of the user is called during a migration or after it, and all
  messages are forwarded, if nothing else is awaited when the migration is answered;
* `late_response` — the handler of a response that was awaited before is called on the old state.
-/

namespace BoostActor

open Lib EventBasedActor

namespace Requests

variable {q : Requests Behavior} {mid : MessageId} {b : Behavior}

/-- Which pending responses are answers to migration requests. -/
def flags (q : Requests Behavior) : List Bool := q.pendingResponses.map isMigration

/-- Giving a handler to another id leaves the migrations where they are. -/
theorem map_isMigration_assign (hb : b ≠ .migration) :
    ∀ {prs : List (MessageId × Option Behavior)},
      (∀ pr ∈ prs, isMigration pr = true → pr.1 ≠ mid) →
      (assign mid b prs).map isMigration = prs.map isMigration
  | [], _ => rfl
  | pr :: prs, h => by
    unfold assign
    split
    · next hmid =>
      have hpr : isMigration pr = false := by
        by_contra hm
        exact h pr List.mem_cons_self (by simpa using hm) (by simpa using hmid)
      rw [List.map_cons, List.map_cons, hpr]
      simp [isMigration, hb]
    · rw [List.map_cons, List.map_cons,
        map_isMigration_assign hb fun x hx => h x (List.mem_cons_of_mem _ hx)]

/-- Handlers of other responses do not matter. -/
theorem flags_setResponseHandler (hb : b ≠ .migration)
    (hm : ∀ pr ∈ q.pendingResponses, isMigration pr = true → pr.1 ≠ mid) :
    (q.setResponseHandler mid b).flags = q.flags := map_isMigration_assign hb hm

/-- The pending responses are in order: ids are valid, and answers to migration requests come
first. -/
structure Ordered (q : Requests Behavior) : Prop where
  valid : ∀ pr ∈ q.pendingResponses, MessageId.valid pr.1 = true
  front : q.flags.Pairwise fun a b => b = true → a = true

/-- Setting a handler keeps the order. -/
theorem Ordered.setResponseHandler (h : Ordered q) (hb : b ≠ .migration)
    (hm : ∀ pr ∈ q.pendingResponses, isMigration pr = true → pr.1 ≠ mid) :
    Ordered (q.setResponseHandler mid b) := by
  refine ⟨fun pr hpr => ?_, ?_⟩
  · have hids : pr.1 ∈ (assign mid b q.pendingResponses).map (·.1) := List.mem_map_of_mem hpr
    rw [map_assign] at hids
    obtain ⟨x, hx, he⟩ := List.mem_map.mp hids
    rw [← he]
    exact h.valid x hx
  · rw [flags_setResponseHandler hb hm]
    exact h.front

/-- A response that has arrived leaves the order of the others. -/
theorem Ordered.markArrived (h : Ordered q) : Ordered (q.markArrived mid) :=
  ⟨fun pr hpr => h.valid pr (List.mem_of_mem_filter hpr),
    h.front.sublist (List.filter_sublist.map isMigration)⟩

/-- A request, when no migration is going on. -/
theorem Ordered.newRequestId (h : Ordered q) (mp : MessagePriority)
    (hn : MessageId.isRequest (q.lastRequestId + 1) = true)
    (hm : q.pendingResponses.any isMigration = false) : Ordered (q.newRequestId mp).2 := by
  refine ⟨fun pr hpr => ?_, List.pairwise_cons.mpr ⟨fun f hf hf' => ?_, h.front⟩⟩
  · rcases List.mem_cons.mp hpr with rfl | hpr
    · exact MessageId.valid_responseId hn
    · exact h.valid pr hpr
  · obtain ⟨x, hx, rfl⟩ := List.mem_map.mp hf
    rw [List.any_eq_false] at hm
    exact absurd hf' (hm x hx)

/-- A migration request. -/
theorem Ordered.syncSendThen (h : Ordered q)
    (hn : MessageId.isRequest (q.lastRequestId + 1) = true) :
    Ordered (q.syncSendThen .normal .migration) := by
  rw [syncSendThen_normal]
  refine ⟨fun pr hpr => ?_, List.pairwise_cons.mpr ⟨fun _ _ _ => rfl, h.front⟩⟩
  rcases List.mem_cons.mp hpr with rfl | hpr
  · exact MessageId.valid_responseId hn
  · exact h.valid pr hpr

/-- During a migration, its answer is awaited first. -/
theorem Ordered.head (h : Ordered q) (hm : q.pendingResponses.any isMigration = true) :
    ∃ pr prs, q.pendingResponses = pr :: prs ∧ isMigration pr = true ∧
      MessageId.valid pr.1 = true := by
  cases hp : q.pendingResponses with
  | nil => simp [hp] at hm
  | cons pr prs =>
    refine ⟨pr, prs, rfl, ?_, h.valid pr (by simp [hp])⟩
    have hfront := h.front
    rw [flags, hp, List.map_cons, List.pairwise_cons] at hfront
    rw [hp, List.any_cons, Bool.or_eq_true, List.any_eq_true] at hm
    rcases hm with hm | ⟨x, hx, hm⟩
    · exact hm
    · exact hfront.1 _ (List.mem_map_of_mem hx) hm

end Requests

namespace MigratingActor

-- -------------------------
-- The condition
-- -------------------------

/-- Code that runs during or after a migration makes no requests. -/
def asksAtHome (t : MigratingActor) : Label → Bool
  | .act (.request _) => t.actor.settled
  | _ => true

/-- An answer that says where the actor is now comes only if nothing else is awaited. -/
def migratesAlone (t : MigratingActor) (l : Label) : Bool :=
  !(t.running = some .migration && l = .act (.become .forwarding false)) ||
    t.actor.requests.pendingResponses.all isMigration

/-- A migrated actor takes no exit messages and no late timeouts or responses: these are not
forwarded, but dropped or obeyed. -/
def takesOrdinary (t : MigratingActor) (l : Label) : Bool :=
  !(t.actor.migratedFrom && l = .next) || t.actor.nextElement.all fun e =>
    match t.actor.filterMsg e with
    | .ordinary | .timeout | .sysMessage | .syncResponse => true
    | _ => false

/-- The runs that the result is about. -/
structure Loyal (t : MigratingActor) (l : Label) : Prop where
  scripted : t.scripted l = true
  numbers : t.actor.numbersRequests l = true
  asks : t.asksAtHome l = true
  alone : t.migratesAlone l = true
  ordinary : t.takesOrdinary l = true

instance (t : MigratingActor) (l : Label) : Decidable (Loyal t l) :=
  decidable_of_iff (t.scripted l && t.actor.numbersRequests l && t.asksAtHome l &&
      t.migratesAlone l && t.takesOrdinary l) <| by
    simp only [Bool.and_eq_true]
    exact ⟨fun ⟨⟨⟨⟨hs, hn⟩, ha⟩, hm⟩, ho⟩ => ⟨hs, hn, ha, hm, ho⟩,
      fun ⟨hs, hn, ha, hm, ho⟩ => ⟨⟨⟨⟨hs, hn⟩, ha⟩, hm⟩, ho⟩⟩

-- -------------------------
-- The actor between two handlers
-- -------------------------

variable {s s' s₁ : EventBasedActor} {t t' : MigratingActor} {l : Label} {o : Outcome} {a : Action}
variable {e : MailboxElement} {origin : Origin} {awaited mid : MessageId}

/-- The actor is a proxy: only migrations are awaited, everything is forwarded, and there is no
timeout. -/
structure Proxy (s : EventBasedActor) : Prop where
  alone : s.requests.flags.all id = true
  forwards : s.behaviors.head? = some .forwarding
  timeless : s.hasTimeout = false

/-- What holds of an actor in all phases. -/
structure Steady (s : EventBasedActor) : Prop where
  ordered : s.requests.Ordered
  cache : ∀ e ∈ s.visited ++ s.unvisited, ¬ e.isSys
  behaviors : ∀ b ∈ s.behaviors, b.isUser = true ∨ b = .forwarding
  proxy : s.migratedFrom = true → Proxy s

/-- A step that keeps requests, behaviors and timeout. -/
theorem Proxy.congr (h : Proxy s) (hq : s'.requests = s.requests)
    (hb : s'.behaviors = s.behaviors) (ht : s'.hasTimeout = s.hasTimeout) : Proxy s' := by
  refine ⟨?_, ?_, ht.trans h.timeless⟩
  · rw [hq]
    exact h.alone
  · rw [hb]
    exact h.forwards

/-- A step that keeps them, the flag and adds no message to the cache. -/
theorem Steady.congr (h : Steady s) (hq : s'.requests = s.requests)
    (hb : s'.behaviors = s.behaviors) (hm : s'.migratedFrom = s.migratedFrom)
    (ht : s'.hasTimeout = s.hasTimeout)
    (hc : ∀ e ∈ s'.visited ++ s'.unvisited, e ∈ s.visited ++ s.unvisited) : Steady s' := by
  refine ⟨?_, fun e he => h.cache e (hc e he), ?_, fun hmig => ?_⟩
  · rw [hq]
    exact h.ordered
  · rw [hb]
    exact h.behaviors
  · rw [hm] at hmig
    exact (h.proxy hmig).congr hq hb ht

/-- The pending responses change, but it remains clear which of them belong to migrations. -/
theorem Steady.requests {q : Requests Behavior} (h : Steady s) (hq : q.Ordered)
    (hf : s.requests.flags.all id = true → q.flags.all id = true) :
    Steady { s with requests := q } := by
  refine ⟨hq, h.cache, h.behaviors, fun hm => ?_⟩
  obtain ⟨ha, hfw, htime⟩ := h.proxy hm
  exact ⟨hf ha, hfw, htime⟩

/-- Success keeps a steady actor steady. -/
theorem Steady.success (h : Steady s) : Steady s.success := by
  rcases s.success_eq with he | he
  · rw [he]
    exact h.congr rfl rfl rfl rfl fun e hm => hm
  · rw [he]
    exact h.congr rfl rfl rfl rfl fun e hm => by simpa using hm

theorem Steady.dropped (h : Steady s) (origin : Origin) : Steady (s.dropped origin) := by
  obtain ⟨phase, he, -⟩ := s.dropped_eq origin
  rw [he]
  exact h.congr rfl rfl rfl rfl fun e hm => hm

/-- So does a skipped message that is no system message. -/
theorem Steady.skipped (h : Steady s) (he : ¬ e.isSys) (origin : Origin) :
    Steady (s.skipped e origin) := by
  obtain ⟨visited, phase, heq, hmem, -⟩ := s.skipped_eq e origin
  rw [heq]
  refine ⟨h.ordered, fun x hx => ?_, h.behaviors, fun hm => (h.proxy hm).congr rfl rfl rfl⟩
  rcases List.mem_append.mp hx with hx | hx
  · rcases (hmem x).mp hx with rfl | hx
    · exact he
    · exact h.cache x (List.mem_append_left _ hx)
  · exact h.cache x (List.mem_append_right _ hx)

/-- So does a response that has arrived. -/
theorem Steady.markArrived (h : Steady s) (awaited : MessageId) (ptr : Option MailboxElement) :
    Steady { s with current := ptr, requests := s.requests.markArrived awaited } := by
  have harrived : Steady { s with requests := s.requests.markArrived awaited } := by
    refine h.requests h.ordered.markArrived fun hall => ?_
    rw [List.all_eq_true] at hall ⊢
    intro f hf
    exact hall f ((List.filter_sublist.map isMigration).subset hf)
  exact harrived.congr rfl rfl rfl rfl fun e hm => hm

/-- An answer to another request is no answer to the migration. -/
theorem not_answersMigration (h : s.answersMigration mid = false) :
    ∀ pr ∈ s.requests.pendingResponses, isMigration pr = true → pr.1 ≠ mid := by
  intro pr hpr hm heq
  have hne := List.any_eq_false.mp h pr hpr
  simp [hm, heq] at hne

/-- Setting the handler of another request keeps it steady. -/
theorem Steady.setResponseHandler {b : Behavior} (h : Steady s) (hb : b ≠ .migration)
    (hm : s.answersMigration mid = false) :
    Steady { s with requests := s.requests.setResponseHandler mid b } := by
  have hm' := not_answersMigration hm
  refine h.requests (h.ordered.setResponseHandler hb hm') fun hall => ?_
  rw [Requests.flags_setResponseHandler hb hm']
  exact hall

/-- Post processing keeps it steady. -/
theorem Steady.postProcess (h : Steady s) (hok : s.respects (.ret o) = true) :
    Steady (s.postProcess o).2 := by
  obtain ⟨current, promises, sent, he, -⟩ := s.postProcess_eq o
  rw [he]
  have hwrap : Steady { s with requests := s.wrapped o } := by
    cases o with
    | messageId mid =>
      unfold wrapped
      dsimp only
      split
      · exact h.setResponseHandler (by decide) (by simpa [respects] using hok)
      · exact h
    | skip | void | value | actorExited rsn | thrown => exact h
  exact hwrap.congr rfl rfl rfl rfl fun e hm => hm

/-- The timeout matters only for an actor that is migrated. -/
theorem Steady.timeout (h : Steady s) (hset : s.settled = true) (hasTimeout : Bool)
    (current : Option MailboxElement) : Steady { s with current, hasTimeout } := by
  refine ⟨h.ordered, h.cache, h.behaviors, fun hm => ?_⟩
  have hm' : s.migratedFrom = true := hm
  simp [settled, hm'] at hset

-- -------------------------
-- The invariant
-- -------------------------

/-- What holds in the phases of `resume`. -/
def Phased (t : MigratingActor) : Prop :=
  match t.actor.phase with
  | .scanning mid => t.actor.settled = false → mid = t.actor.requests.awaitedResponseId
  | .invoking _ (.message _ _) => t.actor.migrating = false ∧
    (∀ e ∈ t.actor.current, ¬ e.isSys) ∧
    (t.actor.migratedFrom = true → t.code = some .forwarding)
  | .invoking origin (.saveState _) | .invoking origin (.loadState _) => origin = .mailbox
  | _ => True

/-- The forwarding behavior forwards its message first of all. -/
def Relayed (t : MigratingActor) : Prop :=
  if t.running = some .forwarding ∧ t.stage = 0 then
    ∃ e, t.actor.current = some e ∧ t.taken = t.forwarded ++ [e.serial]
  else t.taken = t.forwarded

structure Held (t : MigratingActor) : Prop where
  steady : Steady t.actor
  pushed : t.pushing = true → Proxy t.actor
  answer : t.running = some .migration → t.actor.migrating = true
  phased : Phased t
  relayed : Relayed t

/-- Outside a handler no behavior is called. -/
theorem called_of_not (h : s.phase.inHandler = false) : s.called = none := by
  unfold called
  split
  · next hp => simp [hp, Phase.inHandler] at h
  · next hp => simp [hp, Phase.inHandler] at h
  · rfl

/-- A step after which no handler is running. -/
theorem Steady.held (h : Steady s') (hin : s'.phase.inHandler = false) (hl : ∀ a, l ≠ .act a)
    (hrel : t.taken = t.forwarded) (hp : Phased (t.record l s')) : Held (t.record l s') := by
  have hrun : (t.record l s').running = none := running_of_not hin
  refine ⟨h, fun hpush => ?_, fun hr => ?_, hp, ?_⟩
  · rw [not_pushing (by simp [hrun])] at hpush
    cases hpush
  · rw [hrun] at hr
    cases hr
  · rw [Relayed, hrun, if_neg (by simp)]
    have htaken : (t.record l s').taken = t.taken := by
      simp [record, called_of_not hin]
    have hforwarded : (t.record l s').forwarded = t.forwarded := by
      simp [record, hl]
    rw [htaken, hforwarded, hrel]

/-- After success the actor is held. -/
theorem held_success (h : Steady s) (hl : ∀ a, l ≠ .act a) (hrel : t.taken = t.forwarded) :
    Held (t.record l s.success) := by
  refine h.success.held ?_ hl hrel ?_
  · rcases s.success_eq with he | he <;> rw [he] <;> rfl
  · unfold Phased record
    rcases s.success_eq with he | he
    · rw [he]
      trivial
    · rw [he]
      exact fun _ => rfl

theorem held_finishResponse {ptr : Option MailboxElement} (h : Steady s) (hl : ∀ a, l ≠ .act a)
    (hrel : t.taken = t.forwarded) : Held (t.record l (s.finishResponse awaited ptr)) :=
  held_success (h.markArrived awaited ptr) hl hrel

/-- And after a dropped message. -/
theorem held_dropped (h : Steady s) (hl : ∀ a, l ≠ .act a) (hrel : t.taken = t.forwarded)
    (hmid : ∀ mid, origin = .cache mid → s.settled = false →
      mid = s.requests.awaitedResponseId) : Held (t.record l (s.dropped origin)) := by
  obtain ⟨phase, he, hp⟩ := s.dropped_eq origin
  have hs := h.dropped origin
  rw [he] at hs ⊢
  rcases hp with rfl | ⟨mid, ho, rfl⟩
  · exact hs.held rfl hl hrel trivial
  · exact hs.held rfl hl hrel (hmid mid ho)

/-- And after a skipped one. -/
theorem held_skipped (h : Steady s) (hl : ∀ a, l ≠ .act a) (hrel : t.taken = t.forwarded)
    (he : ¬ e.isSys) (hmid : ∀ mid, origin = .cache mid → s.settled = false →
      mid = s.requests.awaitedResponseId) : Held (t.record l (s.skipped e origin)) := by
  obtain ⟨visited, phase, heq, -, hp⟩ := s.skipped_eq e origin
  have hs := h.skipped he origin
  rw [heq] at hs ⊢
  rcases hp with rfl | ⟨mid, ho, rfl⟩
  · exact hs.held rfl hl hrel trivial
  · exact hs.held rfl hl hrel (hmid mid ho)

-- -------------------------
-- The end of user code
-- -------------------------

/-- Library code returns nothing that user code could not return. -/
theorem respects_of_ret (h : t.scripted (.ret o) = true) : t.actor.respects (.ret o) = true := by
  unfold scripted at h
  split_ifs at h
  · simp only [Bool.or_eq_true, Bool.and_eq_true, decide_eq_true_eq] at h
    rcases h with ⟨-, rfl⟩ | ⟨-, rfl | rfl⟩ <;> rfl
  · simp only [Bool.and_eq_true, decide_eq_true_eq] at h
    rw [h.2]
    rfl
  · exact h

/-- Inside a handler the running behavior is the one that was called. -/
theorem running_eq_code (h : t.actor.phase.inHandler = true) : t.running = t.code := by
  simp [running, h]

/-- Messages that were taken have been forwarded when the forwarding behavior ends. -/
theorem Held.taken_eq (h : Held t) (hok : t.scripted (.ret o) = true) :
    t.taken = t.forwarded := by
  have hrel := h.relayed
  unfold Relayed at hrel
  split at hrel
  · next hc =>
    simp [scripted, hc.1, hc.2, Behavior.forwarding, Behavior.migration] at hok
  · exact hrel

/-- The forwarding behavior skips nothing, so a message is skipped by an actor that is at home. -/
theorem Held.settled_of_skip {hadTimeout : Bool} {ptr : Option MailboxElement} (h : Held t)
    (hp : t.actor.phase = .invoking origin (.message hadTimeout ptr))
    (hok : t.scripted (.ret .skip) = true) :
    t.actor.settled = true ∧ ∀ e ∈ t.actor.current, ¬ e.isSys := by
  have hph := h.phased
  unfold Phased at hph
  rw [hp] at hph
  obtain ⟨hmig, hcur, hcode⟩ := hph
  refine ⟨?_, hcur⟩
  have hrun : t.running = t.code := running_eq_code (by rw [hp]; rfl)
  have hfrom : t.actor.migratedFrom = false := by
    cases hm : t.actor.migratedFrom with
    | false => rfl
    | true =>
      rw [hcode hm] at hrun
      simp [scripted, hrun, Behavior.forwarding, Behavior.migration] at hok
  simp [settled, hmig, hfrom]

/-- The end of user code keeps the state where it belongs. -/
theorem Held.ret (h : Held t) (hok : Loyal t (.ret o)) (hr : t.actor.Returned o s')
    (hne : s'.phase ≠ .closed) : Held (t.record (.ret o) s') := by
  have hact : ∀ a, Label.ret o ≠ .act a := by simp
  have hrel := h.taken_eq hok.scripted
  have hresp := respects_of_ret hok.scripted
  have hsys : ∀ {origin job e}, t.actor.phase = .invoking origin job →
      job = .saveState e ∨ job = .loadState e → origin = .mailbox := by
    intro origin job e hp hj
    have hph := h.phased
    unfold Phased at hph
    rw [hp] at hph
    rcases hj with rfl | rfl <;> exact hph
  -- one case for each way in which user code ends
  cases hr with
  | initialized _ _ hphase =>
    have hs : ∀ phase, Steady { t.actor with phase } := fun phase =>
      h.steady.congr rfl rfl rfl rfl fun e he => he
    rcases hphase with ⟨-, rfl⟩ | ⟨-, rfl⟩
    · exact (hs _).held rfl hact hrel trivial
    · exact (hs _).held rfl hact hrel trivial
  | caught =>
    unfold EventBasedActor.caught
    split
    · exact Steady.held (h.steady.congr rfl rfl rfl rfl fun e he => he) rfl hact hrel trivial
    · exact Steady.held (h.steady.congr rfl rfl rfl rfl fun e he => he) rfl hact hrel trivial
  | cleanup => exact absurd rfl hne
  | handled =>
    refine held_success ?_ hact hrel
    exact (h.steady.postProcess hresp).congr rfl rfl rfl rfl fun e he => he
  | @skipped origin hadTimeout ptr e hp ho hc =>
    subst ho
    obtain ⟨hset, hcur⟩ := h.settled_of_skip hp hok.scripted
    refine held_skipped (h.steady.timeout hset _ ptr) hact hrel (hcur e hc) fun mid _ hun => ?_
    have hun' : t.actor.settled = false := hun
    rw [hset] at hun'
    cases hun'
  | @gone mid hadTimeout ptr hp ho =>
    subst ho
    obtain ⟨hset, -⟩ := h.settled_of_skip hp hok.scripted
    have hs : Steady { t.actor with
        current := ptr, hasTimeout := hadTimeout || t.actor.hasTimeout, phase := .scanning mid } :=
      (h.steady.timeout hset _ ptr).congr rfl rfl rfl rfl fun e he => he
    refine hs.held rfl hact hrel fun hun => ?_
    have hun' : t.actor.settled = false := hun
    rw [hset] at hun'
    cases hun'
  | response => exact held_finishResponse (h.steady.postProcess hresp) hact hrel
  | failure =>
    exact Steady.held (h.steady.congr rfl rfl rfl rfl fun e he => he) rfl hact hrel trivial
  | unhandled =>
    have hs : Steady (t.actor.quit ExitReason.unhandledSyncFailure) :=
      h.steady.congr rfl rfl rfl rfl fun e he => he
    exact held_finishResponse hs hact hrel
  | arrived => exact held_finishResponse h.steady hact hrel
  | timeout => exact held_success h.steady hact hrel
  -- `save_state` sends a request of its own, at home
  | saved hp ho =>
    obtain rfl := hsys hp (.inl rfl)
    have hn : MessageId.isRequest (t.actor.requests.lastRequestId + 1) = true := by
      simpa [numbersRequests, hp, ho] using hok.numbers
    refine held_dropped (h.steady.requests (h.steady.ordered.syncSendThen hn) ?_) hact hrel
      (by simp)
    intro hall
    rw [Requests.syncSendThen_normal]
    exact hall
  | loaded hp ho =>
    obtain rfl := hsys hp (.inr rfl)
    refine held_dropped ?_ hact hrel (by simp)
    exact h.steady.congr rfl rfl rfl rfl fun e he => he

-- -------------------------
-- Actions
-- -------------------------

/-- An actor is settled if it has neither been migrated nor asked for it. -/
theorem settled_iff : s.settled = true ↔ s.migratedFrom = false ∧ s.migrating = false := by
  simp [settled]

/-- At home, there is no proxy. -/
theorem Steady.home (h : s.settled = true) (hq : s.requests.Ordered)
    (hc : ∀ e ∈ s.visited ++ s.unvisited, ¬ e.isSys)
    (hb : ∀ b ∈ s.behaviors, b.isUser = true ∨ b = .forwarding) : Steady s := by
  refine ⟨hq, hc, hb, fun hm => ?_⟩
  rw [(settled_iff.mp h).1] at hm
  cases hm

/-- User code starts no migration. -/
theorem act_migrating (hok : s.respects (.act a) = true) :
    (s.act a).migrating = s.migrating ∧ (s.act a).migratedFrom = s.migratedFrom := by
  -- only the user's own requests get a handler here
  cases a with
  | setResponseHandler mid b =>
    simp only [respects, Bool.and_eq_true, Bool.not_eq_true'] at hok
    have hb : b ≠ .migration := by
      rintro rfl
      cases hok.1
    have hflags := Requests.flags_setResponseHandler hb (not_answersMigration hok.2)
    refine ⟨?_, rfl⟩
    have hany := congrArg (List.any · id) hflags
    simpa [Requests.flags, migrating, EventBasedActor.act] using hany
  | become b d =>
    obtain ⟨mailbox, enqueued, sent, he⟩ := s.become_eq b d
    rw [he]
    exact ⟨rfl, rfl⟩
  | makeResponsePromise =>
    obtain ⟨current, promises, he, -⟩ := s.keepPromise_eq
    rw [show s.act .makeResponsePromise = s.keepPromise from rfl, he]
    exact ⟨rfl, rfl⟩
  | isMigratedFrom value => cases hok
  | request mp | unbecome | quit rsn | trapExit value | onSyncFailure value | relay r =>
    exact ⟨rfl, rfl⟩

/-- What user code may do keeps a steady actor steady. -/
theorem Steady.act (h : Steady s) (hok : s.respects (.act a) = true)
    (hn : s.numbersRequests (.act a) = true)
    (hask : ∀ mp, a = .request mp → s.settled = true) : Steady (s.act a) := by
  -- a request, a handler and a behavior need an actor at home
  cases a with
  | request mp =>
    have hset := hask mp rfl
    have hq := h.ordered.newRequestId mp hn (settled_iff.mp hset).2
    exact Steady.home hset hq h.cache h.behaviors
  | setResponseHandler mid b =>
    simp only [respects, Bool.and_eq_true, Bool.not_eq_true'] at hok
    refine h.setResponseHandler ?_ hok.2
    rintro rfl
    cases hok.1
  | become b d =>
    simp only [respects, Bool.and_eq_true] at hok
    obtain ⟨mailbox, enqueued, sent, he⟩ := s.become_eq b d
    rw [he]
    refine Steady.home hok.2 h.ordered h.cache fun x hx => ?_
    rcases List.mem_cons.mp hx with rfl | hx
    · exact .inl hok.1
    · refine h.behaviors x ?_
      cases d with
      | false => exact hx
      | true => exact List.mem_of_mem_tail hx
  | unbecome =>
    exact Steady.home hok h.ordered h.cache fun x hx => h.behaviors x (List.mem_of_mem_tail hx)
  | makeResponsePromise =>
    obtain ⟨current, promises, he, -⟩ := s.keepPromise_eq
    rw [show s.act .makeResponsePromise = s.keepPromise from rfl, he]
    exact h.congr rfl rfl rfl rfl fun x hx => hx
  | isMigratedFrom value => cases hok
  | quit rsn | trapExit value | onSyncFailure value | relay r =>
    exact h.congr rfl rfl rfl rfl fun x hx => hx

/-- A message that is marked as answered is no system message. -/
theorem not_isSys_markAsAnswered (h : ¬ e.isSys) :
    ¬ { e with mid := MessageId.markAsAnswered e.mid }.isSys := by
  intro hsys
  exact h ⟨by simpa using hsys.1, hsys.2⟩

/-- User code does not leave its phase. -/
theorem Phased.act (h : Phased t) (hp : t.actor.phase.running = true)
    (hok : t.actor.respects (.act a) = true) :
    Phased (t.record (.act a) (t.actor.act a)) := by
  obtain ⟨-, -, hphase, hcur⟩ := act_frame t.actor a
  obtain ⟨hmig, hfrom⟩ := act_migrating hok
  unfold Phased at h
  unfold Phased record
  dsimp only
  rw [hphase]
  cases hphase' : t.actor.phase with
  | invoking origin job =>
    rw [hphase'] at h
    cases job with
    | message hadTimeout ptr =>
      obtain ⟨hm, hc, hcode⟩ := h
      refine ⟨hmig.trans hm, current_frame hc (fun e he => not_isSys_markAsAnswered he) hcur, ?_⟩
      rw [hfrom]
      exact hcode
    | saveState e | loadState e => exact h
    | response mid ptr | syncTimeout mid ptr | syncFailure mid ptr | timeout => trivial
  | initializing | onExit inTry | failed eptr job => trivial
  | ready | filling | scanning mid | closed | exited =>
    rw [hphase'] at hp
    cases hp

/-- A handler of the user keeps the state where it belongs. -/
theorem Held.userAct (h : Held t) (hp : t.actor.phase.running = true)
    (hr : t.running ≠ some .migration) (hf : t.running ≠ some .forwarding)
    (hok : Loyal t (.act a)) : Held (t.record (.act a) (t.actor.act a)) := by
  have hresp : t.actor.respects (.act a) = true := by
    rw [← scripted_user hr hf]
    exact hok.scripted
  have hrun : (t.record (.act a) (t.actor.act a)).running = t.running :=
    running_eq (act_frame t.actor a).2.2.1 (by simp)
  have hask : ∀ mp, a = .request mp → t.actor.settled = true := by
    rintro mp rfl
    exact hok.asks
  have hrel := h.relayed
  rw [Relayed, if_neg (by simp [hf])] at hrel
  refine ⟨h.steady.act hresp hok.numbers hask, fun hpush => ?_, fun hmig => ?_,
    h.phased.act hp hresp, ?_⟩
  · rw [not_pushing (by rw [hrun]; exact hr)] at hpush
    cases hpush
  · rw [hrun] at hmig
    exact absurd hmig hr
  · rw [Relayed, hrun, if_neg (by simp [hf])]
    simpa [record, hf] using hrel

/-- The handler for the answer to a migration is that of a response. -/
theorem Held.response_of_migration (h : Held t) (hr : t.running = some .migration) :
    ∃ origin awaited ptr, t.actor.phase = .invoking origin (.response awaited ptr) := by
  have hin : t.actor.phase.inHandler = true := by
    by_contra hin
    rw [running_of_not (by simpa using hin)] at hr
    cases hr
  have hph := h.phased
  unfold Phased at hph
  cases hp : t.actor.phase with
  | invoking origin job =>
    rw [hp] at hph hin
    cases job with
    | message hadTimeout ptr =>
      have hmig := h.answer hr
      rw [hph.1] at hmig
      cases hmig
    | response awaited ptr => exact ⟨origin, awaited, ptr, rfl⟩
    | syncTimeout mid ptr | syncFailure mid ptr | timeout | saveState e | loadState e => cases hin
  | initializing | ready | filling | scanning mid | onExit inTry | failed eptr job | closed
  | exited =>
    rw [hp] at hin
    cases hin

/-- The handler for the answer to a migration turns the actor into a proxy. -/
theorem Held.migrate (h : Held t) (hr : t.running = some .migration) (hok : Loyal t (.act a)) :
    Held (t.record (.act a) (t.actor.act a)) := by
  have hrun : (t.record (.act a) (t.actor.act a)).running = some .migration := by
    rw [running_eq (act_frame t.actor a).2.2.1 (by simp), hr]
  have hmig := h.answer hr
  have hne : (some .migration : Option Behavior) ≠ some .forwarding := by decide
  have hrel := h.relayed
  rw [Relayed, hr, if_neg (by simp [hne])] at hrel
  have hrel' : Relayed (t.record (.act a) (t.actor.act a)) := by
    rw [Relayed, hrun, if_neg (by simp [hne])]
    simpa [record, hr, hne] using hrel
  have hscript := hok.scripted
  unfold scripted at hscript
  rw [if_pos hr] at hscript
  simp only [Bool.or_eq_true, Bool.and_eq_true, decide_eq_true_eq] at hscript
  -- the phase is that of a response
  have hresponse : ∃ origin awaited ptr, t.actor.phase = .invoking origin (.response awaited ptr) :=
    h.response_of_migration hr
  have hphased : Phased (t.record (.act a) (t.actor.act a)) := by
    obtain ⟨origin, awaited, ptr, hp⟩ := hresponse
    unfold Phased record
    dsimp only
    rw [(act_frame t.actor a).2.2.1, hp]
    trivial
  -- `become(forwarding)` makes the actor a proxy, `is_migrated_from(true)` leaves it one
  rcases hscript with ⟨hstage, rfl⟩ | ⟨hstage, rfl⟩
  · have halone : t.actor.requests.flags.all id = true := by
      simpa [migratesAlone, hr, Requests.flags] using hok.alone
    obtain ⟨mailbox, enqueued, sent, he⟩ := t.actor.become_eq .forwarding false
    rw [he] at hphased hrel' ⊢
    have hproxy : Proxy { t.actor with
        behaviors := .forwarding :: if false then t.actor.behaviors.tail else t.actor.behaviors
        hasTimeout := Behavior.forwarding.timeout.isSome
        timeoutId := if Behavior.forwarding.timeout.isSome then t.actor.timeoutId + 2
          else t.actor.timeoutId
        mailbox
        enqueued
        sent } := ⟨halone, rfl, rfl⟩
    refine ⟨⟨h.steady.ordered, h.steady.cache, fun b hb => ?_, fun _ => hproxy⟩,
      fun _ => hproxy, fun _ => hmig, hphased, hrel'⟩
    rcases List.mem_cons.mp hb with rfl | hb
    · exact .inr rfl
    · exact h.steady.behaviors b hb
  · have hproxy := h.pushed (pushing_iff.mpr ⟨hr, hstage⟩)
    have hproxy' : Proxy (t.actor.act (.isMigratedFrom true)) := hproxy.congr rfl rfl rfl
    exact ⟨⟨h.steady.ordered, h.steady.cache, h.steady.behaviors, fun _ => hproxy'⟩,
      fun _ => hproxy', fun _ => hmig, hphased, hrel'⟩

/-- The forwarding behavior forwards its message. -/
theorem Held.relay (h : Held t) (hp : t.actor.phase.running = true)
    (hr : t.running = some .forwarding) (hstage : t.stage = 0) :
    Held (t.record (.act (.relay .forward)) (t.actor.act (.relay .forward))) := by
  have hrun : (t.record (.act (.relay .forward)) (t.actor.act (.relay .forward))).running =
      some .forwarding := by
    rw [running_eq (act_frame t.actor (.relay .forward)).2.2.1 (by simp), hr]
  have hne : (some .forwarding : Option Behavior) ≠ some .migration := by decide
  have hrel := h.relayed
  rw [Relayed, if_pos ⟨hr, hstage⟩] at hrel
  obtain ⟨e, hc, htaken⟩ := hrel
  refine ⟨h.steady.congr rfl rfl rfl rfl fun x hx => hx, fun hpush => ?_, fun hmig => ?_,
    h.phased.act hp rfl, ?_⟩
  · rw [not_pushing (by rw [hrun]; exact hne)] at hpush
    cases hpush
  · rw [hrun] at hmig
    exact absurd hmig hne
  · have hstage' : (t.record (.act (.relay .forward)) (t.actor.act (.relay .forward))).stage = 1 :=
      congrArg (· + 1) hstage
    rw [Relayed, hstage', if_neg (by simp)]
    simp [record, hr, hc, htaken]

/-- Every action does. -/
theorem Held.act (h : Held t) (hp : t.actor.phase.running = true) (hok : Loyal t (.act a)) :
    Held (t.record (.act a) (t.actor.act a)) := by
  by_cases hr : t.running = some .migration
  · exact h.migrate hr hok
  by_cases hf : t.running = some .forwarding
  · have hscript := hok.scripted
    unfold scripted at hscript
    rw [if_neg hr, if_pos hf] at hscript
    simp only [Bool.and_eq_true, decide_eq_true_eq] at hscript
    obtain ⟨hstage, rfl⟩ := hscript
    exact h.relay hp hf hstage
  · exact h.userAct hp hr hf hok

-- -------------------------
-- The next message
-- -------------------------

/-- During and after a migration, scans of the cache know what is awaited. -/
theorem Held.awaited_eq (h : Held t) (ht : t.actor.Takes s₁ e origin awaited)
    (hun : t.actor.settled = false) : awaited = t.actor.requests.awaitedResponseId := by
  cases ht with
  | mailbox | high | first => rfl
  | cache hp =>
    have hph := h.phased
    unfold Phased at hph
    rw [hp] at hph
    exact hph hun

/-- What is taken leaves the cache. -/
theorem Held.takes (h : Held t) (ht : t.actor.Takes s₁ e origin awaited) :
    Steady s₁ ∧ (∀ mid, origin = .cache mid → ¬ e.isSys) := by
  cases ht with
  | mailbox | high | first => exact ⟨h.steady.congr rfl rfl rfl rfl fun x hx => hx, nofun⟩
  | @cache _ unvisited mid hp hun =>
    refine ⟨h.steady.congr rfl rfl rfl rfl fun x hx => ?_, fun _ _ => ?_⟩
    · rw [hun, List.mem_append, List.mem_cons]
      rcases List.mem_append.mp hx with hx | hx
      · exact .inl hx
      · exact .inr (.inr hx)
    · exact h.steady.cache e (by simp [hun])

/-- A handler begins. -/
theorem Steady.begins (h : Steady s') (hc : s'.current = some e) (he : t.actor.nextElement = some e)
    (hrel : t.taken = t.forwarded) (hp : Phased (t.record .next s')) :
    Held (t.record .next s') := by
  refine ⟨h, fun hpush => ?_, fun hr => ?_, hp, ?_⟩
  · rw [not_pushing_next] at hpush
    cases hpush
  · rw [running_next] at hr
    exact migrating_of_called hr h.behaviors
  · unfold Relayed
    rw [running_next]
    split
    · next hcalled =>
      refine ⟨e, hc, ?_⟩
      simp [record, hcalled.1, he, hrel]
    · next hcalled =>
      have hne : s'.called ≠ some .forwarding := fun hf => hcalled ⟨hf, rfl⟩
      simp [record, hne, hrel]

/-- Taking a message changes neither the stack nor the requests. -/
theorem takes_settled (ht : t.actor.Takes s₁ e origin awaited) :
    s₁.settled = t.actor.settled ∧ s₁.migrating = t.actor.migrating ∧
      s₁.requests = t.actor.requests := by
  obtain ⟨mailbox, first, unvisited, rfl⟩ := ht.eq
  exact ⟨rfl, rfl, rfl⟩

/-- During a migration, its answer is awaited. -/
theorem Held.awaited_front (h : Held t) (ht : t.actor.Takes s₁ e origin awaited)
    (hm : t.actor.migrating = true) : ∃ pr prs,
      t.actor.requests.pendingResponses = pr :: prs ∧ isMigration pr = true ∧
      MessageId.valid awaited = true ∧ awaited = pr.1 := by
  obtain ⟨pr, prs, hp, hpr, hvalid⟩ := h.steady.ordered.head hm
  have haw : awaited = pr.1 := by
    rw [h.awaited_eq ht (unsettled_of_migrating hm), Requests.awaitedResponseId, hp]
    rfl
  exact ⟨pr, prs, hp, hpr, by rw [haw]; exact hvalid, haw⟩

/-- The next message does. -/
theorem Held.next (h : Held t) (hrel : t.taken = t.forwarded)
    (ht : t.actor.Takes s₁ e origin awaited) (hi : s₁.Invoked e origin awaited s') :
    Held (t.record .next s') := by
  have hact : ∀ a, Label.next ≠ .act a := by simp
  obtain ⟨hs, hcached⟩ := h.takes ht
  obtain ⟨hset, hmig, hq⟩ := takes_settled ht
  have hmid : ∀ mid, origin = .cache mid → s₁.settled = false →
      mid = s₁.requests.awaitedResponseId := by
    rintro mid rfl hun
    rw [hset] at hun
    rw [hq, ← h.awaited_eq ht hun]
    cases ht
    rfl
  have hsys : e.isSys → origin = .mailbox := by
    intro hsys
    cases origin with
    | mailbox => rfl
    | cache mid => exact absurd hsys (hcached mid rfl)
  have hphase : ∀ phase, Steady { s₁ with phase } := fun phase =>
    hs.congr rfl rfl rfl rfl fun x hx => hx
  have hinv : ∀ job, Steady (s₁.invoke e origin job) := fun job =>
    hs.congr rfl rfl rfl rfl fun x hx => hx
  -- one case for each result of `invoke_message`
  cases hi with
  | dropped => exact held_dropped hs hact hrel hmid
  | @replied content =>
    have hsent : Steady (s₁.send [e.reply content]) := hs.congr rfl rfl rfl rfl fun x hx => hx
    exact held_dropped hsent hact hrel hmid
  | skipped hf =>
    refine held_skipped hs hact hrel ?_ hmid
    rcases hf with ⟨hf, -⟩ | ⟨hf, -⟩
    · exact not_isSys_of_ordinary hf
    · exact not_isSys_of_response hf
  | saveState he => exact (hphase _).held rfl hact hrel (hsys he)
  | loadState he hc =>
    refine Steady.held ⟨hs.ordered, hs.cache, fun b hb => ?_, nofun⟩ rfl hact hrel (hsys he)
    refine hs.behaviors b ?_
    dsimp only at hb
    split at hb
    · exact List.mem_of_mem_tail hb
    · exact hb
  | @exit rsn =>
    have hquit : Steady (s₁.quit rsn) := hs.congr rfl rfl rfl rfl fun x hx => hx
    exact held_success hquit hact hrel
  | timeout => exact (hphase _).held rfl hact hrel trivial
  -- an ordinary message is only taken while no answer to the migration is awaited
  | message hf hinvalid =>
    have hnot : s₁.migrating = false := by
      cases hm : s₁.migrating with
      | false => rfl
      | true =>
        obtain ⟨pr, prs, -, -, hvalid, -⟩ := h.awaited_front ht (hmig ▸ hm)
        rw [hinvalid] at hvalid
        cases hvalid
    have hinv : Steady ({ s₁ with hasTimeout := false }.invoke e origin
        (.message s₁.hasTimeout s₁.current)) := by
      refine ⟨hs.ordered, hs.cache, hs.behaviors, fun hm => ?_⟩
      obtain ⟨halone, hfw, -⟩ := hs.proxy hm
      exact ⟨halone, hfw, rfl⟩
    refine hinv.begins rfl ht.nextElement hrel ⟨hnot, fun x hx => ?_, fun hm => ?_⟩
    · cases hx
      exact not_isSys_of_ordinary hf
    · exact (hs.proxy hm).forwards
  | response => exact (hinv _).begins rfl ht.nextElement hrel trivial
  | syncTimeout => exact (hinv _).held rfl hact hrel trivial
  | arrived => exact held_finishResponse (hinv _) hact hrel

-- -------------------------
-- Runs
-- -------------------------

/-- An actor that takes a message has forwarded what it took. -/
theorem Held.taken_of_takes (h : Held t) (hp : t.actor.phase.takes = true) :
    t.taken = t.forwarded := by
  have hrel := h.relayed
  rw [Relayed, running_of_takes hp, if_neg (by simp)] at hrel
  exact hrel

/-- Steps that change nothing that matters. -/
theorem Held.frame (h : Held t) (hl : l ≠ .next) (ha : ∀ a, l ≠ .act a) (hs : Steady s')
    (hb : t.pushing = true → Proxy s') (hq : s'.requests = t.actor.requests)
    (hm : s'.migratedFrom = t.actor.migratedFrom) (hc : s'.current = t.actor.current)
    (hp : s'.phase = t.actor.phase) : Held (t.record l s') := by
  have hrun : (t.record l s').running = t.running := running_eq hp hl
  have hstage : (t.record l s').stage = t.stage := by
    cases l with
    | next => exact absurd rfl hl
    | act a => exact absurd rfl (ha a)
    | enqueue | ret | resetTimeout | block | handle | exit | deliver => rfl
  have hmig : s'.migrating = t.actor.migrating := by rw [migrating, migrating, hq]
  have hset : s'.settled = t.actor.settled := by rw [settled, settled, hm, hmig]
  refine ⟨hs, fun hpush => ?_, fun hr => ?_, ?_, ?_⟩
  · rw [pushing, hrun, hstage] at hpush
    exact hb hpush
  · rw [hrun] at hr
    exact hmig.trans (h.answer hr)
  · have hph := h.phased
    unfold Phased at hph
    unfold Phased record
    dsimp only
    rw [hp, hset, hq, hmig, hm, hc, if_neg hl]
    exact hph
  · have hrel := h.relayed
    have htaken : (t.record l s').taken = t.taken := if_neg fun hcalled => hl hcalled.1
    have hforwarded : (t.record l s').forwarded = t.forwarded := if_neg fun hrelay => ha _ hrelay.1
    have hcur : (t.record l s').actor.current = t.actor.current := hc
    unfold Relayed at hrel ⊢
    rw [hrun, hstage, htaken, hforwarded, hcur]
    exact hrel

/-- The same, when the timeout does not change either. -/
theorem Held.same (h : Held t) (hl : l ≠ .next) (ha : ∀ a, l ≠ .act a)
    (hq : s'.requests = t.actor.requests) (hb : s'.behaviors = t.actor.behaviors)
    (hm : s'.migratedFrom = t.actor.migratedFrom) (ht : s'.hasTimeout = t.actor.hasTimeout)
    (hv : s'.visited = t.actor.visited) (hu : s'.unvisited = t.actor.unvisited)
    (hc : s'.current = t.actor.current) (hp : s'.phase = t.actor.phase) :
    Held (t.record l s') := by
  refine h.frame hl ha ?_ (fun hpush => (h.pushed hpush).congr hq hb ht) hq hm hc hp
  exact h.steady.congr hq hb hm ht fun e he => by rwa [hv, hu] at he

/-- A proxy requests no timeout. -/
theorem Proxy.getBehavior (h : Proxy s) : s.getBehavior.bind (·.timeout) = none := by
  unfold EventBasedActor.getBehavior
  split
  · rw [h.forwards]
    rfl
  · next pr prs hp =>
    have halone := h.alone
    rw [Requests.flags, hp, List.map_cons, List.all_cons, Bool.and_eq_true] at halone
    rw [of_decide_eq_true halone.1]
    rfl

/-- Resetting the timeout does nothing to a proxy. -/
theorem Held.resetTimeout (h : Held t) (hp : t.actor.phase = .ready) : Held (t.record .resetTimeout
    (t.actor.requestTimeout (t.actor.getBehavior.bind (·.timeout)))) := by
  have hpush : t.pushing = false := not_pushing (by
    rw [running_of_not (by rw [hp]; rfl)]
    simp)
  obtain ⟨mailbox, enqueued, sent, he⟩ := requestTimeout_eq t.actor
    (t.actor.getBehavior.bind (·.timeout))
  rw [he]
  refine h.frame nofun nofun ?_ (fun hp => absurd hp (by simp [hpush])) rfl rfl rfl rfl
  refine ⟨h.steady.ordered, h.steady.cache, h.steady.behaviors, fun hm => ?_⟩
  have hproxy := h.steady.proxy hm
  refine ⟨hproxy.alone, hproxy.forwards, ?_⟩
  rw [hproxy.getBehavior]
  rfl

/-- Every loyal step keeps the state where it belongs. -/
theorem Held.step (h : t.actor.phase.ended = false → Held t) (hok : Loyal t l)
    (hstep : t.step l = some t') (hend : t'.actor.phase.ended = false) : Held t' := by
  obtain ⟨s', hs, rfl⟩ := Option.map_eq_some_iff.mp hstep
  have hended : s'.phase.ended = false := hend
  have hbefore : s'.phase = t.actor.phase → Held t := fun hp => h (by rwa [hp] at hended)
  -- one case for each step of the actor
  cases step_cases hs with
  | @enqueue sender mid content =>
    obtain ⟨mailbox, enqueued, sent, he⟩ := t.actor.enqueue_eq sender mid content
    rw [he] at hbefore ⊢
    exact (hbefore rfl).same nofun nofun rfl rfl rfl rfl rfl rfl rfl rfl
  | @act a hp => exact (hbefore (act_frame t.actor a).2.2.1).act hp hok
  | ret hr =>
    refine (h hr.not_ended).ret hok hr fun hc => ?_
    rw [hc] at hended
    cases hended
  | takes ht hi =>
    have hheld := h (not_ended_of_takes ht.takes)
    exact hheld.next (hheld.taken_of_takes ht.takes) ht hi
  | reads hr =>
    have hheld := h (not_ended_of_takes hr.takes)
    have hrel := hheld.taken_of_takes hr.takes
    obtain ⟨mailbox, first, phase, rfl, hphase⟩ := hr.eq
    have hs : Steady { t.actor with mailbox, first, phase } :=
      hheld.steady.congr rfl rfl rfl rfl fun x hx => hx
    rcases hphase with rfl | rfl
    · exact hs.held rfl nofun hrel trivial
    · exact hs.held rfl nofun hrel trivial
  | resetTimeout hp => exact (h (by rw [hp]; rfl)).resetTimeout hp
  | block hp => exact (hbefore rfl).same nofun nofun rfl rfl rfl rfl rfl rfl rfl rfl
  | @handle rsn eptr job phase hp hphase =>
    have hheld := h (by rw [hp]; rfl)
    have hrel := hheld.relayed
    rw [Relayed, running_of_not (by rw [hp]; rfl), if_neg (by simp)] at hrel
    have hsteady : ∀ phase, Steady { t.actor with
        plannedExitReason := rsn.getD t.actor.plannedExitReason
        visited := t.actor.visited ++ t.actor.unvisited
        unvisited := []
        phase } := fun phase =>
      hheld.steady.congr rfl rfl rfl rfl fun x hx => by simpa using hx
    rcases hphase with rfl | ⟨rfl, -⟩
    · exact (hsteady _).held rfl nofun hrel trivial
    · exact (hsteady _).held rfl nofun hrel trivial
  | exit hp => cases hended
  | deliver => exact (hbefore rfl).same nofun nofun rfl rfl rfl rfl rfl rfl rfl rfl

/-- In every loyal run it is where it belongs. -/
theorem held (h : Reachable Loyal t) : t.actor.phase.ended = false → Held t := by
  refine Reach.invariant (fun t h0 => ?_) (fun t l t' ht hok hs => Held.step ht hok hs) h
  obtain ⟨⟨ref, priorityAware, serializable, h0⟩, -, htaken, hforwarded⟩ := h0
  intro _
  have hrun : t.running = none := running_of_not (by rw [h0]; rfl)
  refine ⟨?_, fun hp => ?_, fun hr => ?_, ?_, ?_⟩
  · rw [h0]
    exact ⟨⟨nofun, .nil⟩, nofun, nofun, nofun⟩
  · rw [not_pushing (by simp [hrun])] at hp
    cases hp
  · rw [hrun] at hr
    cases hr
  · unfold Phased
    rw [h0]
    trivial
  · rw [Relayed, hrun, if_neg (by simp), htaken, hforwarded]

-- -------------------------
-- Results
-- -------------------------

/-- The code belongs to a migration: it is `save_state`, `load_state` or the handler for the
answer. -/
def ofMigration (s : EventBasedActor) : Job → Prop
  | .saveState _ | .loadState _ => True
  | .response _ _ => s.called = some .migration
  | _ => False

/-- Nothing but the answer is handled during a migration. -/
theorem Held.suspended {origin' : Origin} {job : Job} (h : Held t)
    (ht : t.actor.Takes s₁ e origin awaited) (hi : s₁.Invoked e origin awaited s')
    (hm : t.actor.migrating = true) (hp : s'.phase = .invoking origin' job) :
    ofMigration s' job := by
  obtain ⟨pr, prs, hpending, hpr, hvalid, haw⟩ := h.awaited_front ht hm
  have hfind : (s₁.requests.findPendingResponse awaited).bind (·.2) = some .migration := by
    rw [(takes_settled ht).2.2, Requests.findPendingResponse, hpending, haw]
    simpa [isMigration] using hpr
  cases hi with
  | dropped | replied => exact absurd hp dropped_ne_invoking
  | skipped => exact absurd hp skipped_ne_invoking
  | exit | arrived => exact absurd hp success_ne_invoking
  | saveState | loadState =>
    cases hp
    trivial
  | timeout _ h0 =>
    rw [h0] at hvalid
    exact absurd hvalid (by decide)
  | message _ hinvalid =>
    rw [hinvalid] at hvalid
    cases hvalid
  | response =>
    cases hp
    exact hfind
  | syncTimeout _ _ hd =>
    rw [hfind] at hd
    cases hd

/-- A proxy that is not about to migrate awaits nothing. -/
theorem Proxy.pending_nil (h : Proxy s) (hm : s.migrating = false) :
    s.requests.pendingResponses = [] := by
  cases hp : s.requests.pendingResponses with
  | nil => rfl
  | cons pr prs =>
    have halone := h.alone
    rw [Requests.flags, hp, List.map_cons, List.all_cons, Bool.and_eq_true] at halone
    rw [migrating, hp, List.any_cons, Bool.or_eq_false_iff] at hm
    rw [hm.1] at halone
    cases halone.1

theorem filterMsg_awaits (h : s.filterMsg e = .syncResponse) : s.requests.awaits e.mid = true := by
  have hfits := s.filterMsg_fits e
  rw [h] at hfits
  exact hfits.2

/-- Only answers to migrations are awaited. -/
theorem Proxy.answersMigration (h : Proxy s) (hf : s.filterMsg e = .syncResponse) :
    s.answersMigration e.mid = true := by
  obtain ⟨pr, hpr, heq⟩ := List.any_eq_true.mp (filterMsg_awaits hf)
  have halone := List.all_eq_true.mp h.alone (isMigration pr) (List.mem_map_of_mem hpr)
  have hflag : isMigration pr = true := by simpa using halone
  have hid : pr.1 = e.mid := by simpa using heq
  exact List.any_eq_true.mpr ⟨pr, hpr, by simp [hflag, hid]⟩

/-- No timeout is active. -/
theorem Proxy.filterMsg (h : Proxy s) : s.filterMsg e ≠ .timeout := by
  intro hf
  obtain ⟨tid, -, hactive⟩ := filterMsg_timeout hf
  simp [isActiveTimeout, h.timeless] at hactive

/-- While migrated the actor forwards what it takes, or handles the answer to the migration. -/
theorem Held.proxied {origin' : Origin} {job : Job} (h : Held t)
    (ht : t.actor.Takes s₁ e origin awaited) (hi : s₁.Invoked e origin awaited s')
    (hm : t.actor.migratedFrom = true) (hp : s'.phase = .invoking origin' job) :
    ofMigration s' job ∨ s'.called = some .forwarding := by
  -- before the answer comes back the actor is suspended, afterwards it forwards
  cases hmig : t.actor.migrating with
  | true => exact .inl (h.suspended ht hi hmig hp)
  | false =>
    have hproxy := h.steady.proxy hm
    have hnil := hproxy.pending_nil hmig
    have hnone : t.actor.filterMsg e ≠ .syncResponse := by
      intro hf
      have haw := filterMsg_awaits hf
      rw [Requests.awaits, hnil] at haw
      cases haw
    obtain ⟨mailbox, first, unvisited, rfl⟩ := ht.eq
    cases hi with
    | dropped | replied => exact absurd hp dropped_ne_invoking
    | skipped => exact absurd hp skipped_ne_invoking
    | exit => exact absurd hp success_ne_invoking
    | saveState | loadState =>
      cases hp
      exact .inl trivial
    | timeout hf => exact absurd hf hproxy.filterMsg
    | message => exact .inr hproxy.forwards
    | response hf | syncTimeout hf | arrived hf => exact absurd hf hnone

theorem mem_skipped : e ∈ (s.skipped e origin).visited := by
  obtain ⟨visited, phase, he, hmem, -⟩ := s.skipped_eq e origin
  rw [he]
  exact (hmem e).mpr (.inl rfl)

/-- An ordinary message is forwarded, or kept until a further migration is answered. -/
theorem Held.ordinary (h : Held t) (ht : t.actor.Takes s₁ e origin awaited)
    (hi : s₁.Invoked e origin awaited s') (hm : t.actor.migratedFrom = true)
    (hf : t.actor.filterMsg e = .ordinary) :
    s'.called = some .forwarding ∨ t.actor.migrating = true ∧ e ∈ s'.visited := by
  have hproxy := h.steady.proxy hm
  have hunsettled : t.actor.settled = false := by simp [settled, hm]
  have haw := h.awaited_eq ht hunsettled
  have hnsys := not_isSys_of_ordinary hf
  obtain ⟨mailbox, first, unvisited, rfl⟩ := ht.eq
  have hf₁ : { t.actor with mailbox, first, unvisited }.filterMsg e = .ordinary := hf
  cases hi with
  | dropped hne => exact absurd hf hne
  | skipped hskip =>
    rcases hskip with ⟨-, hvalid⟩ | ⟨hresp, -⟩
    · refine .inr ⟨?_, mem_skipped⟩
      cases hmig : t.actor.migrating with
      | true => rfl
      | false =>
        rw [haw, Requests.awaitedResponseId, hproxy.pending_nil hmig] at hvalid
        exact absurd hvalid (by decide)
    · rw [hf₁] at hresp
      cases hresp
  | replied hsys | saveState hsys | loadState hsys => exact absurd hsys hnsys
  | message => exact .inl hproxy.forwards
  | exit hf' | timeout hf' | response hf' | syncTimeout hf' | arrived hf' =>
    rw [hf₁] at hf'
    cases hf'

/-- What happens to the messages of an actor that is migrated. -/
theorem Held.passesOn (h : Held t) (ht : t.actor.Takes s₁ e origin awaited)
    (hi : s₁.Invoked e origin awaited s') (hm : t.actor.migratedFrom = true)
    (hok : t.takesOrdinary .next = true) :
    e.isSys ∨ t.actor.answersMigration e.mid = true ∨ s'.called = some .forwarding ∨
      t.actor.migrating = true ∧ e ∈ s'.visited := by
  have hproxy := h.steady.proxy hm
  have htype : t.actor.filterMsg e = .ordinary ∨ t.actor.filterMsg e = .sysMessage ∨
      t.actor.filterMsg e = .syncResponse := by
    have hne := hproxy.filterMsg (e := e)
    simp only [takesOrdinary, hm, ht.nextElement, Option.all_some] at hok
    cases hf : t.actor.filterMsg e <;> simp_all
  rcases htype with hf | hf | hf
  · exact .inr (.inr (h.ordinary ht hi hm hf))
  · exact .inl (filterMsg_sysMessage hf)
  · exact .inr (.inl (hproxy.answersMigration hf))

/-- What an actor does with its next message during and after a migration. -/
structure Preserves (t : MigratingActor) (s' : EventBasedActor) : Prop where
  /-- until the migration is answered, no handler is called but that for the answer -/
  suspended : t.actor.migrating = true → ∀ origin job, s'.phase = .invoking origin job →
    ofMigration s' job
  /-- after it, only the forwarding behavior is called -/
  proxied : t.actor.migratedFrom = true → ∀ origin job, s'.phase = .invoking origin job →
    ofMigration s' job ∨ s'.called = some .forwarding
  /-- messages other than those of migrations are passed to it, at once or after a further
  migration -/
  passed : t.actor.migratedFrom = true → ∀ e ∈ t.actor.nextElement, e.isSys ∨
    t.actor.answersMigration e.mid = true ∨ s'.called = some .forwarding ∨
    t.actor.migrating = true ∧ e ∈ s'.visited
  /-- it has forwarded all messages that it was called for -/
  forwarded : t.taken = t.forwarded

/-- **Migration loses no state update.** In runs in which nothing else is awaited when a migration
succeeds, handlers of the user do not change the state after it was saved, and all messages after
the migration are forwarded. -/
theorem no_stale_update (h : Reachable Loyal t) (hok : Loyal t .next)
    (hs : t.actor.step .next = some s') : Preserves t s' := by
  cases step_cases hs with
  | takes ht hi =>
    have hheld := held h (not_ended_of_takes ht.takes)
    refine ⟨fun hm origin job hp => hheld.suspended ht hi hm hp,
      fun hm origin job hp => hheld.proxied ht hi hm hp, fun hm e he => ?_,
      hheld.taken_of_takes ht.takes⟩
    rw [ht.nextElement] at he
    cases he
    exact hheld.passesOn ht hi hm hok.ordinary
  | reads hr =>
    have hheld := held h (not_ended_of_takes hr.takes)
    have hnone := hr.nextElement
    have hnot : ∀ origin job, s'.phase ≠ .invoking origin job := by
      obtain ⟨mailbox, first, phase, rfl, hphase⟩ := hr.eq
      rcases hphase with rfl | rfl <;> nofun
    refine ⟨fun _ origin job hp => absurd hp (hnot origin job),
      fun _ origin job hp => absurd hp (hnot origin job), fun _ e he => ?_,
      hheld.taken_of_takes hr.takes⟩
    rw [hnone] at he
    cases he

/-- A message to an actor that has migrated is forwarded. -/
theorem no_stale_update_message : ∃ t s', Reachable Loyal t ∧ t.actor.migratedFrom = true ∧
    t.actor.step .next = some s' ∧ s'.called = some .forwarding ∧ Preserves t s' := by
  obtain ⟨t, hr, hs⟩ := exists_run (fun t l => if Loyal t l then step t l else none)
    ⟨.initial 1 true true, none, 0, [], [], []⟩
    (([.act (.become ⟨none, .user 0⟩ false), .ret .void] : List Label) ++ Sample.asked ++
      Sample.answered Sample.firstResponse ++
      ([.enqueue (.localActor 7) 0 .user, .next, .next] : List Label))
    (fun t => t.actor.migratedFrom && decide (Loyal t .next) &&
      (t.actor.step .next).any fun s : EventBasedActor => decide (s.called = some .forwarding))
    (by decide +kernel)
  have h : Reachable Loyal t := reach_of_checked_run (.init initial_isInitial) hr
  simp only [Bool.and_eq_true, decide_eq_true_eq] at hs
  obtain ⟨⟨hm, hok⟩, hs⟩ := hs
  obtain ⟨s', hs', hcalled⟩ := (Option.any_eq_true _ _).mp hs
  rw [decide_eq_true_eq] at hcalled
  exact ⟨t, s', h, hm, hs', hcalled, no_stale_update h hok hs'⟩

/-- An actor has made a request before it migrates: the handler for the response is called on the
old state. -/
theorem late_response : ¬ ∀ (t : MigratingActor) (s' : EventBasedActor),
    Reachable (fun t l => t.scripted l = true ∧ t.asksAtHome l = true) t →
    t.actor.step .next = some s' → t.actor.migratedFrom = true →
    ∀ origin job, s'.phase = .invoking origin job →
      ofMigration s' job ∨ s'.called = some .forwarding := by
  intro hall
  obtain ⟨t, hr, hs⟩ := exists_run
    (fun t l => if t.scripted l = true ∧ t.asksAtHome l = true then step t l else none)
    ⟨.initial 1 true true, none, 0, [], [], []⟩
    (([.act (.become ⟨none, .user 0⟩ false), .act (.request .normal),
        .act (.setResponseHandler Sample.firstResponse ⟨none, .user 1⟩),
        .ret .void] : List Label) ++
      Sample.asked ++ Sample.answered (Sample.firstResponse + 1) ++
      ([.enqueue (.localActor 8) Sample.firstResponse .user, .next, .next] : List Label))
    (fun t => t.actor.migratedFrom &&
      (t.actor.step .next).any fun s : EventBasedActor =>
        decide (s.phase = .invoking .mailbox (.response Sample.firstResponse none)) &&
          decide (s.called = some ⟨none, .user 1⟩))
    (by decide +kernel)
  have h : Reachable (fun t l => t.scripted l = true ∧ t.asksAtHome l = true) t :=
    reach_of_checked_run (.init initial_isInitial) hr
  rw [Bool.and_eq_true] at hs
  obtain ⟨hm, hs⟩ := hs
  obtain ⟨s', hs', hp⟩ := (Option.any_eq_true _ _).mp hs
  simp only [Bool.and_eq_true, decide_eq_true_eq] at hp
  obtain ⟨hphase, hcalled⟩ := hp
  rcases hall t s' h hs' hm _ _ hphase with hmig | hfw
  · rw [ofMigration, hcalled] at hmig
    exact absurd hmig (by decide)
  · rw [hcalled] at hfw
    exact absurd hfw (by decide)

end MigratingActor

end BoostActor
