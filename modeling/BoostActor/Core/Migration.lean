import BoostActor.Core.ActorSteps
import BoostActor.Core.ResponseHandlers

/-!
# Migration

An actor that is asked to migrate saves its state and sends it to a migration manager. If this
answers with the address of a new actor, the old one "decays" into a proxy: it pushes a behavior
that forwards everything and sets `is_migrated_from`. A migrate-back message undoes both.

`MigratingActor` adds to an actor the library code that runs and how far it is, and the behavior
stack from before the migration. The library code for the answer and for forwarded messages is
fixed; all other code is user code, which leaves the stack alone during a migration.

* `migration_bookkeeping` — `is_migrated_from` says whether the one forwarding behavior is on top
  of the stack, and a migrate-back message restores the stack;
* `migrated_twice` — the answers to two overlapping migrations push two forwarding behaviors.
-/

namespace BoostActor

open Lib EventBasedActor

/-- The behavior after a migration. -/
def Behavior.forwarding : Behavior := ⟨none, .forwarding⟩

/-- The handler for the answer to a migration request. -/
def Behavior.migration : Behavior := ⟨none, .migration⟩

def Behavior.isForwarding (b : Behavior) : Bool := b.handlers = .forwarding

/-- The behavior is user code. -/
def Behavior.isUser (b : Behavior) : Bool :=
  match b.handlers with
  | .user _ => true
  | _ => false

/-- The pending response is the answer to a migration request. -/
def isMigration (pr : MessageId × Option Behavior) : Bool := pr.2 = some .migration

namespace EventBasedActor

/-- A migration has not been answered yet. -/
def migrating (s : EventBasedActor) : Bool := s.requests.pendingResponses.any isMigration

/-- The response is the answer to a migration request. -/
def answersMigration (s : EventBasedActor) (mid : MessageId) : Bool :=
  s.requests.pendingResponses.any fun pr => isMigration pr && pr.1 = mid

/-- The actor is neither migrated nor about to migrate. -/
def settled (s : EventBasedActor) : Bool := !s.migratedFrom && !s.migrating

/-- A handler for a message or for a response is running. -/
def Phase.inHandler : Phase → Bool
  | .invoking _ (.message _ _) | .invoking _ (.response _ _) => true
  | _ => false

/-- The code of a handler that begins. -/
def called (s : EventBasedActor) : Option Behavior :=
  match s.phase with
  | .invoking _ (.message _ _) => s.behaviors.head?
  | .invoking _ (.response mid _) => (s.requests.findPendingResponse mid).bind (·.2)
  | _ => none

/-- User code does not know the ids of migration requests, and it leaves the behavior stack alone
during a migration. -/
def respects (s : EventBasedActor) : Label → Bool
  | .act (.become b _) => b.isUser && s.settled
  | .act .unbecome => s.settled
  | .act (.setResponseHandler mid b) => b.isUser && !s.answersMigration mid
  | .act (.isMigratedFrom _) => false
  | .ret (.messageId mid) => !s.answersMigration mid
  | _ => true

variable {s s' : EventBasedActor} {a : Action} {o : Outcome}
variable {e : MailboxElement} {origin : Origin} {awaited : MessageId}

-- -------------------------
-- What a step does to the stack
-- -------------------------

/-- Actions that do not change the stack. -/
theorem act_stack (s : EventBasedActor) (hb : ∀ b d, a ≠ .become b d) (hu : a ≠ .unbecome)
    (hm : ∀ v, a ≠ .isMigratedFrom v) :
    (s.act a).behaviors = s.behaviors ∧ (s.act a).migratedFrom = s.migratedFrom := by
  cases a with
  | become b d => exact absurd rfl (hb b d)
  | unbecome => exact absurd rfl hu
  | isMigratedFrom v => exact absurd rfl (hm v)
  | makeResponsePromise =>
    obtain ⟨current, promises, he, -⟩ := s.keepPromise_eq
    rw [show s.act .makeResponsePromise = s.keepPromise from rfl, he]
    exact ⟨rfl, rfl⟩
  | request mp | setResponseHandler mid b | quit rsn | trapExit value | onSyncFailure value
  | relay r => exact ⟨rfl, rfl⟩

/-- Success leaves the stack of behaviors and the flag as they are. -/
theorem success_stack (s : EventBasedActor) : s.success.behaviors = s.behaviors ∧
    s.success.migratedFrom = s.migratedFrom ∧ s.success.phase.inHandler = false := by
  rcases s.success_eq with he | he
  · rw [he]
    exact ⟨rfl, rfl, rfl⟩
  · rw [he]
    exact ⟨rfl, rfl, rfl⟩

theorem dropped_stack (s : EventBasedActor) (origin : Origin) :
    (s.dropped origin).behaviors = s.behaviors ∧
      (s.dropped origin).migratedFrom = s.migratedFrom ∧
      (s.dropped origin).phase.inHandler = false := by
  cases origin with
  | mailbox => exact ⟨rfl, rfl, rfl⟩
  | cache mid => exact ⟨rfl, rfl, rfl⟩

/-- Only a migrate-back message changes the stack before user code is called. -/
theorem Invoked.stack (h : s.Invoked e origin awaited s') :
    s'.behaviors = s.behaviors ∧ s'.migratedFrom = s.migratedFrom ∨
    e.content = .migrateFrom ∧
      s'.behaviors = (if s.migratedFrom then s.behaviors.tail else s.behaviors) ∧
      s'.migratedFrom = false ∧ s'.called = none := by
  cases h with
  | dropped | replied => exact .inl ⟨(dropped_stack _ _).1, (dropped_stack _ _).2.1⟩
  | skipped =>
    obtain ⟨visited, phase, he, -⟩ := s.skipped_eq e origin
    rw [he]
    exact .inl ⟨rfl, rfl⟩
  | loadState hsys hc => exact .inr ⟨hc, rfl, rfl, rfl⟩
  | exit => exact .inl ⟨(success_stack _).1, (success_stack _).2.1⟩
  | arrived => exact .inl ⟨(success_stack _).1, (success_stack _).2.1⟩
  | saveState | timeout | message | response | syncTimeout => exact .inl ⟨rfl, rfl⟩

/-- Loading a state takes the forwarding behavior off the stack and clears the flag. -/
theorem Invoked.load {origin' : Origin} {e' : MailboxElement} (h : s.Invoked e origin awaited s')
    (hp : s'.phase = .invoking origin' (.loadState e')) :
    s'.behaviors = (if s.migratedFrom then s.behaviors.tail else s.behaviors) ∧
      s'.migratedFrom = false := by
  cases h with
  | dropped | replied => exact absurd hp dropped_ne_invoking
  | skipped => exact absurd hp skipped_ne_invoking
  | loadState => exact ⟨rfl, rfl⟩
  | exit | arrived => exact absurd hp success_ne_invoking
  | saveState | timeout | message | response | syncTimeout => cases hp

/-- The end of user code leaves the stack alone, unless it is the end of the actor. -/
theorem Returned.stack (h : s.Returned o s') : s'.phase = .closed ∨
    s'.behaviors = s.behaviors ∧ s'.migratedFrom = s.migratedFrom ∧
      s'.phase.inHandler = false := by
  cases h with
  | initialized _ _ hphase =>
    rcases hphase with ⟨-, rfl⟩ | ⟨-, rfl⟩
    · exact .inr ⟨rfl, rfl, rfl⟩
    · exact .inr ⟨rfl, rfl, rfl⟩
  | @caught job =>
    obtain ⟨plannedExitReason, eptr, he⟩ := s.caught_eq o job
    rw [he]
    exact .inr ⟨rfl, rfl, rfl⟩
  | cleanup => exact .inl rfl
  | handled | response =>
    obtain ⟨current, promises, sent, he, -⟩ := s.postProcess_eq o
    rw [he]
    exact .inr (success_stack _)
  | @skipped origin hadTimeout ptr e =>
    obtain ⟨visited, phase, he, -, hp⟩ := { s with
      current := ptr, hasTimeout := hadTimeout || s.hasTimeout }.skipped_eq e origin
    rw [he]
    rcases hp with rfl | ⟨mid, -, rfl⟩
    · exact .inr ⟨rfl, rfl, rfl⟩
    · exact .inr ⟨rfl, rfl, rfl⟩
  | gone | failure => exact .inr ⟨rfl, rfl, rfl⟩
  | unhandled | arrived | timeout => exact .inr (success_stack _)
  | saved | loaded => exact .inr (dropped_stack _ _)

end EventBasedActor

/-- An event-based actor with the progress of its migrations. -/
structure MigratingActor where
  actor : EventBasedActor
  /-- the handler that was called last -/
  code : Option Behavior
  /-- how many actions it has performed -/
  stage : Nat
  /-- the behavior stack before the migration -/
  home : List Behavior
  /-- the numbers of the messages that the forwarding behavior was called for -/
  taken : List Nat
  /-- the numbers of the messages that were forwarded -/
  forwarded : List Nat

namespace MigratingActor

/-- The handler that is running. -/
def running (t : MigratingActor) : Option Behavior :=
  if t.actor.phase.inHandler then t.code else none

/-- The record after a step to `s`. -/
def record (t : MigratingActor) (l : Label) (s : EventBasedActor) : MigratingActor where
  actor := s
  code := if l = .next then s.called else t.code
  stage :=
    match l with
    | .next => 0
    | .act _ => t.stage + 1
    | _ => t.stage
  home := if s.settled then s.behaviors else t.home
  taken :=
    if l = .next ∧ s.called = some .forwarding then
      t.taken ++ t.actor.nextElement.toList.map (·.serial)
    else t.taken
  forwarded :=
    if l = .act (.relay .forward) ∧ t.running = some .forwarding then
      t.forwarded ++ t.actor.current.toList.map (·.serial)
    else t.forwarded

def step (t : MigratingActor) (l : Label) : Option MigratingActor :=
  (t.actor.step l).map (t.record l)

def isInitial (t : MigratingActor) : Prop :=
  t.actor.isInitial ∧ t.home = [] ∧ t.taken = [] ∧ t.forwarded = []

/-- The states of runs whose steps all meet a condition. -/
def Reachable (ok : MigratingActor → Label → Prop) : MigratingActor → Prop :=
  Reach isInitial step ok

/-- The library code for the answer to a migration request and for forwarded messages does what
it says, and all other code is user code. -/
def scripted (t : MigratingActor) (l : Label) : Bool :=
  if t.running = some .migration then
    match l with
    -- `{ok_atom, dest}`
    | .act a =>
      t.stage = 0 && a = .become .forwarding false || t.stage = 1 && a = .isMigratedFrom true
    -- the end of that, `{error_atom, errmsg}`, or something else
    | .ret o => t.stage = 2 && o = .void || t.stage = 0 && (o = .void || o = .skip)
    | _ => true
  else if t.running = some .forwarding then
    match l with
    | .act a => t.stage = 0 && a = .relay .forward
    | .ret o => t.stage = 1 && o = .void
    | _ => true
  else t.actor.respects l

/-- The handler for the answer to a migration has pushed the forwarding behavior. -/
def pushing (t : MigratingActor) : Bool := t.running = some .migration && t.stage = 1

/-- An answer that says where the actor is now comes only if it is not migrated. -/
def migratesOnce (t : MigratingActor) (l : Label) : Bool :=
  !(t.running = some .migration && l = .act (.become .forwarding false) && t.actor.migratedFrom)

/-- The runs that the result is about. -/
def Orderly (t : MigratingActor) (l : Label) : Prop :=
  t.scripted l = true ∧ t.migratesOnce l = true

instance (t : MigratingActor) (l : Label) : Decidable (Orderly t l) :=
  inferInstanceAs (Decidable (_ ∧ _))

-- -------------------------
-- Frames
-- -------------------------

variable {s s' : EventBasedActor} {t t' : MigratingActor} {l : Label} {o : Outcome} {a : Action}
variable {e : MailboxElement} {origin : Origin} {awaited : MessageId}

/-- A step that enters no handler leaves the running behavior. -/
theorem running_eq (hp : s.phase = t.actor.phase) (hl : l ≠ .next) :
    (t.record l s).running = t.running := by
  unfold running record
  dsimp only
  rw [hp, if_neg hl]

/-- Reading a message names the behavior it calls. -/
theorem running_next : (t.record .next s).running = s.called := by
  unfold running record
  dsimp only
  rw [if_pos rfl]
  split
  · rfl
  · next hp =>
    unfold called
    split
    · next heq => simp [heq, Phase.inHandler] at hp
    · next heq => simp [heq, Phase.inHandler] at hp
    · rfl

theorem running_of_not (h : t.actor.phase.inHandler = false) : t.running = none := by
  simp [running, h]

/-- A settled actor is at home with its own behaviors. -/
theorem home_of_settled (h : s.settled = true) : (t.record l s).home = s.behaviors := if_pos h

theorem home_of_unsettled (h : s.settled = false) : (t.record l s).home = t.home := by
  simp [record, h]

theorem unsettled_of_migrating (h : s.migrating = true) : s.settled = false := by
  simp [settled, h]

/-- The forwarding behavior is pushed in the second step of the migration handler. -/
theorem pushing_iff : t.pushing = true ↔ t.running = some .migration ∧ t.stage = 1 := by
  simp [pushing]

/-- The answer to a migration is pending while its handler runs. -/
theorem migrating_of_find {mid : MessageId}
    (h : (s.requests.findPendingResponse mid).bind (·.2) = some .migration) :
    s.migrating = true := by
  obtain ⟨pr, hpr, hb⟩ := Option.bind_eq_some_iff.mp h
  exact List.any_eq_true.mpr ⟨pr, List.mem_of_find?_eq_some hpr, decide_eq_true hb⟩

/-- Outside the migration a script is what a user may do. -/
theorem scripted_user (hm : t.running ≠ some .migration) (hf : t.running ≠ some .forwarding) :
    t.scripted l = t.actor.respects l := by
  unfold scripted
  rw [if_neg hm, if_neg hf]

-- -------------------------
-- The behavior stack
-- -------------------------

/-- The books are in order. -/
structure Kept (t : MigratingActor) : Prop where
  user : ∀ b ∈ t.home, b.isUser = true
  stack : t.actor.behaviors =
    if t.actor.migratedFrom || t.pushing then .forwarding :: t.home else t.home
  single : t.pushing = true → t.actor.migratedFrom = false
  answer : t.running = some .migration → t.actor.migrating = true

/-- Steps that change neither the stack nor the flag. -/
theorem Kept.same (h : Kept t) (hb : s'.behaviors = t.actor.behaviors)
    (hm : s'.migratedFrom = t.actor.migratedFrom) (hp : (t.record l s').pushing = t.pushing)
    (ha : (t.record l s').running = some .migration → s'.migrating = true) :
    Kept (t.record l s') := by
  have hhome : (t.record l s').home = t.home := by
    -- if the actor is settled the forwarding behavior is neither on the stack nor about to be
    show (if s'.settled then s'.behaviors else t.home) = t.home
    split
    · next hset =>
      simp only [settled, Bool.and_eq_true, Bool.not_eq_true'] at hset
      have hpush : t.pushing = false := by
        cases hpush : t.pushing with
        | false => rfl
        | true =>
          rw [hpush] at hp
          have hrun : (t.record l s').running = some .migration := by
            simp only [pushing, Bool.and_eq_true, decide_eq_true_eq] at hp
            exact hp.1
          rw [ha hrun] at hset
          cases hset.2
      rw [hb, h.stack, ← hm, hset.1, hpush]
      rfl
    · rfl
  refine ⟨?_, ?_, fun hpush => ?_, ha⟩
  · rw [hhome]
    exact h.user
  · show s'.behaviors = if s'.migratedFrom || _ then _ else _
    rw [hhome, hp, hb, hm]
    exact h.stack
  · rw [hp] at hpush
    exact hm.trans (h.single hpush)

/-- Steps while the answer to a migration is pending. -/
theorem Kept.away (h : Kept t) (hm : s'.migrating = true)
    (hb : s'.behaviors =
      if s'.migratedFrom || (t.record l s').pushing then .forwarding :: t.home else t.home)
    (hp : (t.record l s').pushing = true → s'.migratedFrom = false) : Kept (t.record l s') := by
  have hhome : (t.record l s').home = t.home := home_of_unsettled (unsettled_of_migrating hm)
  refine ⟨?_, ?_, hp, fun _ => hm⟩
  · rw [hhome]
    exact h.user
  · rw [hhome]
    exact hb

theorem not_pushing (h : t.running ≠ some .migration) : t.pushing = false := by
  simp [pushing, h]

/-- Steps to where the actor is at home. -/
theorem kept_of_settled (hs : s'.settled = true) (hb : ∀ b ∈ s'.behaviors, b.isUser = true)
    (hr : (t.record l s').running ≠ some .migration) : Kept (t.record l s') := by
  have hhome : (t.record l s').home = s'.behaviors := home_of_settled hs
  simp only [settled, Bool.and_eq_true, Bool.not_eq_true'] at hs
  refine ⟨?_, ?_, fun _ => hs.1, fun hp => absurd hp hr⟩
  · rw [hhome]
    exact hb
  · rw [hhome, not_pushing hr, Bool.or_false]
    exact (if_neg (by simp [record, hs.1])).symm

/-- The handler for the answer to a migration. -/
theorem Kept.migrate (h : Kept t) (hr : t.running = some .migration) (hok : Orderly t (.act a)) :
    Kept (t.record (.act a) (t.actor.act a)) := by
  obtain ⟨hscript, honce⟩ := hok
  have hrun : (t.record (.act a) (t.actor.act a)).running = some .migration := by
    rw [running_eq (act_frame t.actor a).2.2.1 (by simp), hr]
  rw [scripted, if_pos hr] at hscript
  simp only [Bool.or_eq_true, Bool.and_eq_true, decide_eq_true_eq] at hscript
  have hmig := h.answer hr
  -- `become(forwarding)` first, `is_migrated_from(true)` second
  rcases hscript with ⟨hstage, rfl⟩ | ⟨hstage, rfl⟩
  · have hhere : t.actor.migratedFrom = false := by simpa [migratesOnce, hr] using honce
    have hstack : t.actor.behaviors = t.home := by
      simpa [hhere, pushing, hstage] using h.stack
    have hpush := pushing_iff.mpr ⟨hrun, congrArg (· + 1) hstage⟩
    obtain ⟨mailbox, enqueued, sent, he⟩ := t.actor.become_eq .forwarding false
    rw [he] at hpush ⊢
    refine h.away hmig ?_ fun _ => hhere
    rw [hpush, Bool.or_true, if_pos rfl, ← hstack]
    rfl
  · have hpush := pushing_iff.mpr ⟨hr, hstage⟩
    refine h.away hmig ?_ fun hpush' => ?_
    · have hstack : t.actor.behaviors = .forwarding :: t.home := by simpa [hpush] using h.stack
      exact hstack
    · have hstage' : t.stage + 1 = 1 := (pushing_iff.mp hpush').2
      rw [hstage] at hstage'
      cases hstage'

/-- User code that changes the stack runs at home. -/
theorem Kept.exchange (h : Kept t) (hr : t.running ≠ some .migration)
    (hset : t.actor.settled = true) (hs : s'.settled = true)
    (hb : ∀ b ∈ s'.behaviors, b.isUser = true ∨ b ∈ t.actor.behaviors)
    (hr' : (t.record l s').running ≠ some .migration) : Kept (t.record l s') := by
  simp only [settled, Bool.and_eq_true, Bool.not_eq_true'] at hset
  have hstack : t.actor.behaviors = t.home := by
    simpa [hset.1, not_pushing hr] using h.stack
  refine kept_of_settled hs (fun b hmem => ?_) hr'
  rcases hb b hmem with hb | hb
  · exact hb
  · rw [hstack] at hb
    exact h.user b hb

/-- What a user's handler does keeps the behaviors. -/
theorem Kept.userAct (h : Kept t) (hr : t.running ≠ some .migration)
    (hok : t.actor.respects (.act a) = true) : Kept (t.record (.act a) (t.actor.act a)) := by
  have hr' : (t.record (.act a) (t.actor.act a)).running ≠ some .migration := by
    rw [running_eq (act_frame t.actor a).2.2.1 (by simp)]
    exact hr
  have hsame : (∀ b d, a ≠ .become b d) → a ≠ .unbecome → (∀ v, a ≠ .isMigratedFrom v) →
      Kept (t.record (.act a) (t.actor.act a)) := by
    intro hb hu hm
    obtain ⟨hbeh, hmig⟩ := act_stack t.actor hb hu hm
    refine h.same hbeh hmig ?_ fun hp => absurd hp hr'
    rw [not_pushing hr, not_pushing hr']
  -- only `become` and `unbecome` touch the stack, and users set no flag
  cases a with
  | become b d =>
    simp only [respects, Bool.and_eq_true] at hok
    obtain ⟨mailbox, enqueued, sent, he⟩ := t.actor.become_eq b d
    rw [he] at hr' ⊢
    refine h.exchange hr hok.2 hok.2 (fun x hx => ?_) hr'
    rcases List.mem_cons.mp hx with rfl | hx
    · exact .inl hok.1
    · refine .inr ?_
      cases d with
      | false => exact hx
      | true => exact List.mem_of_mem_tail hx
  | unbecome =>
    exact h.exchange hr hok hok (fun x hx => .inr (List.mem_of_mem_tail hx)) hr'
  | isMigratedFrom v => cases hok
  | request mp | setResponseHandler mid b | quit rsn | trapExit value | onSyncFailure value
  | makeResponsePromise | relay r => exact hsame nofun nofun nofun

/-- So does every action of an orderly actor. -/
theorem Kept.act (h : Kept t) (hok : Orderly t (.act a)) :
    Kept (t.record (.act a) (t.actor.act a)) := by
  by_cases hr : t.running = some .migration
  · exact h.migrate hr hok
  by_cases hf : t.running = some .forwarding
  · have hscript := hok.1
    rw [scripted, if_neg hr, if_pos hf] at hscript
    simp only [Bool.and_eq_true, decide_eq_true_eq] at hscript
    obtain rfl := hscript.2
    exact h.userAct hr rfl
  · exact h.userAct hr (by rw [← scripted_user hr hf]; exact hok.1)

/-- The handler for the answer to a migration is called when the answer is pending. -/
theorem migrating_of_called (h : s.called = some .migration)
    (hb : ∀ b ∈ s.behaviors, b.isUser = true ∨ b = .forwarding) : s.migrating = true := by
  unfold called at h
  split at h
  · rcases hb .migration (List.mem_of_mem_head? h) with hu | he
    · cases hu
    · cases he
  · exact migrating_of_find h
  · cases h

/-- The stack holds the user's behaviors and the forwarding behavior only. -/
theorem Kept.mem_behaviors (h : Kept t) :
    ∀ b ∈ t.actor.behaviors, b.isUser = true ∨ b = .forwarding := by
  intro b hb
  rw [h.stack] at hb
  split at hb
  · rcases List.mem_cons.mp hb with rfl | hb
    · exact .inr rfl
    · exact .inl (h.user b hb)
  · exact .inl (h.user b hb)

/-- What is left after the forwarding behavior has been removed. -/
theorem Kept.home_eq (h : Kept t) (hp : t.pushing = false) :
    (if t.actor.migratedFrom then t.actor.behaviors.tail else t.actor.behaviors) = t.home := by
  have hstack := h.stack
  rw [hp, Bool.or_false] at hstack
  cases hm : t.actor.migratedFrom with
  | true =>
    rw [hm, if_pos rfl] at hstack
    rw [if_pos rfl, hstack]
    rfl
  | false =>
    rw [hm] at hstack
    exact hstack

theorem running_of_takes (hp : t.actor.phase.takes = true) : t.running = none := by
  refine running_of_not ?_
  cases hphase : t.actor.phase <;> simp_all [Phase.takes, Phase.inHandler]

theorem not_pushing_next : (t.record .next s').pushing = false := by
  simp [pushing, record]

/-- Taking a message keeps the behaviors, also when it loads a state. -/
theorem Kept.next (h : Kept t) (hp : t.actor.phase.takes = true)
    (hs : s'.behaviors = t.actor.behaviors ∧ s'.migratedFrom = t.actor.migratedFrom ∨
      s'.behaviors = (if t.actor.migratedFrom then t.actor.behaviors.tail else t.actor.behaviors) ∧
      s'.migratedFrom = false ∧ s'.called = none) : Kept (t.record .next s') := by
  have hpush : t.pushing = false := not_pushing (by simp [running_of_takes hp])
  rcases hs with ⟨hb, hm⟩ | ⟨hb, hm, hc⟩
  · refine h.same hb hm (not_pushing_next.trans hpush.symm) fun hr => ?_
    rw [running_next] at hr
    refine migrating_of_called hr ?_
    rw [hb]
    exact h.mem_behaviors
  · rw [h.home_eq hpush] at hb
    have hhome : (t.record .next s').home = t.home := by
      show (if s'.settled then s'.behaviors else t.home) = t.home
      rw [hb, ite_self]
    refine ⟨?_, ?_, fun _ => hm, fun hr => ?_⟩
    · rw [hhome]
      exact h.user
    · rw [hhome, not_pushing_next]
      show s'.behaviors = if s'.migratedFrom || false then _ else _
      rw [hm, hb]
      rfl
    · rw [running_next, hc] at hr
      cases hr

-- -------------------------
-- Runs
-- -------------------------

/-- The books are in order until the actor ends. -/
def Booked (t : MigratingActor) : Prop := t.actor.phase.ended = false → Kept t

/-- A step that touches neither stack, flag nor requests keeps the behaviors. -/
theorem Kept.frame (h : Kept t) (hl : l ≠ .next) (ha : ∀ a, l ≠ .act a)
    (hb : s'.behaviors = t.actor.behaviors) (hm : s'.migratedFrom = t.actor.migratedFrom)
    (hq : s'.requests = t.actor.requests) (hp : s'.phase = t.actor.phase) :
    Kept (t.record l s') := by
  have hrun : (t.record l s').running = t.running := running_eq hp hl
  have hstage : (t.record l s').stage = t.stage := by
    cases l with
    | next => exact absurd rfl hl
    | act a => exact absurd rfl (ha a)
    | enqueue | ret | resetTimeout | block | handle | exit | deliver => rfl
  refine h.same hb hm ?_ fun hr => ?_
  · rw [pushing, pushing, hrun, hstage]
  · rw [hrun] at hr
    rw [migrating, hq]
    exact h.answer hr

/-- A step after which no handler is running. -/
theorem Kept.leave (h : Kept t) (hp : t.pushing = false)
    (hs : s'.behaviors = t.actor.behaviors ∧ s'.migratedFrom = t.actor.migratedFrom ∧
      s'.phase.inHandler = false) : Kept (t.record l s') := by
  have hrun : (t.record l s').running = none := running_of_not hs.2.2
  refine h.same hs.1 hs.2.1 ?_ fun hr => ?_
  · rw [hp]
    exact not_pushing (by simp [hrun])
  · rw [hrun] at hr
    cases hr

/-- A handler returns after it set the flag. -/
theorem not_pushing_of_ret (h : t.scripted (.ret o) = true) : t.pushing = false := by
  cases hp : t.pushing with
  | false => rfl
  | true =>
    obtain ⟨hr, hstage⟩ := pushing_iff.mp hp
    simp [scripted, hr, hstage] at h

/-- Every orderly step keeps the behaviors of an actor that has not ended. -/
theorem Booked.step (h : Booked t) (hok : Orderly t l) (hstep : t.step l = some t') :
    Booked t' := by
  obtain ⟨s', hs, rfl⟩ := Option.map_eq_some_iff.mp hstep
  intro hend
  have hended : s'.phase.ended = false := hend
  have hbefore : s'.phase = t.actor.phase → Kept t := fun hp => h (by rwa [hp] at hended)
  -- one case for each step of the actor
  cases step_cases hs with
  | @enqueue sender mid content =>
    obtain ⟨mailbox, enqueued, sent, he⟩ := t.actor.enqueue_eq sender mid content
    rw [he] at hbefore ⊢
    exact (hbefore rfl).frame nofun nofun rfl rfl rfl rfl
  | @act a hp => exact (hbefore (act_frame t.actor a).2.2.1).act hok
  | ret hr =>
    -- a step into the closed phase leaves nothing to show
    rcases hr.stack with hc | hs
    · rw [hc] at hended
      cases hended
    · exact (h hr.not_ended).leave (not_pushing_of_ret hok.1) hs
  | takes ht hi =>
    have htakes := ht.takes
    refine (h (not_ended_of_takes htakes)).next htakes ?_
    obtain ⟨mailbox, first, unvisited, rfl⟩ := ht.eq
    exact hi.stack.imp_right fun hb => hb.2
  | reads hr =>
    have htakes := hr.takes
    refine (h (not_ended_of_takes htakes)).next htakes (.inl ?_)
    obtain ⟨mailbox, first, phase, rfl, -⟩ := hr.eq
    exact ⟨rfl, rfl⟩
  | resetTimeout hp =>
    obtain ⟨mailbox, enqueued, sent, he⟩ := requestTimeout_eq t.actor
      (t.actor.getBehavior.bind (·.timeout))
    rw [he] at hbefore ⊢
    exact (hbefore rfl).frame nofun nofun rfl rfl rfl rfl
  | block hp => exact (hbefore rfl).frame nofun nofun rfl rfl rfl rfl
  | handle hp hphase =>
    have hnot : t.actor.phase.inHandler = false := by
      rw [hp]
      rfl
    have hkept : Kept t := h (by rw [hp]; rfl)
    refine hkept.leave (not_pushing (by simp [running_of_not hnot])) ⟨rfl, rfl, ?_⟩
    rcases hphase with rfl | ⟨rfl, -⟩ <;> rfl
  | exit hp => cases hended
  | deliver => exact (hbefore rfl).frame nofun nofun rfl rfl rfl rfl

/-- In every orderly run the behaviors are kept. -/
theorem booked (h : Reachable Orderly t) : Booked t := by
  refine Reach.invariant (fun t h0 => ?_) (fun t l t' ht hok hs => ht.step hok hs) h
  obtain ⟨⟨ref, priorityAware, serializable, h0⟩, hhome, -⟩ := h0
  intro _
  have hrun : t.running = none := running_of_not (by rw [h0]; rfl)
  refine ⟨?_, ?_, fun hp => ?_, fun hr => ?_⟩
  · rw [hhome]
    exact nofun
  · rw [not_pushing (by simp [hrun]), hhome, h0]
    rfl
  · rw [not_pushing (by simp [hrun])] at hp
    cases hp
  · rw [hrun] at hr
    cases hr

/-- Exactly one behavior of the stack forwards messages, and it is on top. -/
def forwardsOnTop (bs : List Behavior) : Prop :=
  bs.countP Behavior.isForwarding = 1 ∧ bs.head?.any Behavior.isForwarding = true

theorem not_forwarding {bs : List Behavior} (h : ∀ b ∈ bs, b.isUser = true) :
    bs.countP Behavior.isForwarding = 0 := by
  refine List.countP_eq_zero.mpr fun b hb hf => ?_
  have hu := h b hb
  simp only [Behavior.isForwarding, decide_eq_true_eq] at hf
  simp [Behavior.isUser, hf] at hu

/-- **Migration bookkeeping.** Whenever the actor takes its next message, `is_migrated_from` holds
if and only if exactly one forwarding behavior is on the stack and it is on top; and if the
message is a migrate-back message, the stack is that from before the migration. -/
theorem migration_bookkeeping (h : Reachable Orderly t) (hp : t.actor.phase.takes = true) :
    (t.actor.migratedFrom = true ↔ forwardsOnTop t.actor.behaviors) ∧
    ∀ s' origin e, t.actor.step .next = some s' → s'.phase = .invoking origin (.loadState e) →
      s'.behaviors = t.home ∧ s'.migratedFrom = false := by
  have hkept := booked h (not_ended_of_takes hp)
  have hpush : t.pushing = false := not_pushing (by simp [running_of_takes hp])
  have hstack := hkept.stack
  rw [hpush, Bool.or_false] at hstack
  have hcount := not_forwarding hkept.user
  -- the flag says that the stack is the home below the forwarding behavior
  refine ⟨⟨fun hm => ?_, fun hf => ?_⟩, fun s' origin e hs hload => ?_⟩
  · rw [hstack, hm, if_pos rfl]
    exact ⟨by simp [hcount, Behavior.isForwarding, Behavior.forwarding], rfl⟩
  · cases hm : t.actor.migratedFrom with
    | true => rfl
    | false =>
      have hone := hf.1
      rw [hstack, hm, if_neg (by decide), hcount] at hone
      cases hone
  · -- loading a state starts from a taken message
    cases step_cases hs with
    | takes ht hi =>
      obtain ⟨mailbox, first, unvisited, rfl⟩ := ht.eq
      obtain ⟨hb, hm⟩ := hi.load hload
      exact ⟨hb.trans (hkept.home_eq hpush), hm⟩
    | reads hr =>
      obtain ⟨mailbox, first, phase, rfl, hphase⟩ := hr.eq
      rcases hphase with rfl | rfl
      · cases hload
      · cases hload

theorem initial_isInitial : isInitial ⟨.initial 1 true true, none, 0, [], [], []⟩ :=
  ⟨⟨1, true, true, rfl⟩, rfl, rfl, rfl⟩

/-- An actor is asked to migrate, and saves its state. -/
def Sample.asked : List Label :=
  [.enqueue (.localActor 7) 0 .migrateTo, .next, .next, .next, .ret .void]

/-- The migration manager answers with the address of the new actor. -/
def Sample.answered (mid : MessageId) : List Label :=
  [.enqueue (.localActor 9) mid .user, .next, .next, .next, .act (.become .forwarding false),
    .act (.isMigratedFrom true), .ret .void, .next]

/-- An actor migrates and comes back. -/
theorem migration_bookkeeping_back : ∃ t s', Reachable Orderly t ∧ t.actor.migratedFrom = true ∧
    forwardsOnTop t.actor.behaviors ∧ t.actor.step .next = some s' ∧
    s'.behaviors = [⟨none, .user 0⟩] ∧ s'.migratedFrom = false := by
  obtain ⟨t, hr, hs⟩ := exists_run (fun t l => if Orderly t l then step t l else none)
    ⟨.initial 1 true true, none, 0, [], [], []⟩
    (([.act (.become ⟨none, .user 0⟩ false), .ret .void] : List Label) ++ Sample.asked ++
      Sample.answered Sample.firstResponse ++
      ([.enqueue (.localActor 7) 0 .migrateFrom, .next, .next] : List Label))
    (fun t => decide (t.actor.phase = .filling) && t.actor.migratedFrom &&
      decide (t.home = [⟨none, .user 0⟩]) &&
      (t.actor.step .next).any fun s : EventBasedActor => decide (s.phase =
        .invoking .mailbox (.loadState ⟨2, .localActor 7, 0, .migrateFrom⟩)))
    (by decide +kernel)
  have h : Reachable Orderly t := reach_of_checked_run (.init initial_isInitial) hr
  simp only [Bool.and_eq_true, decide_eq_true_eq] at hs
  obtain ⟨⟨⟨hp, hm⟩, hhome⟩, hs⟩ := hs
  obtain ⟨s', hs', hload⟩ := (Option.any_eq_true _ _).mp hs
  rw [decide_eq_true_eq] at hload
  obtain ⟨hiff, hback⟩ := migration_bookkeeping h (by rw [hp]; rfl)
  obtain ⟨hb, hm'⟩ := hback s' _ _ hs' hload
  exact ⟨t, s', h, hm, hiff.mp hm, hs', hb.trans hhome, hm'⟩

/-- An actor is asked twice before the first answer comes: it pushes two forwarding behaviors. -/
theorem migrated_twice : ¬ ∀ t : MigratingActor, Reachable (fun t l => t.scripted l = true) t →
    t.actor.phase.takes = true →
    (t.actor.migratedFrom = true ↔ forwardsOnTop t.actor.behaviors) := by
  intro hall
  obtain ⟨t, hr, hs⟩ := exists_run
    (fun t l => if t.scripted l = true then step t l else none)
    ⟨.initial 1 true true, none, 0, [], [], []⟩
    (([.act (.become ⟨none, .user 0⟩ false), .ret .void] : List Label) ++ Sample.asked ++
      Sample.asked ++ Sample.answered (Sample.firstResponse + 1) ++ Sample.answered Sample.firstResponse)
    (fun t => decide (t.actor.phase = .ready) && t.actor.migratedFrom &&
      decide (t.actor.behaviors = [.forwarding, .forwarding, ⟨none, .user 0⟩]))
    (by decide +kernel)
  have h : Reachable (fun t l => t.scripted l = true) t :=
    reach_of_checked_run (.init initial_isInitial) hr
  simp only [Bool.and_eq_true, decide_eq_true_eq] at hs
  obtain ⟨⟨hp, hm⟩, hb⟩ := hs
  have hone := ((hall t h (by rw [hp]; rfl)).mp hm).1
  rw [hb] at hone
  exact absurd hone (by decide)

end MigratingActor

end BoostActor
