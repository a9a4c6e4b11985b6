import Mathlib.Data.List.Basic
import BoostActor.Core.ActorSteps

/-!
# Timeouts of behaviors

An event-based actor has one active timeout at most: its id and a flag. `request_timeout` sets
both or clears the flag. The flag is cleared before every handler of an ordinary message and
restored if the handler skips the message.

`TimedActor` adds a record of the calls of `request_timeout`: for each one the id of the message
that it created, or nothing if the duration was invalid.

* `Timely` — an active timeout comes from the last call;
* `timeout_from_last_call` — only the message of the last call triggers a timeout, in every run
  in which no handler clears a timeout and then skips its message.
-/

namespace BoostActor

open Lib EventBasedActor

/-- The user code that handles an ordinary message is running. -/
def EventBasedActor.Phase.isMessage : Phase → Bool
  | .invoking _ (.message _ _) => true
  | _ => false

/-- It was called while a timeout was active. -/
def EventBasedActor.Phase.hadTimeout : Phase → Bool
  | .invoking _ (.message hadTimeout _) => hadTimeout
  | _ => false

/-- The code for a timeout is running. -/
def EventBasedActor.Phase.isTimeout : Phase → Bool
  | .invoking _ .timeout => true
  | _ => false

/-- An event-based actor with its calls of `request_timeout`. -/
structure TimedActor where
  actor : EventBasedActor
  calls : List (Option UInt32)
  /-- a handler of an ordinary message was called after the last call -/
  began : Bool
  /-- an ordinary message was handled by a handler that was called after the last call -/
  handled : Bool

namespace TimedActor

/-- The duration of a call of `request_timeout`. -/
def requested (s : EventBasedActor) : Label → Option (Option Nat)
  | .act (.become bhvr _) => some bhvr.timeout
  | .resetTimeout => some (s.getBehavior.bind (·.timeout))
  | _ => none

/-- An ordinary message has been handled. -/
def handlesMessage (s : EventBasedActor) : Label → Bool
  | .ret o => s.phase.isMessage && !o.throws && (s.postProcess o).1
  | _ => false

/-- The record after a step to `s`. -/
def record (t : TimedActor) (l : Label) (s : EventBasedActor) : TimedActor :=
  match requested t.actor l with
  | some d => ⟨s, t.calls ++ [d.map fun _ => s.timeoutId], false, false⟩
  | none => ⟨s, t.calls, t.began || (l = .next && s.phase.isMessage),
      t.handled || (handlesMessage t.actor l && t.began)⟩

def step (t : TimedActor) (l : Label) : Option TimedActor := (t.actor.step l).map (t.record l)

def isInitial (t : TimedActor) : Prop :=
  t.actor.isInitial ∧ t.calls = [] ∧ t.began = false ∧ t.handled = false

/-- The states of runs whose steps all meet a condition. -/
def Reachable (ok : TimedActor → Label → Prop) : TimedActor → Prop := Reach isInitial step ok

/-- A handler that was called while a timeout was active does not skip its message after its
last call has cleared the timeout. -/
def keepsTimeout (t : TimedActor) (l : Label) : Prop :=
  l = .ret .skip → t.actor.phase.hadTimeout = true → t.calls.getLast? ≠ some none

instance (t : TimedActor) (l : Label) : Decidable (keepsTimeout t l) :=
  inferInstanceAs (Decidable (_ → _))

-- -------------------------
-- What happens to the timeout
-- -------------------------

variable {s s' : EventBasedActor} {e : MailboxElement} {origin : Origin} {awaited : MessageId}
variable {o : Outcome} {t t' : TimedActor} {l : Label}

/-- The state of the timeout. -/
def clock (s : EventBasedActor) : Bool × UInt32 := (s.hasTimeout, s.timeoutId)

/-- A step that does not touch the timeout, to a state without a running handler of an ordinary
message. -/
def Calm (s s' : EventBasedActor) : Prop := clock s' = clock s ∧ s'.phase.isMessage = false

theorem calm_dropped (s : EventBasedActor) (origin : Origin) : Calm s (s.dropped origin) := by
  cases origin <;> exact ⟨rfl, rfl⟩

theorem calm_skipped (s : EventBasedActor) (e : MailboxElement) (origin : Origin) :
    Calm s (s.skipped e origin) := by
  obtain ⟨visited, phase, he, -, hp⟩ := s.skipped_eq e origin
  rw [he]
  rcases hp with rfl | ⟨mid, -, rfl⟩
  · exact ⟨rfl, rfl⟩
  · exact ⟨rfl, rfl⟩

theorem calm_success (s : EventBasedActor) : Calm s s.success := by
  rcases s.success_eq with h | h
  · rw [h]
    exact ⟨rfl, rfl⟩
  · rw [h]
    exact ⟨rfl, rfl⟩

theorem calm_caught (s : EventBasedActor) (o : Outcome) (job : Option Job) :
    Calm s (s.caught o job) := by
  obtain ⟨plannedExitReason, eptr, he⟩ := s.caught_eq o job
  rw [he]
  exact ⟨rfl, rfl⟩

/-- `invoke_message` calls the behavior, which clears the timeout, or does not touch it. -/
theorem invoked_clock (h : s.Invoked e origin awaited s') :
    s' = { s with hasTimeout := false }.invoke e origin (.message s.hasTimeout s.current) ∨
      Calm s s' := by
  cases h with
  | dropped | replied => exact .inr (calm_dropped _ _)
  | skipped => exact .inr (calm_skipped _ _ _)
  | exit | arrived => exact .inr (calm_success _)
  | message => exact .inl rfl
  | saveState | loadState | timeout | response | syncTimeout => exact .inr ⟨rfl, rfl⟩

/-- A handler that skips its message restores the timeout. -/
structure Restores (s s' : EventBasedActor) : Prop where
  phase : s'.phase.isMessage = false
  id : s'.timeoutId = s.timeoutId
  flag : s'.hasTimeout = (s.phase.hadTimeout || s.hasTimeout)

/-- User code that skips restores the flag, all other ends leave the timeout. -/
theorem returned_clock (h : s.Returned o s') : Calm s s' ∨ o = .skip ∧ Restores s s' := by
  have hpost : clock (s.postProcess o).2 = clock s := by
    obtain ⟨current, promises, sent, he, -⟩ := s.postProcess_eq o
    rw [he]
    rfl
  cases h with
  | initialized _ _ hphase =>
    rcases hphase with ⟨-, rfl⟩ | ⟨-, rfl⟩
    · exact .inl ⟨rfl, rfl⟩
    · exact .inl ⟨rfl, rfl⟩
  | caught => exact .inl (calm_caught _ _ _)
  | cleanup | failure => exact .inl ⟨rfl, rfl⟩
  | handled | response =>
    obtain ⟨hc, hm⟩ := calm_success _
    exact .inl ⟨hc.trans hpost, hm⟩
  | skipped hp ho =>
    obtain ⟨hc, hm⟩ := calm_skipped _ _ _
    refine .inr ⟨ho, hm, (Prod.mk.inj hc).2, (Prod.mk.inj hc).1.trans ?_⟩
    rw [hp]
    rfl
  | gone hp ho =>
    refine .inr ⟨ho, rfl, rfl, ?_⟩
    rw [hp]
    rfl
  | unhandled | arrived | timeout => exact .inl (calm_success _)
  | saved | loaded => exact .inl (calm_dropped _ _)

-- -------------------------
-- The invariant
-- -------------------------

/-- The number of calls with a valid duration. -/
def created (calls : List (Option UInt32)) : Nat := calls.countP (·.isSome)

/-- An active timeout comes from the last call. A handler that was called while a timeout was
active can restore it as long as it has not cleared it. -/
structure Timely (t : TimedActor) : Prop where
  latest : t.actor.hasTimeout = true →
    t.calls.getLast? = some (some t.actor.timeoutId) ∧ t.handled = false
  cleared : t.actor.phase.isMessage = true → t.began = true → t.actor.hasTimeout = false
  restored : t.actor.phase.hadTimeout = true → t.handled = false ∧
    (t.calls.getLast? = some (some t.actor.timeoutId) ∨ t.calls.getLast? = some none)
  count : t.actor.timeoutId = UInt32.ofNat (2 * created t.calls)
  ids : ∀ i tid, t.calls[i]? = some (some tid) →
    tid = UInt32.ofNat (2 * created (t.calls.take (i + 1)))

/-- Only an ordinary message remembers the flag. -/
theorem hadTimeout_of_isMessage {p : Phase} (h : p.isMessage = false) : p.hadTimeout = false := by
  cases p with
  | invoking origin job =>
    cases job with
    | message hadTimeout ptr => cases h
    | _ => rfl
  | _ => rfl

/-- A step without a call that does not touch the timeout. -/
theorem Timely.calm {began handled : Bool} (h : Timely t) (hc : Calm t.actor s')
    (hh : handled = true → t.handled = true ∨ t.actor.hasTimeout = false) :
    Timely ⟨s', t.calls, began, handled⟩ := by
  obtain ⟨hclock, hm⟩ := hc
  have hflag : s'.hasTimeout = t.actor.hasTimeout := (Prod.mk.inj hclock).1
  have hid : s'.timeoutId = t.actor.timeoutId := (Prod.mk.inj hclock).2
  refine ⟨fun hf => ?_, fun hp => ?_, fun hp => ?_, ?_, h.ids⟩
  · have hf' : t.actor.hasTimeout = true := hflag ▸ hf
    obtain ⟨hlast, hno⟩ := h.latest hf'
    refine ⟨hid ▸ hlast, ?_⟩
    cases handled with
    | false => rfl
    | true =>
      rcases hh rfl with hh | hh
      · rw [hh] at hno
        cases hno
      · rw [hh] at hf'
        cases hf'
  · rw [show s'.phase.isMessage = false from hm] at hp
    cases hp
  · rw [show s'.phase.hadTimeout = false from hadTimeout_of_isMessage hm] at hp
    cases hp
  · exact hid.trans h.count

/-- A step that does not touch the timeout or the running code. -/
theorem Timely.same (h : Timely t) (hc : clock s' = clock t.actor)
    (hp : s'.phase = t.actor.phase) : Timely ⟨s', t.calls, t.began, t.handled⟩ := by
  have hflag : s'.hasTimeout = t.actor.hasTimeout := (Prod.mk.inj hc).1
  have hid : s'.timeoutId = t.actor.timeoutId := (Prod.mk.inj hc).2
  refine ⟨?_, ?_, ?_, hid.trans h.count, h.ids⟩
  · rw [hflag, hid]
    exact h.latest
  · rw [hflag, hp]
    exact h.cleared
  · rw [hid, hp]
    exact h.restored

theorem created_append (calls : List (Option UInt32)) (c : Option UInt32) :
    created (calls ++ [c]) = created calls + if c.isSome then 1 else 0 := by
  simp [created, List.countP_append, List.countP_singleton]

/-- A call of `request_timeout`. -/
theorem Timely.call {d : Option Nat} (h : Timely t) (hflag : s'.hasTimeout = d.isSome)
    (hid : s'.timeoutId = if d.isSome then t.actor.timeoutId + 2 else t.actor.timeoutId) :
    Timely ⟨s', t.calls ++ [d.map fun _ => s'.timeoutId], false, false⟩ := by
  have hcount : s'.timeoutId =
      UInt32.ofNat (2 * created (t.calls ++ [d.map fun _ => s'.timeoutId])) := by
    rw [created_append, Option.isSome_map, hid, h.count]
    cases d with
    | none => rfl
    | some d =>
      simp only [Option.isSome_some, if_true]
      rw [Nat.mul_add, UInt32.ofNat_add]
      rfl
  refine ⟨fun hf => ?_, fun _ hb => ?_, fun _ => ⟨rfl, ?_⟩, hcount, fun i tid hi => ?_⟩
  · refine ⟨?_, rfl⟩
    cases d with
    | none => exact absurd (hflag ▸ hf) (by simp)
    | some d => simp
  · cases hb
  · cases d with
    | none => exact .inr (by simp)
    | some d => exact .inl (by simp)
  · -- the ids of the earlier calls are what they were
    rcases Nat.lt_or_ge i t.calls.length with hlt | hge
    · rw [List.getElem?_append_left hlt] at hi
      rw [List.take_append_of_le_length (by omega)]
      exact h.ids i tid hi
    · have hlen : i = t.calls.length := by
        obtain ⟨hb, -⟩ := List.getElem?_eq_some_iff.mp hi
        simp at hb
        omega
      subst hlen
      rw [List.take_of_length_le (by simp), ← hcount]
      cases d with
      | none => simp at hi
      | some d => simpa using hi.symm

-- -------------------------
-- Steps
-- -------------------------

/-- An action without a request leaves the timeout. -/
theorem act_same {a : Action} (ha : requested s (.act a) = none) :
    clock (s.act a) = clock s ∧ (s.act a).phase = s.phase := by
  cases a with
  | become bhvr discardOld => cases ha
  | makeResponsePromise =>
    obtain ⟨current, promises, he, -⟩ := s.keepPromise_eq
    rw [show s.act .makeResponsePromise = s.keepPromise from rfl, he]
    exact ⟨rfl, rfl⟩
  | request mp | setResponseHandler mid bhvr | unbecome | quit rsn | trapExit value
  | onSyncFailure value | isMigratedFrom value | relay r => exact ⟨rfl, rfl⟩

/-- Every action keeps the timeout in step. -/
theorem Timely.act {a : Action} (h : Timely t) : Timely (t.record (.act a) (t.actor.act a)) := by
  unfold record
  cases hr : requested t.actor (.act a) with
  | none =>
    obtain ⟨hc, hp⟩ := act_same hr
    simpa [handlesMessage] using h.same hc hp
  | some d =>
    cases a with
    | become bhvr discardOld =>
      cases hr
      obtain ⟨mailbox, enqueued, sent, he⟩ := t.actor.become_eq bhvr discardOld
      rw [he]
      exact h.call rfl rfl
    | _ => cases hr

/-- The end of user code keeps it in step. -/
theorem Timely.ret (h : Timely t) (hok : keepsTimeout t (.ret o))
    (hr : t.actor.Returned o s') : Timely (t.record (.ret o) s') := by
  unfold record
  -- the user code skipped the message or did not
  rcases returned_clock hr with hc | ⟨rfl, hrestores⟩
  · refine h.calm hc fun hh => ?_
    rw [Bool.or_eq_true, Bool.and_eq_true] at hh
    rcases hh with hh | ⟨hh, hb⟩
    · exact .inl hh
    · -- the handler of an ordinary message was called without an active timeout
      simp only [handlesMessage, Bool.and_eq_true] at hh
      exact .inr (h.cleared hh.1.1 hb)
  · have hno : handlesMessage t.actor (.ret .skip) = false := by
      simp [handlesMessage, postProcess]
    have hgoal : Timely ⟨s', t.calls, t.began, t.handled⟩ := by
      refine ⟨fun hf => ?_, fun hp => ?_, fun hp => ?_, hrestores.id.trans h.count, h.ids⟩
      · have hflag : (t.actor.phase.hadTimeout || t.actor.hasTimeout) = true :=
          hrestores.flag.symm.trans hf
        rw [hrestores.id]
        cases hhad : t.actor.phase.hadTimeout with
        | false =>
          rw [hhad, Bool.false_or] at hflag
          exact h.latest hflag
        | true =>
          obtain ⟨hh, hlast⟩ := h.restored hhad
          exact ⟨hlast.resolve_right (hok rfl hhad), hh⟩
      · exact absurd hp (by simp [hrestores.phase])
      · exact absurd hp (by simp [hadTimeout_of_isMessage hrestores.phase])
    simpa [requested, hno] using hgoal

/-- A message that is taken keeps it in step. -/
theorem Timely.takes {s₁ : EventBasedActor} (h : Timely t)
    (ht : t.actor.Takes s₁ e origin awaited) (hi : s₁.Invoked e origin awaited s') :
    Timely (t.record .next s') := by
  unfold record
  obtain ⟨mailbox, first, unvisited, rfl⟩ := ht.eq
  rcases invoked_clock hi with rfl | hc
  · refine ⟨fun hf => ?_, fun _ _ => rfl, fun hp => ?_, h.count, h.ids⟩
    · cases hf
    · have hh : t.handled = false ∧ t.calls.getLast? = some (some t.actor.timeoutId) :=
        (h.latest hp).symm
      exact ⟨by simp [requested, handlesMessage, hh.1], .inl hh.2⟩
  · exact h.calm hc fun hh => .inl (by simpa [handlesMessage] using hh)

/-- Reading the mailbox keeps it in step. -/
theorem Timely.reads (h : Timely t) (hr : t.actor.Reads s') : Timely (t.record .next s') := by
  unfold record
  obtain ⟨mailbox, first, phase, rfl, hp⟩ := hr.eq
  refine h.calm ⟨rfl, ?_⟩ fun hh => .inl (by simpa [handlesMessage] using hh)
  rcases hp with rfl | rfl
  · rfl
  · rfl

/-- A step that is neither a call nor about the running code. -/
theorem Timely.other (h : Timely t) (hr : requested t.actor l = none) (hl : l ≠ .next)
    (hh : handlesMessage t.actor l = false)
    (hs : clock s' = clock t.actor ∧ s'.phase = t.actor.phase ∨ Calm t.actor s') :
    Timely (t.record l s') := by
  have he : t.record l s' = ⟨s', t.calls, t.began, t.handled⟩ := by
    simp [record, hr, hl, hh]
  rw [he]
  rcases hs with hs | hs
  · exact h.same hs.1 hs.2
  · exact h.calm hs Or.inl

/-- Every step keeps it in step. -/
theorem Timely.step (h : Timely t) (hok : keepsTimeout t l) (hstep : t.step l = some t') :
    Timely t' := by
  obtain ⟨s', hs, rfl⟩ := Option.map_eq_some_iff.mp hstep
  -- one case for each step of the actor
  cases step_cases hs with
  | act hp => exact h.act
  | ret hr => exact h.ret hok hr
  | takes ht hi => exact h.takes ht hi
  | reads hr => exact h.reads hr
  | @enqueue sender mid content =>
    obtain ⟨mailbox, enqueued, sent, he⟩ := enqueue_eq t.actor sender mid content
    refine h.other rfl (by simp) rfl (.inl ?_)
    rw [he]
    exact ⟨rfl, rfl⟩
  | resetTimeout =>
    obtain ⟨mailbox, enqueued, sent, he⟩ := requestTimeout_eq t.actor
      (t.actor.getBehavior.bind (·.timeout))
    rw [he]
    exact h.call rfl rfl
  | block => exact h.other rfl (by simp) rfl (.inl ⟨rfl, rfl⟩)
  | handle _ hphase =>
    refine h.other rfl (by simp) rfl (.inr ⟨rfl, ?_⟩)
    rcases hphase with rfl | ⟨rfl, -⟩ <;> rfl
  | exit => exact h.other rfl (by simp) rfl (.inr ⟨rfl, rfl⟩)
  | deliver => exact h.other rfl (by simp) rfl (.inl ⟨rfl, rfl⟩)

/-- In every run the timeout is in step. -/
theorem timely (h : Reachable keepsTimeout t) : Timely t := by
  refine Reach.invariant (fun t ht => ?_) (fun _ _ _ hI hok hs => hI.step hok hs) h
  obtain ⟨⟨ref, priorityAware, serializable, hs⟩, hcalls, -, -⟩ := ht
  have hflag : t.actor.hasTimeout = false := by rw [hs]; rfl
  have hp : t.actor.phase = .initializing := by rw [hs]; rfl
  have hid : t.actor.timeoutId = 0 := by rw [hs]; rfl
  refine ⟨fun hf => ?_, fun hm => ?_, fun hm => ?_, ?_, fun i tid hi => ?_⟩
  · rw [hflag] at hf
    cases hf
  · rw [hp] at hm
    cases hm
  · rw [hp] at hm
    cases hm
  · rw [hid, hcalls]
    rfl
  · rw [hcalls] at hi
    cases hi

-- -------------------------
-- The handler of the timeout
-- -------------------------

theorem isTimeout_dropped (s : EventBasedActor) (origin : Origin) :
    (s.dropped origin).phase.isTimeout = false := by
  cases origin <;> rfl

theorem isTimeout_success (s : EventBasedActor) : s.success.phase.isTimeout = false := by
  rcases s.success_eq with h | h
  · rw [h]
    rfl
  · rw [h]
    rfl

/-- Only a timeout message calls its handler. -/
theorem invokeMessage_timeout
    (h : (s.invokeMessage e origin awaited).phase.isTimeout = true) :
    s.filterMsg e = .timeout := by
  have hskip : ∀ s : EventBasedActor, (s.skipped e origin).phase.isTimeout = false := by
    intro s
    cases origin <;> rfl
  unfold invokeMessage at h
  split at h
  · simp [isTimeout_dropped] at h
  · simp [isTimeout_dropped] at h
  · simp [isTimeout_dropped] at h
  · unfold handleSysMessage at h
    split at h
    · split at h
      · cases h
      · simp [isTimeout_dropped] at h
    · split at h
      · cases h
      · simp [isTimeout_dropped] at h
    · simp [isTimeout_dropped] at h
    · simp [isTimeout_dropped] at h
  · simp [isTimeout_success] at h
  · next hf => exact hf
  · split at h
    · unfold handleResponse at h
      split at h
      · split at h
        · cases h
        · simp [finishResponse, isTimeout_success] at h
      · cases h
    · simp [hskip] at h
  · split at h
    · simp [hskip] at h
    · cases h

/-- Fewer than `2 ^ 31` messages have different ids. -/
theorem Timely.unique (h : Timely t) (hb : t.calls.length < 2 ^ 31)
    (hlast : t.calls.getLast? = some (some t.actor.timeoutId)) {i : Nat}
    (hi : t.calls[i]? = some (some t.actor.timeoutId)) : i + 1 = t.calls.length := by
  have hlt : i < t.calls.length := (List.getElem?_eq_some_iff.mp hi).1
  have hle : ∀ l : List (Option UInt32), created l ≤ l.length := fun l => List.countP_le_length
  have heq : created (t.calls.take (i + 1)) = created t.calls := by
    have hids := congrArg UInt32.toNat ((h.ids i _ hi).symm.trans h.count)
    rw [UInt32.toNat_ofNat', UInt32.toNat_ofNat'] at hids
    have hall := hle t.calls
    have htake := hle (t.calls.take (i + 1))
    have hlen := List.length_take_le (i + 1) t.calls
    omega
  by_contra hne
  -- the last call is among those after the first `i + 1`, and it has created a message
  have hsplit : created t.calls = created (t.calls.take (i + 1)) +
      created (t.calls.drop (i + 1)) := by
    rw [created, created, created, ← List.countP_append, List.take_append_drop]
  have hmem : some t.actor.timeoutId ∈ t.calls.drop (i + 1) := by
    have hdrop : (t.calls.drop (i + 1)).getLast? = some (some t.actor.timeoutId) := by
      rw [List.getLast?_drop, if_neg (by omega), hlast]
    exact List.mem_of_getLast? hdrop
  have hpos : 0 < created (t.calls.drop (i + 1)) := List.countP_pos_iff.mpr ⟨_, hmem, rfl⟩
  omega

/-- In every run with fewer than `2 ^ 31` calls in which no handler clears an active timeout and
then skips its message: a message that triggers a timeout was created by the last call of
`request_timeout` and by no other one, and no ordinary message has been handled since. -/
theorem timeout_from_last_call (h : Reachable keepsTimeout t) (hb : t.calls.length < 2 ^ 31)
    (hs : t.actor.step .next = some s') (hp : s'.phase = .invoking origin .timeout) :
    ∃ e tid, t.actor.nextElement = some e ∧ e.content = .timeout tid ∧
      t.calls.getLast? = some (some tid) ∧
      (∀ i, t.calls[i]? = some (some tid) → i + 1 = t.calls.length) ∧ t.handled = false := by
  have hI := timely h
  rcases next_cases hs with ⟨s₁, e, origin, awaited, ht, rfl⟩ | hr
  · have hf := invokeMessage_timeout (by rw [hp]; rfl)
    obtain ⟨mailbox, first, unvisited, rfl⟩ := ht.eq
    obtain ⟨tid, hc, hactive⟩ := filterMsg_timeout hf
    simp only [isActiveTimeout, Bool.and_eq_true, decide_eq_true_eq] at hactive
    obtain ⟨hflag, rfl⟩ := hactive
    obtain ⟨hlast, hh⟩ := hI.latest hflag
    exact ⟨e, _, ht.nextElement, hc, hlast, fun i hi => hI.unique hb hlast hi, hh⟩
  · obtain ⟨mailbox, first, phase, rfl, hphase⟩ := hr.eq
    rcases hphase with rfl | rfl
    · cases hp
    · cases hp

theorem initial_isInitial : isInitial ⟨.initial 1 false false, [], false, false⟩ :=
  ⟨⟨1, false, false, rfl⟩, rfl, rfl, rfl⟩

/-- A behavior whose timeout is zero. -/
theorem timeout_from_last_call_zero : ∃ t s', Reachable keepsTimeout t ∧
    t.actor.step .next = some s' ∧ s'.phase = .invoking .mailbox .timeout ∧
    t.calls.getLast? = some (some 2) ∧ t.handled = false := by
  obtain ⟨t, hr, hs⟩ := exists_run
    (fun t l => if keepsTimeout t l then step t l else none)
    ⟨.initial 1 false false, [], false, false⟩
    [.act (.become ⟨some 0, .user 0⟩ false), .ret .void]
    (fun t => decide (t.calls = [some 2]) &&
      (t.actor.step .next).any fun s : EventBasedActor =>
        decide (s.phase = .invoking .mailbox .timeout))
    (by decide)
  have h : Reachable keepsTimeout t := reach_of_checked_run (.init initial_isInitial) hr
  rw [Bool.and_eq_true, decide_eq_true_eq] at hs
  obtain ⟨hcalls, hs⟩ := hs
  obtain ⟨s', hs', hp⟩ := (Option.any_eq_true _ _).mp hs
  rw [decide_eq_true_eq] at hp
  obtain ⟨e, tid, -, -, hlast, -, hh⟩ :=
    timeout_from_last_call h (by rw [hcalls]; decide) hs' hp
  exact ⟨t, s', h, hs', hp, by rw [hcalls]; rfl, hh⟩

/-- A handler tries a behavior without timeout, goes back to the old one and skips its message:
the old timeout is active again, although the last call has cleared it. -/
theorem timeout_after_clear : ∃ t s', Reachable anyStep t ∧ t.calls.length < 2 ^ 31 ∧
    t.actor.step .next = some s' ∧ s'.phase = .invoking .mailbox .timeout ∧
    t.calls.getLast? = some none := by
  obtain ⟨t, hr, hs⟩ := exists_run step ⟨.initial 1 false false, [], false, false⟩
    [.act (.become ⟨some 1000, .user 0⟩ false), .ret .void,
      .enqueue (.localActor 7) 0 .user, .next, .act (.become ⟨none, .user 1⟩ false),
      .act .unbecome, .ret .skip, .enqueue (.localActor 1) 0 (.timeout 2)]
    (fun t => decide (t.calls = [some 2, none]) &&
      (t.actor.step .next).any fun s : EventBasedActor =>
        decide (s.phase = .invoking .mailbox .timeout))
    (by decide)
  rw [Bool.and_eq_true, decide_eq_true_eq] at hs
  obtain ⟨hcalls, hs⟩ := hs
  obtain ⟨s', hs', hp⟩ := (Option.any_eq_true _ _).mp hs
  rw [decide_eq_true_eq] at hp
  exact ⟨t, s', reach_of_run (.init initial_isInitial) hr, by rw [hcalls]; decide, hs', hp,
    by rw [hcalls]; rfl⟩

end TimedActor

end BoostActor
