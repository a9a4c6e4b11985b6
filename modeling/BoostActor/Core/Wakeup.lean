import BoostActor.Core.Scheduling

/-!
# No lost wakeup, no double scheduling

At any time exactly one of the following is true of an actor: it is being launched, it is
in a job queue, a worker runs it, a sender is about to schedule it, it is asleep with a
blocked and empty mailbox, or it has terminated. Only a successful `try_block` puts it to
sleep, and only the first `enqueue` that follows wakes it up.

* `InPhase` — what each phase means for senders, workers and mailbox;
* `InPhase.step` — every step leads to a phase again;
* `actor_scheduled_once` — the properties of the protocol.
-/

namespace BoostActor

open Lib

variable {α : Type} {cfg : Settings α} {s s' : Schedule α}

-- -------------------------
-- The log of the mailbox
-- -------------------------

/-- What a mailbox is ready for. -/
inductive MailboxStatus where
  | ready
  | blocked
  | closed
deriving DecidableEq, Repr

/-- The result of the next `enqueue`. -/
def MailboxStatus.result : MailboxStatus → EnqueueResult
  | .ready => .success
  | .blocked => .unblockedReader
  | .closed => .queueClosed

/-- The status after an event. -/
def MailboxStatus.after : MailboxStatus → MailboxEvent α → MailboxStatus
  | _, .blocked _ => .blocked
  | .closed, .enqueued _ => .closed
  | _, .enqueued _ => .ready
  | _, .closed => .closed

/-- The status after a list of events. -/
def statusAfter (log : List (MailboxEvent α)) : MailboxStatus :=
  log.foldl MailboxStatus.after .ready

/-- The event is as it should be: only a mailbox that is ready and without unread messages
is blocked, and of the calls of `enqueue` that follow exactly the first one sees a blocked
reader. -/
def MailboxEvent.expected (status : MailboxStatus) : MailboxEvent α → Prop
  | .blocked unread => status = .ready ∧ unread = []
  | .enqueued result => result = status.result
  | .closed => status ≠ .blocked

/-- Every event is as it should be after those before it. -/
def WellLogged (log : List (MailboxEvent α)) : Prop :=
  ∀ before e after, log = before ++ e :: after → e.expected (statusAfter before)

/-- An event that the status expects continues a well formed log. -/
theorem WellLogged.snoc {log : List (MailboxEvent α)} {e : MailboxEvent α} (h : WellLogged log)
    (he : e.expected (statusAfter log)) : WellLogged (log ++ [e]) := by
  intro before e' after heq
  rcases concat_eq_append_cons heq with ⟨rfl, rfl⟩ | ⟨rest, hlog⟩
  · exact he
  · exact h before e' rest hlog

theorem statusAfter_snoc (log : List (MailboxEvent α)) (e : MailboxEvent α) :
    statusAfter (log ++ [e]) = (statusAfter log).after e := by
  rw [statusAfter, List.foldl_append]
  rfl

/-- The status that the stack of a mailbox shows. -/
def MailboxStack.status : MailboxStack α → MailboxStatus
  | .closed => .closed
  | .blocked => .blocked
  | .elements _ => .ready

/-- The log is as it should be, up to the present status of the mailbox. -/
structure Logged (s : Schedule α) : Prop where
  good : WellLogged s.log
  status : statusAfter s.log = s.mailbox.stack.status

/-- A step that logs nothing and keeps the stack's status keeps the log in order. -/
theorem Logged.same (h : Logged s) (hlog : s'.log = s.log)
    (hs : s'.mailbox.stack.status = s.mailbox.stack.status) : Logged s' := by
  refine ⟨?_, ?_⟩
  · rw [hlog]
    exact h.good
  · rw [hlog, hs]
    exact h.status

/-- A step that logs what the status expects keeps the log in order. -/
theorem Logged.snoc (h : Logged s) {e : MailboxEvent α} (hlog : s'.log = s.log ++ [e])
    (he : e.expected s.mailbox.stack.status)
    (hs : s'.mailbox.stack.status = s.mailbox.stack.status.after e) : Logged s' := by
  refine ⟨?_, ?_⟩
  · rw [hlog]
    exact h.good.snoc (by rw [h.status]; exact he)
  · rw [hlog, statusAfter_snoc, h.status, hs]

-- -------------------------
-- Phases
-- -------------------------

/-- The worker is working on the actor. Once the mailbox has been blocked, `resume` only
returns. -/
def Worker.active : Worker α → Bool
  | .idle | .returned .awaitingMessage => false
  | _ => true

/-- The worker may see a mailbox that is closed. -/
def Worker.ending : Worker α → Bool
  | .onExit _ | .cleanup _ | .closed _ | .caught | .returned .done => true
  | _ => false

/-- What a worker knows at its place about the actor. -/
def Worker.Knows (cfg : Settings α) (s : Schedule α) : Worker α → Prop
  -- it has found no message
  | .block _ | .leaveBlock => s.first = [] ∧ s.mailbox.head = []
  | .fill _ => cfg.priorityAware = true
  | .cleanup _ => s.cleared = true
  | .closed _ | .returned .done => s.cleared = true ∧ s.mailbox.stack = .closed
  | _ => True

/-- Where the one pointer to the actor is that lets it run. -/
inductive Phase where
  | launching
  | scheduled
  | running (w : Nat)
  | waking (c : Nat)
  | asleep
  | terminated
deriving DecidableEq, Repr

/-- In these phases nothing has been fetched from the mailbox. -/
def Phase.resting : Phase → Bool
  | .launching | .asleep => true
  | _ => false

/-- What a phase means. -/
structure InPhase (cfg : Settings α) (s : Schedule α) (p : Phase) : Prop where
  launching : s.launch ≠ .launched ↔ p = .launching
  jobs : s.jobs = if p = .scheduled then 1 else 0
  running : ∀ w, (s.workers w).active = true ↔ p = .running w
  waking : ∀ c, s.senders c = .waking ↔ p = .waking c
  asleep : s.mailbox.stack = .blocked ↔ p = .asleep
  resting : p.resting = true → s.first = [] ∧ s.mailbox.head = []
  knows : ∀ w, p = .running w → (s.workers w).Knows cfg s
  closed : s.mailbox.stack = .closed → s.first = [] ∧ s.mailbox.head = [] ∧
    (p = .terminated ∨ ∃ w, p = .running w ∧ (s.workers w).ending = true ∧ s.cleared = true)
  terminated : p = .terminated → s.mailbox.stack = .closed
  /-- only an actor that is aware of priorities uses the first partition of the cache -/
  plain : cfg.priorityAware = false → s.first = []

namespace InPhase

variable {p : Phase} {w c : Nat}

theorem initial (cfg : Settings α) : InPhase cfg Schedule.initial .launching := by
  constructor <;> simp [Schedule.initial, Mailbox.initial, Worker.active, Phase.resting]

/-- The worker that runs the actor goes on. -/
theorem proceed (h : InPhase cfg s (.running w)) {pc : Worker α}
    (hw : s'.workers = Function.update s.workers w pc) (hs : s'.senders = s.senders)
    (hl : s'.launch = s.launch) (hj : s'.jobs = s.jobs) (hact : pc.active = true)
    (hb : s'.mailbox.stack ≠ .blocked) (hk : pc.Knows cfg s')
    (hc : s'.mailbox.stack = .closed → s'.first = [] ∧ s'.mailbox.head = [] ∧
      pc.ending = true ∧ s'.cleared = true)
    (hp : cfg.priorityAware = false → s'.first = []) : InPhase cfg s' (.running w) := by
  -- only the worker itself has changed, so each item is that of the state before
  have hself : s'.workers w = pc := by rw [hw, Function.update_self]
  refine ⟨?_, ?_, fun w' => ?_, ?_, ?_, by simp [Phase.resting], fun w' he => ?_, fun hcl => ?_,
    by simp, hp⟩
  · rw [hl]
    exact h.launching
  · rw [hj]
    exact h.jobs
  · by_cases hww : w' = w
    · subst hww
      rw [hself]
      exact iff_of_true hact rfl
    · rw [hw, Function.update_of_ne hww]
      exact h.running w'
  · rw [hs]
    exact h.waking
  · exact iff_of_false hb (by simp)
  · cases he
    rw [hself]
    exact hk
  · obtain ⟨hf, hhead, hend, hclr⟩ := hc hcl
    exact ⟨hf, hhead, Or.inr ⟨w, rfl, by rw [hself]; exact hend, hclr⟩⟩

/-- A worker that is not about to end sees a mailbox that is open and not blocked. -/
theorem isOpen (h : InPhase cfg s (.running w)) (he : (s.workers w).ending = false) :
    ∃ xs, s.mailbox.stack = .elements xs := by
  cases hs : s.mailbox.stack with
  | elements xs => exact ⟨xs, rfl⟩
  | blocked => cases h.asleep.mp hs
  | closed =>
    rcases (h.closed hs).2.2 with ht | ⟨w', hw', hend, -⟩
    · cases ht
    · cases hw'
      rw [he] at hend
      cases hend

/-- The worker has taken something from the mailbox. -/
theorem fetches (h : InPhase cfg s (.running w)) {pc : Worker α}
    (hw : s'.workers = Function.update s.workers w pc) (hs : s'.senders = s.senders)
    (hl : s'.launch = s.launch) (hj : s'.jobs = s.jobs) {xs : List α}
    (hx : s'.mailbox.stack = .elements xs) (hact : pc.active = true) (hk : pc.Knows cfg s')
    (hp : cfg.priorityAware = false → s'.first = []) : InPhase cfg s' (.running w) := by
  refine h.proceed hw hs hl hj hact ?_ hk ?_ hp
  · rw [hx]
    simp
  · intro hc
    rw [hx] at hc
    cases hc

/-- The worker goes on and changes nothing but its place. -/
theorem goes (h : InPhase cfg s (.running w)) {pc : Worker α} (he : (s.workers w).ending = false)
    (hact : pc.active = true) (hk : pc.Knows cfg s) : InPhase cfg (s.goto w pc) (.running w) := by
  obtain ⟨xs, hxs⟩ := h.isOpen he
  refine h.fetches rfl rfl rfl rfl hxs hact ?_ h.plain
  cases pc with
  | returned r => cases r <;> exact hk
  | _ => exact hk

end InPhase

/-- `try_pop` on an open mailbox. -/
theorem Mailbox.tryPop_open {m : Mailbox α} {xs : List α} (h : m.stack = .elements xs) :
    (∃ ys, m.tryPop.2.stack = .elements ys) ∧
      (m.tryPop.1 = none → m.tryPop.2.head = []) := by
  unfold tryPop fetchNewData
  rw [h]
  cases hh : m.head with
  | nil =>
    refine ⟨⟨[], rfl⟩, fun hn => ?_⟩
    have hxs : xs = [] := by simpa using hn
    simp [hxs]
  | cons x ys => exact ⟨⟨xs, by simpa using h⟩, by simp [hh]⟩

-- -------------------------
-- Steps of a worker
-- -------------------------

/-- The actor is in some phase, and its log is good. -/
def Orderly (cfg : Settings α) (s : Schedule α) : Prop := (∃ p, InPhase cfg s p) ∧ Logged s

/-- A phase and a log in order are what an orderly state has. -/
theorem orderly_of {p : Phase} (h : InPhase cfg s p) (hl : Logged s) : Orderly cfg s := ⟨⟨p, h⟩, hl⟩

theorem Logged.takeFirst (hl : Logged s) (w i : Nat) : Logged (s.takeFirst w i) := by
  unfold Schedule.takeFirst
  split <;> exact hl.same rfl rfl

namespace InPhase

variable {p : Phase} {w c i : Nat}

/-- Taking the first message keeps the worker running. -/
theorem takeFirst (h : InPhase cfg s (.running w)) (he : (s.workers w).ending = false)
    (hn : s.first = [] → s.mailbox.head = []) :
    InPhase cfg (s.takeFirst w i) (.running w) := by
  obtain ⟨xs, hxs⟩ := h.isOpen he
  unfold Schedule.takeFirst
  split
  · next x rest hf =>
    refine h.fetches rfl rfl rfl rfl hxs rfl trivial fun hp => ?_
    rw [h.plain hp] at hf
    cases hf
  · next hf => exact h.goes he rfl ⟨hf, hn hf⟩

/-- Fetching the next message keeps the state orderly. -/
theorem nextMessage (h : InPhase cfg s (.running w)) (hl : Logged s)
    (he : (s.workers w).ending = false) : Orderly cfg (s.nextMessage cfg w i) := by
  obtain ⟨xs, hxs⟩ := h.isOpen he
  unfold Schedule.nextMessage
  split
  · next hp =>
    have hfill : Orderly cfg (s.goto w (.fill i)) := orderly_of (h.goes he rfl hp) (hl.same rfl rfl)
    split
    · next x rest hf =>
      split
      · exact orderly_of (h.takeFirst he (by simp [hf])) (hl.takeFirst w i)
      · exact hfill
    · exact hfill
  · next hplain =>
    have hfirst : s.first = [] := h.plain (by simpa using hplain)
    obtain ⟨⟨ys, hys⟩, hnone⟩ := Mailbox.tryPop_open hxs
    have hstatus : s.mailbox.tryPop.2.stack.status = s.mailbox.stack.status := by
      rw [hys, hxs]
      rfl
    split
    · next x mailbox hpop =>
      rw [hpop] at hys hstatus
      exact orderly_of (h.fetches rfl rfl rfl rfl hys rfl trivial h.plain) (hl.same rfl hstatus)
    · next mailbox hpop =>
      rw [hpop] at hys hstatus hnone
      exact orderly_of (h.fetches rfl rfl rfl rfl hys rfl ⟨hfirst, hnone rfl⟩ h.plain)
        (hl.same rfl hstatus)

/-- Filling the cache keeps the state orderly. -/
theorem fill (h : InPhase cfg s (.running w)) (hl : Logged s) (hw : s.workers w = .fill i) :
    Orderly cfg (s.fill cfg w i) := by
  have he : (s.workers w).ending = false := by rw [hw]; rfl
  have hp : cfg.priorityAware = true := by
    have hk := h.knows w rfl
    rw [hw] at hk
    exact hk
  obtain ⟨xs, hxs⟩ := h.isOpen he
  obtain ⟨⟨ys, hys⟩, hnone⟩ := Mailbox.tryPop_open hxs
  have hstatus : s.mailbox.tryPop.2.stack.status = s.mailbox.stack.status := by
    rw [hys, hxs]
    rfl
  -- the worker stays where it is
  have hstay : s.workers = Function.update s.workers w (.fill i) := by
    rw [← hw, Function.update_eq_self]
  have hin : ∀ first, InPhase cfg { s with mailbox := s.mailbox.tryPop.2, first := first }
      (.running w) :=
    fun first => h.fetches hstay rfl rfl rfl hys rfl hp (by simp [hp])
  have hlog : ∀ first, Logged { s with mailbox := s.mailbox.tryPop.2, first := first } :=
    fun first => hl.same rfl hstatus
  unfold Schedule.fill
  split
  · next x mailbox hpop =>
    rw [hpop] at hin hlog
    exact orderly_of (hin _) (hlog _)
  · next mailbox hpop =>
    rw [hpop] at hin hlog hnone
    exact orderly_of ((hin s.first).takeFirst he fun _ => hnone rfl) ((hlog s.first).takeFirst w i)

/-- The worker gives the actor away. -/
theorem leaves (h : InPhase cfg s (.running w)) {pc : Worker α} {p : Phase}
    (hw : s'.workers = Function.update s.workers w pc) (hs : s'.senders = s.senders)
    (hl : s'.launch = s.launch) (hact : pc.active = false)
    (hjobs : s'.jobs = if p = .scheduled then 1 else 0)
    (hp : p = .scheduled ∨ p = .asleep ∨ p = .terminated)
    (hb : s'.mailbox.stack = .blocked ↔ p = .asleep)
    (hr : p = .asleep → s'.first = [] ∧ s'.mailbox.head = [])
    (hc : s'.mailbox.stack = .closed → p = .terminated ∧ s'.first = [] ∧ s'.mailbox.head = [])
    (ht : p = .terminated → s'.mailbox.stack = .closed)
    (hplain : cfg.priorityAware = false → s'.first = []) : InPhase cfg s' p := by
  have hne : (∀ w, p ≠ .running w) ∧ (∀ c, p ≠ .waking c) ∧ p ≠ .launching := by
    rcases hp with rfl | rfl | rfl <;> simp
  have hresting : p.resting = true → p = .asleep := by
    rcases hp with rfl | rfl | rfl <;> simp [Phase.resting]
  refine ⟨?_, hjobs, fun w' => ?_, fun c => ?_, hb, fun hrest => hr (hresting hrest),
    fun w' he => absurd he (hne.1 w'), fun hcl => ?_, ht, hplain⟩
  · rw [hl, h.launching]
    exact iff_of_false (by simp) hne.2.2
  · refine iff_of_false ?_ (hne.1 w')
    by_cases hww : w' = w
    · rw [hw, hww, Function.update_self, hact]
      simp
    · rw [hw, Function.update_of_ne hww, h.running]
      simpa using fun he => hww he.symm
  · rw [hs, h.waking]
    exact iff_of_false (by simp) (hne.2.1 c)
  · obtain ⟨hterm, hf, hh⟩ := hc hcl
    exact ⟨hf, hh, Or.inl hterm⟩

/-- The worker tries to block the mailbox after it found no message. -/
theorem tryBlock (h : InPhase cfg s (.running w)) (hl : Logged s)
    (hd : s.first = [] ∧ s.mailbox.head = []) (he : (s.workers w).ending = false)
    {otherwise : Worker α} (hact : otherwise.active = true) (hk : otherwise.Knows cfg s) :
    Orderly cfg (s.tryBlock w otherwise) := by
  obtain ⟨hfirst, hhead⟩ := hd
  obtain ⟨xs, hxs⟩ := h.isOpen he
  have hjobs : s.jobs = 0 := h.jobs
  unfold Schedule.tryBlock Mailbox.tryBlock
  rw [hxs]
  cases xs with
  | nil =>
    refine orderly_of (p := .asleep) ?_ (hl.snoc rfl ⟨by rw [hxs]; rfl, ?_⟩ ?_)
    · exact h.leaves rfl rfl rfl rfl hjobs (Or.inr (Or.inl rfl)) (iff_of_true rfl rfl)
        (fun _ => ⟨hfirst, hhead⟩) (fun hc => by cases hc) (fun ht => by cases ht) h.plain
    · simp [Schedule.unread, Mailbox.unread, hfirst, hhead, hxs]
    · rw [hxs]
      rfl
  | cons x xs => exact orderly_of (h.goes he hact hk) (hl.same rfl rfl)

/-- After a handler: the actor exits, or the worker goes on. -/
theorem afterInvoke (h : InPhase cfg s (.running w)) (hl : Logged s) {ch : Choice}
    {next : Worker α} (he : (s.workers w).ending = false) (hact : next.active = true)
    (hk : next.Knows cfg s) : Orderly cfg (s.afterInvoke w ch next) := by
  unfold Schedule.afterInvoke
  split
  · exact orderly_of (h.goes he rfl trivial) (hl.same rfl rfl)
  · exact orderly_of (h.goes he hact hk) (hl.same rfl rfl)

/-- A worker that had given the actor away is free again. -/
theorem rests (h : InPhase cfg s p) (ha : (s.workers w).active = false) :
    InPhase cfg (s.goto w .idle) p := by
  -- the worker is inactive, so it is not the running one
  have hne : p ≠ .running w := by
    intro hp
    rw [(h.running w).mpr hp] at ha
    cases ha
  have hother : ∀ w', p = .running w' → (s.goto w .idle).workers w' = s.workers w' := by
    intro w' hp
    refine Function.update_of_ne ?_ ..
    rintro rfl
    exact hne hp
  refine ⟨h.launching, h.jobs, fun w' => ?_, h.waking, h.asleep, h.resting, fun w' hp => ?_,
    fun hc => ?_, h.terminated, h.plain⟩
  · show (Function.update s.workers w .idle w').active = true ↔ _
    by_cases hww : w' = w
    · subst hww
      rw [Function.update_self]
      exact iff_of_false (by simp [Worker.active]) hne
    · rw [Function.update_of_ne hww]
      exact h.running w'
  · rw [hother w' hp]
    have hk := h.knows w' hp
    revert hk
    cases s.workers w' with
    | returned r => cases r <;> exact id
    | _ => exact id
  · obtain ⟨hf, hh, hcase⟩ := h.closed hc
    refine ⟨hf, hh, hcase.imp_right ?_⟩
    rintro ⟨w', hp, hend⟩
    exact ⟨w', hp, by rw [hother w' hp]; exact hend⟩

/-- A step of the exit of the actor, which may find the mailbox closed. -/
theorem ends (h : InPhase cfg s (.running w)) {pc : Worker α} {cleared : Bool}
    (hact : pc.active = true) (hend : pc.ending = true)
    (hk : pc.Knows cfg { s with cleared := cleared }) (hc : s.cleared = true → cleared = true) :
    InPhase cfg ({ s with cleared := cleared }.goto w pc) (.running w) := by
  refine h.proceed rfl rfl rfl rfl hact ?_ ?_ (fun hcl => ?_) h.plain
  · intro hb
    cases h.asleep.mp hb
  · revert hk
    cases pc with
    | returned r => cases r <;> exact id
    | _ => exact id
  · obtain ⟨hfirst, hhead, hcase⟩ := h.closed hcl
    refine ⟨hfirst, hhead, hend, ?_⟩
    rcases hcase with ht | ⟨_, _, _, hclr⟩
    · cases ht
    · exact hc hclr

/-- `cleanup` closes the mailbox. -/
theorem cleanup (h : InPhase cfg s (.running w)) (hl : Logged s) (inTry : Bool)
    (hc : s.cleared = true) :
    Orderly cfg ({ s with
      mailbox := s.mailbox.close.2
      first := []
      log := s.log ++ [MailboxEvent.closed] }.goto w (.closed inTry)) := by
  refine orderly_of (p := .running w) ?_ (hl.snoc rfl ?_ rfl)
  · exact h.proceed rfl rfl rfl rfl rfl (by simp [Schedule.goto, Mailbox.close]) ⟨hc, rfl⟩
      (fun _ => ⟨rfl, rfl, rfl, hc⟩) fun _ => rfl
  · show s.mailbox.stack.status ≠ .blocked
    cases hs : s.mailbox.stack with
    | blocked => cases h.asleep.mp hs
    | elements | closed => simp [MailboxStack.status]

/-- What `has_next_message` finds out. -/
theorem no_message (h : InPhase cfg s p) (hno : ¬ s.hasNextMessage cfg = true) :
    s.first = [] ∧ s.mailbox.head = [] := by
  unfold Schedule.hasNextMessage Mailbox.canFetchMore at hno
  split at hno
  · simp only [Bool.not_eq_true, Bool.or_eq_false_iff, Bool.not_eq_false', List.isEmpty_iff] at hno
    exact ⟨hno.1, hno.2.1⟩
  · next hp =>
    simp only [Bool.not_eq_true, Bool.or_eq_false_iff, Bool.not_eq_false', List.isEmpty_iff] at hno
    exact ⟨h.plain (by simpa using hp), hno.1⟩

/-- What follows a handler: the actor exits, tries its cache, or goes on to the next message. -/
theorem handled (h : InPhase cfg s (.running w)) (hl : Logged s)
    (he : (s.workers w).ending = false) {ch : Choice} {i : Nat}
    (hs : (match ch.result with
      | .success => some (s.afterInvoke w ch (.invokeFromCache i))
      | .skipped | .dropped => some (s.goto w (.loop (i + 1)))
      | .thrown => some (s.goto w .caught)) = some s') : Orderly cfg s' := by
  split at hs
  · cases hs
    exact h.afterInvoke hl he rfl trivial
  all_goals
    cases hs
    exact orderly_of (h.goes he rfl trivial) (hl.same rfl rfl)

/-- A part of the exit of the actor that may throw. -/
theorem mayThrow (h : InPhase cfg s (.running w)) (hl : Logged s) {ch : Choice} {inTry : Bool}
    {next : Schedule α}
    (hs : (if ch.result = .thrown then if inTry then some (s.goto w .caught) else none
      else some next) = some s') (hnext : Orderly cfg next) : Orderly cfg s' := by
  split at hs
  · split at hs
    · cases hs
      exact orderly_of (h.ends rfl rfl trivial id) (hl.same rfl rfl)
    · cases hs
  · cases hs
    exact hnext

/-- An actor that has thrown is run again later, unless it is to exit. -/
theorem catches (h : InPhase cfg s (.running w)) (hl : Logged s) (exits : Bool) :
    Orderly cfg (s.goto w (if s.cleared || exits then .onExit false
      else .returned .resumeLater)) := by
  split
  · exact orderly_of (h.ends rfl rfl trivial id) (hl.same rfl rfl)
  · next hrevived =>
    -- the mailbox of an actor that has not been cleared is open
    have hcleared : ¬ s.cleared = true := fun hc => hrevived (by rw [hc]; rfl)
    refine orderly_of (h.proceed rfl rfl rfl rfl rfl (fun hb => ?_) trivial
      (fun hc => ?_) h.plain) (hl.same rfl rfl)
    · cases h.asleep.mp hb
    · rcases (h.closed hc).2.2 with ht | ⟨_, _, _, hclr⟩
      · cases ht
      · exact absurd hclr hcleared

/-- The worker hands the actor back to the scheduler. -/
theorem reschedules (h : InPhase cfg s (.running w)) (hl : Logged s)
    (he : (s.workers w).ending = false) :
    Orderly cfg ({ s with jobs := s.jobs + 1 }.goto w .idle) := by
  have hjobs : s.jobs = 0 := h.jobs
  obtain ⟨xs, hxs⟩ := h.isOpen he
  have hstack : ∀ {st : MailboxStack α}, st ≠ .elements xs → s.mailbox.stack ≠ st := by
    intro st hne hst
    exact hne (hst.symm.trans hxs)
  refine orderly_of (h.leaves (p := .scheduled) rfl rfl rfl rfl ?_ (Or.inl rfl) ?_ (by simp)
    (fun hc => absurd hc (hstack (by simp))) (by simp) h.plain) (hl.same rfl rfl)
  · show s.jobs + 1 = 1
    rw [hjobs]
  · exact iff_of_false (hstack (by simp)) (by simp)

/-- The worker is done with an actor whose mailbox is closed. -/
theorem terminates (h : InPhase cfg s (.running w)) (hl : Logged s)
    (hclosed : s.mailbox.stack = .closed) : Orderly cfg (s.goto w .idle) := by
  obtain ⟨hfirst, hhead, -⟩ := h.closed hclosed
  refine orderly_of (h.leaves (p := .terminated) rfl rfl rfl rfl h.jobs (Or.inr (Or.inr rfl)) ?_
    (by simp) (fun _ => ⟨rfl, hfirst, hhead⟩) (fun _ => hclosed) h.plain) (hl.same rfl rfl)
  refine iff_of_false (fun hb => ?_) (by simp)
  replace hb : s.mailbox.stack = .blocked := hb
  rw [hclosed] at hb
  cases hb

/-- A step of the worker that runs the actor. -/
theorem work_running (h : InPhase cfg s (.running w)) (hl : Logged s) {ch : Choice}
    (hs : s.work cfg w ch = some s') : Orderly cfg s' := by
  have hk := h.knows w rfl
  have hact := (h.running w).mpr rfl
  unfold Schedule.work at hs
  cases hw : s.workers w with
  | idle =>
    rw [hw] at hact
    cases hact
  | entry =>
    have he : (s.workers w).ending = false := by rw [hw]; rfl
    rw [hw] at hs
    dsimp only at hs
    split at hs
    · cases hs
      exact orderly_of (h.goes he rfl trivial) (hl.same rfl rfl)
    · have h₁ : InPhase cfg { s with initialized := true } (.running w) := by
        obtain ⟨xs, hxs⟩ := h.isOpen he
        refine h.fetches (Function.update_eq_self w s.workers).symm rfl rfl rfl hxs hact ?_ h.plain
        rw [hw]
        trivial
      cases hs
      split
      · exact orderly_of (h₁.goes he rfl trivial) (hl.same rfl rfl)
      · exact h₁.afterInvoke (hl.same rfl rfl) he rfl trivial
  | loop i =>
    have he : (s.workers w).ending = false := by rw [hw]; rfl
    rw [hw] at hs
    dsimp only at hs
    split at hs
    · cases hs
      exact h.nextMessage hl he
    · cases hs
      exact orderly_of (h.goes he rfl trivial) (hl.same rfl rfl)
  | fill i =>
    rw [hw] at hs
    cases hs
    exact h.fill hl hw
  | invoke i x =>
    rw [hw] at hs
    exact h.handled hl (by rw [hw]; rfl) hs
  | invokeFromCache i =>
    rw [hw] at hs
    exact h.handled hl (by rw [hw]; rfl) hs
  | block i =>
    have he : (s.workers w).ending = false := by rw [hw]; rfl
    rw [hw] at hs hk
    cases hs
    exact h.tryBlock hl hk he rfl trivial
  | leave =>
    have he : (s.workers w).ending = false := by rw [hw]; rfl
    rw [hw] at hs
    cases hs
    split
    · exact orderly_of (h.goes he rfl trivial) (hl.same rfl rfl)
    · next hno => exact orderly_of (h.goes he rfl (h.no_message hno)) (hl.same rfl rfl)
  | leaveBlock =>
    have he : (s.workers w).ending = false := by rw [hw]; rfl
    rw [hw] at hs hk
    cases hs
    exact h.tryBlock hl hk he rfl trivial
  | onExit inTry =>
    rw [hw] at hs
    dsimp only at hs
    exact h.mayThrow hl hs (orderly_of (h.ends rfl rfl rfl fun _ => rfl) (hl.same rfl rfl))
  | cleanup inTry =>
    rw [hw] at hs hk
    cases hs
    exact h.cleanup hl inTry hk
  | closed inTry =>
    rw [hw] at hs hk
    dsimp only at hs
    exact h.mayThrow hl hs (orderly_of (h.ends rfl rfl hk id) (hl.same rfl rfl))
  | caught =>
    rw [hw] at hs
    cases hs
    exact h.catches hl ch.exits
  | returned r =>
    rw [hw] at hs hk
    cases hs
    cases r with
    | awaitingMessage =>
      rw [hw] at hact
      cases hact
    | resumeLater => exact h.reschedules hl (by rw [hw]; rfl)
    | done => exact h.terminates hl hk.2

/-- A step of any worker keeps the state orderly. -/
theorem work (h : InPhase cfg s p) (hl : Logged s) {ch : Choice}
    (hs : s.work cfg w ch = some s') : Orderly cfg s' := by
  cases hact : (s.workers w).active with
  | true =>
    obtain rfl := (h.running w).mp hact
    exact h.work_running hl hs
  | false =>
    -- the worker is only to return
    unfold Schedule.work at hs
    cases hw : s.workers w with
    | returned r =>
      rw [hw] at hs hact
      cases r with
      | awaitingMessage =>
        cases hs
        exact orderly_of (h.rests (by rw [hw]; rfl)) (hl.same rfl rfl)
      | resumeLater | done => cases hact
    | idle =>
      rw [hw] at hs
      cases hs
    | _ =>
      rw [hw] at hact
      cases hact

-- -------------------------
-- Other steps
-- -------------------------

/-- The parts of the actor that senders do not change. -/
theorem senders (h : InPhase cfg s p) {c : Nat} {sender : Sender} {stack : MailboxStack α}
    {log : List (MailboxEvent α)} (hc : s.senders c ≠ .waking) (hsender : sender ≠ .waking)
    (hb : stack = .blocked ↔ s.mailbox.stack = .blocked)
    (hcl : stack = .closed ↔ s.mailbox.stack = .closed) :
    InPhase cfg { s with
      mailbox := { s.mailbox with stack := stack }
      senders := Function.update s.senders c sender
      log := log } p := by
  refine ⟨h.launching, h.jobs, h.running, fun c' => ?_, hb.trans h.asleep, h.resting,
    fun w hp => ?_,
    fun hclosed => h.closed (hcl.mp hclosed), fun ht => hcl.mpr (h.terminated ht), h.plain⟩
  · -- no sender is waking but the one of the phase
    show Function.update s.senders c sender c' = .waking ↔ _
    by_cases hcc : c' = c
    · subst hcc
      rw [Function.update_self, ← h.waking]
      exact iff_of_false hsender hc
    · rw [Function.update_of_ne hcc]
      exact h.waking c'
  · have hk := h.knows w hp
    revert hk
    show (s.workers w).Knows cfg s → (s.workers w).Knows cfg _
    cases s.workers w with
    | returned r =>
      cases r with
      | done => exact fun hk => ⟨hk.1, hcl.mpr hk.2⟩
      | resumeLater | awaitingMessage => exact id
    | closed => exact fun hk => ⟨hk.1, hcl.mpr hk.2⟩
    | _ => exact id

/-- Only a worker at the end of the actor and a terminated actor see a closed mailbox. -/
theorem not_closed (h : InPhase cfg s p) (hr : ∀ w, p ≠ .running w) (ht : p ≠ .terminated) :
    s.mailbox.stack ≠ .closed := by
  intro hc
  rcases (h.closed hc).2.2 with hterm | ⟨w, hw, -⟩
  · exact ht hterm
  · exact hr w hw

/-- The actor is passed on while no worker runs it. -/
theorem hands (h : InPhase cfg s p) {p' : Phase} (hr : ∀ w, p ≠ .running w)
    (hr' : ∀ w, p' ≠ .running w) (ht' : p' ≠ .terminated)
    (hl : s'.launch ≠ .launched ↔ p' = .launching)
    (hj : s'.jobs = if p' = .scheduled then 1 else 0) (hw : s'.workers = s.workers)
    (hs : ∀ c, s'.senders c = .waking ↔ p' = .waking c)
    (hb : s'.mailbox.stack = .blocked ↔ p' = .asleep) (hc : s'.mailbox.stack ≠ .closed)
    (hrest : p'.resting = true → s'.first = [] ∧ s'.mailbox.head = [])
    (hp : s'.first = s.first) : InPhase cfg s' p' := by
  refine ⟨hl, hj, fun w => ?_, hs, hb, hrest, fun w he => absurd he (hr' w),
    fun hcl => absurd hcl hc, fun ht => absurd ht ht', fun hplain => ?_⟩
  · rw [hw, h.running]
    exact iff_of_false (hr w) (hr' w)
  · rw [hp]
    exact h.plain hplain

/-- An enqueue keeps the state orderly: only the sender that finds the mailbox blocked wakes. -/
theorem enqueue (h : InPhase cfg s p) (hl : Logged s) {c : Nat} {x : α}
    (hs : s.enqueue c x = some s') : Orderly cfg s' := by
  unfold Schedule.enqueue Mailbox.enqueue at hs
  split at hs
  · next hidle =>
    have hc : s.senders c ≠ .waking := by rw [hidle]; simp
    cases hst : s.mailbox.stack with
    | closed =>
      rw [hst] at hs
      cases hs
      refine orderly_of (h.senders hc (by simp) Iff.rfl Iff.rfl) (hl.snoc rfl ?_ ?_)
      · rw [hst]
        rfl
      · rw [hst]
        rfl
    | elements xs =>
      rw [hst] at hs
      cases hs
      refine orderly_of (h.senders hc (by simp) ?_ ?_) (hl.snoc rfl ?_ ?_)
      · rw [hst]
        simp
      · rw [hst]
        simp
      · rw [hst]
        rfl
      · rw [hst]
        rfl
    | blocked =>
      rw [hst] at hs
      cases hs
      obtain rfl := h.asleep.mp hst
      refine orderly_of (p := .waking c) ?_ (hl.snoc rfl ?_ ?_)
      · -- the sender that found the reader blocked is the only one that is to wake the actor
        refine h.hands (by simp) (by simp) (by simp) ?_ h.jobs rfl (fun c' => ?_) (by simp)
          (by simp)
          (by simp [Phase.resting]) rfl
        · exact h.launching.trans (iff_of_false (by simp) (by simp))
        · show Function.update s.senders c .waking c' = .waking ↔ _
          by_cases hcc : c' = c
          · subst hcc
            rw [Function.update_self]
            exact iff_of_true rfl rfl
          · rw [Function.update_of_ne hcc, h.waking]
            exact iff_of_false (by simp) (by simpa using fun he => hcc he.symm)
      · rw [hst]
        rfl
      · rw [hst]
        rfl
  · cases hs

/-- Waking the actor makes it a job of the scheduler. -/
theorem wake (h : InPhase cfg s p) (hl : Logged s) {c : Nat} (hs : s.wake c = some s') :
    Orderly cfg s' := by
  unfold Schedule.wake at hs
  split at hs
  · next hwaking =>
    cases hs
    obtain rfl := (h.waking c).mp hwaking
    refine orderly_of (p := .scheduled) ?_ (hl.same rfl rfl)
    refine h.hands (by simp) (by simp) (by simp) ?_ ?_ rfl (fun c' => ?_) ?_
      (h.not_closed (by simp) (by simp)) (by simp [Phase.resting]) rfl
    · exact h.launching.trans (iff_of_false (by simp) (by simp))
    · show s.jobs + 1 = 1
      rw [h.jobs]
      rfl
    · refine iff_of_false ?_ (by simp)
      show Function.update s.senders c _ c' ≠ .waking
      by_cases hcc : c' = c
      · subst hcc
        rw [Function.update_self]
        simp
      · rw [Function.update_of_ne hcc, ne_eq, h.waking]
        simpa using fun he => hcc he.symm
    · exact h.asleep.trans (iff_of_false (by simp) (by simp))
  · cases hs

/-- Launching makes the actor a job, or leaves it asleep with an empty mailbox. -/
theorem launch (h : InPhase cfg s p) (hl : Logged s) {lazyInit : Bool}
    (hs : s.doLaunch lazyInit = some s') : Orderly cfg s' := by
  unfold Schedule.doLaunch at hs
  cases hst : s.launch with
  | launched =>
    rw [hst] at hs
    cases hs
  | waking =>
    rw [hst] at hs
    cases hs
    obtain rfl := h.launching.mp (by rw [hst]; simp)
    refine orderly_of (p := .scheduled) ?_ (hl.same rfl rfl)
    refine h.hands (by simp) (by simp) (by simp) (by simp) ?_ rfl (fun c' => ?_) ?_
      (h.not_closed (by simp) (by simp)) (by simp [Phase.resting]) rfl
    · show s.jobs + 1 = 1
      rw [h.jobs]
      rfl
    · exact (h.waking c').trans (iff_of_false (by simp) (by simp))
    · exact h.asleep.trans (iff_of_false (by simp) (by simp))
  | starting =>
    rw [hst] at hs
    obtain rfl := h.launching.mp (by rw [hst]; simp)
    have hrest := h.resting rfl
    have hwaiting : Orderly cfg { s with launch := .waking } := by
      refine orderly_of (p := .launching) ?_ (hl.same rfl rfl)
      exact h.hands (by simp) (by simp) (by simp) (by simp) h.jobs rfl h.waking h.asleep
        (h.not_closed (by simp) (by simp)) (fun _ => hrest) rfl
    unfold Mailbox.tryBlock at hs
    cases hxs : s.mailbox.stack with
    | closed => exact absurd hxs (h.not_closed (by simp) (by simp))
    | blocked => cases h.asleep.mp hxs
    | elements xs =>
      rw [hxs] at hs
      cases lazyInit with
      | false =>
        cases hs
        exact hwaiting
      -- a lazy launch may find the mailbox empty and block it
      | true =>
        cases xs with
        | nil =>
          cases hs
          refine orderly_of (p := .asleep) ?_ (hl.snoc rfl ⟨by rw [hxs]; rfl, ?_⟩ ?_)
          · refine h.hands (by simp) (by simp) (by simp) (by simp) h.jobs rfl (fun c' => ?_)
              (by simp)
              (by simp) (fun _ => hrest) rfl
            exact (h.waking c').trans (iff_of_false (by simp) (by simp))
          · simp [Schedule.unread, Mailbox.unread, hrest.1, hrest.2, hxs]
          · rw [hxs]
            rfl
        | cons x xs =>
          cases hs
          exact hwaiting

/-- Taking the job makes its worker the running one. -/
theorem dequeue (h : InPhase cfg s p) (hl : Logged s) {w : Nat} (hs : s.dequeue w = some s') :
    Orderly cfg s' := by
  unfold Schedule.dequeue at hs
  split at hs
  · next hidle =>
    split at hs
    · next hjobs =>
      cases hs
      -- there is a job, so the actor is scheduled
      have hp : p = .scheduled := by
        by_contra hne
        rw [h.jobs, if_neg hne] at hjobs
        cases hjobs
      subst hp
      have hone : s.jobs = 1 := h.jobs
      refine orderly_of (p := .running w) ?_ (hl.same rfl rfl)
      refine ⟨?_, ?_, fun w' => ?_, fun c => ?_, ?_, by simp [Phase.resting], fun w' he => ?_, ?_,
        by simp, h.plain⟩
      · exact h.launching.trans (iff_of_false (by simp) (by simp))
      · show s.jobs - 1 = 0
        rw [hone]
      · show (Function.update s.workers w .entry w').active = true ↔ _
        by_cases hww : w' = w
        · subst hww
          rw [Function.update_self]
          exact iff_of_true rfl rfl
        · rw [Function.update_of_ne hww, h.running]
          exact iff_of_false (by simp) (by simpa using fun he => hww he.symm)
      · exact (h.waking c).trans (iff_of_false (by simp) (by simp))
      · exact h.asleep.trans (iff_of_false (by simp) (by simp))
      · cases he
        show (Function.update s.workers w .entry w).Knows cfg _
        rw [Function.update_self]
        trivial
      · exact fun hc => absurd hc (h.not_closed (by simp) (by simp))
    · cases hs
  · cases hs

end InPhase

/-- Every step leads to a phase again. -/
theorem Orderly.step (h : Orderly cfg s) {i : Schedule.Input α} (hs : s.step cfg i = some s') :
    Orderly cfg s' := by
  obtain ⟨⟨p, hp⟩, hl⟩ := h
  cases i with
  | enqueue c x => exact hp.enqueue hl hs
  | wake c => exact hp.wake hl hs
  | launch lazyInit => exact hp.launch hl hs
  | dequeue w => exact hp.dequeue hl hs
  | work w ch => exact hp.work hl hs

/-- Every reachable state is orderly. -/
theorem orderly_of_reachable (h : Schedule.Reachable cfg s) : Orderly cfg s := by
  refine h.invariant (I := Orderly cfg) ?_ fun _ _ _ hi _ hs => hi.step hs
  rintro _ rfl
  refine orderly_of (InPhase.initial cfg) ⟨fun before e after he => ?_, rfl⟩
  simp [Schedule.initial] at he

-- -------------------------
-- The protocol
-- -------------------------

/-- A worker runs the actor. -/
def Schedule.runs (s : Schedule α) (w : Nat) : Prop := (s.workers w).active = true

/-- The actor is in a job queue, or somebody is about to put it into one. -/
def Schedule.isScheduled (s : Schedule α) : Prop :=
  0 < s.jobs ∨ (∃ c, s.senders c = .waking) ∨ s.launch ≠ .launched

/-- **No lost wakeup and no double scheduling.** In every interleaving of senders and
workers:

* whenever the mailbox is blocked no message is unread, and of the calls of `enqueue` that
  follow exactly the first one sees `unblocked_reader`;
* the actor is at most once in the job queues, at most one worker runs it, and not while it
  is scheduled;
* if it is neither running nor scheduled, no message is unread. -/
theorem actor_scheduled_once (h : Schedule.Reachable cfg s) :
    WellLogged s.log ∧
    s.jobs ≤ 1 ∧ (∀ w w', s.runs w → s.runs w' → w = w') ∧ (∀ w, s.runs w → ¬ s.isScheduled) ∧
    (∀ c c', s.senders c = .waking → s.senders c' = .waking → c = c' ∧ s.jobs = 0) ∧
    ((∀ w, ¬ s.runs w) → ¬ s.isScheduled → s.unread = []) := by
  obtain ⟨⟨p, hp⟩, hl⟩ := orderly_of_reachable h
  refine ⟨hl.good, ?_, fun w w' hw hw' => ?_, fun w hw hsched => ?_, fun c c' hc hc' => ?_,
    fun hidle hsched => ?_⟩
  · rw [hp.jobs]
    split <;> omega
  · have hpw := (hp.running w).mp hw
    have hpw' := (hp.running w').mp hw'
    rw [hpw] at hpw'
    cases hpw'
    rfl
  · obtain rfl := (hp.running w).mp hw
    rcases hsched with hj | ⟨c, hc⟩ | hlaunch
    · rw [hp.jobs] at hj
      cases hj
    · cases (hp.waking c).mp hc
    · cases hp.launching.mp hlaunch
  · have hpc := (hp.waking c).mp hc
    have hpc' := (hp.waking c').mp hc'
    rw [hpc] at hpc'
    cases hpc'
    refine ⟨rfl, ?_⟩
    rw [hp.jobs, hpc]
    rfl
  · simp only [Schedule.isScheduled, not_or, not_exists] at hsched
    obtain ⟨hjobs, hwaking, hlaunch⟩ := hsched
    -- an actor that no one runs, wakes or launches is scheduled, asleep or terminated
    cases p with
    | running w => exact absurd ((hp.running w).mpr rfl) (hidle w)
    | waking c => exact absurd ((hp.waking c).mpr rfl) (hwaking c)
    | launching => exact absurd (hp.launching.mpr rfl) hlaunch
    | scheduled =>
      rw [hp.jobs] at hjobs
      exact absurd Nat.one_pos hjobs
    | asleep =>
      obtain ⟨hf, hh⟩ := hp.resting rfl
      simp [Schedule.unread, Mailbox.unread, hf, hh, hp.asleep.mpr rfl]
    | terminated =>
      obtain ⟨hf, hh, -⟩ := hp.closed (hp.terminated rfl)
      simp [Schedule.unread, Mailbox.unread, hf, hh, hp.terminated rfl]

/-- A launched actor blocks; of two senders the first wakes it up, and another worker runs
it before the first one has returned from its job. -/
theorem actor_scheduled_once_woken : ∃ s : Schedule Nat,
    Schedule.Reachable ⟨false, 5, fun _ => false⟩ s ∧
    s.log = [.blocked [], .enqueued .unblockedReader, .enqueued .success] ∧
    s.workers 0 = .returned .awaitingMessage ∧ s.runs 1 ∧ ¬ s.isScheduled := by
  let ch : Choice := ⟨.success, false⟩
  obtain ⟨s, hrun, hcheck⟩ := exists_run (Schedule.step ⟨false, 5, fun _ => false⟩)
    (Schedule.initial (α := Nat))
    [.launch false, .launch false, .dequeue 0, .work 0 ch, .work 0 ch, .work 0 ch, .enqueue 3 70,
      .enqueue 4 80, .wake 3, .dequeue 1, .work 1 ch, .work 1 ch]
    (fun s => s.log = [.blocked [], .enqueued .unblockedReader, .enqueued .success] ∧
      s.workers 0 = .returned .awaitingMessage ∧ s.workers 1 = .invoke 0 70)
    (by decide +kernel)
  rw [decide_eq_true_iff] at hcheck
  obtain ⟨hlog, h0, h1⟩ := hcheck
  have hreach : Schedule.Reachable ⟨false, 5, fun _ => false⟩ s := reach_of_run (.init rfl) hrun
  have hruns : s.runs 1 := by rw [Schedule.runs, h1]; rfl
  exact ⟨s, hreach, hlog, h0, hruns, (actor_scheduled_once hreach).2.2.2.1 1 hruns⟩

end BoostActor
