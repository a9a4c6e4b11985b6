import BoostActor.Core.Binary
import BoostActor.Core.SynchronizedQueue

/-!
# The logger

Any number of threads pass lines to the logger (`logging.cpp`), and a thread of its own takes them
from a queue and writes them to a file until it finds an empty line, which `stop` puts there.

* `Inv.step` — where the lines are;
* `logger_reach` — the lines are written in the order in which they came, up to the first empty one,
  and the thread does not stop before or wait for anything after that.
-/

namespace BoostActor

open Lib

-- -------------------------
-- The code
-- -------------------------

/-- Where the thread of the logger is. -/
inductive LoggerThread where
  /-- in `synchronized_await`, or about to call it or `try_pop` -/
  | reading
  /-- with an event -/
  | writing (msg : Bytes)
  | ended
deriving DecidableEq, Repr

structure Logger where
  queue : SynchronizedQueue Bytes
  thread : LoggerThread
  /-- the lines that have been written to the file -/
  out : List Bytes

/-- What happens next. -/
inductive LoggerAction where
  /-- thread `i` calls `log`; the line ends with a newline -/
  | log (i : Nat) (line : Bytes)
  /-- thread `i` calls `stop`, which has logged its last line -/
  | stop (i : Nat)
  /-- the next step of a call of `synchronized_enqueue` -/
  | notify (i : Nat)
  /-- the thread of the logger calls `synchronized_await` -/
  | await
  /-- its next step in there -/
  | run
  | spuriousWakeup
  | tryPop
  | write
deriving DecidableEq, Repr

namespace Logger

/-- The logger has been created with its thread. -/
def isInitial (s : Logger) : Prop := s.queue.isInitial ∧ s.thread = .reading ∧ s.out = []

/-- A step of the queue. -/
def onQueue (s : Logger) (a : SynchronizedAction Bytes) : Option (Except Fault Logger) :=
  (s.queue.step a).map fun queue => .ok { s with queue }

def exec (s : Logger) : LoggerAction → Option (Except Fault Logger)
  | .log i line => s.onQueue (.enqueue i (line ++ [10]))
  | .stop i => s.onQueue (.enqueue i [])
  | .notify i => s.onQueue (.notify i)
  | .await =>
    if s.thread = .reading ∧ s.queue.reader = .idle then s.onQueue (.await false) else none
  | .run => s.onQueue .run
  | .spuriousWakeup => s.onQueue .spuriousWakeup
  | .tryPop =>
    if s.thread = .reading ∧ s.queue.reader.result.isSome then
      match s.queue.mailbox.tryPop.1 with
      | some msg => (s.queue.step .tryPop).map fun queue =>
        .ok { s with queue, thread := .writing msg }
      | none => some (.error (.undefined "assertion failed"))
    else none
  | .write =>
    match s.thread with
    | .writing msg =>
      if msg.isEmpty then some (.ok { s with thread := .ended })
      else some (.ok { s with thread := .reading, out := s.out ++ [msg] })
    | _ => none

def step (s : Logger) (a : LoggerAction) : Option Logger := (s.exec a).bind Except.toOption

-- -------------------------
-- What every step preserves
-- -------------------------

/-- Where a reader is that waits without a timeout and never closes the queue. -/
def untimed : AwaitingReader → Bool
  | .idle => true
  | .checking timed => !timed
  | .blocking timed => !timed
  | .locking timed => !timed
  | .testing timed => !timed
  | .falling timed => !timed
  | .waiting timed => !timed
  | .leaving result => result
  | .returned result => result
  | _ => false

/-- What the thread has taken from the queue. -/
def taken (s : Logger) : List Bytes :=
  s.out ++ match s.thread with
    | .reading => []
    | .writing msg => [msg]
    | .ended => [[]]

-- -------------------------
-- Steps
-- -------------------------

/-- What holds between two steps. -/
structure Inv (s : Logger) : Prop where
  queue : s.queue.Inv
  untimed : untimed s.queue.reader = true
  idle : s.thread ≠ .reading → s.queue.reader = .idle
  popped : s.queue.popped = s.taken
  lines : ∀ msg ∈ s.out, msg ≠ []

variable {s s' : Logger} {q q' : SynchronizedQueue Bytes}

/-- The writers do not move the reader, except that they wake it up. -/
theorem writer_step {a : SynchronizedAction Bytes}
    (ha : (∃ i x, a = .enqueue i x) ∨ ∃ i, a = .notify i) (hs : q.step a = some q') :
    q'.popped = q.popped ∧ (q'.reader = q.reader ∨
      ∃ timed, q.reader = .waiting timed ∧ q'.reader = .locking timed) := by
  rcases ha with ⟨i, x, rfl⟩ | ⟨i, rfl⟩
  · rw [SynchronizedQueue.step] at hs
    split at hs <;> cases hs <;> exact ⟨rfl, .inl rfl⟩
  · rw [SynchronizedQueue.step] at hs
    split at hs
    · split_ifs at hs
      cases hs
      exact ⟨rfl, .inl rfl⟩
    · cases hs
      refine ⟨rfl, ?_⟩
      dsimp only
      split
      · next timed hr => exact .inr ⟨timed, hr, rfl⟩
      · exact .inl rfl
    · cases hs

/-- The reader goes on without a timeout. -/
theorem reader_step {a : SynchronizedAction Bytes} (ha : a = .run ∨ a = .spuriousWakeup)
    (hu : untimed q.reader = true) (hs : q.step a = some q') :
    q'.popped = q.popped ∧ untimed q'.reader = true ∧ q.reader ≠ .idle := by
  rcases ha with rfl | rfl
  · replace hs : q.run = some q' := hs
    rw [SynchronizedQueue.run] at hs
    cases hr : q.reader with
    -- the first test of `synchronized_await`
    | checking timed =>
      rw [hr] at hs hu
      dsimp only at hs
      split_ifs at hs <;> cases hs
      · exact ⟨rfl, rfl, by simp⟩
      · exact ⟨rfl, hu, by simp⟩
    | testing timed =>
      rw [hr] at hs hu
      dsimp only at hs
      split_ifs at hs <;> cases hs
      · exact ⟨rfl, hu, by simp⟩
      · exact ⟨rfl, rfl, by simp⟩
    -- the mailbox is blocked, unless an element has come
    | blocking timed =>
      rw [hr] at hs hu
      dsimp only at hs
      split at hs <;> cases hs
      · exact ⟨rfl, hu, by simp⟩
      · exact ⟨rfl, rfl, by simp⟩
    | locking timed =>
      rw [hr] at hs hu
      dsimp only at hs
      split_ifs at hs
      cases hs
      exact ⟨rfl, hu, by simp⟩
    | falling timed | leaving result =>
      rw [hr] at hs hu
      cases hs
      exact ⟨rfl, hu, by simp⟩
    -- the calls of the logger have no timeout
    | timedOut | unblocking =>
      rw [hr] at hu
      cases hu
    | idle | waiting | returned | closed =>
      rw [hr] at hs
      cases hs
  · rw [SynchronizedQueue.step] at hs
    split at hs <;> cases hs
    next timed hr =>
    rw [hr] at hu
    exact ⟨rfl, hu, by simp [hr]⟩

/-- A step of a thread that logs something. -/
theorem Inv.writer (h : Inv s) {a : SynchronizedAction Bytes}
    (ha : (∃ i x, a = .enqueue i x) ∨ ∃ i, a = .notify i) (hs : s.queue.step a = some q') :
    Inv { s with queue := q' } := by
  obtain ⟨hpopped, hreader⟩ := writer_step ha hs
  refine ⟨h.queue.step hs, ?_, fun hr => ?_, hpopped.trans h.popped, h.lines⟩
  · rcases hreader with hsame | ⟨timed, hw, hl⟩
    · dsimp only
      rw [hsame]
      exact h.untimed
    · have hu := h.untimed
      rw [hw] at hu
      dsimp only
      rw [hl]
      exact hu
  · rcases hreader with hsame | ⟨timed, hw, -⟩
    · exact hsame.trans (h.idle hr)
    · have hidle := h.idle hr
      rw [hw] at hidle
      cases hidle

/-- A step of the logger's thread inside of `synchronized_await`. -/
theorem Inv.reader (h : Inv s) {a : SynchronizedAction Bytes} (ha : a = .run ∨ a = .spuriousWakeup)
    (hs : s.queue.step a = some q') : Inv { s with queue := q' } := by
  obtain ⟨hpopped, huntimed, hne⟩ := reader_step ha h.untimed hs
  exact ⟨h.queue.step hs, huntimed, fun hr => absurd (h.idle hr) hne, hpopped.trans h.popped,
    h.lines⟩

/-- Every step keeps the invariant. -/
theorem Inv.step (h : Inv s) {a : LoggerAction} (hs : s.step a = some s') : Inv s' := by
  obtain ⟨out, hexec, hout⟩ := Option.bind_eq_some_iff.mp hs
  have honQueue : ∀ {a : SynchronizedAction Bytes}, s.onQueue a = some out →
      ∃ q', s.queue.step a = some q' ∧ s' = { s with queue := q' } := by
    intro a ha
    obtain ⟨q', hq, rfl⟩ := Option.map_eq_some_iff.mp ha
    cases hout
    exact ⟨q', hq, rfl⟩
  cases a with
  | log i line =>
    obtain ⟨q', hq, rfl⟩ := honQueue hexec
    exact h.writer (.inl ⟨i, _, rfl⟩) hq
  | stop i =>
    obtain ⟨q', hq, rfl⟩ := honQueue hexec
    exact h.writer (.inl ⟨i, _, rfl⟩) hq
  | notify i =>
    obtain ⟨q', hq, rfl⟩ := honQueue hexec
    exact h.writer (.inr ⟨i, rfl⟩) hq
  | await =>
    rw [exec] at hexec
    split_ifs at hexec with hcond
    obtain ⟨q', hq, rfl⟩ := honQueue hexec
    have hinv := h.queue.step hq
    rw [SynchronizedQueue.step, hcond.2] at hq
    cases hq
    exact ⟨hinv, rfl, fun hne => absurd hcond.1 hne, h.popped, h.lines⟩
  | run =>
    obtain ⟨q', hq, rfl⟩ := honQueue hexec
    exact h.reader (.inl rfl) hq
  | spuriousWakeup =>
    obtain ⟨q', hq, rfl⟩ := honQueue hexec
    exact h.reader (.inr rfl) hq
  | tryPop =>
    rw [exec] at hexec
    split_ifs at hexec with hcond
    split at hexec
    · -- the element that was taken is the one that is written next
      next msg hpop =>
      obtain ⟨q', hq, rfl⟩ := Option.map_eq_some_iff.mp hexec
      cases hout
      have hinv := h.queue.step hq
      rw [SynchronizedQueue.step] at hq
      split_ifs at hq
      cases hq
      refine ⟨hinv, rfl, fun _ => rfl, ?_, h.lines⟩
      have htaken := h.popped
      rw [taken, hcond.1, List.append_nil] at htaken
      dsimp only [taken]
      rw [hpop, htaken]
      rfl
    · cases hexec
      cases hout
  | write =>
    rw [exec] at hexec
    split at hexec
    · next msg ht =>
      have hidle := h.idle (by rw [ht]; simp)
      have htaken := h.popped
      rw [taken, ht] at htaken
      -- the empty line ends the thread
      split_ifs at hexec with hempty
      · cases hexec
        cases hout
        rw [List.isEmpty_iff.mp hempty] at htaken
        exact ⟨h.queue, h.untimed, fun _ => hidle, htaken, h.lines⟩
      · cases hexec
        cases hout
        -- the line is written behind the others
        refine ⟨h.queue, h.untimed, fun _ => hidle, ?_, fun line hline => ?_⟩
        · dsimp only [taken]
          rw [List.append_nil]
          exact htaken
        · rcases List.mem_append.mp hline with hold | hnew
          · exact h.lines line hold
          · obtain rfl := List.mem_singleton.mp hnew
            exact fun hnil => hempty (List.isEmpty_iff.mpr hnil)
    · cases hexec

/-- The invariant holds in the beginning. -/
theorem Inv.init (h : s.isInitial) : Inv s := by
  obtain ⟨hqueue, hthread, hout⟩ := h
  refine ⟨.init hqueue, ?_, fun hne => absurd hthread hne, ?_, fun msg hmsg => ?_⟩
  · rw [hqueue.2.1]
    rfl
  · rw [hqueue.2.2.2.2.1, taken, hthread, hout]
    rfl
  · rw [hout] at hmsg
    cases hmsg

-- -------------------------
-- What is written
-- -------------------------

/-- The lines up to the first empty one. -/
def untilEmpty (lines : List Bytes) : List Bytes := lines.takeWhile fun line => !line.isEmpty

/-- Lines that are not empty are all written. -/
theorem untilEmpty_append {lines : List Bytes} (h : ∀ line ∈ lines, line ≠ [])
    (rest : List Bytes) : untilEmpty (lines ++ rest) = lines ++ untilEmpty rest := by
  refine List.takeWhile_append_of_pos fun line hline => ?_
  rw [Bool.not_eq_true', List.isEmpty_eq_false_iff]
  exact h line hline

/-- Taken lines and unread ones are the accepted ones. -/
theorem Inv.accepted (h : Inv s) : s.taken ++ s.queue.mailbox.unread = s.queue.accepted := by
  have horder := h.queue.order
  have hopen : s.queue.reader ≠ .closed := by
    intro hc
    have hu := h.untimed
    rw [hc] at hu
    cases hu
  rw [h.queue.isOpen hopen, List.append_nil, h.popped] at horder
  exact horder

/-- The next step of the logger's thread. -/
def advances (s : Logger) : Prop :=
  (s.step .await).isSome ∨ (s.step .run).isSome ∨ (s.step .tryPop).isSome ∨
    (s.step .write).isSome ∨ ∃ i, (s.step (.notify i)).isSome

/-- What the threads can rely on. -/
structure Written (s : Logger) : Prop where
  /-- the lines are written in the order in which they came, without the first empty one -/
  inOrder : s.out <+: untilEmpty s.queue.accepted
  /-- when the thread ends, all of them have been written -/
  ended : s.thread = .ended → s.out = untilEmpty s.queue.accepted
  /-- it does not wait for anything once `stop` has been called -/
  stops : [] ∈ s.queue.accepted → s.thread ≠ .ended → s.advances
  /-- or as long as there is a line to be written -/
  writes : s.out ≠ untilEmpty s.queue.accepted → s.thread ≠ .ended → s.advances
  /-- `assert(event != nullptr)` -/
  faultless : ∀ a f, s.exec a ≠ some (.error f)

/-- What is possible for the queue is possible for the logger. -/
theorem step_onQueue {s : Logger} {a : LoggerAction} {b : SynchronizedAction Bytes}
    (ha : s.exec a = s.onQueue b) (hb : (s.queue.step b).isSome = true) :
    (s.step a).isSome = true := by
  obtain ⟨q', hq⟩ := Option.isSome_iff_exists.mp hb
  rw [Logger.step, ha, onQueue, hq]
  rfl

/-- Somebody goes on if somebody has the mutex. -/
theorem advances_of_locked (h : s.queue.free = false) : s.advances := by
  rcases SynchronizedQueue.goesOn_of_locked h with hrun | ⟨i, -, hnotify⟩
  · exact .inr (.inl (step_onQueue rfl hrun))
  · exact .inr (.inr (.inr (.inr ⟨i, step_onQueue rfl hnotify⟩)))

/-- As long as there are lines, some thread can go on. -/
theorem Inv.advances_of_unread (h : Inv s) (hthread : s.thread = .reading)
    (hunread : s.queue.mailbox.unread ≠ []) : s.advances := by
  by_cases hlocked : s.queue.free = false
  · exact advances_of_locked hlocked
  rw [Bool.not_eq_false] at hlocked
  have hu := h.untimed
  have hruns : s.queue.run.isSome = true → s.advances := fun hrun =>
    .inr (.inl (step_onQueue rfl hrun))
  cases hr : s.queue.reader with
  | idle =>
    refine .inl ?_
    rw [Logger.step, exec, if_pos ⟨hthread, hr⟩, onQueue, SynchronizedQueue.step, hr]
    rfl
  | checking timed =>
    refine hruns ?_
    rw [SynchronizedQueue.run, hr]
    dsimp only
    split <;> rfl
  | blocking timed =>
    refine hruns ?_
    rw [SynchronizedQueue.run, hr]
    dsimp only
    split <;> rfl
  | locking timed =>
    refine hruns ?_
    rw [SynchronizedQueue.run, hr]
    dsimp only
    rw [if_pos hlocked]
    rfl
  | testing timed | falling timed | leaving result =>
    -- the reader would have the mutex
    have hfree := (SynchronizedQueue.countP_locks_of_free hlocked).1
    rw [hr] at hfree
    cases hfree
  -- the reader waits, so that a writer is about to notify it
  | waiting timed =>
    obtain ⟨i, w, -, -, hnotify⟩ := h.queue.notMissed (by rw [hr]; rfl) hunread
    exact .inr (.inr (.inr (.inr ⟨i, step_onQueue rfl (hnotify hlocked)⟩)))
  | returned result =>
    cases hpop : s.queue.mailbox.tryPop with
    | mk x m =>
      cases x with
      -- the call has returned, so there is a line to take
      | none => exact absurd (Mailbox.unread_of_tryPop_none hpop) hunread
      | some msg =>
        refine .inr (.inr (.inl ?_))
        rw [Logger.step, exec, if_pos ⟨hthread, by rw [hr]; rfl⟩, hpop, SynchronizedQueue.step, hr]
        rfl
  | timedOut | unblocking | closed =>
    rw [hr] at hu
    cases hu

/-- There is nothing to do only if there is nothing to read. -/
theorem Inv.advances (h : Inv s) (hended : s.thread ≠ .ended)
    (hread : s.thread = .reading → s.queue.mailbox.unread ≠ []) : s.advances := by
  cases hthread : s.thread with
  | reading => exact h.advances_of_unread hthread (hread hthread)
  | writing msg =>
    refine .inr (.inr (.inr (.inl ?_)))
    rw [Logger.step, exec, hthread]
    dsimp only
    split <;> rfl
  | ended => exact absurd hthread hended

/-- No step fails. -/
theorem Inv.faultless (h : Inv s) (a : LoggerAction) (f : Fault) : s.exec a ≠ some (.error f) := by
  have honQueue : ∀ b : SynchronizedAction Bytes, s.onQueue b ≠ some (.error f) := by
    intro b hb
    obtain ⟨q', -, hq⟩ := Option.map_eq_some_iff.mp hb
    cases hq
  intro hexec
  cases a with
  | log i line => exact honQueue _ hexec
  | stop i => exact honQueue _ hexec
  | notify i => exact honQueue _ hexec
  | run => exact honQueue _ hexec
  | spuriousWakeup => exact honQueue _ hexec
  | await =>
    rw [exec] at hexec
    split_ifs at hexec
    exact honQueue _ hexec
  | tryPop =>
    rw [exec] at hexec
    split_ifs at hexec with hcond
    split at hexec
    · obtain ⟨q', -, hq⟩ := Option.map_eq_some_iff.mp hexec
      cases hq
    · next hnone =>
      -- a call without a timeout returns true
      have hresult : s.queue.reader.result = some true := by
        have hu := h.untimed
        have hsome := hcond.2
        revert hu hsome
        cases s.queue.reader <;> simp [Logger.untimed, AwaitingReader.result]
      cases hpop : s.queue.mailbox.tryPop with
      | mk x m =>
        rw [hpop] at hnone
        obtain rfl : x = none := hnone
        exact h.queue.result hresult (Mailbox.unread_of_tryPop_none hpop)
  | write =>
    rw [exec] at hexec
    split at hexec
    · split_ifs at hexec <;> cases hexec
    · cases hexec

/-- What the invariant says about the lines. -/
theorem Inv.written (h : Inv s) : Written s := by
  have haccepted := h.accepted
  have houts := untilEmpty_append h.lines
  refine ⟨?_, fun hthread => ?_, fun hstop hended => ?_, fun hne hended => ?_, h.faultless⟩
  · rw [← haccepted, taken, List.append_assoc, houts]
    exact List.prefix_append _ _
  · rw [← haccepted, taken, hthread, List.append_assoc, houts]
    exact (List.append_nil _).symm
  · refine h.advances hended fun hthread hnil => ?_
    -- the empty line has not been taken from the queue
    rw [← haccepted, taken, hthread, hnil, List.append_nil, List.append_nil] at hstop
    exact h.lines [] hstop rfl
  · refine h.advances hended fun hthread hnil => hne ?_
    have hall := houts []
    rw [List.append_nil] at hall
    rw [← haccepted, taken, hthread, hnil, List.append_nil, List.append_nil, hall]
    exact (List.append_nil _).symm

/-- For any number of threads that log, in every interleaving. -/
theorem logger_reach (hreach : Reach isInitial step anyStep s) : Written s :=
  (hreach.invariant (fun _ h => Inv.init h) fun _ _ _ h _ hs => h.step hs).written

/-- A line that comes after the call of `stop` is not written. -/
theorem logger_stopped : ∃ s : Logger, s.thread = .ended ∧
    s.queue.accepted = [[72, 10], [], [73, 10]] ∧ s.out = untilEmpty s.queue.accepted := by
  have hreach : Reach isInitial step anyStep
      ⟨⟨.initial, .idle, [.idle, .idle], [], [], []⟩, .reading, []⟩ :=
    .init ⟨⟨rfl, rfl, by decide, rfl, rfl, rfl⟩, rfl, rfl⟩
  exact ⟨_, rfl, rfl, (logger_reach (reach_of_run hreach (rfl : runAll _ _ [.await, .run, .run,
    .run, .run, .log 0 [72], .stop 1, .log 1 [73], .run, .notify 0, .notify 0, .run, .run, .run,
    .tryPop, .write, .await, .run, .tryPop, .write] = some _))).ended rfl⟩

end Logger

end BoostActor
