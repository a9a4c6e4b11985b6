import BoostActor.Core.Mailbox
import BoostActor.Lib.Threads

/-!
# Waiting for a mailbox

A thread of its own reads the mailbox of a detached or blocking actor and the queue of the logger.
When there is nothing to read it blocks the queue and waits on a condition variable
(`synchronized_await`), with or without a timeout. A writer that finds the queue blocked locks the
mutex and notifies the reader (`synchronized_enqueue`).

The operations of the mailbox are atomic, as are those of the mutex and of the condition variable;
between any two of them anything can happen. A thread may wake up for no reason, and a timeout may
come at any time.

* `Inv.step` — what every step preserves;
* `synchronizedQueue_reach` — no element is lost, the reader has something to read when
  `synchronized_await` returns true, and it does not sleep while there is something to read unless
  a writer is about to wake it up.
-/

namespace BoostActor

open Lib

variable {α : Type}

-- -------------------------
-- The code
-- -------------------------

/-- Where the reader is. -/
inductive AwaitingReader where
  | idle
  /-- about to ask whether there is more to fetch -/
  | checking (timed : Bool)
  /-- about to block the queue -/
  | blocking (timed : Bool)
  /-- about to lock the mutex -/
  | locking (timed : Bool)
  /-- with the mutex, about to look whether the queue is still blocked -/
  | testing (timed : Bool)
  /-- with the mutex, about to wait -/
  | falling (timed : Bool)
  | waiting (timed : Bool)
  /-- `wait_until` has timed out and is about to lock the mutex -/
  | timedOut
  /-- with the mutex, about to unblock the queue -/
  | unblocking
  /-- with the mutex, about to return -/
  | leaving (result : Bool)
  | returned (result : Bool)
  | closed
deriving DecidableEq, Repr

/-- Where a writer is. -/
inductive SynchronizedWriter where
  | idle
  /-- it has unblocked the queue and is about to lock the mutex -/
  | locking
  /-- with the mutex, about to notify the reader -/
  | notifying
deriving DecidableEq, Repr

/-- The queue and its threads. The last three lists are for the record. -/
structure SynchronizedQueue (α : Type) where
  mailbox : Mailbox α
  reader : AwaitingReader
  writers : List SynchronizedWriter
  /-- the elements for which `synchronized_enqueue` returns true -/
  accepted : List α
  popped : List α
  /-- what was left when the queue was closed -/
  dropped : List α

/-- What happens next. -/
inductive SynchronizedAction (α : Type) where
  /-- writer `i` calls `synchronized_enqueue` and has put its element into the queue -/
  | enqueue (i : Nat) (x : α)
  /-- the next step of writer `i` -/
  | notify (i : Nat)
  /-- the reader calls `synchronized_await` -/
  | await (timed : Bool)
  | tryPop
  | close
  /-- the next step of the reader inside of `synchronized_await` -/
  | run
  | spuriousWakeup
  | timeout
deriving DecidableEq, Repr

namespace AwaitingReader

/-- The reader has the mutex. -/
def locks : AwaitingReader → Bool
  | .testing _ => true
  | .falling _ => true
  | .unblocking => true
  | .leaving _ => true
  | _ => false

/-- The reader has blocked the queue and does not know that it has been unblocked. -/
def blocks : AwaitingReader → Bool
  | .locking _ => true
  | .testing _ => true
  | .falling _ => true
  | .waiting _ => true
  | .timedOut => true
  | .unblocking => true
  | _ => false

/-- The reader sleeps or is about to. -/
def sleeps : AwaitingReader → Bool
  | .falling _ => true
  | .waiting _ => true
  | _ => false

/-- What `synchronized_await` returns. -/
def result : AwaitingReader → Option Bool
  | .leaving r => some r
  | .returned r => some r
  | _ => none

/-- The reader is not inside of `synchronized_await`. -/
def rests : AwaitingReader → Bool
  | .idle => true
  | .returned _ => true
  | _ => false

end AwaitingReader

/-- A writer that has the mutex. -/
def SynchronizedWriter.locks : SynchronizedWriter → Bool
  | .notifying => true
  | _ => false

/-- `blocked()`. -/
def Mailbox.blocked (m : Mailbox α) : Bool :=
  match m.stack with
  | .blocked => true
  | _ => false

namespace SynchronizedQueue

/-- A new queue. -/
def isInitial (s : SynchronizedQueue α) : Prop :=
  s.mailbox = .initial ∧ s.reader = .idle ∧ (∀ w ∈ s.writers, w = .idle) ∧ s.accepted = [] ∧
    s.popped = [] ∧ s.dropped = []

/-- Nobody has the mutex. -/
def free (s : SynchronizedQueue α) : Bool :=
  !s.reader.locks && s.writers.all fun w => !w.locks

/-- The next step of `synchronized_await`. -/
def run (s : SynchronizedQueue α) : Option (SynchronizedQueue α) :=
  match s.reader with
  | .checking timed =>
    if s.mailbox.canFetchMore then some { s with reader := .returned true }
    else some { s with reader := .blocking timed }
  | .blocking timed =>
    match s.mailbox.tryBlock with
    | (true, mailbox) => some { s with mailbox, reader := .locking timed }
    | (false, mailbox) => some { s with mailbox, reader := .returned true }
  | .locking timed => if s.free then some { s with reader := .testing timed } else none
  | .testing timed =>
    if s.mailbox.blocked then some { s with reader := .falling timed }
    else some { s with reader := .leaving true }
  | .falling timed => some { s with reader := .waiting timed }
  | .timedOut => if s.free then some { s with reader := .unblocking } else none
  | .unblocking =>
    match s.mailbox.tryUnblock with
    | (result, mailbox) => some { s with mailbox, reader := .leaving !result }
  | .leaving result => some { s with reader := .returned result }
  | _ => none

def step (s : SynchronizedQueue α) : SynchronizedAction α → Option (SynchronizedQueue α)
  | .enqueue i x =>
    match s.writers[i]?, s.mailbox.enqueue x with
    | some .idle, (.unblockedReader, mailbox) => some { s with
        mailbox, writers := s.writers.set i .locking, accepted := s.accepted ++ [x] }
    | some .idle, (.success, mailbox) => some { s with
        mailbox, accepted := s.accepted ++ [x] }
    | some .idle, (.queueClosed, _) => some s
    | _, _ => none
  | .notify i =>
    match s.writers[i]? with
    | some .locking =>
      if s.free then some { s with writers := s.writers.set i .notifying } else none
    | some .notifying => some { s with
        writers := s.writers.set i .idle
        reader := match s.reader with
          | .waiting timed => .locking timed
          | reader => reader }
    | _ => none
  | .await timed => if s.reader.rests then some { s with reader := .checking timed } else none
  | .tryPop =>
    if s.reader.rests then some { s with
      mailbox := s.mailbox.tryPop.2
      reader := .idle
      popped := s.popped ++ s.mailbox.tryPop.1.toList }
    else none
  | .close =>
    if s.reader.rests then some { s with
      mailbox := s.mailbox.close.2, reader := .closed, dropped := s.mailbox.close.1 }
    else none
  | .run => s.run
  | .spuriousWakeup =>
    match s.reader with
    | .waiting timed => some { s with reader := .locking timed }
    | _ => none
  | .timeout =>
    match s.reader with
    | .waiting true => some { s with reader := .timedOut }
    | _ => none

-- -------------------------
-- What every step preserves
-- -------------------------

/-- What holds between two steps. -/
structure Inv (s : SynchronizedQueue α) : Prop where
  order : s.popped ++ s.mailbox.unread ++ s.dropped = s.accepted
  mutex : (if s.reader.locks then 1 else 0) + s.writers.countP SynchronizedWriter.locks ≤ 1
  /-- while the queue is blocked it is empty, and a writer that adds something unblocks it -/
  blocked : s.reader.blocks = true → s.mailbox.head = [] ∧
    (s.mailbox.stack = .blocked ∨ ∃ x xs, s.mailbox.stack = .elements (x :: xs))
  /-- it is not blocked while the reader is somewhere else -/
  ready : s.reader.blocks = false → s.reader ≠ .closed → ∃ xs, s.mailbox.stack = .elements xs
  closed : s.reader = .closed → s.mailbox.stack = .closed
  isOpen : s.reader ≠ .closed → s.dropped = []
  seen : ∀ timed, s.reader = .blocking timed → s.mailbox.head = []
  result : s.reader.result = some true → s.mailbox.unread ≠ []
  /-- a writer is going to wake up a reader that sleeps although the queue has been unblocked -/
  notified : s.reader.sleeps = true → s.mailbox.stack ≠ .blocked → ∃ w ∈ s.writers, w ≠ .idle

variable {s s' : SynchronizedQueue α} {i : Nat}

theorem unread_ne_nil {m : Mailbox α} {x : α} {xs : List α} (h : m.stack = .elements (x :: xs)) :
    m.unread ≠ [] := by
  rw [Mailbox.unread, h]
  simp

/-- A blocked queue without a list of its own has nothing to read. -/
theorem unread_of_blocked {m : Mailbox α} (hhead : m.head = []) (h : m.stack = .blocked) :
    m.unread = [] := by
  rw [Mailbox.unread, h, hhead]
  rfl

/-- A free mutex is locked by neither side. -/
theorem countP_locks_of_free (h : s.free = true) :
    s.reader.locks = false ∧ s.writers.countP SynchronizedWriter.locks = 0 := by
  rw [free, Bool.and_eq_true, Bool.not_eq_true', List.all_eq_true] at h
  refine ⟨h.1, countP_eq_zero_of_forall fun w hw => ?_⟩
  simpa using h.2 w hw

-- -------------------------
-- Writers
-- -------------------------

/-- An element has been put into a queue that was blocked. -/
theorem Inv.enqueueBlocked (h : Inv s) {x : α} (hi : s.writers[i]? = some .idle)
    (hs : s.mailbox.stack = .blocked) : Inv { s with
      mailbox := { s.mailbox with stack := .elements [x] }
      writers := s.writers.set i .locking, accepted := s.accepted ++ [x] } := by
  -- the reader has blocked, so it has not closed the queue
  have hblocks : s.reader.blocks = true := by
    by_contra hno
    by_cases hc : s.reader = .closed
    · rw [h.closed hc] at hs
      cases hs
    · obtain ⟨xs, hxs⟩ := h.ready (Bool.eq_false_iff.mpr hno) hc
      rw [hxs] at hs
      cases hs
  have hopen : s.reader ≠ .closed := by
    intro hc
    rw [hc] at hblocks
    cases hblocks
  have hunread : ({ s.mailbox with stack := .elements [x] } : Mailbox α).unread =
      s.mailbox.unread ++ [x] := by
    rw [Mailbox.unread, Mailbox.unread, hs]
    simp
  refine ⟨?_, ?_, fun _ => ⟨(h.blocked hblocks).1, .inr ⟨x, [], rfl⟩⟩, fun _ _ => ⟨[x], rfl⟩,
    fun hc => absurd hc hopen, h.isOpen, h.seen, fun _ => unread_ne_nil rfl, fun _ _ => ?_⟩
  · have horder := h.order
    rw [h.isOpen hopen, List.append_nil] at horder
    dsimp only
    rw [hunread, h.isOpen hopen, List.append_nil, ← List.append_assoc, horder]
  · have hset := countP_set_add hi .locking SynchronizedWriter.locks
    have hmutex := h.mutex
    simp [SynchronizedWriter.locks] at hset
    dsimp only
    omega
  · exact ⟨.locking, List.mem_set (List.getElem?_eq_some_iff.mp hi).1 _, by simp⟩

/-- An element has been put into a queue that was not blocked. -/
theorem Inv.enqueueElements (h : Inv s) {x : α} {xs : List α}
    (hs : s.mailbox.stack = .elements xs) : Inv { s with
      mailbox := { s.mailbox with stack := .elements (x :: xs) }
      accepted := s.accepted ++ [x] } := by
  have hopen : s.reader ≠ .closed := by
    intro hc
    rw [h.closed hc] at hs
    cases hs
  have hunread : ({ s.mailbox with stack := .elements (x :: xs) } : Mailbox α).unread =
      s.mailbox.unread ++ [x] := by
    rw [Mailbox.unread, Mailbox.unread, hs]
    simp
  refine ⟨?_, h.mutex, fun hb => ⟨(h.blocked hb).1, .inr ⟨x, xs, rfl⟩⟩, fun _ _ => ⟨_, rfl⟩,
    fun hc => absurd hc hopen, h.isOpen, h.seen, fun _ => unread_ne_nil rfl, fun hsleep _ => ?_⟩
  · have horder := h.order
    rw [h.isOpen hopen, List.append_nil] at horder
    dsimp only
    rw [hunread, h.isOpen hopen, List.append_nil, ← List.append_assoc, horder]
  · refine h.notified hsleep ?_
    rw [hs]
    simp

-- -------------------------
-- The reader
-- -------------------------

/-- A step of the reader that leaves the queue as it is. -/
theorem Inv.setReader (h : Inv s) {reader : AwaitingReader}
    (hlock : reader.locks = true → s.reader.locks = true ∨ s.free = true)
    (hblocks : reader.blocks = s.reader.blocks) (hclosed : s.reader ≠ .closed)
    (hclosed' : reader ≠ .closed) (hseen : ∀ timed, reader = .blocking timed → s.mailbox.head = [])
    (hresult : reader.result = some true → s.mailbox.unread ≠ [])
    (hnotified : reader.sleeps = true → s.reader.sleeps = true ∨ s.mailbox.stack = .blocked) :
    Inv { s with reader } := by
  refine ⟨h.order, ?_, fun hb => h.blocked (hblocks ▸ hb),
    fun hb _ => h.ready (hblocks ▸ hb) hclosed, fun hc => absurd hc hclosed',
    fun _ => h.isOpen hclosed, hseen, hresult, fun hsleep hs => ?_⟩
  · have hmutex := h.mutex
    dsimp only
    by_cases hl : reader.locks = true
    · rcases hlock hl with hold | hfree
      · rw [if_pos hold] at hmutex
        rw [if_pos hl]
        exact hmutex
      · have hnone := (countP_locks_of_free hfree).2
        rw [if_pos hl]
        omega
    · rw [if_neg hl]
      omega
  · rcases hnotified hsleep with hold | hblocked
    · exact h.notified hold hs
    · exact absurd hblocked hs

/-- The reader has blocked the queue. -/
theorem Inv.block (h : Inv s) {timed : Bool} (hr : s.reader = .blocking timed)
    (hs : s.mailbox.stack = .elements []) :
    Inv { s with mailbox := { s.mailbox with stack := .blocked }, reader := .locking timed } := by
  have hopen : s.reader ≠ .closed := by
    rw [hr]
    simp
  have hhead := h.seen timed hr
  have hunread : ({ s.mailbox with stack := .blocked } : Mailbox α).unread = s.mailbox.unread := by
    rw [Mailbox.unread, Mailbox.unread, hs]
    rfl
  refine ⟨?_, ?_, fun _ => ⟨hhead, .inl rfl⟩, fun hb => (by cases hb), fun hc => (by cases hc),
    fun _ => h.isOpen hopen, fun _ hb => (by cases hb), fun hb => (by cases hb),
    fun hb => by cases hb⟩
  · dsimp only
    rw [hunread]
    exact h.order
  · have hmutex := h.mutex
    rw [hr] at hmutex
    exact hmutex

/-- The reader, which has the mutex, finds out that the queue has been unblocked. -/
theorem Inv.leave (h : Inv s) (hl : s.reader.locks = true) (hb : s.reader.blocks = true)
    (hs : s.mailbox.stack ≠ .blocked) : Inv { s with reader := .leaving true } := by
  have hopen : s.reader ≠ .closed := by
    intro hc
    rw [hc] at hb
    cases hb
  obtain ⟨x, xs, hxs⟩ := (h.blocked hb).2.resolve_left hs
  refine ⟨h.order, ?_, fun hb' => (by cases hb'), fun _ _ => ⟨_, hxs⟩, fun hc => (by cases hc),
    fun _ => h.isOpen hopen, fun _ hb' => (by cases hb'), fun _ => unread_ne_nil hxs,
    fun hb' => by cases hb'⟩
  have hmutex := h.mutex
  rw [if_pos hl] at hmutex
  exact hmutex

/-- The time is over, and the reader unblocks the queue itself. -/
theorem Inv.unblock (h : Inv s) (hr : s.reader = .unblocking)
    (hs : s.mailbox.stack = .blocked) : Inv { s with
      mailbox := { s.mailbox with stack := .elements [] }, reader := .leaving false } := by
  have hopen : s.reader ≠ .closed := by
    rw [hr]
    simp
  have hunread : ({ s.mailbox with stack := .elements [] } : Mailbox α).unread =
      s.mailbox.unread := by
    rw [Mailbox.unread, Mailbox.unread, hs]
    rfl
  refine ⟨?_, ?_, fun hb => (by cases hb), fun _ _ => ⟨[], rfl⟩, fun hc => (by cases hc),
    fun _ => h.isOpen hopen, fun _ hb => (by cases hb), fun hb => (by cases hb),
    fun hb => by cases hb⟩
  · dsimp only
    rw [hunread]
    exact h.order
  · have hmutex := h.mutex
    rw [hr] at hmutex
    exact hmutex

/-- `can_fetch_more` means that there is something to read. -/
theorem unread_of_canFetchMore {m : Mailbox α} (h : m.canFetchMore = true) : m.unread ≠ [] := by
  intro hnil
  rw [Mailbox.unread, List.append_eq_nil_iff] at hnil
  rw [Mailbox.canFetchMore, hnil.1] at h
  cases hs : m.stack with
  | closed | blocked =>
    rw [hs] at h
    cases h
  | elements xs =>
    have hxs := hnil.2
    rw [hs] at h hxs
    rw [List.reverse_eq_nil_iff.mp hxs] at h
    cases h

theorem head_of_canFetchMore {m : Mailbox α} (h : m.canFetchMore = false) : m.head = [] := by
  rw [Mailbox.canFetchMore, Bool.or_eq_false_iff, Bool.not_eq_false', List.isEmpty_iff] at h
  exact h.1

/-- The reader is blocked if the stack holds its marker. -/
theorem stack_of_blocked {m : Mailbox α} : m.blocked = true ↔ m.stack = .blocked := by
  rw [Mailbox.blocked]
  split
  · next h => simp [h]
  · next h => simpa using h

/-- The steps of the reader inside of `synchronized_await`. -/
theorem Inv.run (h : Inv s) (hrun : s.run = some s') : Inv s' := by
  rw [SynchronizedQueue.run] at hrun
  -- the reader looks, blocks, takes the mutex, waits, and undoes the blocking
  cases hr : s.reader with
  | checking timed =>
    rw [hr] at hrun
    dsimp only at hrun
    split_ifs at hrun with hmore <;> cases hrun
    · exact h.setReader (fun hl => by cases hl) (by rw [hr]; rfl) (by simp [hr]) (by simp)
        (fun _ hb => by cases hb) (fun _ => unread_of_canFetchMore hmore) fun hb => by cases hb
    · exact h.setReader (fun hl => by cases hl) (by rw [hr]; rfl) (by simp [hr]) (by simp)
        (fun _ _ => head_of_canFetchMore (Bool.eq_false_iff.mpr hmore)) (fun hb => by cases hb)
        fun hb => by cases hb
  | blocking timed =>
    rw [hr] at hrun
    dsimp only at hrun
    obtain ⟨xs, hxs⟩ := h.ready (by rw [hr]; rfl) (by simp [hr])
    cases xs with
    | nil =>
      rw [Mailbox.tryBlock, hxs] at hrun
      cases hrun
      exact h.block hr hxs
    | cons x xs =>
      -- something has come since the reader has looked
      rw [Mailbox.tryBlock, hxs] at hrun
      cases hrun
      exact h.setReader (fun hl => by cases hl) (by rw [hr]; rfl) (by simp [hr]) (by simp)
        (fun _ hb => by cases hb) (fun _ => unread_ne_nil hxs) fun hb => by cases hb
  | locking timed =>
    rw [hr] at hrun
    dsimp only at hrun
    split_ifs at hrun with hfree
    cases hrun
    exact h.setReader (fun _ => .inr hfree) (by rw [hr]; rfl) (by simp [hr]) (by simp)
      (fun _ hb => by cases hb) (fun hb => by cases hb) fun hb => by cases hb
  | testing timed =>
    rw [hr] at hrun
    dsimp only at hrun
    split_ifs at hrun with hblocked <;> cases hrun
    · exact h.setReader (fun _ => .inl (by rw [hr]; rfl)) (by rw [hr]; rfl) (by simp [hr]) (by simp)
        (fun _ hb => by cases hb) (fun hb => by cases hb)
        fun _ => .inr (stack_of_blocked.mp hblocked)
    · exact h.leave (by rw [hr]; rfl) (by rw [hr]; rfl) fun hs => hblocked (stack_of_blocked.mpr hs)
  | falling timed =>
    rw [hr] at hrun
    cases hrun
    exact h.setReader (fun hl => by cases hl) (by rw [hr]; rfl) (by simp [hr]) (by simp)
      (fun _ hb => by cases hb) (fun hb => by cases hb) fun _ => .inl (by rw [hr]; rfl)
  | timedOut =>
    rw [hr] at hrun
    dsimp only at hrun
    split_ifs at hrun with hfree
    cases hrun
    exact h.setReader (fun _ => .inr hfree) (by rw [hr]; rfl) (by simp [hr]) (by simp)
      (fun _ hb => by cases hb) (fun hb => by cases hb) fun hb => by cases hb
  | unblocking =>
    rw [hr] at hrun
    dsimp only at hrun
    -- the writer may have come first: then there is nothing to undo
    rcases (h.blocked (by rw [hr]; rfl)).2 with hs | ⟨x, xs, hs⟩
    · rw [Mailbox.tryUnblock, hs] at hrun
      cases hrun
      exact h.unblock hr hs
    · rw [Mailbox.tryUnblock, hs] at hrun
      cases hrun
      exact h.leave (by rw [hr]; rfl) (by rw [hr]; rfl) (by simp [hs])
  | leaving result =>
    rw [hr] at hrun
    cases hrun
    exact h.setReader (fun hl => by cases hl) (by rw [hr]; rfl) (by simp [hr]) (by simp)
      (fun _ hb => by cases hb) (fun hb => h.result (by rw [hr]; exact hb)) fun hb => by cases hb
  | idle | waiting | returned | closed =>
    rw [hr] at hrun
    cases hrun

/-- A writer that holds the mutex notifies the reader. -/
theorem Inv.notify (h : Inv s) (hi : s.writers[i]? = some .notifying) : Inv { s with
    writers := s.writers.set i .idle
    reader := match s.reader with
      | .waiting timed => .locking timed
      | reader => reader } := by
  have hset := countP_set_add hi .idle SynchronizedWriter.locks
  simp [SynchronizedWriter.locks] at hset
  have hmutex := h.mutex
  have hpos := countP_pos hi (p := SynchronizedWriter.locks) rfl
  by_cases hw : ∃ timed, s.reader = .waiting timed
  · obtain ⟨timed, hw⟩ := hw
    rw [hw] at hmutex ⊢
    refine ⟨h.order, ?_, fun _ => h.blocked (by rw [hw]; rfl), fun hb => (by cases hb),
      fun hc => (by cases hc), fun _ => h.isOpen (by simp [hw]), fun _ hb => (by cases hb),
      fun hb => (by cases hb), fun hb => by cases hb⟩
    simp [AwaitingReader.locks] at hmutex ⊢
    omega
  · have hsame : (match s.reader with
        | .waiting timed => .locking timed
        | reader => reader) = s.reader := by
      -- the mutex is free, so the notification finds the reader waiting or awake
      split
      · next timed hr => exact absurd ⟨timed, hr⟩ hw
      · rfl
    rw [hsame]
    refine ⟨h.order, ?_, h.blocked, h.ready, h.closed, h.isOpen, h.seen, h.result,
      fun hsleep _ => ?_⟩
    · dsimp only
      omega
    · -- the reader does not have the mutex, so it is not about to wait either
      cases hr : s.reader with
      | falling timed =>
        rw [hr, if_pos (show AwaitingReader.locks (.falling timed) = true from rfl)] at hmutex
        omega
      | waiting timed => exact absurd ⟨timed, hr⟩ hw
      | idle | checking | blocking | locking | testing | timedOut | unblocking | leaving | returned
        | closed =>
        rw [hr] at hsleep
        cases hsleep

/-- A writer locks the mutex. -/
theorem Inv.lock (h : Inv s) (hi : s.writers[i]? = some .locking) (hfree : s.free = true) :
    Inv { s with writers := s.writers.set i .notifying } := by
  have hset := countP_set_add hi .notifying SynchronizedWriter.locks
  simp [SynchronizedWriter.locks] at hset
  obtain ⟨hreader, hwriters⟩ := countP_locks_of_free hfree
  refine ⟨h.order, ?_, h.blocked, h.ready, h.closed, h.isOpen, h.seen, h.result, fun _ _ => ?_⟩
  · dsimp only
    rw [hreader]
    simp
    omega
  · exact ⟨.notifying, List.mem_set (List.getElem?_eq_some_iff.mp hi).1 _, by simp⟩

/-- A reader that rests holds nothing. -/
theorem rests_cases (hr : s.reader.rests = true) :
    s.reader.locks = false ∧ s.reader.blocks = false ∧ s.reader ≠ .closed := by
  cases h : s.reader with
  | idle | returned => simp [AwaitingReader.locks, AwaitingReader.blocks]
  | checking | blocking | locking | testing | falling | waiting | timedOut | unblocking | leaving
    | closed =>
    rw [h] at hr
    cases hr

/-- `try_pop` keeps the invariant. -/
theorem Inv.tryPop (h : Inv s) (hr : s.reader.rests = true) : Inv { s with
    mailbox := s.mailbox.tryPop.2, reader := .idle
    popped := s.popped ++ s.mailbox.tryPop.1.toList } := by
  obtain ⟨hlocks, hblocks, hopen⟩ := rests_cases hr
  obtain ⟨xs, hxs⟩ := h.ready hblocks hopen
  refine ⟨?_, ?_, fun hb => (by cases hb), fun _ _ => ?_, fun hc => (by cases hc),
    fun _ => h.isOpen hopen, fun _ hb => (by cases hb), fun hb => (by cases hb),
    fun hb => by cases hb⟩
  · have hunread : s.mailbox.tryPop.1.toList ++ s.mailbox.tryPop.2.unread = s.mailbox.unread := by
      cases hpop : s.mailbox.tryPop with
      | mk x m =>
        cases x with
        | none => exact Mailbox.unread_tryPop_none hpop
        | some x => exact (Mailbox.unread_tryPop_some hpop).symm
    have horder := h.order
    dsimp only
    rw [List.append_assoc s.popped, hunread]
    exact horder
  · have hmutex := h.mutex
    rw [hlocks] at hmutex
    exact hmutex
  · rw [Mailbox.tryPop]
    split
    · rw [Mailbox.fetchNewData, hxs]
      exact ⟨[], rfl⟩
    · exact ⟨xs, hxs⟩

/-- Closing the queue keeps the invariant. -/
theorem Inv.close (h : Inv s) (hr : s.reader.rests = true) : Inv { s with
    mailbox := s.mailbox.close.2, reader := .closed, dropped := s.mailbox.close.1 } := by
  obtain ⟨hlocks, -, hopen⟩ := rests_cases hr
  refine ⟨?_, ?_, fun hb => (by cases hb), fun _ hc => absurd rfl hc, fun _ => rfl,
    fun hc => absurd rfl hc, fun _ hb => (by cases hb), fun hb => (by cases hb),
    fun hb => by cases hb⟩
  · have horder := h.order
    rw [h.isOpen hopen, List.append_nil] at horder
    show s.popped ++ [] ++ s.mailbox.unread = s.accepted
    rw [List.append_nil]
    exact horder
  · have hmutex := h.mutex
    rw [hlocks] at hmutex
    exact hmutex

/-- Every action keeps the invariant. -/
theorem Inv.step (h : Inv s) {a : SynchronizedAction α} (hs : s.step a = some s') : Inv s' := by
  cases a with
  | enqueue i x =>
    rw [SynchronizedQueue.step] at hs
    -- an idle writer enqueues; what happens depends on the stack
    cases hi : s.writers[i]? with
    | none =>
      rw [hi] at hs
      cases hs
    | some w =>
      cases w with
      | locking | notifying =>
        rw [hi] at hs
        cases hs
      | idle =>
        rw [hi, Mailbox.enqueue] at hs
        cases hstack : s.mailbox.stack with
        | closed =>
          rw [hstack] at hs
          cases hs
          exact h
        | blocked =>
          rw [hstack] at hs
          cases hs
          exact h.enqueueBlocked hi hstack
        | elements xs =>
          rw [hstack] at hs
          cases hs
          exact h.enqueueElements hstack
  | notify i =>
    rw [SynchronizedQueue.step] at hs
    split at hs
    · next hi =>
      split_ifs at hs with hfree
      cases hs
      exact h.lock hi hfree
    · next hi =>
      cases hs
      exact h.notify hi
    · cases hs
  | await timed =>
    rw [SynchronizedQueue.step] at hs
    split_ifs at hs with hr
    cases hs
    obtain ⟨-, hblocks, hopen⟩ := rests_cases hr
    exact h.setReader (fun hl => by cases hl) (by rw [hblocks]; rfl) hopen (by simp)
      (fun _ hb => by cases hb) (fun hb => by cases hb) fun hb => by cases hb
  | tryPop =>
    rw [SynchronizedQueue.step] at hs
    split_ifs at hs with hr
    cases hs
    exact h.tryPop hr
  | close =>
    rw [SynchronizedQueue.step] at hs
    split_ifs at hs with hr
    cases hs
    exact h.close hr
  | run => exact h.run hs
  | spuriousWakeup =>
    rw [SynchronizedQueue.step] at hs
    split at hs <;> cases hs
    next hr =>
    exact h.setReader (fun hl => by cases hl) (by rw [hr]; rfl) (by simp [hr]) (by simp)
      (fun _ hb => by cases hb) (fun hb => by cases hb) fun hb => by cases hb
  | timeout =>
    rw [SynchronizedQueue.step] at hs
    split at hs <;> cases hs
    next hr =>
    exact h.setReader (fun hl => by cases hl) (by rw [hr]; rfl) (by simp [hr]) (by simp)
      (fun _ hb => by cases hb) (fun hb => by cases hb) fun hb => by cases hb

/-- A new queue satisfies the invariant. -/
theorem Inv.init (h : s.isInitial) : Inv s := by
  obtain ⟨hmailbox, hreader, hidle, haccepted, hpopped, hdropped⟩ := h
  refine ⟨?_, ?_, fun hb => ?_, fun _ _ => ⟨[], by rw [hmailbox]; rfl⟩, fun hc => ?_,
    fun _ => hdropped, fun _ hb => ?_, fun hb => ?_, fun hb => ?_⟩
  · rw [hmailbox, haccepted, hpopped, hdropped]
    rfl
  · rw [hreader, countP_eq_zero_of_forall fun w hw => by rw [hidle w hw]; rfl]
    exact Nat.zero_le 1
  · rw [hreader] at hb
    cases hb
  · rw [hreader] at hc
    cases hc
  · rw [hreader] at hb
    cases hb
  · rw [hreader] at hb
    cases hb
  · rw [hreader] at hb
    cases hb

-- -------------------------
-- Runs
-- -------------------------

/-- What reader and writers can rely on. -/
structure Synchronized (s : SynchronizedQueue α) : Prop where
  /-- every accepted element is read once, in order, unless the queue is closed before -/
  order : s.popped ++ s.mailbox.unread ++ s.dropped = s.accepted
  mutex : (if s.reader.locks then 1 else 0) + s.writers.countP SynchronizedWriter.locks ≤ 1
  /-- outside of `synchronized_await`, the queue is neither blocked nor closed -/
  rests : s.reader.rests = true → ∃ xs, s.mailbox.stack = .elements xs
  /-- there is something to read when `synchronized_await` returns true -/
  ready : s.reader = .returned true → ∃ x, s.mailbox.tryPop.1 = some x
  /-- if there is something to read while the reader sleeps, a writer is on its way -/
  notMissed : s.reader.sleeps = true → s.mailbox.unread ≠ [] →
    ∃ i w, s.writers[i]? = some w ∧ w ≠ .idle ∧
      (s.free = true → (s.step (.notify i)).isSome = true)
  /-- which wakes the reader up -/
  woken : ∀ i, s.writers[i]? = some .notifying → ∃ s', s.step (.notify i) = some s' ∧
    s'.reader.sleeps = false
  /-- who has the mutex does not wait for anything -/
  goesOn : s.free = false → (s.step .run).isSome = true ∨
    ∃ i, s.writers[i]? = some .notifying ∧ (s.step (.notify i)).isSome = true

/-- A sleeping reader misses no element: some writer is about to notify. -/
theorem Inv.notMissed (h : Inv s) (hsleep : s.reader.sleeps = true)
    (hunread : s.mailbox.unread ≠ []) : ∃ i w, s.writers[i]? = some w ∧ w ≠ .idle ∧
      (s.free = true → (s.step (.notify i)).isSome = true) := by
  have hstack : s.mailbox.stack ≠ .blocked := by
    intro hblocked
    have hb : s.reader.blocks = true := by
      revert hsleep
      cases s.reader <;> simp [AwaitingReader.sleeps, AwaitingReader.blocks]
    exact hunread (unread_of_blocked (h.blocked hb).1 hblocked)
  obtain ⟨w, hw, hne⟩ := h.notified hsleep hstack
  obtain ⟨i, hi⟩ := List.getElem?_of_mem hw
  refine ⟨i, w, hi, hne, fun hfree => ?_⟩
  rw [SynchronizedQueue.step, hi]
  cases w with
  | idle => exact absurd rfl hne
  | locking =>
    dsimp only
    rw [if_pos hfree]
    rfl
  | notifying => rfl

/-- A writer that notifies wakes the reader. -/
theorem Inv.woken (h : Inv s) (hi : s.writers[i]? = some .notifying) :
    ∃ s', s.step (.notify i) = some s' ∧ s'.reader.sleeps = false := by
  rw [SynchronizedQueue.step, hi]
  refine ⟨_, rfl, ?_⟩
  have hmutex := h.mutex
  have hpos := countP_pos hi (p := SynchronizedWriter.locks) rfl
  cases hr : s.reader with
  | falling timed =>
    -- it would have the mutex, too
    rw [hr, if_pos (show AwaitingReader.locks (.falling timed) = true from rfl)] at hmutex
    omega
  | idle | checking | blocking | locking | testing | waiting | timedOut | unblocking | leaving
    | returned | closed => rfl

/-- Whoever has the mutex goes on. -/
theorem goesOn_of_locked (hlocked : s.free = false) : (s.step .run).isSome = true ∨
    ∃ i, s.writers[i]? = some .notifying ∧ (s.step (.notify i)).isSome = true := by
  rw [free, Bool.and_eq_false_iff] at hlocked
  rcases hlocked with hreader | hwriter
  · left
    show s.run.isSome = true
    rw [SynchronizedQueue.run]
    cases hr : s.reader with
    | testing timed =>
      dsimp only
      split <;> rfl
    | falling | leaving | unblocking => rfl
    | idle | checking | blocking | locking | waiting | timedOut | returned | closed =>
      rw [hr] at hreader
      cases hreader
  · right
    obtain ⟨w, hw, hlocks⟩ := List.all_eq_false.mp hwriter
    obtain ⟨i, hi⟩ := List.getElem?_of_mem hw
    cases w with
    | notifying =>
      refine ⟨i, hi, ?_⟩
      rw [SynchronizedQueue.step, hi]
      rfl
    | idle | locking => exact absurd rfl hlocks

/-- The invariant gives what the queue promises. -/
theorem Inv.synchronized (h : Inv s) : Synchronized s := by
  refine ⟨h.order, h.mutex, fun hr => ?_, fun hr => ?_, h.notMissed, fun _ => h.woken,
    goesOn_of_locked⟩
  · obtain ⟨-, hblocks, hopen⟩ := rests_cases hr
    exact h.ready hblocks hopen
  · cases hpop : s.mailbox.tryPop with
    | mk x m =>
      cases x with
      | some x => exact ⟨x, rfl⟩
      | none => exact absurd (Mailbox.unread_of_tryPop_none hpop) (h.result (by rw [hr]; rfl))

/-- For any number of writers, in every interleaving. -/
theorem synchronizedQueue_reach (hreach : Reach isInitial step anyStep s) : Synchronized s :=
  (hreach.invariant (fun _ h => Inv.init h) fun _ _ _ h _ hs => h.step hs).synchronized

/-- An element arrives after the reader has looked and before it waits. -/
theorem synchronizedQueue_race : ∃ s : SynchronizedQueue Nat, s.reader = .waiting false ∧
    s.mailbox.unread = [5] ∧ s.writers = [.locking] ∧ Synchronized s :=
  ⟨_, rfl, rfl, rfl, synchronizedQueue_reach (reach_of_run
    (.init ⟨rfl, rfl, by decide, rfl, rfl, rfl⟩ :
      Reach isInitial step anyStep ⟨.initial, .idle, [.idle], [], [], []⟩)
    (rfl : runAll _ _ [.await false, .run, .run, .run, .run, .enqueue 0 5, .run] = some _))⟩

end SynchronizedQueue

end BoostActor
