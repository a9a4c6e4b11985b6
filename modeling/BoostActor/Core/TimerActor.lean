import BoostActor.Core.Duration
import BoostActor.Lib.Multimap
import BoostActor.Lib.Run

/-!
# The timer actor

The timer actor (`timer_actor::act` in `abstract_coordinator.cpp`) keeps delayed messages in
a multimap from deadlines. Each turn of its loop delivers what is due and then waits for the
next message or the next deadline. The clock, the messages and the end of each wait are up to
the environment: a wait may end without a message at any time, since a condition variable
wakes up early or late.

* `TimerActor.Inv` — what holds between two turns;
* `timerActor_reach` — in every run with a clock that does not go back, messages are
  delivered once at most, not early, in the order of their deadlines, and the actor always
  waits for the earliest one.
-/

namespace BoostActor

open Lib

/-- The types of messages that the timer actor handles; `α` stands for `delayed_msg`. -/
inductive TimerMessage (α : Type) where
  | request (d : Duration) (dmsg : α)
  | exit
  | other

/-- An entry of the multimap. -/
structure DelayedEntry (α : Type) where
  deadline : Int64
  dmsg : α

/-- What the timer actor does, with the time that the clock has shown. -/
inductive TimerEvent (α : Type) where
  /-- `insert_dmsg` -/
  | insert (now : Int64) (d : Duration) (e : DelayedEntry α)
  /-- `deliver` -/
  | deliver (now : Int64) (e : DelayedEntry α)
  /-- `dequeue` -/
  | dequeue
  /-- `try_dequeue` -/
  | tryDequeue (now : Int64) (tp : Int64)

/-- The variables of `act` and its mailbox, the last reading of the clock, and what has
happened so far. -/
structure TimerActor (α : Type) where
  mailbox : List (TimerMessage α)
  messages : List (DelayedEntry α)
  receivedExit : Bool
  clock : Int64
  trace : List (TimerEvent α)

variable {α : Type}

namespace TimerActor

-- -------------------------
-- The timer
-- -------------------------

def isInitial (s : TimerActor α) : Prop :=
  s.mailbox = [] ∧ s.messages = [] ∧ s.receivedExit = false ∧ s.trace = []

/-- `mfun` applied to the next message, if there is one; `now` is the reading in
`insert_dmsg`. -/
def handleNext (s : TimerActor α) (now : Int64) : Except Fault (TimerActor α) :=
  match s.mailbox with
  | [] => return s
  | .request d dmsg :: mailbox => do
    let e : DelayedEntry α := ⟨← addDuration now d, dmsg⟩
    return { s with
      mailbox
      messages := emplaceByKey DelayedEntry.deadline e s.messages
      clock := now
      trace := s.trace ++ [.insert now d e] }
  | .exit :: mailbox => return { s with mailbox, receivedExit := true }
  | .other :: mailbox => return { s with mailbox }

/-- A turn of the inner loop. The clock shows `tout` at its beginning and `now` when a message
is handled; without a message the wait has timed out or ended early. -/
def turn (s : TimerActor α) (tout now : Int64) : Except Fault (TimerActor α) :=
  if s.receivedExit then return s
  else match s.messages with
  | [] => handleNext { s with trace := s.trace ++ [.dequeue] } now
  | messages =>
    -- handle timeouts (send messages)
    let due := messages.takeWhile fun e => e.deadline ≤ tout
    let rest := messages.dropWhile fun e => e.deadline ≤ tout
    let s := { s with
      messages := rest, clock := tout, trace := s.trace ++ due.map (.deliver tout) }
    -- wait for next message or next timeout
    match rest with
    | [] => return s
    | e :: _ => handleNext { s with trace := s.trace ++ [.tryDequeue tout e.deadline] } now

/-- What happens in the system. -/
inductive Action (α : Type) where
  | arrive (m : TimerMessage α)
  | turn (tout now : Int64)

def step (s : TimerActor α) : Action α → Option (TimerActor α)
  | .arrive m => some { s with mailbox := s.mailbox ++ [m] }
  | .turn tout now => (s.turn tout now).toOption

/-- The deadline of the next request has a representation. -/
def Fits (now : Int64) : List (TimerMessage α) → Prop
  | .request d _ :: _ => d.span < 2 ^ 63 ∧ now.toInt + d.span < 2 ^ 63
  | _ => True

instance (now : Int64) : (mailbox : List (TimerMessage α)) → Decidable (Fits now mailbox)
  | .request _ _ :: _ => inferInstanceAs (Decidable (_ ∧ _))
  | .exit :: _ => isTrue trivial
  | .other :: _ => isTrue trivial
  | [] => isTrue trivial

/-- The clock does not go back, and no deadline overflows. -/
def Proper (s : TimerActor α) : Action α → Prop
  | .arrive _ => True
  | .turn tout now => s.clock ≤ tout ∧ tout ≤ now ∧ Fits now s.mailbox

instance (s : TimerActor α) : (a : Action α) → Decidable (Proper s a)
  | .arrive _ => isTrue trivial
  | .turn _ _ => inferInstanceAs (Decidable (_ ∧ _ ∧ _))

end TimerActor

-- -------------------------
-- What is expected
-- -------------------------

/-- The entries that have been inserted. -/
def inserted (trace : List (TimerEvent α)) : List (DelayedEntry α) :=
  trace.filterMap fun
    | .insert _ _ e => some e
    | _ => none

/-- The entries that have been delivered, in this order. -/
def delivered (trace : List (TimerEvent α)) : List (DelayedEntry α) :=
  trace.filterMap fun
    | .deliver _ e => some e
    | _ => none

/-- The actor waits with `pending` entries: for a message if there are none, and otherwise for
the earliest deadline, which has not come yet. -/
def WaitsFor (pending : List (DelayedEntry α)) : TimerEvent α → Prop
  | .dequeue => pending = []
  | .tryDequeue now tp => now < tp ∧ (∃ e ∈ pending, e.deadline = tp) ∧
    ∀ e ∈ pending, tp ≤ e.deadline
  | _ => True

/-- Delayed messages are handled as they should be. -/
structure OnTime (trace : List (TimerEvent α)) : Prop where
  /-- the deadline of a request is the time of its arrival plus its duration -/
  deadlines : ∀ now d e, .insert now d e ∈ trace → e.deadline.toInt = now.toInt + d.span
  /-- no message is delivered twice, or without a request -/
  once : ∃ pending, (delivered trace ++ pending).Perm (inserted trace)
  notEarly : ∀ now e, .deliver now e ∈ trace → e.deadline ≤ now
  inOrder : Ascending DelayedEntry.deadline (delivered trace)
  waits : ∀ before event after, trace = before ++ event :: after →
    ∀ pending, (delivered before ++ pending).Perm (inserted before) → WaitsFor pending event

-- -------------------------
-- The trace
-- -------------------------

section

variable {trace : List (TimerEvent α)} {event : TimerEvent α} {e : DelayedEntry α}

theorem inserted_append (trace more : List (TimerEvent α)) :
    inserted (trace ++ more) = inserted trace ++ inserted more := List.filterMap_append

theorem delivered_append (trace more : List (TimerEvent α)) :
    delivered (trace ++ more) = delivered trace ++ delivered more := List.filterMap_append

/-- One event more. -/
theorem OnTime.concat (h : OnTime trace)
    (hinsert : ∀ now d e, event = .insert now d e → e.deadline.toInt = now.toInt + d.span)
    (honce : ∃ pending, (delivered (trace ++ [event]) ++ pending).Perm
      (inserted (trace ++ [event])))
    (hearly : ∀ now e, event = .deliver now e → e.deadline ≤ now)
    (horder : Ascending DelayedEntry.deadline (delivered (trace ++ [event])))
    (hwait : ∀ pending, (delivered trace ++ pending).Perm (inserted trace) →
      WaitsFor pending event) : OnTime (trace ++ [event]) where
  deadlines := fun now d e he => by
    rcases List.mem_append.mp he with he | he
    · exact h.deadlines now d e he
    · exact hinsert now d e (List.mem_singleton.mp he).symm
  once := honce
  notEarly := fun now e he => by
    rcases List.mem_append.mp he with he | he
    · exact h.notEarly now e he
    · exact hearly now e (List.mem_singleton.mp he).symm
  inOrder := horder
  waits := fun before event' after hsplit pending hpending => by
    rcases concat_eq_append_cons hsplit with ⟨rfl, rfl⟩ | ⟨rest, hrest⟩
    · exact hwait pending hpending
    · exact h.waits before event' rest hrest pending hpending

end

namespace TimerActor

variable {s : TimerActor α} {tout now : Int64}

-- -------------------------
-- The invariant
-- -------------------------

/-- What holds between two turns. -/
structure Inv (s : TimerActor α) : Prop where
  onTime : OnTime s.trace
  entries : (delivered s.trace ++ s.messages).Perm (inserted s.trace)
  sorted : Ascending DelayedEntry.deadline s.messages
  past : ∀ e ∈ delivered s.trace, e.deadline ≤ s.clock
  before : ∀ d ∈ delivered s.trace, ∀ e ∈ s.messages, d.deadline ≤ e.deadline

/-- The entries that are pending are those in the multimap. -/
theorem Inv.pending (h : Inv s) {pending : List (DelayedEntry α)}
    (hpending : (delivered s.trace ++ pending).Perm (inserted s.trace)) :
    pending.Perm s.messages :=
  (List.perm_append_left_iff _).mp (hpending.trans h.entries.symm)

/-- The clock goes on. -/
theorem Inv.later (h : Inv s) (hclock : s.clock ≤ tout) : Inv { s with clock := tout } :=
  ⟨h.onTime, h.entries, h.sorted, fun e he => Std.le_trans (h.past e he) hclock, h.before⟩

/-- The first entry is due. -/
theorem Inv.deliver (h : Inv s) (hclock : s.clock ≤ tout) {e : DelayedEntry α}
    {rest : List (DelayedEntry α)} (hmessages : s.messages = e :: rest)
    (hdue : e.deadline ≤ tout) :
    Inv { s with messages := rest, clock := tout, trace := s.trace ++ [.deliver tout e] } := by
  have hdelivered : delivered (s.trace ++ [TimerEvent.deliver tout e]) = delivered s.trace ++ [e] :=
    delivered_append _ _
  have hinserted : inserted (s.trace ++ [TimerEvent.deliver tout e]) = inserted s.trace := by
    rw [inserted_append]
    exact List.append_nil _
  have hsorted := h.sorted
  rw [hmessages] at hsorted
  obtain ⟨hfirst, hrest⟩ := List.pairwise_cons.mp hsorted
  have hentries : (delivered (s.trace ++ [TimerEvent.deliver tout e]) ++ rest).Perm
      (inserted (s.trace ++ [TimerEvent.deliver tout e])) := by
    rw [hdelivered, hinserted, List.append_assoc, List.singleton_append, ← hmessages]
    exact h.entries
  -- what was delivered before was due before
  have hbefore : ∀ d ∈ delivered s.trace, d.deadline ≤ e.deadline := fun d hd =>
    h.before d hd e (hmessages ▸ List.mem_cons_self)
  refine ⟨h.onTime.concat (fun _ _ _ heq => nomatch heq) ⟨rest, hentries⟩ ?_ ?_
    fun _ _ => trivial, hentries, hrest, ?_, ?_⟩
  · intro now e' heq
    cases heq
    exact hdue
  · rw [hdelivered]
    refine List.pairwise_append.mpr ⟨h.onTime.inOrder, List.pairwise_singleton _ _, ?_⟩
    intro d hd e' he'
    obtain rfl := List.mem_singleton.mp he'
    exact hbefore d hd
  · intro d hd
    rw [hdelivered] at hd
    rcases List.mem_append.mp hd with hd | hd
    · exact Std.le_trans (h.past d hd) hclock
    · obtain rfl := List.mem_singleton.mp hd
      exact hdue
  · intro d hd e' he'
    rw [hdelivered] at hd
    rcases List.mem_append.mp hd with hd | hd
    · exact h.before d hd e' (hmessages ▸ List.mem_cons_of_mem e he')
    · obtain rfl := List.mem_singleton.mp hd
      exact hfirst e' he'

/-- The loop over the entries that are due, by induction on the entries. -/
theorem Inv.deliverDue (h : Inv s) (hclock : s.clock ≤ tout) :
    Inv { s with
      messages := s.messages.dropWhile fun e => e.deadline ≤ tout
      clock := tout
      trace := s.trace ++
        (s.messages.takeWhile fun e => e.deadline ≤ tout).map (.deliver tout) } := by
  obtain ⟨mailbox, messages, receivedExit, clock, trace⟩ := s
  induction messages generalizing clock trace with
  | nil =>
    have hlater := h.later hclock
    show Inv ⟨mailbox, [], receivedExit, tout, trace ++ []⟩
    rw [List.append_nil]
    exact hlater
  | cons e rest ih =>
    -- the first entry is due, or none is
    by_cases hdue : e.deadline ≤ tout
    · have hnext := ih tout (trace ++ [.deliver tout e]) (h.deliver hclock rfl hdue)
        (Std.le_refl tout)
      dsimp only at hnext ⊢
      rw [List.takeWhile_cons, List.dropWhile_cons, decide_eq_true hdue, if_pos rfl, if_pos rfl,
        List.map_cons]
      rw [List.append_assoc, List.singleton_append] at hnext
      exact hnext
    · have hlater := h.later hclock
      dsimp only at hlater ⊢
      rw [List.takeWhile_cons, List.dropWhile_cons, decide_eq_false hdue,
        if_neg Bool.false_ne_true, if_neg Bool.false_ne_true, List.map_nil, List.append_nil]
      exact hlater

/-- The actor waits for what it has to. -/
theorem Inv.wait (h : Inv s) (event : TimerEvent α) (hnone : inserted [event] = [])
    (hnot : delivered [event] = []) (hwaits : ∀ pending, pending.Perm s.messages →
      WaitsFor pending event) : Inv { s with trace := s.trace ++ [event] } := by
  have hdelivered : delivered (s.trace ++ [event]) = delivered s.trace := by
    rw [delivered_append, hnot, List.append_nil]
  have hinserted : inserted (s.trace ++ [event]) = inserted s.trace := by
    rw [inserted_append, hnone, List.append_nil]
  have hentries : (delivered (s.trace ++ [event]) ++ s.messages).Perm
      (inserted (s.trace ++ [event])) := by
    rw [hdelivered, hinserted]
    exact h.entries
  refine ⟨h.onTime.concat ?_ ⟨_, hentries⟩ ?_ ?_ fun pending hpending =>
    hwaits pending (h.pending hpending), hentries, h.sorted, ?_, ?_⟩
  · rintro now d e rfl
    cases hnone
  · rintro now e rfl
    cases hnot
  · rw [hdelivered]
    exact h.onTime.inOrder
  · show ∀ e ∈ delivered (s.trace ++ [event]), _
    rw [hdelivered]
    exact h.past
  · show ∀ d ∈ delivered (s.trace ++ [event]), _
    rw [hdelivered]
    exact h.before

/-- A request is inserted. -/
theorem Inv.insert (h : Inv s) (hclock : s.clock ≤ now) {d : Duration} {e : DelayedEntry α}
    (hdeadline : e.deadline.toInt = now.toInt + d.span) (hspan : 0 ≤ d.span)
    (mailbox : List (TimerMessage α)) :
    Inv { s with
      mailbox := mailbox
      messages := emplaceByKey DelayedEntry.deadline e s.messages
      clock := now
      trace := s.trace ++ [.insert now d e] } := by
  have hdelivered : delivered (s.trace ++ [TimerEvent.insert now d e]) = delivered s.trace := by
    rw [delivered_append]
    exact List.append_nil _
  have hinserted : inserted (s.trace ++ [TimerEvent.insert now d e]) = inserted s.trace ++ [e] :=
    inserted_append _ _
  have hperm := emplace_perm DelayedEntry.deadline e s.messages
  have hentries : (delivered (s.trace ++ [TimerEvent.insert now d e]) ++
      emplaceByKey DelayedEntry.deadline e s.messages).Perm
        (inserted (s.trace ++ [TimerEvent.insert now d e])) := by
    rw [hdelivered, hinserted]
    have hmiddle : (delivered s.trace ++ e :: s.messages).Perm
        (e :: (delivered s.trace ++ s.messages)) := List.perm_middle
    have hlast : (e :: inserted s.trace).Perm (inserted s.trace ++ [e]) :=
      (List.perm_append_singleton e _).symm
    -- the new entry joins those that wait
    exact ((hperm.append_left _).trans hmiddle).trans ((h.entries.cons e).trans hlast)
  have hlate : now ≤ e.deadline := by
    rw [Int64.le_iff_toInt_le, hdeadline]
    omega
  refine ⟨h.onTime.concat ?_ ⟨_, hentries⟩ (fun _ _ heq => nomatch heq) ?_ fun _ _ => trivial,
    hentries, emplace_sorted h.sorted, ?_, ?_⟩
  · intro now' d' e' heq
    cases heq
    exact hdeadline
  · rw [hdelivered]
    exact h.onTime.inOrder
  · intro d' hd'
    rw [hdelivered] at hd'
    exact Std.le_trans (h.past d' hd') hclock
  · intro d' hd' e' he'
    rw [hdelivered] at hd'
    rcases List.mem_cons.mp (hperm.mem_iff.mp he') with rfl | he'
    · exact Std.le_trans (Std.le_trans (h.past d' hd') hclock) hlate
    · exact h.before d' hd' e' he'

-- -------------------------
-- Turns
-- -------------------------

/-- The next message is handled. -/
theorem Inv.handleNext (h : Inv s) (hclock : s.clock ≤ now) (hfits : Fits now s.mailbox) :
    ∃ s', s.handleNext now = .ok s' ∧ Inv s' := by
  unfold TimerActor.handleNext
  cases hmailbox : s.mailbox with
  | nil => exact ⟨s, rfl, h⟩
  | cons m mailbox =>
    cases m with
    | request d dmsg =>
      rw [hmailbox] at hfits
      obtain ⟨hspan, hsum⟩ := hfits
      obtain ⟨deadline, hadd, hdeadline⟩ := addDuration_exact hspan hsum
      have hpos : 0 ≤ d.span := Int.mul_nonneg (by omega) (by omega)
      dsimp only
      rw [hadd]
      exact ⟨_, rfl, h.insert hclock (e := ⟨deadline, dmsg⟩) hdeadline hpos mailbox⟩
    | exit => exact ⟨_, rfl, h.onTime, h.entries, h.sorted, h.past, h.before⟩
    | other => exact ⟨_, rfl, h.onTime, h.entries, h.sorted, h.past, h.before⟩

/-- A turn is defined and keeps the invariant. -/
theorem Inv.turn (h : Inv s) (hproper : Proper s (.turn tout now)) :
    ∃ s', s.turn tout now = .ok s' ∧ Inv s' := by
  obtain ⟨htout, hnow, hfits⟩ := hproper
  unfold TimerActor.turn
  split_ifs
  · exact ⟨s, rfl, h⟩
  · -- without entries the timer waits for a message, otherwise at most until the first deadline
    cases hmessages : s.messages with
    | nil =>
      -- nothing is pending
      have hwait := h.wait .dequeue rfl rfl fun pending hpending => by
        rw [hmessages] at hpending
        exact hpending.eq_nil
      rw [hmessages] at hwait
      exact hwait.handleNext (Std.le_trans htout hnow) hfits
    | cons first others =>
      have hdue := h.deliverDue htout
      rw [hmessages] at hdue
      dsimp only
      cases hrest : (first :: others).dropWhile fun e => e.deadline ≤ tout with
      | nil =>
        rw [hrest] at hdue
        exact ⟨_, rfl, hdue⟩
      | cons e rest =>
        -- the first one that is left is the earliest
        have hlate : ∀ e' ∈ e :: rest, ¬ e'.deadline ≤ tout := by
          rw [← hrest]
          exact not_le_of_mem_dropWhile (hmessages ▸ h.sorted) tout
        rw [hrest] at hdue
        have hfirst := (List.pairwise_cons.mp hdue.sorted).1
        have hwait := hdue.wait (.tryDequeue tout e.deadline) rfl rfl
          fun pending hpending => by
            refine ⟨Int64.not_le.mp (hlate e List.mem_cons_self), ⟨e, ?_, rfl⟩, fun e' he' => ?_⟩
            · exact hpending.mem_iff.mpr List.mem_cons_self
            · rcases List.mem_cons.mp (hpending.mem_iff.mp he') with rfl | he'
              · exact Std.le_refl _
              · exact hfirst e' he'
        exact hwait.handleNext hnow hfits

/-- For every run in which the clock does not go back and all deadlines have representations:
delayed messages are handled as they should be, and the next turn is defined. -/
theorem timerActor_reach (hreach : Reach isInitial step Proper s) :
    OnTime s.trace ∧ ∀ tout now, Proper s (.turn tout now) → ∃ s', s.turn tout now = .ok s' := by
  have hinv : Inv s := by
    refine hreach.invariant ?_ ?_
    · rintro s ⟨-, hmessages, -, htrace⟩
      have hnil : OnTime ([] : List (TimerEvent α)) := by
        refine ⟨?_, ⟨[], List.Perm.nil⟩, ?_, List.Pairwise.nil, ?_⟩
        · exact fun _ _ _ he => absurd he List.not_mem_nil
        · exact fun _ _ he => absurd he List.not_mem_nil
        · exact fun before _ _ hsplit => by simp at hsplit
      refine ⟨?_, ?_, ?_, ?_, ?_⟩
      · rw [htrace]
        exact hnil
      · rw [htrace, hmessages]
        exact List.Perm.nil
      · rw [hmessages]
        exact List.Pairwise.nil
      · rw [htrace]
        exact fun _ he => absurd he List.not_mem_nil
      · rw [htrace]
        exact fun _ he => absurd he List.not_mem_nil
    · intro s a s' h hproper hstep
      -- a message arrives, or the timer takes its turn
      cases a with
      | arrive m =>
        cases hstep
        exact ⟨h.onTime, h.entries, h.sorted, h.past, h.before⟩
      | turn tout now =>
        obtain ⟨s₁, hturn, hinv⟩ := h.turn hproper
        change (s.turn tout now).toOption = some s' at hstep
        rw [hturn] at hstep
        cases hstep
        exact hinv
  refine ⟨hinv.onTime, fun tout now hproper => ?_⟩
  obtain ⟨s', hturn, -⟩ := hinv.turn hproper
  exact ⟨s', hturn⟩

/-- A request for five seconds, and a later one for one second, which goes first. -/
theorem timerActor_two_requests :
    OnTime ([.dequeue, .insert 10 ⟨.seconds, 5⟩ ⟨5000000010, 1⟩, .tryDequeue 20 5000000010,
      .insert 20 ⟨.seconds, 1⟩ ⟨1000000020, 2⟩, .deliver 2000000000 ⟨1000000020, 2⟩,
      .tryDequeue 2000000000 5000000010, .deliver 6000000000 ⟨5000000010, 1⟩] :
        List (TimerEvent Nat)) := by
  have hinit : Reach isInitial step Proper (⟨[], [], false, 0, []⟩ : TimerActor Nat) :=
    .init ⟨rfl, rfl, rfl, rfl⟩
  have hlast := reach_of_checked_run hinit
    (rfl : runAll (fun s a => if Proper s a then step s a else none) _
      [.arrive (.request ⟨.seconds, 5⟩ 1), .turn 10 10, .arrive (.request ⟨.seconds, 1⟩ 2),
        .turn 20 20, .turn 2000000000 2000000000, .turn 6000000000 6000000000] = some _)
  exact (timerActor_reach hlast).1

end TimerActor

end BoostActor
