import BoostActor.Core.EventBasedActor

/-!
# What the steps of an event-based actor change

The functions of `EventBasedActor` change a few fields each. The lemmas here say which ones, so
that proofs about other fields do not unfold them.

* `next_cases` — `next` reads a message into the cache, or it takes one and calls
  `invoke_message`;
* `invokeMessage_cases` — what `invoke_message` does before user code is called;
* `ret_cases`, `step_cases` — what the end of user code does, and what all steps do;
* `postProcess_eq`, `requestTimeout_eq`, `enqueue_eq` — the fields that are written.
-/

namespace BoostActor

open Lib

/-- `filter_msg` takes the message for a system message, in all states. -/
def MailboxElement.isSys (e : MailboxElement) : Prop :=
  MessageId.isResponse e.mid = false ∧ e.sender ≠ .invalid ∧
    (e.content = .migrateTo ∨ e.content = .migrateFrom ∨ ∃ info, e.content = .get info)

namespace EventBasedActor

variable {s s' s₁ : EventBasedActor} {e : MailboxElement} {origin : Origin} {awaited : MessageId}
variable {o : Outcome}

-- -------------------------
-- The next message
-- -------------------------

/-- The message that `next` passes to `invoke_message`, if any. -/
def nextElement (s : EventBasedActor) : Option MailboxElement :=
  match s.phase with
  | .ready =>
    if s.priorityAware then s.first.head?.filter (·.isHighPriority) else s.mailbox.tryPop.1
  | .filling => if s.mailbox.tryPop.1.isSome then none else s.first.head?
  | .scanning _ => s.unvisited.head?
  | _ => none

/-- `s.Takes s₁ e origin awaited`: `next` takes `e`, which leaves `s₁`, and calls
`invoke_message` with the awaited id. -/
inductive Takes (s : EventBasedActor) : EventBasedActor → MailboxElement → Origin → MessageId →
    Prop where
  | mailbox {e : MailboxElement} {mailbox : Mailbox MailboxElement} : s.phase = .ready →
      s.priorityAware = false → s.mailbox.tryPop = (some e, mailbox) →
      Takes s { s with mailbox } e .mailbox s.requests.awaitedResponseId
  | high {e : MailboxElement} {first : List MailboxElement} : s.phase = .ready →
      s.priorityAware = true → s.first = e :: first → e.isHighPriority = true →
      Takes s { s with first } e .mailbox s.requests.awaitedResponseId
  | first {e : MailboxElement} {first : List MailboxElement}
      {mailbox : Mailbox MailboxElement} : s.phase = .filling →
      s.mailbox.tryPop = (none, mailbox) → s.first = e :: first →
      Takes s { s with mailbox, first } e .mailbox s.requests.awaitedResponseId
  | cache {e : MailboxElement} {unvisited : List MailboxElement} {mid : MessageId} :
      s.phase = .scanning mid → s.unvisited = e :: unvisited →
      Takes s { s with unvisited } e (.cache mid) mid

/-- `s.Reads s'`: `next` goes on without calling `invoke_message`. -/
inductive Reads (s : EventBasedActor) : EventBasedActor → Prop where
  | start : s.phase = .ready → s.priorityAware = true →
      s.first.head?.any (·.isHighPriority) = false → Reads s { s with phase := .filling }
  | nothing {mailbox : Mailbox MailboxElement} : s.phase = .ready → s.priorityAware = false →
      s.mailbox.tryPop = (none, mailbox) → Reads s { s with mailbox }
  | fill {e : MailboxElement} {mailbox : Mailbox MailboxElement} : s.phase = .filling →
      s.mailbox.tryPop = (some e, mailbox) →
      Reads s { s with mailbox, first := Schedule.insertFirst (·.isHighPriority) e s.first }
  | empty {mailbox : Mailbox MailboxElement} : s.phase = .filling →
      s.mailbox.tryPop = (none, mailbox) → s.first = [] →
      Reads s { s with mailbox, phase := .ready }
  | scanned {mid : MessageId} : s.phase = .scanning mid → s.unvisited = [] →
      Reads s { s with phase := .ready }

/-- The two kinds of steps. -/
theorem next_cases (h : s.next = some s') :
    (∃ s₁ e origin awaited, s.Takes s₁ e origin awaited ∧
      s' = s₁.invokeMessage e origin awaited) ∨ s.Reads s' := by
  unfold next at h
  split at h
  · next hp =>
    -- in `resume`: the high priority messages first, if the actor is aware of priorities
    split at h
    · next hprio =>
      split at h
      · next hhigh =>
        cases h
        unfold takeFirst
        cases hf : s.first with
        | nil => simp [hf] at hhigh
        | cons e first =>
          refine .inl ⟨_, _, _, _, .high hp hprio hf ?_, rfl⟩
          simpa [hf] using hhigh
      · -- the scan of the cache begins
        next hlow =>
        cases h
        exact .inr (.start hp hprio (by simpa using hlow))
    · next hprio =>
      split at h
      · next e mailbox hpop =>
        cases h
        exact .inl ⟨_, _, _, _, .mailbox hp (by simpa using hprio) hpop, rfl⟩
      · next mailbox hpop =>
        cases h
        exact .inr (.nothing hp (by simpa using hprio) hpop)
  · -- `first` is filled from the mailbox, and its first element taken
    next hp =>
    split at h
    · next e mailbox hpop =>
      cases h
      exact .inr (.fill hp hpop)
    · next mailbox hpop =>
      cases h
      unfold takeFirst
      dsimp only
      cases hf : s.first with
      | nil =>
        refine .inr ?_
        have hempty := Reads.empty hp hpop hf
        rw [hf] at hempty
        exact hempty
      | cons e first => exact .inl ⟨_, _, _, _, .first hp hpop hf, rfl⟩
  · -- a scan of the cache goes on
    next mid hp =>
    split at h
    · next e unvisited hun =>
      cases h
      exact .inl ⟨_, _, _, _, .cache hp hun, rfl⟩
    · next hun =>
      cases h
      exact .inr (.scanned hp hun)
  · cases h

/-- What is taken is the next element. -/
theorem Takes.nextElement (h : s.Takes s₁ e origin awaited) : s.nextElement = some e := by
  cases h with
  | mailbox hp hprio hpop => simp [EventBasedActor.nextElement, hp, hprio, hpop]
  | high hp hprio hf hhigh => simp [EventBasedActor.nextElement, hp, hprio, hf, hhigh]
  | first hp hpop hf => simp [EventBasedActor.nextElement, hp, hpop, hf]
  | cache hp hun => simp [EventBasedActor.nextElement, hp, hun]

/-- If nothing is taken there was no next element. -/
theorem Reads.nextElement (h : s.Reads s') : s.nextElement = none := by
  cases h with
  | start hp hprio hlow =>
    cases hf : s.first <;> simp_all [EventBasedActor.nextElement]
  | nothing hp hprio hpop => simp [EventBasedActor.nextElement, hp, hprio, hpop]
  | fill hp hpop => simp [EventBasedActor.nextElement, hp, hpop]
  | empty hp hpop hf => simp [EventBasedActor.nextElement, hp, hpop, hf]
  | scanned hp hun => simp [EventBasedActor.nextElement, hp, hun]

/-- Where an element comes from is all that taking it changes. -/
theorem Takes.eq (h : s.Takes s₁ e origin awaited) :
    ∃ mailbox first unvisited, s₁ = { s with mailbox, first, unvisited } := by
  cases h <;> exact ⟨_, _, _, rfl⟩

/-- Messages are taken in certain phases only. -/
theorem Takes.takes (h : s.Takes s₁ e origin awaited) : s.phase.takes = true := by
  cases h with
  | mailbox hp | high hp | first hp | cache hp =>
    rw [hp]
    rfl

/-- The same when nothing is taken. -/
theorem Reads.takes (h : s.Reads s') : s.phase.takes = true := by
  cases h with
  | start hp | nothing hp | fill hp | empty hp | scanned hp =>
    rw [hp]
    rfl

theorem not_ended_of_takes (h : s.phase.takes = true) : s.phase.ended = false := by
  cases hp : s.phase <;> simp_all [Phase.takes, Phase.ended]

/-- Reading moves messages between mailbox and cache, and changes the phase. -/
theorem Reads.eq (h : s.Reads s') :
    ∃ mailbox first phase, s' = { s with mailbox, first, phase } ∧
      (phase = .ready ∨ phase = .filling) := by
  cases h with
  | start => exact ⟨_, _, _, rfl, .inr rfl⟩
  | nothing hp => exact ⟨_, _, .ready, by rw [← hp], .inl rfl⟩
  | fill hp => exact ⟨_, _, .filling, by rw [← hp], .inr rfl⟩
  | empty => exact ⟨_, _, _, rfl, .inl rfl⟩
  | scanned => exact ⟨_, _, _, rfl, .inl rfl⟩

-- -------------------------
-- Fields that are written
-- -------------------------

/-- `enqueue` writes to the mailbox, or bounces. -/
theorem enqueue_eq (s : EventBasedActor) (sender : ActorAddr) (mid : MessageId)
    (content : Content) : ∃ mailbox enqueued sent,
      s.enqueue sender mid content = { s with mailbox, enqueued, sent } := by
  unfold enqueue
  dsimp only
  split
  · exact ⟨_, _, _, rfl⟩
  · exact ⟨_, _, _, rfl⟩

/-- `request_timeout` sets the flag and may send a message to the actor itself. -/
theorem requestTimeout_eq (s : EventBasedActor) (d : Option Nat) : ∃ mailbox enqueued sent,
    s.requestTimeout d =
      { s with
        hasTimeout := d.isSome
        timeoutId := if d.isSome then s.timeoutId + 2 else s.timeoutId
        mailbox
        enqueued
        sent } := by
  cases d with
  | none => exact ⟨_, _, _, rfl⟩
  | some d =>
    unfold requestTimeout
    dsimp only
    split
    · obtain ⟨mailbox, enqueued, sent, he⟩ :=
        enqueue_eq { s with hasTimeout := true, timeoutId := s.timeoutId + 2 }
          (.localActor s.ref) 0 (.timeout (s.timeoutId + 2))
      exact ⟨mailbox, enqueued, sent, he⟩
    · exact ⟨_, _, _, rfl⟩

/-- The current element, with an id that is answered at most. -/
def SameCurrent (c c' : Option MailboxElement) : Prop :=
  c' = c ∨ ∃ e, c = some e ∧ c' = some { e with mid := MessageId.markAsAnswered e.mid }

/-- A response promise takes the place of the request. -/
theorem makeResponsePromise_eq (s : EventBasedActor) : ∃ current,
    s.makeResponsePromise.2 = { s with current } ∧ SameCurrent s.current current := by
  unfold makeResponsePromise
  split
  · exact ⟨s.current, rfl, .inl rfl⟩
  · next e hc => exact ⟨_, rfl, .inr ⟨e, hc, rfl⟩⟩

/-- A response is sent at most once. -/
theorem respond_eq (s : EventBasedActor) (c : ReplyContent) : ∃ current sent,
    s.respond c = { s with current, sent } ∧ SameCurrent s.current current := by
  obtain ⟨current, he, hc⟩ := makeResponsePromise_eq s
  unfold respond
  split
  · next s₂ hp =>
    rw [hp] at he
    exact ⟨current, s.sent, he, hc⟩
  · next p s₂ hp =>
    rw [hp] at he
    refine ⟨current, s.sent ++ p.deliver c, ?_, hc⟩
    rw [show s₂ = _ from he]
    rfl

/-- A promise that is kept is taken from the current element. -/
theorem keepPromise_eq (s : EventBasedActor) : ∃ current promises,
    s.keepPromise = { s with current, promises } ∧ SameCurrent s.current current := by
  obtain ⟨current, he, hc⟩ := makeResponsePromise_eq s
  unfold keepPromise
  split
  · next s₂ hp =>
    rw [hp] at he
    exact ⟨current, s.promises, he, hc⟩
  · next p s₂ hp =>
    rw [hp] at he
    refine ⟨current, s.promises ++ [p], ?_, hc⟩
    rw [show s₂ = _ from he]

/-- The response handlers after `post_process_invoke_res`. -/
def wrapped (s : EventBasedActor) : Outcome → Requests Behavior
  | .messageId mid =>
    if (s.requests.findPendingResponse mid).isSome then
      s.requests.setResponseHandler mid ⟨none, .wrapper⟩
    else s.requests
  | _ => s.requests

theorem postProcess_eq (s : EventBasedActor) (o : Outcome) : ∃ current promises sent,
    (s.postProcess o).2 = { s with current, promises, sent, requests := s.wrapped o } ∧
      SameCurrent s.current current := by
  cases o with
  | void =>
    unfold postProcess
    dsimp only
    -- without a result, an empty message answers a request
    split
    · split
      · obtain ⟨current, sent, he, hsame⟩ := respond_eq s .empty
        exact ⟨current, s.promises, sent, he, hsame⟩
      · exact ⟨s.current, _, _, rfl, .inl rfl⟩
    · exact ⟨s.current, _, _, rfl, .inl rfl⟩
  | value =>
    obtain ⟨current, sent, he, hsame⟩ := respond_eq s .result
    exact ⟨current, s.promises, sent, he, hsame⟩
  | messageId mid =>
    -- the promise is kept until the response to the other request arrives
    unfold postProcess wrapped
    dsimp only
    split
    · obtain ⟨current, promises, he, hsame⟩ := keepPromise_eq s
      refine ⟨current, promises, s.sent, ?_, hsame⟩
      rw [he]
    · obtain ⟨current, sent, he, hsame⟩ := respond_eq s .result
      exact ⟨current, s.promises, sent, he, hsame⟩
  | skip | actorExited rsn | thrown => exact ⟨_, _, _, rfl, .inl rfl⟩

/-- Only skipped messages are not handled. -/
theorem postProcess_handled_iff (ht : o.throws = false) :
    (s.postProcess o).1 = true ↔ o ≠ .skip := by
  cases o with
  | void =>
    unfold postProcess
    dsimp only
    split
    · split <;> simp
    · simp
  | value => simp [postProcess]
  | messageId mid =>
    unfold postProcess
    dsimp only
    split <;> simp
  | skip => simp [postProcess]
  | actorExited rsn => cases ht
  | thrown => cases ht

/-- After a message was handled, the actor exits or goes on. -/
theorem success_eq (s : EventBasedActor) : s.success = { s with phase := .onExit true } ∨
    s.success = { s with
      visited := []
      unvisited := s.visited ++ s.unvisited
      phase := .scanning s.requests.awaitedResponseId } := by
  unfold success
  split
  · exact .inl rfl
  · exact .inr rfl

/-- After a message was dropped, it goes on where it was. -/
theorem dropped_eq (s : EventBasedActor) (origin : Origin) : ∃ phase,
    s.dropped origin = { s with phase } ∧
      (phase = .ready ∨ ∃ mid, origin = .cache mid ∧ phase = .scanning mid) := by
  cases origin with
  | mailbox => exact ⟨.ready, rfl, .inl rfl⟩
  | cache mid => exact ⟨.scanning mid, rfl, .inr ⟨mid, rfl, rfl⟩⟩

/-- The cache has one element more. -/
theorem mem_pushToCache {x : MailboxElement} :
    x ∈ (s.pushToCache e).visited ↔ x = e ∨ x ∈ s.visited := by
  unfold pushToCache
  split
  · have hsplit := congrArg (x ∈ ·)
      (List.takeWhile_append_dropWhile (p := (·.isHighPriority)) (l := s.visited))
    simp only [List.mem_append, eq_iff_iff] at hsplit
    simp only [List.mem_append, List.mem_cons]
    rw [← hsplit]
    tauto
  · simp [or_comm]

/-- After a message was skipped, it goes on where it was. -/
theorem skipped_eq (s : EventBasedActor) (e : MailboxElement) (origin : Origin) :
    ∃ visited phase, s.skipped e origin = { s with visited, phase } ∧
      (∀ x, x ∈ visited ↔ x = e ∨ x ∈ s.visited) ∧
      (phase = .ready ∨ ∃ mid, origin = .cache mid ∧ phase = .scanning mid) := by
  cases origin with
  | mailbox =>
    refine ⟨(s.pushToCache e).visited, .ready, ?_, fun x => mem_pushToCache, .inl rfl⟩
    unfold skipped pushToCache
    dsimp only
    split <;> rfl
  | cache mid =>
    exact ⟨_, .scanning mid, rfl, fun x => by simp [or_comm], .inr ⟨mid, rfl, rfl⟩⟩

/-- An exception ends the phase, and may plan the end of the actor. -/
theorem caught_eq (s : EventBasedActor) (o : Outcome) (job : Option Job) :
    ∃ plannedExitReason eptr,
      s.caught o job = { s with plannedExitReason, phase := .failed eptr job } := by
  unfold caught
  split
  · exact ⟨_, _, rfl⟩
  · exact ⟨_, _, rfl⟩

/-- No user code is called after the results of `invoke_message`. -/
theorem success_ne_invoking {job : Job} : s.success.phase ≠ .invoking origin job := by
  rcases s.success_eq with he | he
  · rw [he]
    nofun
  · rw [he]
    nofun

/-- No user code is called after a message was dropped. -/
theorem dropped_ne_invoking {origin' : Origin} {job : Job} :
    (s.dropped origin).phase ≠ .invoking origin' job := by
  cases origin <;> nofun

/-- No user code is called after a message was skipped. -/
theorem skipped_ne_invoking {origin' : Origin} {job : Job} :
    (s.skipped e origin).phase ≠ .invoking origin' job := by
  cases origin <;> nofun

/-- A new behavior may request a timeout. -/
theorem become_eq (s : EventBasedActor) (bhvr : Behavior) (discardOld : Bool) :
    ∃ mailbox enqueued sent, s.act (.become bhvr discardOld) =
      { s with
        behaviors := bhvr :: if discardOld then s.behaviors.tail else s.behaviors
        hasTimeout := bhvr.timeout.isSome
        timeoutId := if bhvr.timeout.isSome then s.timeoutId + 2 else s.timeoutId
        mailbox
        enqueued
        sent } := by
  obtain ⟨mailbox, enqueued, sent, he⟩ := requestTimeout_eq { s with
    behaviors := if discardOld then s.behaviors.tail else s.behaviors } bhvr.timeout
  refine ⟨mailbox, enqueued, sent, ?_⟩
  unfold act
  dsimp only
  rw [he]

/-- User code does not touch the cache. -/
theorem act_frame (s : EventBasedActor) (a : Action) : (s.act a).visited = s.visited ∧
    (s.act a).unvisited = s.unvisited ∧ (s.act a).phase = s.phase ∧
    ((s.act a).current = none ∨ SameCurrent s.current (s.act a).current) := by
  cases a with
  | become bhvr discardOld =>
    obtain ⟨mailbox, enqueued, sent, he⟩ := s.become_eq bhvr discardOld
    rw [he]
    exact ⟨rfl, rfl, rfl, .inr (.inl rfl)⟩
  | makeResponsePromise =>
    obtain ⟨current, promises, he, hc⟩ := s.keepPromise_eq
    rw [show s.act .makeResponsePromise = s.keepPromise from rfl, he]
    exact ⟨rfl, rfl, rfl, .inr hc⟩
  | relay r => exact ⟨rfl, rfl, rfl, .inl rfl⟩
  | request mp | setResponseHandler mid bhvr | unbecome | quit rsn | trapExit value
  | onSyncFailure value | isMigratedFrom value => exact ⟨rfl, rfl, rfl, .inr (.inl rfl)⟩

/-- The element of a handler stays the same, or it is gone. -/
theorem current_frame {P : MailboxElement → Prop} {c c' : Option MailboxElement}
    (h : ∀ e ∈ c, P e) (hm : ∀ e, P e → P { e with mid := MessageId.markAsAnswered e.mid })
    (hc : c' = none ∨ SameCurrent c c') : ∀ e ∈ c', P e := by
  intro e he
  rcases hc with rfl | rfl | ⟨x, hx, rfl⟩
  · cases he
  · exact h e he
  · cases he
    exact hm x (h x hx)

-- -------------------------
-- `invoke_message`
-- -------------------------

/-- What is taken for a system message is one. -/
theorem filterMsg_sysMessage (h : s.filterMsg e = .sysMessage) : e.isSys := by
  have hfits := s.filterMsg_fits e
  rw [h] at hfits
  refine ⟨?_, hfits⟩
  cases hr : MessageId.isResponse e.mid with
  | false => rfl
  | true =>
    simp only [filterMsg, hr, if_true] at h
    split at h <;> cases h

theorem not_isSys_of_ordinary (h : s.filterMsg e = .ordinary) : ¬ e.isSys := by
  rintro ⟨hr, hs, hc⟩
  simp only [filterMsg, hr, Bool.false_eq_true, if_false] at h
  rcases hc with hc | hc | ⟨info, hc⟩
  · simp [hc, hs] at h
  · simp [hc, hs] at h
  · simp [hc, hs] at h

theorem not_isSys_of_response (h : s.filterMsg e = .syncResponse) : ¬ e.isSys := by
  intro hsys
  have hfits := s.filterMsg_fits e
  rw [h] at hfits
  have hresp : MessageId.isResponse e.mid = true := hfits.1
  rw [hsys.1] at hresp
  cases hresp

/-- A timeout message is passed on if it is the active one. -/
theorem filterMsg_timeout (h : s.filterMsg e = .timeout) :
    ∃ tid, e.content = .timeout tid ∧ s.isActiveTimeout tid = true := by
  unfold filterMsg at h
  split at h
  · split at h <;> cases h
  · split at h
    · split at h <;> cases h
    · split at h <;> cases h
    · split at h <;> cases h
    · next tid hc =>
      split at h
      · next ha => exact ⟨tid, hc, ha⟩
      · cases h
    · split_ifs at h
    · cases h
    · cases h

/-- `s.Invoked e origin awaited s'`: what `invoke_message` makes of `s`, up to the point where user
code is called. -/
inductive Invoked (s : EventBasedActor) (e : MailboxElement) (origin : Origin)
    (awaited : MessageId) : EventBasedActor → Prop where
  | dropped : s.filterMsg e ≠ .ordinary → s.filterMsg e ≠ .syncResponse →
      s.filterMsg e ≠ .sysMessage → Invoked s e origin awaited (s.dropped origin)
  | replied {content : ReplyContent} : e.isSys → Invoked s e origin awaited
      ((s.send [e.reply content]).dropped origin)
  | skipped : s.filterMsg e = .ordinary ∧ MessageId.valid awaited = true ∨
      s.filterMsg e = .syncResponse ∧ (MessageId.valid awaited = true → e.mid ≠ awaited) →
      Invoked s e origin awaited (s.skipped e origin)
  | saveState : e.isSys → e.content = .migrateTo → s.serializable = true →
      Invoked s e origin awaited { s with phase := .invoking origin (.saveState e) }
  | loadState : e.isSys → e.content = .migrateFrom → Invoked s e origin awaited
      { s with
        behaviors := if s.migratedFrom then s.behaviors.tail else s.behaviors
        migratedFrom := false
        phase := .invoking origin (.loadState e) }
  | exit {rsn : ExitReason} : s.filterMsg e = .nonNormalExit rsn →
      Invoked s e origin awaited (s.quit rsn).success
  | timeout : s.filterMsg e = .timeout → awaited = 0 →
      Invoked s e origin awaited { s with phase := .invoking origin .timeout }
  | message : s.filterMsg e = .ordinary → MessageId.valid awaited = false →
      Invoked s e origin awaited
        ({ s with hasTimeout := false }.invoke e origin (.message s.hasTimeout s.current))
  | response : s.filterMsg e = .syncResponse → e.mid = awaited →
      Invoked s e origin awaited (s.invoke e origin (.response awaited s.current))
  | syncTimeout {d : Nat} : s.filterMsg e = .syncResponse → e.mid = awaited →
      ((s.requests.findPendingResponse awaited).bind (·.2)).bind (·.timeout) = some d →
      Invoked s e origin awaited (s.invoke e origin (.syncTimeout awaited s.current))
  | arrived : s.filterMsg e = .syncResponse → e.mid = awaited → Invoked s e origin awaited
      ((s.invoke e origin (.syncTimeout awaited s.current)).finishResponse awaited s.current)

/-- A system message is answered, or makes user code run. -/
theorem handleSysMessage_cases (h : s.filterMsg e = .sysMessage) :
    s.Invoked e origin awaited (s.handleSysMessage e origin) := by
  have hsys := filterMsg_sysMessage h
  unfold handleSysMessage
  split
  · next hc =>
    split
    · next hser => exact .saveState hsys hc hser
    · exact .replied hsys
  · next hc =>
    split
    · exact .loadState hsys hc
    · exact .replied hsys
  · exact .replied hsys
  · next hto hfrom hget =>
    rcases hsys.2.2 with hc | hc | ⟨info, hc⟩
    · exact absurd hc hto
    · exact absurd hc hfrom
    · exact absurd hc (hget info)

/-- A response is passed to the handler that awaits it. -/
theorem handleResponse_cases (h : s.filterMsg e = .syncResponse) (he : e.mid = awaited) :
    s.Invoked e origin awaited (s.handleResponse e origin awaited) := by
  unfold handleResponse
  split
  · split
    · next d hd => exact .syncTimeout h he hd
    · exact .arrived h he
  · exact .response h he

/-- What becomes of a message that was taken. -/
theorem invokeMessage_cases (s : EventBasedActor) (e : MailboxElement) (origin : Origin)
    (awaited : MessageId) : s.Invoked e origin awaited (s.invokeMessage e origin awaited) := by
  unfold invokeMessage
  cases hf : s.filterMsg e with
  | normalExit | expiredSyncResponse | expiredTimeout =>
    exact .dropped (by simp [hf]) (by simp [hf]) (by simp [hf])
  | sysMessage => exact handleSysMessage_cases hf
  | nonNormalExit rsn => exact .exit hf
  | timeout =>
    dsimp only
    split
    · next h0 => exact .timeout hf h0
    · exact .dropped (by simp [hf]) (by simp [hf]) (by simp [hf])
  | syncResponse =>
    dsimp only
    -- only the response that is awaited is handled
    split
    · next h =>
      rw [Bool.and_eq_true, decide_eq_true_eq] at h
      exact handleResponse_cases hf h.2
    · next h => exact .skipped (.inr ⟨hf, fun hv he => h (by simp [hv, he])⟩)
  | ordinary =>
    -- while a response is awaited, other messages are skipped
    dsimp only
    split
    · next hv => exact .skipped (.inl ⟨hf, hv⟩)
    · next hv => exact .message hf (by simpa using hv)

-- -------------------------
-- The end of user code
-- -------------------------

/-- `s.Returned o s'`: what the end of user code makes of `s`. -/
inductive Returned (s : EventBasedActor) (o : Outcome) : EventBasedActor → Prop where
  | initialized {phase : Phase} : s.phase = .initializing → o.throws = false →
      s.isDone = true ∧ phase = .onExit true ∨ s.isDone = false ∧ phase = .ready →
      Returned s o { s with phase }
  | caught {job : Option Job} : o.throws = true →
      (s.phase = .initializing ∨ s.phase = .onExit true) ∧ job = none ∨
        (∃ origin x, s.phase = .invoking origin x ∧ job = some x) →
      Returned s o (s.caught o job)
  | cleanup {inTry : Bool} : s.phase = .onExit inTry → Returned s o s.cleanup
  | handled {origin : Origin} {hadTimeout : Bool} {ptr : Option MailboxElement} :
      s.phase = .invoking origin (.message hadTimeout ptr) → o.throws = false → o ≠ .skip →
      Returned s o { (s.postProcess o).2 with current := ptr }.success
  | skipped {origin : Origin} {hadTimeout : Bool} {ptr : Option MailboxElement}
      {e : MailboxElement} : s.phase = .invoking origin (.message hadTimeout ptr) → o = .skip →
      s.current = some e → Returned s o
        ({ s with current := ptr, hasTimeout := hadTimeout || s.hasTimeout }.skipped e origin)
  /-- the current element is gone -/
  | gone {mid : MessageId} {hadTimeout : Bool} {ptr : Option MailboxElement} :
      s.phase = .invoking (.cache mid) (.message hadTimeout ptr) → o = .skip →
      s.current = none → Returned s o
        { s with
          current := ptr
          hasTimeout := hadTimeout || s.hasTimeout
          phase := .scanning mid }
  | response {origin : Origin} {awaited : MessageId} {ptr : Option MailboxElement} :
      s.phase = .invoking origin (.response awaited ptr) → o.throws = false → o ≠ .skip →
      Returned s o ((s.postProcess o).2.finishResponse awaited ptr)
  | failure {origin : Origin} {awaited : MessageId} {ptr : Option MailboxElement} :
      s.phase = .invoking origin (.response awaited ptr) → o = .skip →
      Returned s o { s with phase := .invoking origin (.syncFailure awaited ptr) }
  | unhandled {origin : Origin} {awaited : MessageId} {ptr : Option MailboxElement} :
      s.phase = .invoking origin (.response awaited ptr) → o = .skip →
      Returned s o ((s.quit ExitReason.unhandledSyncFailure).finishResponse awaited ptr)
  | arrived {origin : Origin} {job : Job} {awaited : MessageId} {ptr : Option MailboxElement} :
      s.phase = .invoking origin job →
      job = .syncTimeout awaited ptr ∨ job = .syncFailure awaited ptr → o.throws = false →
      Returned s o (s.finishResponse awaited ptr)
  | timeout {origin : Origin} : s.phase = .invoking origin .timeout → o.throws = false →
      Returned s o s.success
  | saved {origin : Origin} {e : MailboxElement} : s.phase = .invoking origin (.saveState e) →
      o.throws = false → Returned s o
        ({ s with requests := s.requests.syncSendThen .normal ⟨none, .migration⟩ }.dropped origin)
  | loaded {origin : Origin} {e : MailboxElement} : s.phase = .invoking origin (.loadState e) →
      o.throws = false → Returned s o ((s.send [e.reply (.system true)]).dropped origin)

/-- User code runs only before the end. -/
theorem Returned.not_ended (h : s.Returned o s') : s.phase.ended = false := by
  cases h with
  | caught _ hp =>
    rcases hp with ⟨hp | hp, -⟩ | ⟨origin, job, hp, -⟩
    · rw [hp]
      rfl
    · rw [hp]
      rfl
    · rw [hp]
      rfl
  | initialized hp | cleanup hp | handled hp | skipped hp | gone hp | response hp | failure hp
  | unhandled hp | arrived hp | timeout hp | saved hp | loaded hp =>
    rw [hp]
    rfl

/-- The handler for a message has returned. -/
theorem finishMessage_cases {hadTimeout : Bool} {ptr : Option MailboxElement}
    (hp : s.phase = .invoking origin (.message hadTimeout ptr)) (ho : o.throws = false)
    (h : s.finishMessage origin hadTimeout ptr o = some s') : s.Returned o s' := by
  by_cases hsk : o = .skip
  · subst hsk
    unfold finishMessage postProcess at h
    simp only [Bool.false_eq_true, if_false] at h
    split at h
    · next e hc =>
      cases h
      exact .skipped hp rfl hc
    · next mid hc =>
      cases h
      exact .gone hp rfl hc
    · cases h
  · have hhandled : (s.postProcess o).1 = true := (postProcess_handled_iff ho).mpr hsk
    unfold finishMessage at h
    simp only [hhandled, if_true] at h
    cases h
    exact .handled hp ho hsk

/-- User code for a message, a response or a migration has returned. -/
theorem finish_cases {job : Job} (hp : s.phase = .invoking origin job) (ho : o.throws = false)
    (h : s.finish origin job o = some s') : s.Returned o s' := by
  unfold finish at h
  cases job with
  | message hadTimeout ptr => exact finishMessage_cases hp ho h
  | response awaited ptr =>
    dsimp only at h
    split at h
    · next hhandled =>
      cases h
      exact .response hp ho ((postProcess_handled_iff ho).mp hhandled)
    · -- a handler for a response that does not match counts as a failure
      next hhandled =>
      have hsk : o = .skip := by
        by_contra hne
        exact hhandled ((postProcess_handled_iff ho).mpr hne)
      subst hsk
      split at h
      · cases h
        exact .failure hp rfl
      · cases h
        exact .unhandled hp rfl
  | syncTimeout awaited ptr =>
    cases h
    exact .arrived hp (.inl rfl) ho
  | syncFailure awaited ptr =>
    cases h
    exact .arrived hp (.inr rfl) ho
  | timeout =>
    cases h
    exact .timeout hp ho
  | saveState e =>
    cases h
    exact .saved hp ho
  | loadState e =>
    cases h
    exact .loaded hp ho

/-- User code has returned or thrown. -/
theorem ret_cases (h : s.ret o = some s') : s.Returned o s' := by
  unfold ret at h
  split at h
  · -- the actor was being initialized
    next hp =>
    split at h
    · next ho =>
      cases h
      exact .caught ho (.inl ⟨.inl hp, rfl⟩)
    · next ho =>
      cases h
      refine .initialized hp (by simpa using ho) ?_
      cases hd : s.isDone with
      | true => exact .inl ⟨rfl, rfl⟩
      | false => exact .inr ⟨rfl, rfl⟩
  · -- a message was being handled
    next origin job hp =>
    split at h
    · next ho =>
      cases h
      exact .caught ho (.inr ⟨origin, job, hp, rfl⟩)
    · next ho => exact finish_cases hp (by simpa using ho) h
  · -- `on_exit` was running; what it throws is caught only inside of the loop
    next inTry hp =>
    split at h
    · next ho =>
      split at h
      · next hin =>
        cases h
        exact .caught ho (.inl ⟨.inr (by rw [hp, hin]), rfl⟩)
      · cases h
    · cases h
      exact .cleanup hp
  · cases h

-- -------------------------
-- Steps
-- -------------------------

/-- `s.Stepped l s'`: what a step makes of `s`. -/
inductive Stepped (s : EventBasedActor) : Label → EventBasedActor → Prop where
  | enqueue {sender : ActorAddr} {mid : MessageId} {content : Content} :
      Stepped s (.enqueue sender mid content) (s.enqueue sender mid content)
  | act {a : Action} : s.phase.running = true → Stepped s (.act a) (s.act a)
  | ret {o : Outcome} {s' : EventBasedActor} : s.Returned o s' → Stepped s (.ret o) s'
  | takes {s₁ s' : EventBasedActor} {e : MailboxElement} {origin : Origin} {awaited : MessageId} :
      s.Takes s₁ e origin awaited → s₁.Invoked e origin awaited s' → Stepped s .next s'
  | reads {s' : EventBasedActor} : s.Reads s' → Stepped s .next s'
  | resetTimeout : s.phase = .ready →
      Stepped s .resetTimeout (s.requestTimeout (s.getBehavior.bind (·.timeout)))
  | block : s.phase = .ready → Stepped s .block { s with mailbox := s.mailbox.tryBlock.2 }
  | handle {rsn : Option ExitReason} {eptr : Bool} {job : Option Job} {phase : Phase} :
      s.phase = .failed eptr job → phase = .onExit false ∨
        phase = .ready ∧ rsn.getD s.plannedExitReason = ExitReason.notExited →
      Stepped s (.handle rsn)
        { s with
          plannedExitReason := rsn.getD s.plannedExitReason
          visited := s.visited ++ s.unvisited
          unvisited := []
          phase }
  | exit : s.phase = .closed →
      Stepped s .exit { s with exitReason := s.plannedExitReason, phase := .exited }
  | deliver {i : Nat} {p : ResponsePromise} : s.promises[i]? = some p →
      Stepped s (.deliver i) (s.send (p.deliver .result))

/-- What a step can be, with its guards. -/
theorem step_cases {l : Label} (h : s.step l = some s') : s.Stepped l s' := by
  cases l with
  | enqueue sender mid content =>
    cases h
    exact .enqueue
  | act a =>
    simp only [step] at h
    split at h
    · next hp =>
      cases h
      exact .act hp
    · cases h
  | ret o => exact .ret (ret_cases h)
  | next =>
    rcases next_cases h with ⟨s₁, e, origin, awaited, ht, rfl⟩ | hr
    · exact .takes ht (s₁.invokeMessage_cases e origin awaited)
    · exact .reads hr
  | resetTimeout =>
    simp only [step, EventBasedActor.resetTimeout] at h
    split at h
    · next hp =>
      cases h
      exact .resetTimeout hp
    · cases h
  | block =>
    simp only [step, EventBasedActor.block] at h
    split at h
    · next hp =>
      cases h
      exact .block hp
    · cases h
  | handle rsn =>
    -- an exception handler decides whether the actor goes on
    simp only [step, EventBasedActor.handle] at h
    split at h
    · next eptr job hp =>
      split at h
      · cases h
      · cases h
        refine .handle hp ?_
        split
        · exact .inl rfl
        · next hd =>
          simp only [isDone, quit, Bool.or_eq_true, not_or] at hd
          exact .inr ⟨rfl, not_not.mp fun hne => hd.2 (decide_eq_true hne)⟩
    · cases h
  | exit =>
    simp only [step] at h
    split at h
    · next hp =>
      cases h
      exact .exit hp
    · cases h
  | deliver i =>
    obtain ⟨p, hp, rfl⟩ := Option.map_eq_some_iff.mp h
    exact .deliver hp

end EventBasedActor

end BoostActor
