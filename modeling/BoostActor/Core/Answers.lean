import BoostActor.Core.ActorSteps

/-!
# Requests and the replies to them

A request that an actor has received is in one place at a time: in the mailbox, in the
first partition of its cache, on either side of the iterator in the second one, or in the
hand of a handler. When it leaves the actor, exactly one reply is sent. The exception is a
handler that throws: the request stays behind as the current element, and is destroyed
without a reply.

* `Passes` — what happens to the elements of an actor in a step;
* `Accounted` — the invariant: the replies are those to the elements that have left;
* `request_answered_once` — after the actor has terminated, every request has been
  answered exactly once, if no handler throws while it works on a request.
-/

namespace BoostActor

open Lib

-- -------------------------
-- Replies to elements
-- -------------------------

/-- The replies to elements, in their order: one to each request. -/
inductive Answers : List MailboxElement → List Reply → Prop where
  | nil : Answers [] []
  | silent {e : MailboxElement} {es : List MailboxElement} {rs : List Reply}
      (h : e.asked = false) : Answers es rs → Answers (e :: es) rs
  | reply {e : MailboxElement} {es : List MailboxElement} {rs : List Reply} (c : ReplyContent)
      (h : e.asked = true) : Answers es rs → Answers (e :: es) (e.reply c :: rs)

namespace Answers

variable {e : MailboxElement} {es es' : List MailboxElement} {rs rs' : List Reply}

/-- Two lists are answered one after the other. -/
theorem append (h : Answers es rs) (h' : Answers es' rs') : Answers (es ++ es') (rs ++ rs') := by
  induction h with
  | nil => exact h'
  | silent ha _ ih => exact .silent ha ih
  | reply c ha _ ih => exact .reply c ha ih

/-- Whoever gets a reply has asked. -/
theorem serial_mem (h : Answers es rs) {r : Reply} (hr : r ∈ rs) :
    r.serial ∈ es.map (·.serial) := by
  induction h with
  | nil => cases hr
  | silent _ _ ih => exact List.mem_cons_of_mem _ (ih hr)
  | reply c _ _ ih =>
    rcases List.mem_cons.mp hr with rfl | hr
    · exact List.mem_cons_self ..
    · exact List.mem_cons_of_mem _ (ih hr)

theorem filter_eq_nil (h : Answers es rs) {n : Nat} (hn : n ∉ es.map (·.serial)) :
    rs.filter (·.serial = n) = [] := by
  rw [List.filter_eq_nil_iff]
  intro r hr he
  exact hn (of_decide_eq_true he ▸ h.serial_mem hr)

/-- Those who have not asked get no reply. -/
theorem of_silent (h : ∀ e ∈ es, e.asked = false) : Answers es [] := by
  induction es with
  | nil => exact .nil
  | cons e es ih =>
    exact .silent (h e (List.mem_cons_self ..)) (ih fun e he => h e (List.mem_cons_of_mem _ he))

/-- Numbers are unique, so every request finds its own reply. -/
theorem exactly_one (h : Answers es rs) (hn : (es.map (·.serial)).Nodup) (he : e ∈ es)
    (ha : e.asked = true) : ∃ c, rs.filter (·.serial = e.serial) = [e.reply c] := by
  induction h with
  | nil => cases he
  | @silent e' es rs ha' _ ih =>
    rcases List.mem_cons.mp he with rfl | he
    · rw [ha] at ha'
      -- the element asked for is another one
      cases ha'
    · exact ih (List.nodup_cons.mp hn).2 he
  | @reply e' es rs c ha' hes ih =>
    obtain ⟨hout, hn⟩ := List.nodup_cons.mp hn
    -- this is the one reply; the serials differ, so the rest is for others
    rcases List.mem_cons.mp he with rfl | he
    · refine ⟨c, ?_⟩
      have hrest := hes.filter_eq_nil hout
      simp [MailboxElement.reply, hrest]
    · have hne : e'.serial ≠ e.serial := by
        intro heq
        refine hout ?_
        show e'.serial ∈ _
        rw [heq]
        exact List.mem_map_of_mem he
      obtain ⟨c', hc'⟩ := ih hn he
      exact ⟨c', by simpa [MailboxElement.reply, hne] using hc'⟩

end Answers

namespace MailboxElement

variable {e : MailboxElement} {rsn : ExitReason}

-- -------------------------
-- Requests
-- -------------------------

theorem isRequest_of_asked (h : e.asked = true) : MessageId.isRequest e.mid = true := by
  simp only [asked, Bool.and_eq_true] at h
  exact h.2

theorem asked_of_isResponse (h : MessageId.isResponse e.mid = true) : e.asked = false := by
  simp [asked, MessageId.isRequest, h]

/-- The reply to an element, if it is a request. -/
def answer (e : MailboxElement) (c : ReplyContent) : List Reply :=
  if e.asked then [e.reply c] else []

/-- A request is answered by one reply. -/
theorem answers_answer (e : MailboxElement) (c : ReplyContent) : Answers [e] (e.answer c) := by
  unfold answer
  split
  · next h => exact .reply c h .nil
  · next h => exact .silent (by simpa using h) .nil

/-- Only replies to requests are responses. -/
theorem responses_reply (h : e.sender ≠ .invalid) (c : ReplyContent) :
    responses [e.reply c] = e.answer c := by
  cases hr : MessageId.isRequest e.mid with
  | true => simp [responses, answer, asked, reply, h, hr, MessageId.isResponse_responseId hr]
  | false =>
    have hzero : MessageId.isResponse 0 = false := by decide
    simp [responses, answer, asked, reply, h, hr, MessageId.responseId_eq_zero hr, hzero]

/-- A promise that is delivered is the answer. -/
theorem responses_deliver (c : ReplyContent) : responses (ResponsePromise.deliver
    ⟨e.serial, e.sender, MessageId.responseId e.mid⟩ c) = e.answer c := by
  by_cases h : e.sender = .invalid
  · simp [ResponsePromise.deliver, answer, asked, h, responses]
  · rw [ResponsePromise.deliver, if_neg h]
    exact responses_reply h c

/-- A bounced request is answered with an error. -/
theorem responses_bounce : responses (e.bounce rsn) = e.answer (.exited (bouncedReason rsn)) := by
  unfold bounce
  split
  · next h =>
    simp only [Bool.and_eq_true, decide_eq_true_eq] at h
    exact responses_reply h.1 _
  · next h =>
    have ha : e.asked = false := Bool.eq_false_iff.mpr h
    simp [answer, ha, responses]

end MailboxElement

@[simp] theorem responses_append (rs rs' : List Reply) :
    responses (rs ++ rs') = responses rs ++ responses rs' := List.filter_append ..

/-- Bouncing answers everything. -/
theorem answers_bounce (rsn : ExitReason) (es : List MailboxElement) :
    Answers es (responses (es.flatMap (·.bounce rsn))) := by
  induction es with
  | nil => exact .nil
  | cons e es ih =>
    rw [List.flatMap_cons, responses_append, MailboxElement.responses_bounce]
    exact (e.answers_answer _).append ih

namespace EventBasedActor

-- -------------------------
-- The elements of an actor
-- -------------------------

/-- The elements in the mailbox and in its cache. -/
def stored (s : EventBasedActor) : List MailboxElement :=
  s.mailbox.unread ++ s.first ++ s.visited ++ s.unvisited

/-- The element that user code is working on. -/
def inHand (s : EventBasedActor) : Option MailboxElement :=
  match s.phase with
  | .invoking _ (.saveState e) | .invoking _ (.loadState e) => some e
  | .invoking _ .timeout => none
  | .invoking _ _ => s.current
  | _ => none

/-- All elements of an actor that have not been dealt with. An element that a handler threw
on is not among them. -/
def held (s : EventBasedActor) : List MailboxElement := s.stored ++ s.inHand.toList

/-- What user code is called for: handlers of responses and `save_state` do not work on
requests, and there is someone to answer after `load_state`. -/
structure Handles (s : EventBasedActor) : Prop where
  response : ∀ origin job e, s.phase = .invoking origin job → job.awaited.isSome = true →
    s.current = some e → e.asked = false
  saveState : ∀ origin e, s.phase = .invoking origin (.saveState e) → e.asked = false
  loadState : ∀ origin e, s.phase = .invoking origin (.loadState e) → e.sender ≠ .invalid

end EventBasedActor

/-- The contents that a request can have. Neither timeouts nor exit messages are requests,
as `filter_msg` asserts, and migration takes a promise. -/
def Content.regular (serializable : Bool) : Content → Bool
  | .timeout _ | .exit _ => false
  | .migrateTo => !serializable
  | _ => true

/-- A request that has not been answered by someone else before. -/
def MailboxElement.regular (serializable : Bool) (e : MailboxElement) : Prop :=
  e.asked = true → MessageId.isAnswered e.mid = false ∧ e.content.regular serializable = true

instance (serializable : Bool) (e : MailboxElement) : Decidable (e.regular serializable) :=
  inferInstanceAs (Decidable (_ → _))

namespace EventBasedActor

/-- How the elements of an actor fare from `s` to `s'`, when it has those of `es` in the
beginning: some arrive, some leave with the replies to them, and it has the others in the
end. -/
structure Passes (es : List MailboxElement) (s s' : EventBasedActor) : Prop where
  serializable : s'.serializable = s.serializable
  promises : s'.promises = s.promises
  handles : s'.Handles
  moved : ∃ arrived gone rs, s'.enqueued = s.enqueued ++ arrived ∧
    arrived.map (·.serial) = List.range' s.enqueued.length arrived.length ∧
    (∀ e ∈ arrived, e.regular s.serializable) ∧
    (es ++ arrived).Perm (gone ++ s'.held) ∧
    responses s'.sent = responses s.sent ++ rs ∧ Answers gone rs

namespace Passes

variable {e : MailboxElement} {es : List MailboxElement} {s s' s'' : EventBasedActor}

/-- Two passes in a row, of the elements that the first one leaves. -/
theorem trans (h : Passes es s s') (h' : Passes s'.held s' s'') : Passes es s s'' := by
  obtain ⟨arrived, gone, rs, hen, hser, hreg, hperm, hresp, hans⟩ := h.moved
  obtain ⟨arrived', gone', rs', hen', hser', hreg', hperm', hresp', hans'⟩ := h'.moved
  refine ⟨h'.serializable.trans h.serializable, h'.promises.trans h.promises,
    h'.handles, arrived ++ arrived', gone ++ gone', rs ++ rs', ?_, ?_, ?_, ?_, ?_, ?_⟩
  · rw [hen', hen, List.append_assoc]
  · rw [List.map_append, hser, hser', hen, List.length_append, List.length_append,
      List.range'_append_1]
  · intro e he
    rcases List.mem_append.mp he with he | he
    · exact hreg e he
    · exact h.serializable ▸ hreg' e he
  · rw [List.perm_iff_count] at hperm hperm' ⊢
    intro e
    have h1 := hperm e
    have h2 := hperm' e
    simp only [List.count_append] at h1 h2 ⊢
    omega
  · rw [hresp', hresp, List.append_assoc]
  · exact hans.append hans'

/-- Nothing arrives or leaves. -/
theorem of_perm (hser : s'.serializable = s.serializable) (hpr : s'.promises = s.promises)
    (hhr : s'.Handles) (hen : s'.enqueued = s.enqueued) (hsent : s'.sent = s.sent)
    (hperm : es.Perm s'.held) : Passes es s s' :=
  ⟨hser, hpr, hhr, [], [], [], by simpa using hen, rfl, by simp, by simpa using hperm,
    by simp [hsent], .nil⟩

/-- Some elements leave. -/
theorem leave (gone : List MailboxElement) (rs : List Reply)
    (hser : s'.serializable = s.serializable) (hpr : s'.promises = s.promises)
    (hhr : s'.Handles) (hen : s'.enqueued = s.enqueued)
    (hresp : responses s'.sent = responses s.sent ++ rs) (hans : Answers gone rs)
    (hperm : es.Perm (gone ++ s'.held)) : Passes es s s' :=
  ⟨hser, hpr, hhr, [], gone, rs, by simpa using hen, rfl, by simp, by simpa using hperm, hresp,
    hans⟩

/-- Some elements have left before, with the replies to them. -/
theorem answered {s₁ : EventBasedActor} {gone : List MailboxElement} {rs : List Reply}
    (h : Passes es s₁ s') (hser : s₁.serializable = s.serializable)
    (hpr : s₁.promises = s.promises) (hen : s₁.enqueued = s.enqueued)
    (hresp : responses s₁.sent = responses s.sent ++ rs) (hans : Answers gone rs) :
    Passes (gone ++ es) s s' := by
  obtain ⟨hser', hpr', hhr, arrived, gone', rs', hen', hnum, hreg, hperm, hresp', hans'⟩ := h
  rw [hser] at hser' hreg
  rw [hen] at hen' hnum
  refine ⟨hser', hpr'.trans hpr, hhr, arrived, gone ++ gone', rs ++ rs', hen', hnum, hreg, ?_, ?_,
    hans.append hans'⟩
  · rw [List.append_assoc, List.append_assoc]
    exact hperm.append_left gone
  · rw [hresp', hresp, List.append_assoc]

/-- The beginning matters only for what it records. -/
theorem rebase {s₁ : EventBasedActor} (h : Passes es s₁ s')
    (hser : s₁.serializable = s.serializable)
    (hpr : s₁.promises = s.promises) (hen : s₁.enqueued = s.enqueued) (hsent : s₁.sent = s.sent) :
    Passes es s s' :=
  h.answered hser hpr hen (by rw [hsent, List.append_nil]) .nil

/-- An element that nobody waits for leaves. -/
theorem silent (h : Passes es s s') (ha : e.asked = false) : Passes (e :: es) s s' :=
  h.answered rfl rfl rfl (List.append_nil _).symm (.silent ha .nil)

/-- The order of the elements does not matter. -/
theorem perm {es' : List MailboxElement} (h : Passes es s s') (hp : es'.Perm es) :
    Passes es' s s' := by
  obtain ⟨arrived, gone, rs, hen, hnum, hreg, hperm, hresp, hans⟩ := h.moved
  exact ⟨h.serializable, h.promises, h.handles, arrived, gone, rs, hen, hnum, hreg,
    (hp.append_right arrived).trans hperm, hresp, hans⟩

end Passes

-- -------------------------
-- Results of `invoke_message`
-- -------------------------

variable {s s' : EventBasedActor} {e : MailboxElement} {origin : Origin}

theorem handles_of (h : ∀ origin job, s.phase ≠ .invoking origin job) : s.Handles :=
  ⟨fun origin job _ hp => absurd hp (h origin job), fun origin _ hp => absurd hp (h origin _),
    fun origin _ hp => absurd hp (h origin _)⟩

/-- While no user code runs, all elements are stored. -/
theorem held_of (h : ∀ origin job, s.phase ≠ .invoking origin job) : s.held = s.stored := by
  have hnone : s.inHand = none := by
    unfold inHand
    split <;> simp_all
  simp [held, hnone]

/-- Dropping an element keeps the others. -/
theorem dropped_passes : Passes s.stored s (s.dropped origin) := by
  cases origin with
  | mailbox =>
    have hp : ∀ o j, (s.dropped .mailbox).phase ≠ .invoking o j := by simp [dropped]
    refine .of_perm rfl rfl (handles_of hp) rfl rfl ?_
    rw [held_of hp]
    exact List.Perm.refl _
  | cache mid =>
    have hp : ∀ o j, (s.dropped (.cache mid)).phase ≠ .invoking o j := by simp [dropped]
    refine .of_perm rfl rfl (handles_of hp) rfl rfl ?_
    rw [held_of hp]
    exact List.Perm.refl _

/-- An element is put into the cache. -/
theorem pushToCache_stored : (s.pushToCache e).stored.Perm (e :: s.stored) := by
  rw [List.perm_iff_count]
  intro x
  unfold pushToCache
  split
  · have hsplit := congrArg (List.count x)
      (List.takeWhile_append_dropWhile (p := (·.isHighPriority)) (l := s.visited))
    simp only [List.count_append] at hsplit
    simp only [stored, List.count_append, List.count_cons]
    omega
  · simp only [stored, List.count_append, List.count_cons, List.count_nil]
    omega

/-- A skipped element is stored again. -/
theorem skipped_passes : Passes (e :: s.stored) s (s.skipped e origin) := by
  cases origin with
  | mailbox =>
    have hsame : (s.pushToCache e).serializable = s.serializable ∧
        (s.pushToCache e).promises = s.promises ∧ (s.pushToCache e).enqueued = s.enqueued ∧
        (s.pushToCache e).sent = s.sent := by
      unfold pushToCache
      split <;> exact ⟨rfl, rfl, rfl, rfl⟩
    obtain ⟨h1, h2, h3, h4⟩ := hsame
    have hp : ∀ o j, (s.skipped e .mailbox).phase ≠ .invoking o j := by simp [skipped]
    refine .of_perm h1 h2 (handles_of hp) h3 h4 ?_
    rw [held_of hp]
    exact pushToCache_stored.symm
  | cache mid =>
    have hp : ∀ o j, (s.skipped e (.cache mid)).phase ≠ .invoking o j := by simp [skipped]
    refine .of_perm rfl rfl (handles_of hp) rfl rfl ?_
    rw [held_of hp, List.perm_iff_count]
    intro x
    simp only [skipped, stored, List.count_append, List.count_cons, List.count_nil]
    omega

/-- The end of a handler keeps what is stored. -/
theorem success_passes : Passes s.stored s s.success := by
  have hp : ∀ o j, s.success.phase ≠ .invoking o j := fun o j => success_ne_invoking
  rcases s.success_eq with he | he
  · rw [he] at hp ⊢
    refine .of_perm rfl rfl (handles_of hp) rfl rfl ?_
    rw [held_of hp]
    exact List.Perm.refl _
  · rw [he] at hp ⊢
    refine .of_perm rfl rfl (handles_of hp) rfl rfl ?_
    rw [held_of hp]
    simp [stored]

/-- What is left is bounced. -/
theorem cleanup_passes : Passes s.stored s s.cleanup := by
  have hp : ∀ o j, s.cleanup.phase ≠ .invoking o j := by simp [cleanup]
  have hnone : s.cleanup.stored = [] := rfl
  refine .leave s.stored _ rfl rfl (handles_of hp) rfl ?_
    (answers_bounce (bouncedReason s.plannedExitReason) s.stored) ?_
  · exact responses_append ..
  · rw [held_of hp, hnone, List.append_nil]

/-- A system message that is answered at once. -/
theorem replied_passes (hs : e.sender ≠ .invalid) (c : ReplyContent) :
    Passes (e :: s.stored) s ((s.send [e.reply c]).dropped origin) := by
  let s₁ := s.send [e.reply c]
  have hdrop : Passes s₁.stored s₁ (s₁.dropped origin) := dropped_passes
  have hsent : responses s₁.sent = responses s.sent ++ e.answer c := by
    show responses (s.sent ++ [e.reply c]) = _
    rw [responses_append, MailboxElement.responses_reply hs]
  exact hdrop.answered (by rfl) (by rfl) (by rfl) hsent (e.answers_answer c)

-- -------------------------
-- `invoke_message`
-- -------------------------

variable {awaited : MessageId} {ptr : Option MailboxElement} {o : Outcome}

/-- An element that user code is called for is in hand. -/
theorem invoke_passes {job : Job} (hj : ∀ s' : EventBasedActor,
      s'.phase = .invoking origin job → s'.inHand = s'.current)
    (ha : job.awaited.isSome = true → e.asked = false) (hsave : ∀ e, job ≠ .saveState e)
    (hload : ∀ e, job ≠ .loadState e) : Passes (e :: s.stored) s (s.invoke e origin job) := by
  refine .of_perm rfl rfl ⟨?_, ?_, ?_⟩ rfl rfl ?_
  · intro origin' job' e' hp hjob hcur
    cases hp
    cases hcur
    exact ha hjob
  · intro origin' e' hp
    cases hp
    exact absurd rfl (hsave e')
  · intro origin' e' hp
    cases hp
    exact absurd rfl (hload e')
  · rw [held, hj _ rfl]
    exact (List.perm_append_singleton ..).symm

/-- The response has been handled, and the former element is the current one again. -/
theorem finishResponse_passes : Passes s.stored s (s.finishResponse awaited ptr) := by
  let s₁ : EventBasedActor := { s with current := ptr, requests := s.requests.markArrived awaited }
  have hone : Passes s₁.stored s₁ s₁.success := success_passes
  exact hone.rebase (by rfl) (by rfl) (by rfl) (by rfl)

/-- Timeouts, exit messages and responses are no requests. -/
theorem not_asked (hr : e.regular s.serializable) (ho : s.filterMsg e ≠ .ordinary)
    (hs : s.filterMsg e ≠ .sysMessage) : e.asked = false := by
  have hfits := filterMsg_fits s e
  have hcontent : ((∃ tid, e.content = .timeout tid) ∨ ∃ rsn, e.content = .exit rsn) →
      e.asked = false := by
    intro hc
    refine Bool.eq_false_iff.mpr fun ha => ?_
    have hreg := (hr ha).2
    rcases hc with ⟨tid, hc⟩ | ⟨rsn, hc⟩
    · rw [hc] at hreg
      cases hreg
    · rw [hc] at hreg
      cases hreg
  cases ht : s.filterMsg e with
  | normalExit | nonNormalExit rsn | timeout | expiredTimeout =>
    rw [ht] at hfits
    exact hcontent hfits
  | syncResponse | expiredSyncResponse =>
    rw [ht] at hfits
    exact MailboxElement.asked_of_isResponse hfits.1
  | ordinary => exact absurd ht ho
  | sysMessage => exact absurd ht hs

/-- The code for a system message is called. -/
theorem sysJob_passes {job : Job} {behaviors : List Behavior} {migratedFrom : Bool}
    (hj : job = .saveState e ∧ e.asked = false ∨ job = .loadState e ∧ e.sender ≠ .invalid) :
    Passes (e :: s.stored) s
      { s with behaviors, migratedFrom, phase := .invoking origin job } := by
  rcases hj with ⟨rfl, ha⟩ | ⟨rfl, hs⟩
  · refine .of_perm rfl rfl ⟨?_, ?_, ?_⟩ rfl rfl (List.perm_append_singleton ..).symm
    · rintro origin' job' e' ⟨⟩ ⟨⟩
    · rintro origin' e' ⟨⟩
      exact ha
    · rintro origin' e' ⟨⟩
  · refine .of_perm rfl rfl ⟨?_, ?_, ?_⟩ rfl rfl (List.perm_append_singleton ..).symm
    · rintro origin' job' e' ⟨⟩ ⟨⟩
    · rintro origin' e' ⟨⟩
    · rintro origin' e' ⟨⟩
      exact hs

/-- `invoke_message` keeps the element, or has answered it. -/
theorem Invoked.passes (h : s.Invoked e origin awaited s') (hr : e.regular s.serializable) :
    Passes (e :: s.stored) s s' := by
  -- a response that is taken has not asked for anything
  have hresp : s.filterMsg e = .syncResponse → e.asked = false := fun hf =>
    not_asked hr (by simp [hf]) (by simp [hf])
  cases h with
  | dropped ho _ hs => exact dropped_passes.silent (not_asked hr ho hs)
  | replied hsys => exact replied_passes hsys.2.1 _
  | skipped => exact skipped_passes
  -- the state would be sent instead of an answer, which only a request without id asks for
  | saveState hsys hc hser =>
    refine sysJob_passes (.inl ⟨rfl, Bool.eq_false_iff.mpr fun ha => ?_⟩)
    have hreg := (hr ha).2
    rw [hc, hser] at hreg
    cases hreg
  | loadState hsys => exact sysJob_passes (.inr ⟨rfl, hsys.2.1⟩)
  -- an exit message has not asked
  | @exit rsn hf =>
    have hone : Passes (s.quit rsn).stored (s.quit rsn) (s.quit rsn).success := success_passes
    have ha := not_asked hr (by simp [hf]) (by simp [hf])
    exact (hone.silent ha).rebase (by rfl) (by rfl) (by rfl) (by rfl)
  -- nor has a timeout
  | timeout hf =>
    have hone : Passes s.stored s { s with phase := .invoking origin .timeout } := by
      refine .of_perm rfl rfl ⟨?_, nofun, nofun⟩ rfl rfl (by simp [held, inHand, stored])
      rintro origin' job' e' ⟨⟩ ⟨⟩
    exact hone.silent (not_asked hr (by simp [hf]) (by simp [hf]))
  -- `has_timeout` does not matter here
  | message =>
    let s₁ : EventBasedActor := { s with hasTimeout := false }
    let job : Job := .message s.hasTimeout s.current
    have hone : Passes (e :: s₁.stored) s₁ (s₁.invoke e origin job) :=
      invoke_passes (fun s' hp => by rw [inHand, hp]) nofun nofun nofun
    exact hone.rebase (by rfl) (by rfl) (by rfl) (by rfl)
  | response hf | syncTimeout hf =>
    exact invoke_passes (fun s' hp => by rw [inHand, hp]) (fun _ => hresp hf) (by simp) (by simp)
  | arrived hf =>
    -- nobody is told about the timeout
    let s₁ := s.invoke e origin (.syncTimeout awaited s.current)
    have hone : Passes s₁.stored s₁ (s₁.finishResponse awaited s.current) := finishResponse_passes
    exact (hone.silent (hresp hf)).rebase (by rfl) (by rfl) (by rfl) (by rfl)

-- -------------------------
-- The end of user code
-- -------------------------

/-- `post_process_invoke_res` changes the current element and the replies only. -/
theorem postProcess_frame (hm : ∀ mid, o ≠ .messageId mid) :
    ∃ current sent, (s.postProcess o).2 = { s with current, sent } := by
  have hrespond : ∀ c, ∃ current sent, s.respond c = { s with current, sent } := by
    intro c
    unfold respond makeResponsePromise
    cases s.current with
    | none => exact ⟨s.current, s.sent, rfl⟩
    | some e => exact ⟨_, _, rfl⟩
  unfold postProcess
  split
  · split
    · split
      · exact hrespond .empty
      · exact ⟨s.current, s.sent, rfl⟩
    · exact ⟨s.current, s.sent, rfl⟩
  · exact hrespond .result
  · next mid => exact absurd rfl (hm mid)
  · exact ⟨s.current, s.sent, rfl⟩

/-- What is sent as a response answers the current element. -/
theorem responses_respond (c : ReplyContent) :
    responses (s.respond c).sent = responses s.sent ++ s.current.toList.flatMap (·.answer c) := by
  unfold respond makeResponsePromise
  cases hc : s.current with
  | none => simp
  | some e =>
    show responses (s.sent ++ _) = _
    rw [responses_append, MailboxElement.responses_deliver]
    simp

/-- The current element is answered, or it is none. -/
theorem answers_current (c : ReplyContent) :
    Answers s.current.toList (s.current.toList.flatMap (·.answer c)) := by
  cases s.current with
  | none => exact .nil
  | some e => simpa using e.answers_answer c

/-- A message that was handled has been answered. -/
theorem postProcess_handled (hm : ∀ mid, o ≠ .messageId mid) (hh : (s.postProcess o).1 = true)
    (hr : ∀ e, s.current = some e → e.asked = true → MessageId.isAnswered e.mid = false) :
    ∃ rs, responses (s.postProcess o).2.sent = responses s.sent ++ rs ∧
      Answers s.current.toList rs := by
  cases o with
  | skip | actorExited rsn | thrown => cases hh
  | messageId mid => exact absurd rfl (hm mid)
  | value => exact ⟨_, responses_respond _, answers_current _⟩
  | void =>
    unfold postProcess
    cases hc : s.current with
    | none => exact ⟨[], by simp, .nil⟩
    | some e =>
      dsimp only
      split
      · refine ⟨_, responses_respond _, ?_⟩
        simpa [hc] using answers_current (s := s) .empty
      · next hn =>
        have ha : e.asked = false := by
          by_contra ha
          have hasked : e.asked = true := by simpa using ha
          exact hn (by simp [MailboxElement.isRequest_of_asked hasked, hr e hc hasked])
        exact ⟨[], by simp, .silent ha .nil⟩

/-- The end of a handler stores nothing. -/
theorem postProcess_stored (hm : ∀ mid, o ≠ .messageId mid) :
    (s.postProcess o).2.stored = s.stored := by
  obtain ⟨current, sent, hframe⟩ := postProcess_frame (s := s) hm
  rw [hframe]
  rfl

/-- A message that was handled leaves the actor with its answer. -/
theorem handled_passes {s₁ : EventBasedActor} (hm : ∀ mid, o ≠ .messageId mid)
    (ho : o.throws = false) (hskip : o ≠ .skip)
    (hr : ∀ e, s.current = some e → e.asked = true → MessageId.isAnswered e.mid = false)
    (hone : Passes s.stored (s.postProcess o).2 s₁) :
    Passes (s.stored ++ s.current.toList) s s₁ := by
  refine Passes.perm ?_ List.perm_append_comm
  obtain ⟨rs, hresp, hans⟩ := postProcess_handled hm ((postProcess_handled_iff ho).mpr hskip) hr
  obtain ⟨current, sent, hframe⟩ := postProcess_frame (s := s) hm
  rw [hframe] at hresp hone
  exact hone.answered (by rfl) (by rfl) (by rfl) hresp hans

/-- User code threw, but not while it worked on a request. -/
theorem caught_passes {job : Option Job} (ha : ∀ e, s.inHand = some e → e.asked = false) :
    Passes s.held s (s.caught o job) := by
  have hans : Answers s.inHand.toList [] := .of_silent fun e he => ha e (Option.mem_toList.mp he)
  refine Passes.perm ?_ List.perm_append_comm
  obtain ⟨plannedExitReason, eptr, he⟩ := s.caught_eq o job
  rw [he]
  refine .leave s.inHand.toList [] rfl rfl (handles_of (by simp)) rfl ?_ hans ?_
  · exact (List.append_nil _).symm
  · rw [held_of (by simp)]
    exact List.Perm.refl _

/-- The phase changes, without an element in hand. -/
theorem phase_passes {phase : Phase} (hp : ∀ origin job, s.phase ≠ .invoking origin job)
    (hp' : ∀ origin job, phase ≠ .invoking origin job) : Passes s.held s { s with phase } := by
  refine .of_perm rfl rfl (handles_of hp') rfl rfl ?_
  rw [held_of hp, held_of (s := { s with phase }) hp']
  exact List.Perm.refl _

/-- The end of user code answers the element in hand, or keeps it. -/
theorem Returned.passes (h : s.Returned o s') (hs : s.Handles) (hm : ∀ mid, o ≠ .messageId mid)
    (hthrow : o.throws = true → ∀ e, s.inHand = some e → e.asked = false)
    (hr : ∀ e, s.inHand = some e → e.asked = true → MessageId.isAnswered e.mid = false) :
    Passes s.held s s' := by
  -- the current element of a handler for a response is a response
  have hsilent : ∀ {origin job}, s.phase = .invoking origin job → job.awaited.isSome = true →
      Answers s.current.toList [] := fun hp hj =>
    .of_silent fun e he => hs.response _ _ _ hp hj (Option.mem_toList.mp he)
  cases h with
  | initialized hp _ hphase =>
    refine phase_passes (by simp [hp]) ?_
    rcases hphase with ⟨-, rfl⟩ | ⟨-, rfl⟩ <;> simp
  | caught ht => exact caught_passes (hthrow ht)
  | cleanup hp =>
    rw [held_of (by simp [hp])]
    exact cleanup_passes
  -- the handler has answered, or the end of it does
  | @handled origin hadTimeout ptr hp ho hskip =>
    have hin : s.inHand = s.current := by rw [inHand, hp]
    rw [hin] at hr
    rw [held, hin]
    let s₁ : EventBasedActor := { (s.postProcess o).2 with current := ptr }
    have hone : Passes s₁.stored s₁ s₁.success := success_passes
    rw [show s₁.stored = s.stored from postProcess_stored hm] at hone
    exact handled_passes hm ho hskip hr (hone.rebase (by rfl) (by rfl) (by rfl) (by rfl))
  -- the handler has skipped the message, which is put back
  | @skipped origin hadTimeout ptr e hp _ hc =>
    have hin : s.inHand = some e := by rw [inHand, hp, ← hc]
    rw [held, hin]
    refine Passes.perm ?_ (List.perm_append_singleton ..)
    let s₁ : EventBasedActor := { s with current := ptr, hasTimeout := hadTimeout || s.hasTimeout }
    have hone : Passes (e :: s₁.stored) s₁ (s₁.skipped e origin) := skipped_passes
    exact hone.rebase (by rfl) (by rfl) (by rfl) (by rfl)
  -- the actor has no current element any more: it was relayed
  | @gone mid hadTimeout ptr hp _ hc =>
    have hin : s.inHand = none := by rw [inHand, hp, ← hc]
    rw [held, hin, Option.toList_none, List.append_nil]
    let s₁ : EventBasedActor := { s with current := ptr, hasTimeout := hadTimeout || s.hasTimeout }
    have hone : Passes s₁.stored s₁ (s₁.dropped (.cache mid)) := dropped_passes
    exact hone.rebase (by rfl) (by rfl) (by rfl) (by rfl)
  | @response origin awaited ptr hp ho hskip =>
    have hin : s.inHand = s.current := by rw [inHand, hp]
    rw [hin] at hr
    rw [held, hin]
    let s₁ := (s.postProcess o).2
    have hone : Passes s₁.stored s₁ (s₁.finishResponse awaited ptr) := finishResponse_passes
    rw [show s₁.stored = s.stored from postProcess_stored hm] at hone
    exact handled_passes hm ho hskip hr hone
  -- the sync failure handler is called next, with the same element
  | failure hp =>
    rw [held, inHand, hp]
    refine .of_perm rfl rfl ⟨?_, nofun, nofun⟩ rfl rfl (List.Perm.refl _)
    intro origin' job' e hp' hjob hcur
    exact hs.response _ _ _ hp rfl hcur
  -- there is none, so the actor quits
  | @unhandled origin awaited ptr hp =>
    rw [held, inHand, hp]
    refine Passes.perm ?_ List.perm_append_comm
    let s₁ := s.quit ExitReason.unhandledSyncFailure
    have hone : Passes s₁.stored s₁ (s₁.finishResponse awaited ptr) := finishResponse_passes
    exact hone.answered (by rfl) (by rfl) (by rfl) (List.append_nil _).symm (hsilent hp rfl)
  | arrived hp hj =>
    have hin : s.inHand = s.current := by rcases hj with rfl | rfl <;> rw [inHand, hp]
    have hans : Answers s.current.toList [] := hsilent hp (by rcases hj with rfl | rfl <;> rfl)
    rw [held, hin]
    refine Passes.perm ?_ List.perm_append_comm
    exact finishResponse_passes.answered (by rfl) (by rfl) (by rfl) (List.append_nil _).symm hans
  | timeout hp =>
    rw [held, inHand, hp, Option.toList_none, List.append_nil]
    exact success_passes
  -- the old actor has sent its state away
  | @saved origin e hp =>
    rw [held, inHand, hp]
    refine Passes.perm ?_ (List.perm_append_singleton ..)
    let s₁ : EventBasedActor := { s with
      requests := s.requests.syncSendThen .normal ⟨none, .migration⟩ }
    have hone : Passes (e :: s₁.stored) s₁ (s₁.dropped origin) :=
      dropped_passes.silent (hs.saveState _ _ hp)
    exact hone.rebase (by rfl) (by rfl) (by rfl) (by rfl)
  | loaded hp =>
    rw [held, inHand, hp]
    refine Passes.perm ?_ (List.perm_append_singleton ..)
    exact replied_passes (hs.loadState _ _ hp) _

-- -------------------------
-- Steps
-- -------------------------

/-- Only phase and current element matter for what is in hand. -/
theorem Handles.congr (hs : s.Handles) (hp : s'.phase = s.phase) (hc : s'.current = s.current) :
    s'.Handles := by
  constructor
  · intro origin job e hph hj hcur
    exact hs.response origin job e (hp ▸ hph) hj (hc ▸ hcur)
  · intro origin e hph
    exact hs.saveState origin e (hp ▸ hph)
  · intro origin e hph
    exact hs.loadState origin e (hp ▸ hph)

theorem inHand_congr (hp : s'.phase = s.phase) (hc : s'.current = s.current) :
    s'.inHand = s.inHand := by
  unfold inHand
  rw [hp, hc]

/-- Others enqueue a message, or the actor itself does. -/
theorem enqueue_passes {sender : ActorAddr} {mid : MessageId} {content : Content} (hs : s.Handles)
    (hr : (⟨s.enqueued.length, sender, mid, content⟩ : MailboxElement).regular s.serializable) :
    Passes s.held s (s.enqueue sender mid content) := by
  let e : MailboxElement := ⟨s.enqueued.length, sender, mid, content⟩
  rcases hq : s.mailbox.enqueue e with ⟨result, mailbox⟩
  by_cases hres : result = .queueClosed
  · -- it is bounced at once
    have heq : s.enqueue sender mid content = { s with
        mailbox
        enqueued := s.enqueued ++ [e]
        sent := s.sent ++ e.bounce s.exitReason } := by
      simp only [enqueue, e, hq, hres, if_true]
      rfl
    have hmb : mailbox = s.mailbox := by
      have := Mailbox.enqueue_closed (m := s.mailbox) (x := e) (by rw [hq, hres])
      rwa [hq] at this
    rw [heq, hmb]
    refine ⟨rfl, rfl, hs.congr rfl rfl, [e], [e], e.answer (.exited (bouncedReason s.exitReason)),
      rfl, rfl, by simpa using hr, ?_, ?_, e.answers_answer _⟩
    · exact List.perm_append_comm
    · show responses (_ ++ _) = _
      rw [responses_append, MailboxElement.responses_bounce]
  · have heq : s.enqueue sender mid content = { s with
        mailbox
        enqueued := s.enqueued ++ [e] } := by
      simp only [enqueue, e, hq, hres, if_false]
    have hunread : mailbox.unread = s.mailbox.unread ++ [e] := by
      have := Mailbox.unread_enqueue (m := s.mailbox) (x := e) (by rw [hq]; exact hres)
      rwa [hq] at this
    -- the element in hand stays the same
    have hin : ({ s with mailbox, enqueued := s.enqueued ++ [e] } : EventBasedActor).inHand =
        s.inHand := inHand_congr rfl rfl
    rw [heq]
    refine ⟨rfl, rfl, hs.congr rfl rfl, [e], [], [], rfl, rfl, by simpa using hr, ?_, by simp, .nil⟩
    rw [List.perm_iff_count]
    intro x
    rw [held, held, hin]
    simp only [stored, hunread, List.count_append, List.count_nil]
    omega

/-- Nothing happens to the elements. -/
theorem same_passes (hs : s.Handles) (hp : s'.phase = s.phase) (hc : s'.current = s.current)
    (hst : s'.stored = s.stored) (hser : s'.serializable = s.serializable)
    (hpr : s'.promises = s.promises) (hen : s'.enqueued = s.enqueued) (hsent : s'.sent = s.sent) :
    Passes s.held s s' := by
  refine .of_perm hser hpr (hs.congr hp hc) hen hsent ?_
  rw [held, held, hst, inHand_congr hp hc]

/-- A timeout message that is requested asks for nothing. -/
theorem requestTimeout_passes (hs : s.Handles) (d : Option Nat) :
    Passes s.held s (s.requestTimeout d) := by
  cases d with
  | none => exact same_passes hs rfl rfl rfl rfl rfl rfl rfl
  | some d =>
    let s₁ : EventBasedActor := { s with hasTimeout := true, timeoutId := s.timeoutId + 2 }
    have hsame : Passes s.held s s₁ := same_passes hs rfl rfl rfl rfl rfl rfl rfl
    unfold requestTimeout
    dsimp only
    split
    · have hreg : ∀ ser n c, (⟨n, .localActor s.ref, 0, c⟩ : MailboxElement).regular ser := by
        intro ser n c ha
        have hzero : MessageId.isRequest 0 = false := by decide
        simp [MailboxElement.asked, hzero] at ha
      exact hsame.trans (enqueue_passes hsame.handles (hreg _ _ _))
    · exact hsame

/-- Other actions of user code keep the element in hand. -/
theorem act_passes {a : Action} (hs : s.Handles) (hpromise : a ≠ .makeResponsePromise)
    (hrelay : ∀ r, a ≠ .relay r) : Passes s.held s (s.act a) := by
  cases a with
  | makeResponsePromise => exact absurd rfl hpromise
  | relay r => exact absurd rfl (hrelay r)
  | become bhvr discardOld =>
    let s₁ : EventBasedActor :=
      { s with behaviors := if discardOld then s.behaviors.tail else s.behaviors }
    have h₁ : Passes s.held s s₁ := same_passes hs rfl rfl rfl rfl rfl rfl rfl
    have h₂ := h₁.trans (requestTimeout_passes h₁.handles bhvr.timeout)
    exact h₂.trans (same_passes h₂.handles rfl rfl rfl rfl rfl rfl rfl)
  | request mp | setResponseHandler mid bhvr | unbecome | quit rsn | trapExit value
  | onSyncFailure value | isMigratedFrom value =>
    exact same_passes hs rfl rfl rfl rfl rfl rfl rfl

/-- Inserting by priority adds one element. -/
theorem insertFirst_count (high : MailboxElement → Bool) (e : MailboxElement)
    (first : List MailboxElement) (x : MailboxElement) :
    (Schedule.insertFirst high e first).count x = first.count x + [e].count x := by
  have hsplit := congrArg (List.count x) (List.takeWhile_append_dropWhile (p := high) (l := first))
  unfold Schedule.insertFirst
  split
  · simp only [List.count_append, List.count_cons, List.count_nil] at hsplit ⊢
    omega
  · exact List.count_append

/-- The element is taken from where it was stored. -/
theorem Takes.stored_perm {s₁ : EventBasedActor} (h : s.Takes s₁ e origin awaited) :
    s.stored.Perm (e :: s₁.stored) := by
  rw [List.perm_iff_count]
  intro x
  cases h with
  | mailbox _ _ hpop =>
    have hunread := Mailbox.unread_tryPop_some hpop
    simp only [stored, hunread, List.count_append, List.count_cons]
    omega
  | high _ _ hf =>
    simp only [stored, hf, List.count_append, List.count_cons]
    omega
  | first _ hpop hf =>
    have hunread := Mailbox.unread_tryPop_none hpop
    simp only [stored, hunread, hf, List.count_append, List.count_cons]
    omega
  | cache _ hun =>
    simp only [stored, hun, List.count_append, List.count_cons]
    omega

/-- An element moves from the mailbox to the first partition. -/
theorem Reads.stored_perm (h : s.Reads s') : s.stored.Perm s'.stored := by
  cases h with
  | start | scanned => exact List.Perm.refl _
  | nothing _ _ hpop =>
    have hunread := Mailbox.unread_tryPop_none hpop
    simp [stored, hunread]
  | empty _ hpop hf =>
    have hunread := Mailbox.unread_tryPop_none hpop
    simp [stored, hunread]
  | @fill e mailbox _ hpop =>
    have hunread := Mailbox.unread_tryPop_some hpop
    rw [List.perm_iff_count]
    intro x
    have hins := insertFirst_count (·.isHighPriority) e s.first x
    simp only [stored, hunread, List.count_append, List.count_cons, List.count_nil, hins]
    omega

/-- While a message is taken no user code runs. -/
theorem not_invoking_of_takes (h : s.phase.takes = true) (origin : Origin) (job : Job) :
    s.phase ≠ .invoking origin job := by
  intro hp
  rw [hp] at h
  cases h

/-- Taking a message and passing it on. -/
theorem Takes.passes {s₁ : EventBasedActor} (h : s.Takes s₁ e origin awaited)
    (hi : s₁.Invoked e origin awaited s') (hr : ∀ e ∈ s.stored, e.regular s.serializable) :
    Passes s.held s s' := by
  have hperm := h.stored_perm
  rw [held_of (not_invoking_of_takes h.takes)]
  obtain ⟨mailbox, first, unvisited, rfl⟩ := h.eq
  have hone := hi.passes (hr e (hperm.mem_iff.mpr List.mem_cons_self))
  exact Passes.perm (hone.rebase (by rfl) (by rfl) (by rfl) (by rfl)) hperm

/-- Reading into the cache loses no element. -/
theorem Reads.passes (h : s.Reads s') : Passes s.held s s' := by
  have hperm := h.stored_perm
  rw [held_of (not_invoking_of_takes h.takes)]
  obtain ⟨mailbox, first, phase, rfl, hphase⟩ := h.eq
  have hp : ∀ origin job, phase ≠ .invoking origin job := by
    rcases hphase with rfl | rfl <;> simp
  refine .of_perm rfl rfl (handles_of hp) rfl rfl ?_
  rw [held_of (s := { s with mailbox, first, phase }) hp]
  exact hperm

/-- An exception handler returns. -/
theorem handle_passes {plannedExitReason : ExitReason} {phase : Phase}
    (hp : ∀ origin job, s.phase ≠ .invoking origin job)
    (hp' : ∀ origin job, phase ≠ .invoking origin job) : Passes s.held s
      { s with
        plannedExitReason
        visited := s.visited ++ s.unvisited
        unvisited := []
        phase } := by
  refine .of_perm rfl rfl (handles_of hp') rfl rfl ?_
  rw [held_of hp, held_of hp']
  simp [stored]

-- -------------------------
-- Runs
-- -------------------------

/-- User code takes no promises and passes no requests on, and requests are regular. -/
def unpromised (s : EventBasedActor) : Label → Bool
  | .enqueue sender mid content =>
    (⟨s.enqueued.length, sender, mid, content⟩ : MailboxElement).regular s.serializable
  | .act .makeResponsePromise | .act (.relay _) | .ret (.messageId _) => false
  | _ => true

/-- No handler throws while it works on a request. -/
def sparesRequests (s : EventBasedActor) : Label → Bool
  | .ret o => !o.throws || s.inHand.all (!·.asked)
  | _ => true

/-- The runs that the result is about. -/
def Answering (s : EventBasedActor) (l : Label) : Prop :=
  s.unpromised l = true ∧ s.sparesRequests l = true

instance (s : EventBasedActor) (l : Label) : Decidable (Answering s l) :=
  inferInstanceAs (Decidable (_ ∧ _))

/-- Every element is with the actor, or it has left it and was answered. -/
structure Accounted (s : EventBasedActor) : Prop where
  numbered : s.enqueued.map (·.serial) = List.range s.enqueued.length
  split : ∃ gone, s.enqueued.Perm (gone ++ s.held) ∧ Answers gone (responses s.sent)
  regular : ∀ e ∈ s.enqueued, e.regular s.serializable
  handles : s.Handles
  promises : s.promises = []

namespace Accounted

theorem of_held (h : Accounted s) (he : e ∈ s.held) : e.regular s.serializable := by
  obtain ⟨gone, hperm, -⟩ := h.split
  exact h.regular e (hperm.mem_iff.mpr (List.mem_append_right _ he))

/-- Whatever passes on its elements keeps the account. -/
theorem passes (h : Accounted s) (hp : Passes s.held s s') : Accounted s' := by
  obtain ⟨arrived, gone, rs, hen, hnum, hreg, hperm, hresp, hans⟩ := hp.moved
  obtain ⟨gone₀, hperm₀, hans₀⟩ := h.split
  refine ⟨?_, ⟨gone₀ ++ gone, ?_, hresp ▸ hans₀.append hans⟩, ?_, hp.handles,
    hp.promises.trans h.promises⟩
  · have happend := List.range'_append_1 (s := 0) (m := s.enqueued.length) (n := arrived.length)
    rw [Nat.zero_add] at happend
    rw [hen, List.map_append, h.numbered, hnum, List.length_append, List.range_eq_range',
      List.range_eq_range', happend]
  · rw [List.perm_iff_count] at hperm hperm₀ ⊢
    intro x
    have h1 := hperm x
    have h2 := hperm₀ x
    simp only [hen, List.count_append] at h1 h2 ⊢
    omega
  · intro e he
    rw [hp.serializable]
    rw [hen] at he
    rcases List.mem_append.mp he with he | he
    · exact h.regular e he
    · exact hreg e he

/-- Every step keeps the account. -/
theorem step {l : Label} (h : Accounted s) (hok : Answering s l) (hs : s.step l = some s') :
    Accounted s' := by
  refine h.passes ?_
  cases step_cases hs with
  | enqueue => exact enqueue_passes h.handles (of_decide_eq_true hok.1)
  | act =>
    refine act_passes h.handles ?_ ?_
    · rintro rfl
      cases hok.1
    · rintro r rfl
      cases hok.1
  | ret hr =>
    refine hr.passes h.handles ?_ (fun ht e he => ?_) (fun e he ha => ?_)
    · rintro mid rfl
      cases hok.1
    · -- an exception must not leave a request behind
      have hspare := hok.2
      simpa [sparesRequests, ht, he] using hspare
    · exact (h.of_held (List.mem_append_right _ (Option.mem_toList.mpr he)) ha).1
  | takes ht hi => exact ht.passes hi fun e he => h.of_held (List.mem_append_left _ he)
  | reads hr => exact hr.passes
  | resetTimeout => exact requestTimeout_passes h.handles _
  | block => exact same_passes h.handles rfl rfl (by simp [stored]) rfl rfl rfl rfl
  | handle hp hphase =>
    refine handle_passes (by simp [hp]) ?_
    rcases hphase with rfl | ⟨rfl, -⟩ <;> simp
  | exit hp =>
    refine .of_perm rfl rfl (handles_of nofun) rfl rfl ?_
    rw [held_of (by simp [hp]), held_of (by simp)]
    exact List.Perm.refl _
  | deliver hp =>
    rw [h.promises] at hp
    cases hp

end Accounted

/-- In a run that answers, every request is answered or still held. -/
theorem accounted (h : Reachable Answering s) : Accounted s := by
  refine Reach.invariant ?_ (fun s l s' hi hok hs => hi.step hok hs) h
  rintro s ⟨ref, priorityAware, serializable, rfl⟩
  exact ⟨rfl, ⟨[], List.Perm.refl _, .nil⟩, by simp [initial], handles_of nofun, rfl⟩

-- -------------------------
-- After the end
-- -------------------------

theorem success_ended : s.success.phase.ended = false := by
  rcases s.success_eq with he | he <;> rw [he] <;> rfl

theorem dropped_ended : (s.dropped origin).phase.ended = false := by cases origin <;> rfl

theorem skipped_ended : (s.skipped e origin).phase.ended = false := by cases origin <;> rfl

/-- The same after every other end of `invoke_message`. -/
theorem Invoked.not_ended (h : s.Invoked e origin awaited s') : s'.phase.ended = false := by
  cases h with
  | dropped | replied => exact dropped_ended
  | skipped => exact skipped_ended
  | exit | arrived => exact success_ended
  | saveState | loadState | timeout | message | response | syncTimeout => rfl

/-- Only `cleanup` ends an actor. -/
theorem Returned.ended (h : s.Returned o s') : s'.phase.ended = false ∨ s' = s.cleanup := by
  cases h with
  | initialized _ _ hphase =>
    rcases hphase with ⟨-, rfl⟩ | ⟨-, rfl⟩
    · exact .inl rfl
    · exact .inl rfl
  | @caught job =>
    obtain ⟨plannedExitReason, eptr, he⟩ := s.caught_eq o job
    rw [he]
    exact .inl rfl
  | cleanup => exact .inr rfl
  | handled | response | unhandled | arrived | timeout => exact .inl success_ended
  | skipped => exact .inl skipped_ended
  | gone | failure => exact .inl rfl
  | saved | loaded => exact .inl dropped_ended

/-- What is left when the mailbox has been closed. -/
def Emptied (s : EventBasedActor) : Prop :=
  s.phase.ended = true → s.mailbox.stack = .closed ∧ s.stored = []

/-- A closed mailbox stores nothing. -/
theorem Emptied.enqueue {sender : ActorAddr} {mid : MessageId} {content : Content}
    (h : s.Emptied) : (s.enqueue sender mid content).Emptied := by
  intro hp
  obtain ⟨mailbox, enqueued, sent, he⟩ := s.enqueue_eq sender mid content
  have hended : s.phase.ended = true := by
    rw [he] at hp
    exact hp
  obtain ⟨hclosed, hstored⟩ := h hended
  unfold EventBasedActor.enqueue
  simp only [Mailbox.enqueue, hclosed]
  exact ⟨hclosed, hstored⟩

/-- Every step keeps this. -/
theorem Emptied.step {l : Label} (h : s.Emptied) (hs : s.step l = some s') : s'.Emptied := by
  -- an actor that has not ended need not be empty
  have hlive : s'.phase.ended = false → s'.Emptied := by
    intro hp hp'
    rw [hp] at hp'
    cases hp'
  cases step_cases hs with
  | enqueue => exact h.enqueue
  | @act a hrun =>
    refine hlive ?_
    rw [(act_frame s a).2.2.1]
    cases hp : s.phase <;> simp_all [Phase.running, Phase.ended]
  | ret hr =>
    rcases hr.ended with hp | rfl
    · exact hlive hp
    · exact fun _ => ⟨rfl, rfl⟩
  | takes _ hi => exact hlive hi.not_ended
  | reads hr =>
    obtain ⟨mailbox, first, phase, rfl, hphase⟩ := hr.eq
    rcases hphase with rfl | rfl
    · exact hlive rfl
    · exact hlive rfl
  | resetTimeout hp =>
    obtain ⟨mailbox, enqueued, sent, he⟩ := s.requestTimeout_eq (s.getBehavior.bind (·.timeout))
    refine hlive ?_
    rw [he]
    exact congrArg Phase.ended hp
  | block hp => exact hlive (congrArg Phase.ended hp)
  | handle _ hphase =>
    rcases hphase with rfl | ⟨rfl, -⟩
    · exact hlive rfl
    · exact hlive rfl
  | exit hp => exact fun _ => h (by rw [hp]; rfl)
  | deliver => exact h

/-- After the end there are no elements left, in every run. -/
theorem emptied {ok : EventBasedActor → Label → Prop} (h : Reachable ok s) : s.Emptied := by
  refine Reach.invariant ?_ (fun s l s' hi _ hs => hi.step hs) h
  rintro s ⟨ref, priorityAware, serializable, rfl⟩
  nofun

/-- **Every request is answered exactly once.** In every run whose handlers do not throw on
a request: when the actor has terminated, exactly one response has been sent for every
request that was ever enqueued, to its sender and with the id of the response. -/
theorem request_answered_once (h : Reachable Answering s) (hx : s.phase = .exited)
    (he : e ∈ s.enqueued) (ha : e.asked = true) :
    ∃ c, (responses s.sent).filter (·.serial = e.serial) = [e.reply c] := by
  have hacc := accounted h
  obtain ⟨gone, hperm, hans⟩ := hacc.split
  obtain ⟨-, hstored⟩ := emptied h (by rw [hx]; rfl)
  rw [held_of (by simp [hx]), hstored, List.append_nil] at hperm
  have hnodup : (gone.map (·.serial)).Nodup := by
    rw [← (hperm.map (·.serial)).nodup_iff, hacc.numbered]
    exact List.nodup_range
  exact hans.exactly_one hnodup (hperm.mem_iff.mp he) ha

/-- A request from actor 7. -/
def Sample.request : MailboxElement := ⟨0, .localActor 7, 1, .user⟩

/-- An actor gets a behavior and a request. -/
def Sample.asks : List Label :=
  [.act (.become ⟨none, .user 0⟩ false), .ret .void, .enqueue (.localActor 7) 1 .user, .next]

/-- Its handler skips the request and the actor quits on the next message: the request is
bounced. -/
theorem request_answered_once_bounced : ∃ (s : EventBasedActor) (c : ReplyContent),
    Reachable Answering s ∧ s.phase = .exited ∧ Sample.request ∈ s.enqueued ∧
      (responses s.sent).filter (·.serial = 0) = [Sample.request.reply c] := by
  obtain ⟨s, hrun, hs⟩ := exists_run (fun s l => if Answering s l then step s l else none)
    (initial 0 false false)
    (Sample.asks ++ ([.ret .skip, .enqueue .invalid 0 .user, .next, .act (.quit 1), .ret .void,
      .ret .void, .exit] : List Label))
    (fun s => s.phase = .exited && Sample.request ∈ s.enqueued) (by decide +kernel)
  simp only [Bool.and_eq_true, decide_eq_true_eq] at hs
  have hreach : Reachable Answering s := reach_of_checked_run (.init ⟨0, false, false, rfl⟩) hrun
  obtain ⟨c, hc⟩ := request_answered_once hreach hs.1 hs.2 (by decide)
  exact ⟨s, c, hreach, hs.1, hs.2, hc⟩

/-- Its handler throws: the request is gone. -/
theorem request_unanswered : ¬ ∀ s : EventBasedActor,
    Reachable (fun s l => s.unpromised l = true) s → s.phase = .exited → ∀ e ∈ s.enqueued,
      e.asked = true → ∃ c, (responses s.sent).filter (·.serial = e.serial) = [e.reply c] := by
  intro h
  obtain ⟨s, hrun, hs⟩ := exists_run (fun s l => if s.unpromised l = true then step s l else none)
    (initial 0 false false)
    (Sample.asks ++ ([.ret .thrown, .handle none, .ret .void, .exit] : List Label))
    (fun s => s.phase = .exited && Sample.request ∈ s.enqueued && s.sent = []) (by decide +kernel)
  simp only [Bool.and_eq_true, decide_eq_true_eq] at hs
  obtain ⟨c, hc⟩ := h s (reach_of_checked_run (.init ⟨0, false, false, rfl⟩) hrun) hs.1.1
    Sample.request hs.1.2 (by decide)
  rw [hs.2] at hc
  cases hc

end EventBasedActor

end BoostActor
