import BoostActor.Core.Answers

/-!
# Requests that come too late

After an actor has closed its mailbox, `enqueue` answers requests itself. Whatever happens
afterwards, this is the only response: all that can still be delivered are promises for
older requests.

* `Below` — the numbers of all elements that an actor knows of are in use;
* `late_request_bounced` — the result, for every run before and after the request.
-/

namespace BoostActor

open Lib

namespace EventBasedActor

variable {N : Nat} {s s' : EventBasedActor} {e : MailboxElement} {origin : Origin}
variable {awaited : MessageId} {ptr : Option MailboxElement} {o : Outcome}

-- -------------------------
-- Numbers in use
-- -------------------------

/-- The elements that a job keeps. -/
def Job.elements : Job → List MailboxElement
  | .message _ ptr | .response _ ptr | .syncTimeout _ ptr | .syncFailure _ ptr => ptr.toList
  | .saveState e | .loadState e => [e]
  | .timeout => []

/-- The elements that `resume` keeps. -/
def Phase.elements : Phase → List MailboxElement
  | .invoking _ job => job.elements
  | _ => []

/-- Everything that an actor knows of has a number below `N`. -/
structure Below (N : Nat) (s : EventBasedActor) : Prop where
  stored : ∀ e ∈ s.stored, e.serial < N
  current : ∀ e, s.current = some e → e.serial < N
  phase : ∀ e ∈ s.phase.elements, e.serial < N
  promises : ∀ p ∈ s.promises, p.serial < N
  sent : ∀ r ∈ s.sent, r.serial < N
  bound : N ≤ s.enqueued.length

/-- The elements are among those of another state. -/
theorem Below.of_same (h : Below N s) (hst : ∀ e ∈ s'.stored, e.serial < N)
    (hc : ∀ e, s'.current = some e → e.serial < N) (hp : ∀ e ∈ s'.phase.elements, e.serial < N)
    (hpr : s'.promises = s.promises) (hse : s'.sent = s.sent) (hen : s'.enqueued = s.enqueued) :
    Below N s' :=
  ⟨hst, hc, hp, hpr ▸ h.promises, hse ▸ h.sent, hen ▸ h.bound⟩

/-- The same for a state in which no handler runs. -/
theorem Below.at_rest (h : Below N s) (hst : ∀ e ∈ s'.stored, e.serial < N)
    (hc : ∀ e, s'.current = some e → e.serial < N) (hp : s'.phase.elements = [])
    (hpr : s'.promises = s.promises) (hse : s'.sent = s.sent) (hen : s'.enqueued = s.enqueued) :
    Below N s' := by
  refine h.of_same hst hc (fun e he => ?_) hpr hse hen
  rw [hp] at he
  cases he

/-- Replies to elements below are below. -/
theorem Below.send {rs : List Reply} (h : Below N s) (hrs : ∀ r ∈ rs, r.serial < N) :
    Below N (s.send rs) := by
  refine ⟨h.stored, h.current, h.phase, h.promises, fun r hr => ?_, h.bound⟩
  rcases List.mem_append.mp hr with hr | hr
  · exact h.sent r hr
  · exact hrs r hr

theorem dropped_below (h : Below N s) : Below N (s.dropped origin) := by
  cases origin <;> exact h.at_rest h.stored h.current rfl rfl rfl rfl

/-- A skipped element is put back. -/
theorem skipped_below (h : Below N s) (he : e.serial < N) : Below N (s.skipped e origin) := by
  cases origin with
  -- into the cache
  | mailbox =>
    have hstored : ∀ x ∈ (s.pushToCache e).stored, x.serial < N := by
      intro x hx
      rcases List.mem_cons.mp (pushToCache_stored.mem_iff.mp hx) with rfl | hx
      · exact he
      · exact h.stored x hx
    have hframe : (s.pushToCache e).current = s.current ∧
        (s.pushToCache e).promises = s.promises ∧ (s.pushToCache e).sent = s.sent ∧
        (s.pushToCache e).enqueued = s.enqueued := by
      unfold pushToCache
      split <;> exact ⟨rfl, rfl, rfl, rfl⟩
    exact h.at_rest hstored (hframe.1 ▸ h.current) rfl hframe.2.1 hframe.2.2.1 hframe.2.2.2
  -- behind what has been visited
  | cache mid =>
    refine h.at_rest (fun x hx => ?_) h.current rfl rfl rfl rfl
    have hmem : x ∈ s.stored ∨ x = e := by
      simp only [skipped, EventBasedActor.stored, List.mem_append, List.mem_singleton] at hx ⊢
      tauto
    rcases hmem with hx | rfl
    · exact h.stored x hx
    · exact he

/-- The end of a handler brings nothing new. -/
theorem success_below (h : Below N s) : Below N s.success := by
  rcases s.success_eq with he | he
  · rw [he]
    exact h.at_rest h.stored h.current rfl rfl rfl rfl
  · rw [he]
    refine h.at_rest (fun x hx => h.stored x ?_) h.current rfl rfl rfl rfl
    simpa [EventBasedActor.stored] using hx

/-- A system message is answered at once. -/
theorem reply_below (h : Below N s) (he : e.serial < N) (c : ReplyContent) :
    Below N ((s.send [e.reply c]).dropped origin) := by
  refine dropped_below (h.send fun r hr => ?_)
  rw [List.mem_singleton.mp hr]
  exact he

/-- A handler is called: the element that was current before is kept. -/
theorem invoke_below {job : Job} (h : Below N s) (he : e.serial < N)
    (hj : job.elements = s.current.toList) : Below N (s.invoke e origin job) := by
  refine h.of_same h.stored ?_ ?_ rfl rfl rfl
  · intro x hx
    cases hx
    exact he
  · intro x hx
    refine h.current x (Option.mem_toList.mp ?_)
    rw [← hj]
    exact hx

theorem finishResponse_below (h : Below N s) (hp : ∀ e ∈ ptr.toList, e.serial < N) :
    Below N (s.finishResponse awaited ptr) := by
  have hone : Below N { s with current := ptr, requests := s.requests.markArrived awaited } :=
    h.of_same h.stored (fun e he => hp e (Option.mem_toList.mpr he)) h.phase rfl rfl rfl
  exact success_below hone

/-- Every end of `invoke_message` stays below. -/
theorem Invoked.below (hi : s.Invoked e origin awaited s') (h : Below N s) (he : e.serial < N) :
    Below N s' := by
  have hjob : ∀ x ∈ [e], x.serial < N := fun x hx => by rw [List.mem_singleton.mp hx]; exact he
  cases hi with
  | dropped => exact dropped_below h
  | replied => exact reply_below h he _
  | skipped => exact skipped_below h he
  | saveState | loadState => exact h.of_same h.stored h.current hjob rfl rfl rfl
  | exit => exact success_below (h.of_same h.stored h.current h.phase rfl rfl rfl)
  | timeout => exact h.at_rest h.stored h.current rfl rfl rfl rfl
  | message => exact invoke_below (h.of_same h.stored h.current h.phase rfl rfl rfl) he rfl
  | response | syncTimeout => exact invoke_below h he rfl
  | arrived =>
    exact finishResponse_below (invoke_below h he rfl) fun x hx =>
      h.current x (Option.mem_toList.mp hx)

-- -------------------------
-- The end of user code
-- -------------------------

/-- A response has the number of the current element. -/
theorem respond_below (h : Below N s) (c : ReplyContent) : Below N (s.respond c) := by
  unfold respond makeResponsePromise
  cases hc : s.current with
  | none => exact h
  | some e =>
    have he := h.current e hc
    have hone : Below N { s with
        current := some { e with mid := MessageId.markAsAnswered e.mid } } := by
      refine h.of_same h.stored (fun x hx => ?_) h.phase rfl rfl rfl
      cases hx
      exact he
    refine hone.send fun r hr => ?_
    unfold ResponsePromise.deliver at hr
    split at hr
    · cases hr
    · rw [List.mem_singleton.mp hr]
      exact he

/-- A promise has the number of the current element. -/
theorem keepPromise_below (h : Below N s) : Below N s.keepPromise := by
  unfold keepPromise makeResponsePromise
  cases hc : s.current with
  | none => exact h
  | some e =>
    have he := h.current e hc
    refine ⟨h.stored, fun x hx => ?_, h.phase, fun p hp => ?_, h.sent, h.bound⟩
    · cases hx
      exact he
    · rcases List.mem_append.mp hp with hp | hp
      · exact h.promises p hp
      · rw [List.mem_singleton.mp hp]
        exact he

/-- What a handler returns stays below. -/
theorem postProcess_below (h : Below N s) : Below N (s.postProcess o).2 := by
  cases o with
  | skip | actorExited rsn | thrown => exact h
  | value => exact respond_below h _
  | void =>
    unfold postProcess
    dsimp only
    split
    · split
      · exact respond_below h _
      · exact h
    · exact h
  | messageId mid =>
    unfold postProcess
    dsimp only
    split
    · have hkeep := keepPromise_below h
      exact hkeep.of_same hkeep.stored hkeep.current hkeep.phase rfl rfl rfl
    · exact respond_below h _

/-- What is left is bounced. -/
theorem cleanup_below (h : Below N s) : Below N s.cleanup := by
  refine ⟨fun e he => (by cases he), fun e he => (by cases he), fun e he => (by cases he),
    h.promises, fun r hr => ?_, h.bound⟩
  rcases List.mem_append.mp hr with hr | hr
  · exact h.sent r hr
  · obtain ⟨e, he, hr⟩ := List.mem_flatMap.mp hr
    unfold MailboxElement.bounce at hr
    split at hr
    · rw [List.mem_singleton.mp hr]
      exact h.stored e he
    · cases hr

/-- The end of user code stays below. -/
theorem Returned.below (hr : s.Returned o s') (h : Below N s) : Below N s' := by
  have hpost := postProcess_below (o := o) h
  have hjob : ∀ {origin job}, s.phase = .invoking origin job → ∀ e ∈ job.elements,
    e.serial < N := by
    intro origin job hp e he
    exact h.phase e (by rw [hp]; exact he)
  cases hr with
  | initialized _ _ hphase =>
    refine h.at_rest h.stored h.current ?_ rfl rfl rfl
    rcases hphase with ⟨-, rfl⟩ | ⟨-, rfl⟩ <;> rfl
  | @caught job =>
    obtain ⟨plannedExitReason, eptr, he⟩ := s.caught_eq o job
    rw [he]
    exact h.at_rest h.stored h.current rfl rfl rfl rfl
  | cleanup => exact cleanup_below h
  -- the former element comes back
  | handled hp =>
    refine success_below (hpost.of_same hpost.stored (fun e he => ?_) hpost.phase rfl rfl rfl)
    exact hjob hp e (Option.mem_toList.mpr he)
  | @skipped origin hadTimeout ptr e hp _ hc =>
    refine skipped_below (h.of_same h.stored (fun x hx => ?_) h.phase rfl rfl rfl) (h.current e hc)
    exact hjob hp x (Option.mem_toList.mpr hx)
  -- the same when the current element is gone
  | gone hp =>
    refine h.at_rest h.stored (fun x hx => ?_) rfl rfl rfl rfl
    exact hjob hp x (Option.mem_toList.mpr hx)
  | response hp => exact finishResponse_below hpost (hjob hp)
  | failure hp => exact h.of_same h.stored h.current (hjob hp) rfl rfl rfl
  | unhandled hp =>
    exact finishResponse_below (h.of_same h.stored h.current h.phase rfl rfl rfl) (hjob hp)
  | arrived hp hj =>
    have hptr := hjob hp
    rcases hj with rfl | rfl
    · exact finishResponse_below h hptr
    · exact finishResponse_below h hptr
  | timeout => exact success_below h
  | saved => exact dropped_below (h.of_same h.stored h.current h.phase rfl rfl rfl)
  | loaded hp => exact reply_below h (hjob hp _ (List.mem_singleton_self _)) _

-- -------------------------
-- Steps
-- -------------------------

theorem Below.mono {M : Nat} (h : Below N s) (hM : N ≤ M) (hb : M ≤ s.enqueued.length) :
    Below M s :=
  ⟨fun e he => Nat.lt_of_lt_of_le (h.stored e he) hM,
    fun e he => Nat.lt_of_lt_of_le (h.current e he) hM,
    fun e he => Nat.lt_of_lt_of_le (h.phase e he) hM,
    fun p hp => Nat.lt_of_lt_of_le (h.promises p hp) hM,
    fun r hr => Nat.lt_of_lt_of_le (h.sent r hr) hM, hb⟩

/-- The numbers in use are those below that of the next element. -/
def Numbered (s : EventBasedActor) : Prop := Below s.enqueued.length s

theorem Below.numbered (h : Below N s) : s.Numbered := h.mono h.bound (Nat.le_refl _)

/-- A new element gets the next number. -/
theorem enqueue_numbered {sender : ActorAddr} {mid : MessageId} {content : Content}
    (h : s.Numbered) : (s.enqueue sender mid content).Numbered := by
  let e : MailboxElement := ⟨s.enqueued.length, sender, mid, content⟩
  have hlen : (s.enqueued ++ [e]).length = s.enqueued.length + 1 := by simp
  have hunread : ∀ x ∈ (s.mailbox.enqueue e).2.unread, x ∈ s.mailbox.unread ∨ x = e := by
    intro x hx
    by_cases hclosed : (s.mailbox.enqueue e).1 = .queueClosed
    · rw [Mailbox.enqueue_closed hclosed] at hx
      exact .inl hx
    · rw [Mailbox.unread_enqueue hclosed] at hx
      simpa using hx
  -- whether the element is put into the mailbox or not
  have hone : Below (s.enqueued.length + 1)
      { s with mailbox := (s.mailbox.enqueue e).2, enqueued := s.enqueued ++ [e] } := by
    refine ⟨fun x hx => ?_, fun x hx => Nat.lt_succ_of_lt (h.current x hx),
      fun x hx => Nat.lt_succ_of_lt (h.phase x hx), fun p hp => Nat.lt_succ_of_lt (h.promises p hp),
      fun r hr => Nat.lt_succ_of_lt (h.sent r hr), Nat.le_of_eq hlen.symm⟩
    have hmem : x ∈ s.stored ∨ x = e := by
      simp only [EventBasedActor.stored, List.mem_append] at hx ⊢
      rcases hx with ((hx | hx) | hx) | hx
      · rcases hunread x hx with hx | hx
        · exact .inl (.inl (.inl (.inl hx)))
        · exact .inr hx
      · exact .inl (.inl (.inl (.inr hx)))
      · exact .inl (.inl (.inr hx))
      · exact .inl (.inr hx)
    rcases hmem with hx | rfl
    · exact Nat.lt_succ_of_lt (h.stored x hx)
    · exact Nat.lt_succ_self _
  unfold enqueue
  dsimp only
  split
  · refine (hone.send fun r hr => ?_).numbered
    unfold MailboxElement.bounce at hr
    split at hr
    · rw [List.mem_singleton.mp hr]
      exact Nat.lt_succ_self _
    · cases hr
  · exact hone.numbered

/-- A timeout message is a new element. -/
theorem requestTimeout_numbered {d : Option Nat} (h : s.Numbered) :
    (s.requestTimeout d).Numbered := by
  unfold requestTimeout
  split
  · exact h.of_same h.stored h.current h.phase rfl rfl rfl
  · next d =>
    have hone : ({ s with hasTimeout := true, timeoutId := s.timeoutId + 2 } :
        EventBasedActor).Numbered := h.of_same h.stored h.current h.phase rfl rfl rfl
    dsimp only
    split
    · exact enqueue_numbered hone
    · exact hone

/-- User code makes no elements but those. -/
theorem act_numbered {a : Action} (h : s.Numbered) : (s.act a).Numbered := by
  cases a with
  | become bhvr discardOld =>
    have hone : ({ s with behaviors := if discardOld then s.behaviors.tail else s.behaviors } :
        EventBasedActor).Numbered := h.of_same h.stored h.current h.phase rfl rfl rfl
    have htwo := requestTimeout_numbered (d := bhvr.timeout) hone
    exact htwo.of_same htwo.stored htwo.current htwo.phase rfl rfl rfl
  | makeResponsePromise => exact (keepPromise_below h).numbered
  | relay r => exact h.of_same h.stored (fun e he => by cases he) h.phase rfl rfl rfl
  | request mp | setResponseHandler mid bhvr | unbecome | quit rsn | trapExit value
  | onSyncFailure value | isMigratedFrom value =>
    exact h.of_same h.stored h.current h.phase rfl rfl rfl

/-- Taking a message brings nothing new. -/
theorem Takes.below {s₁ : EventBasedActor} (ht : s.Takes s₁ e origin awaited) (h : Below N s) :
    Below N s₁ ∧ e.serial < N := by
  have hperm := ht.stored_perm
  have hmem : ∀ x ∈ e :: s₁.stored, x.serial < N := fun x hx => h.stored x (hperm.mem_iff.mpr hx)
  refine ⟨?_, hmem e List.mem_cons_self⟩
  obtain ⟨mailbox, first, unvisited, rfl⟩ := ht.eq
  exact h.of_same (fun x hx => hmem x (List.mem_cons_of_mem _ hx)) h.current h.phase rfl rfl rfl

/-- Neither does reading into the cache. -/
theorem Reads.below (hr : s.Reads s') (h : Below N s) : Below N s' := by
  have hperm := hr.stored_perm
  obtain ⟨mailbox, first, phase, rfl, hphase⟩ := hr.eq
  refine h.at_rest (fun x hx => h.stored x (hperm.mem_iff.mpr hx)) h.current ?_ rfl rfl rfl
  rcases hphase with rfl | rfl <;> rfl

/-- Every step keeps the numbers. -/
theorem Numbered.step {l : Label} (h : s.Numbered) (hs : s.step l = some s') : s'.Numbered := by
  cases step_cases hs with
  | enqueue => exact enqueue_numbered h
  | act => exact act_numbered h
  | ret hr => exact (hr.below h).numbered
  | takes ht hi =>
    obtain ⟨hb, he⟩ := ht.below h
    exact (hi.below hb he).numbered
  | reads hr => exact (hr.below h).numbered
  | resetTimeout => exact requestTimeout_numbered h
  | block =>
    refine h.of_same (fun x hx => h.stored x ?_) h.current h.phase rfl rfl rfl
    simpa [EventBasedActor.stored] using hx
  | handle _ hphase =>
    refine h.at_rest (fun x hx => h.stored x ?_) h.current ?_ rfl rfl rfl
    · simpa [EventBasedActor.stored] using hx
    · rcases hphase with rfl | ⟨rfl, -⟩ <;> rfl
  | exit => exact h.at_rest h.stored h.current rfl rfl rfl rfl
  | deliver hp =>
    refine (h.send fun r hr => ?_).numbered
    unfold ResponsePromise.deliver at hr
    split at hr
    · cases hr
    · rw [List.mem_singleton.mp hr]
      exact h.promises _ (List.mem_of_getElem? hp)

/-- In every run, numbers in use are below the next one. -/
theorem numbered {ok : EventBasedActor → Label → Prop} (h : Reachable ok s) : s.Numbered := by
  refine Reach.invariant ?_ (fun s l s' hi _ hs => hi.step hs) h
  rintro s ⟨ref, priorityAware, serializable, rfl⟩
  exact ⟨fun _ h => (by cases h), fun _ h => (by cases h), fun _ h => (by cases h),
    fun _ h => (by cases h), fun _ h => (by cases h), Nat.le_refl _⟩

-- -------------------------
-- Late requests
-- -------------------------

/-- The mailbox is closed, and `r` is the only reply to the element with its number. -/
structure Refused (r : Reply) (s : EventBasedActor) : Prop where
  ended : s.phase.ended = true
  used : r.serial < s.enqueued.length
  promises : ∀ p ∈ s.promises, p.serial ≠ r.serial
  only : s.sent.filter (·.serial = r.serial) = [r]

/-- After its end an actor only refuses messages, and promises are delivered. -/
theorem Refused.step {r : Reply} {l : Label} (h : Refused r s) (he : s.Emptied)
    (hs : s.step l = some s') : Refused r s' := by
  have hended := h.ended
  cases step_cases hs with
  -- another request is refused, and has a number of its own
  | enqueue =>
    have hclosed := (he h.ended).1
    unfold EventBasedActor.enqueue
    simp only [Mailbox.enqueue, hclosed, if_true]
    refine ⟨h.ended, ?_, h.promises, ?_⟩
    · have hused := h.used
      show r.serial < (s.enqueued ++ [_]).length
      rw [List.length_append]
      omega
    · show (s.sent ++ _).filter _ = [r]
      rw [List.filter_append, h.only]
      unfold MailboxElement.bounce
      split
      · have hne : ¬ s.enqueued.length = r.serial := by
          have hused := h.used
          omega
        simp [MailboxElement.reply, hne]
      · rfl
  -- an actor that has ended runs nothing
  | act hrun => cases hp : s.phase <;> simp_all [Phase.running, Phase.ended]
  | ret hr =>
    rw [hr.not_ended] at hended
    cases hended
  | takes ht =>
    rw [not_ended_of_takes ht.takes] at hended
    cases hended
  | reads hr =>
    rw [not_ended_of_takes hr.takes] at hended
    cases hended
  | resetTimeout hp | block hp | handle hp =>
    rw [hp] at hended
    cases hended
  | exit => exact ⟨rfl, h.used, h.promises, h.only⟩
  -- a promise is kept for an older request
  | @deliver i p hp =>
    refine ⟨h.ended, h.used, h.promises, ?_⟩
    show (s.sent ++ _).filter _ = [r]
    rw [List.filter_append, h.only]
    unfold ResponsePromise.deliver
    split
    · rfl
    · have hne := h.promises p (List.mem_of_getElem? hp)
      simp [hne]

/-- A request that is enqueued after the mailbox has been closed is answered with the exit
reason, and with nothing else in any later state. -/
theorem late_request_bounced {sender : ActorAddr} {mid : MessageId} {content : Content}
    (h : Reachable anyStep s) (hended : s.phase.ended = true) (hs : sender ≠ .invalid)
    (hm : MessageId.isRequest mid = true)
    (h' : Reach (· = s.enqueue sender mid content) step anyStep s') :
    s'.sent.filter (·.serial = s.enqueued.length) =
      [⟨s.enqueued.length, sender, MessageId.responseId mid,
        .exited (bouncedReason s.exitReason)⟩] := by
  let r : Reply := ⟨s.enqueued.length, sender, MessageId.responseId mid,
    .exited (bouncedReason s.exitReason)⟩
  have hnum := numbered h
  -- the number is new, so this is the only reply
  have hinit : Refused r (s.enqueue sender mid content) := by
    have hclosed := (emptied h hended).1
    have hnone : s.sent.filter (·.serial = r.serial) = [] := by
      rw [List.filter_eq_nil_iff]
      intro x hx he
      have hlt := hnum.sent x hx
      have heq : x.serial = s.enqueued.length := of_decide_eq_true he
      omega
    unfold EventBasedActor.enqueue
    simp only [Mailbox.enqueue, hclosed, if_true]
    refine ⟨hended, ?_, fun p hp => Nat.ne_of_lt (hnum.promises p hp), ?_⟩
    · show s.enqueued.length < (s.enqueued ++ [_]).length
      simp
    · show (s.sent ++ _).filter _ = [r]
      rw [List.filter_append, hnone]
      simp [MailboxElement.bounce, MailboxElement.reply, hs, hm, r]
  have hrun : s'.Emptied ∧ Refused r s' := by
    refine Reach.invariant (I := fun a => a.Emptied ∧ Refused r a) ?_
      (fun a l a' hi _ hstep => ⟨hi.1.step hstep, hi.2.step hi.1 hstep⟩) h'
    rintro a rfl
    exact ⟨(emptied h).enqueue, hinit⟩
  exact hrun.2.only

end EventBasedActor

end BoostActor
