import BoostActor.Core.ActorSteps

/-!
# Handlers of responses

A response is recognised by its id, and its handler is called only while the response is
pending. The entry is removed after the handler has returned. So the handler of a request
is called once, and what arrives with the same id afterwards is dropped, provided that

* the handler does return: when it throws and the actor is revived, the response is still
  pending;
* the number of every request is that of a request: the number `2^61` reaches into the
  flags, and its response has the id of an asynchronous message.

* `Once` — the invariant, about the pending responses and the ids that have reached a
  handler;
* `response_handled_once` — the result for every run.
-/

namespace BoostActor

open Lib

variable {β : Type}

-- -------------------------
-- Pending responses
-- -------------------------

namespace Requests

variable {q : Requests β} {mid mid' : MessageId} {bhvr : β} {mp : MessagePriority}

theorem awaits_eq (q : Requests β) (mid : MessageId) :
    q.awaits mid = (q.pendingResponses.map (·.1)).any (· == mid) := by
  rw [List.any_map]
  rfl

/-- Assigning a handler changes no id. -/
theorem map_assign (mid : MessageId) (bhvr : β) (prs : List (MessageId × Option β)) :
    (assign mid bhvr prs).map (·.1) = prs.map (·.1) := by
  induction prs with
  | nil => rfl
  | cons pr prs ih =>
    unfold assign
    split
    · rfl
    · rw [List.map_cons, List.map_cons, ih]

@[simp] theorem awaits_setResponseHandler :
    (q.setResponseHandler mid' bhvr).awaits mid = q.awaits mid := by
  rw [awaits_eq, awaits_eq, setResponseHandler, map_assign]

/-- A response that has arrived is no longer awaited. -/
theorem awaits_markArrived :
    (q.markArrived mid').awaits mid = true ↔ mid ≠ mid' ∧ q.awaits mid = true := by
  simp only [awaits, markArrived, List.any_eq_true, List.mem_filter, bne_iff_ne, beq_iff_eq]
  constructor
  · rintro ⟨pr, ⟨hmem, hne⟩, rfl⟩
    exact ⟨hne, pr, hmem, rfl⟩
  · rintro ⟨hne, pr, hmem, rfl⟩
    exact ⟨pr, ⟨hmem, hne⟩, rfl⟩

theorem awaits_newRequestId : (q.newRequestId mp).2.awaits mid = true ↔
    mid = MessageId.responseId (q.lastRequestId + 1) ∨ q.awaits mid = true := by
  simp only [awaits, newRequestId, List.any_cons, Bool.or_eq_true, beq_iff_eq]
  rw [eq_comm]

/-- The id of the response to one of the requests that have been made. -/
def Issued (q : Requests β) (mid : MessageId) : Prop :=
  ∃ n : MessageId, MessageId.isRequest n = true ∧ n.toNat ≤ q.lastRequestId.toNat ∧
    mid = MessageId.responseId n

/-- Numbers of requests do not wrap around. -/
theorem toNat_lastRequestId (h : MessageId.isRequest (q.lastRequestId + 1) = true) :
    (q.lastRequestId + 1).toNat = q.lastRequestId.toNat + 1 := by
  have hlt := q.lastRequestId.toNat_lt
  by_contra hne
  have hmax : q.lastRequestId.toNat = 2 ^ 64 - 1 := by
    rw [UInt64.toNat_add, UInt64.toNat_one] at hne
    omega
  have hzero : q.lastRequestId + 1 = 0 := by
    apply UInt64.toNat_inj.mp
    rw [UInt64.toNat_add, UInt64.toNat_one, hmax]
    rfl
  rw [hzero] at h
  exact absurd h (by decide)

/-- An id that was issued stays issued. -/
theorem Issued.newRequestId (h : q.Issued mid)
    (hn : MessageId.isRequest (q.lastRequestId + 1) = true) : (q.newRequestId mp).2.Issued mid := by
  obtain ⟨n, hreq, hle, rfl⟩ := h
  refine ⟨n, hreq, ?_, rfl⟩
  show n.toNat ≤ (q.lastRequestId + 1).toNat
  rw [toNat_lastRequestId hn]
  omega

/-- A new request has a new id. -/
theorem Issued.ne_new (h : q.Issued mid)
    (hn : MessageId.isRequest (q.lastRequestId + 1) = true) :
    mid ≠ MessageId.responseId (q.lastRequestId + 1) := by
  obtain ⟨n, hreq, hle, rfl⟩ := h
  intro he
  have heq := MessageId.responseId_inj hreq hn he
  have hnat := toNat_lastRequestId hn
  rw [heq] at hle
  omega

end Requests

-- -------------------------
-- The invariant
-- -------------------------

/-- Every response that has reached a handler did so once. It is pending no more, unless the
actor is `busy` with it. -/
structure Once (q : Requests β) (reached : List MessageId) (busy : MessageId → Prop) : Prop where
  pending : ∀ mid, q.awaits mid = true → q.Issued mid
  issued : ∀ mid ∈ reached, MessageId.isResponse mid = true → q.Issued mid
  nodup : (reached.filter MessageId.isResponse).Nodup
  fresh : ∀ mid ∈ reached, MessageId.isResponse mid = true → q.awaits mid = true → busy mid

namespace Once

variable {q : Requests β} {reached : List MessageId} {busy busy' : MessageId → Prop}
variable {mid : MessageId} {bhvr : β} {mp : MessagePriority}

theorem mono (h : Once q reached busy) (hb : ∀ mid, busy mid → busy' mid) :
    Once q reached busy' :=
  ⟨h.pending, h.issued, h.nodup, fun mid hm hr ha => hb mid (h.fresh mid hm hr ha)⟩

/-- When the actor is not busy, it does not matter what it will be busy with. -/
theorem idle (h : Once q reached fun _ => False) : Once q reached busy :=
  h.mono fun _ hf => hf.elim

/-- A new request has not been answered. -/
theorem request (h : Once q reached busy)
    (hn : MessageId.isRequest (q.lastRequestId + 1) = true) :
    Once (q.newRequestId mp).2 reached busy := by
  refine ⟨fun mid ha => ?_, fun mid hm hr => (h.issued mid hm hr).newRequestId hn, h.nodup,
    fun mid hm hr ha => ?_⟩
  · rcases Requests.awaits_newRequestId.mp ha with rfl | ha
    · exact ⟨_, hn, Nat.le_refl _, rfl⟩
    · exact (h.pending mid ha).newRequestId hn
  · rcases Requests.awaits_newRequestId.mp ha with heq | ha
    · exact absurd heq ((h.issued mid hm hr).ne_new hn)
    · exact h.fresh mid hm hr ha

/-- Setting a handler reaches none. -/
theorem handler (h : Once q reached busy) : Once (q.setResponseHandler mid bhvr) reached busy := by
  refine ⟨fun mid ha => ?_, h.issued, h.nodup, fun mid hm hr ha => ?_⟩
  · rw [Requests.awaits_setResponseHandler] at ha
    exact h.pending mid ha
  · rw [Requests.awaits_setResponseHandler] at ha
    exact h.fresh mid hm hr ha

/-- A response that arrived is no longer busy. -/
theorem arrived (h : Once q reached (· = mid)) : Once (q.markArrived mid) reached busy := by
  refine ⟨fun mid' ha => h.pending mid' (Requests.awaits_markArrived.mp ha).2, h.issued, h.nodup,
    fun mid' hm hr ha => ?_⟩
  obtain ⟨hne, ha⟩ := Requests.awaits_markArrived.mp ha
  exact absurd (h.fresh mid' hm hr ha) hne

/-- Dropping all pending responses reaches none. -/
theorem clear (h : Once q reached busy) :
    Once ({ q with pendingResponses := [] } : Requests β) reached busy' := by
  have hnone : ∀ mid, ({ q with pendingResponses := [] } : Requests β).awaits mid = true → False :=
    fun mid ha => by cases ha
  exact ⟨fun mid ha => (hnone mid ha).elim, h.issued, h.nodup,
    fun mid _ _ ha => (hnone mid ha).elim⟩

/-- A response that is pending reaches its handler for the first time. -/
theorem reach (h : Once q reached fun _ => False) (ha : q.awaits mid = true)
    (hr : MessageId.isResponse mid = true) : Once q (reached ++ [mid]) (· = mid) := by
  have hnew : mid ∉ reached := fun hm => h.fresh mid hm hr ha
  refine ⟨h.pending, fun mid' hm hr' => ?_, ?_, fun mid' hm hr' ha' => ?_⟩
  · rcases List.mem_append.mp hm with hm | hm
    · exact h.issued mid' hm hr'
    · rw [List.mem_singleton.mp hm]
      exact h.pending mid ha
  · rw [List.filter_append, List.nodup_append]
    refine ⟨h.nodup, List.Pairwise.filter _ (List.pairwise_singleton ..), ?_⟩
    rintro x hx y hy rfl
    obtain rfl := List.mem_singleton.mp (List.mem_of_mem_filter hy)
    exact hnew (List.mem_of_mem_filter hx)
  · rcases List.mem_append.mp hm with hm | hm
    · exact (h.fresh mid' hm hr' ha').elim
    · exact List.mem_singleton.mp hm

/-- Other messages reach handlers as well. -/
theorem reachOther (h : Once q reached busy) (hr : MessageId.isResponse mid = false) :
    Once q (reached ++ [mid]) busy := by
  have hold : ∀ mid' ∈ reached ++ [mid], MessageId.isResponse mid' = true → mid' ∈ reached := by
    intro mid' hm hr'
    rcases List.mem_append.mp hm with hm | hm
    · exact hm
    · rw [List.mem_singleton.mp hm, hr] at hr'
      cases hr'
  refine ⟨h.pending, fun mid' hm hr' => h.issued mid' (hold mid' hm hr') hr', ?_,
    fun mid' hm hr' => h.fresh mid' (hold mid' hm hr') hr'⟩
  simpa [List.filter_append, hr] using h.nodup

end Once

namespace EventBasedActor

variable {s s' : EventBasedActor} {e : MailboxElement} {origin : Origin} {awaited : MessageId}
variable {ptr : Option MailboxElement} {o : Outcome}

/-- The response that the actor is busy with. After an exception, `actor_done` clears the
pending responses. -/
def Phase.busyWith : Phase → MessageId → Prop
  | .invoking _ job, mid => job.awaited = some mid
  | .failed _ (some job), mid => job.awaited = some mid
  | .onExit false, _ => True
  | _, _ => False

/-- Nothing that has reached its handler is pending. -/
def Settled (s : EventBasedActor) : Prop := Once s.requests s.reached fun _ => False

/-- The invariant of a run. -/
def HandledOnce (s : EventBasedActor) : Prop := Once s.requests s.reached s.phase.busyWith

/-- A step that touches neither requests nor the record. -/
theorem Settled.handledOnce (h : s.Settled) (hq : s'.requests = s.requests)
    (hr : s'.reached = s.reached) : s'.HandledOnce := by
  unfold HandledOnce
  rw [hq, hr]
  exact h.idle

theorem HandledOnce.settled (h : s.HandledOnce) (hp : ∀ mid, ¬ s.phase.busyWith mid) : s.Settled :=
  Once.mono h fun mid hb => hp mid hb

-- -------------------------
-- `invoke_message`
-- -------------------------

/-- The results of `invoke_message` leave the responses alone. -/
theorem Settled.success (h : s.Settled) : s.success.HandledOnce := by
  rcases s.success_eq with he | he <;> rw [he] <;> exact h.handledOnce rfl rfl

theorem Settled.dropped (h : s.Settled) : (s.dropped origin).HandledOnce := by
  obtain ⟨phase, he, -⟩ := s.dropped_eq origin
  rw [he]
  exact h.handledOnce rfl rfl

theorem Settled.skipped (h : s.Settled) : (s.skipped e origin).HandledOnce := by
  obtain ⟨visited, phase, he, -⟩ := s.skipped_eq e origin
  rw [he]
  exact h.handledOnce rfl rfl

/-- The entry of a response is removed when it has been handled. -/
theorem finishResponse_once (h : Once s.requests s.reached (· = awaited)) :
    (s.finishResponse awaited ptr).HandledOnce := by
  let s₁ : EventBasedActor := { s with current := ptr, requests := s.requests.markArrived awaited }
  have hsettled : s₁.Settled := h.arrived
  exact hsettled.success

/-- A pending response reaches its handler. -/
theorem Settled.reach (h : s.Settled) (hf : s.filterMsg e = .syncResponse) (he : e.mid = awaited) :
    Once s.requests (s.reached ++ [e.mid]) (· = awaited) := by
  have hfits := filterMsg_fits s e
  rw [hf] at hfits
  obtain ⟨hresp, hawaits⟩ : MessageId.isResponse e.mid = true ∧ s.requests.awaits e.mid = true :=
    hfits
  exact (Once.reach h hawaits hresp).mono fun mid hm => hm.trans he

/-- Invoking a message keeps every response handled once. -/
theorem Invoked.once (h : s.Settled) (hi : s.Invoked e origin awaited s') : s'.HandledOnce := by
  cases hi with
  | dropped => exact h.dropped
  | replied => exact Settled.dropped (s := s.send _) h
  | skipped => exact h.skipped
  | saveState | loadState | timeout => exact h.handledOnce rfl rfl
  | exit => exact Settled.success (s := s.quit _) h
  | message hf =>
    have hfits := filterMsg_fits s e
    rw [hf] at hfits
    exact (Once.reachOther h hfits).idle
  | response hf he => exact (h.reach hf he).mono fun mid hm => by rw [hm]; rfl
  | syncTimeout hf he => exact (h.reach hf he).mono fun mid hm => by rw [hm]; rfl
  | arrived hf he => exact finishResponse_once (h.reach hf he)

-- -------------------------
-- The end of user code
-- -------------------------

/-- Post processing issues no request. -/
theorem postProcess_once {busy : MessageId → Prop} (h : Once s.requests s.reached busy) :
    Once (s.postProcess o).2.requests (s.postProcess o).2.reached busy := by
  obtain ⟨current, promises, sent, he, -⟩ := s.postProcess_eq o
  rw [he]
  show Once (s.wrapped o) s.reached busy
  unfold wrapped
  split
  · split
    · exact h.handler
    · exact h
  · exact h

/-- Nor does catching an exception. -/
theorem caught_once {job : Option Job} (h : Once s.requests s.reached fun mid =>
    ∃ j, job = some j ∧ j.awaited = some mid) : (s.caught o job).HandledOnce := by
  obtain ⟨plannedExitReason, eptr, he⟩ := s.caught_eq o job
  rw [he]
  refine h.mono fun mid hm => ?_
  obtain ⟨j, rfl, hj⟩ := hm
  exact hj

/-- What the actor is busy with while user code runs. -/
theorem HandledOnce.busy {job : Job} (h : s.HandledOnce) (hp : s.phase = .invoking origin job) :
    Once s.requests s.reached fun mid => job.awaited = some mid := by
  have hthis : Once s.requests s.reached s.phase.busyWith := h
  rw [hp] at hthis
  exact hthis

-- -------------------------
-- Steps
-- -------------------------

/-- The number of a new request is that of a request. -/
def numbersRequests (s : EventBasedActor) : Label → Bool
  | .act (.request _) => MessageId.isRequest (s.requests.lastRequestId + 1)
  | .ret o =>
    match s.phase with
    | .invoking _ (.saveState _) => o.throws || MessageId.isRequest (s.requests.lastRequestId + 1)
    | _ => true
  | _ => true

/-- An actor is not revived after the handler of a response threw. -/
def staysDown (s : EventBasedActor) : Label → Bool
  | .handle rsn =>
    match s.phase with
    | .failed _ (some job) =>
      job.awaited.isNone || rsn.getD s.plannedExitReason ≠ ExitReason.notExited
    | _ => true
  | _ => true

/-- The runs that the result is about. -/
def Disciplined (s : EventBasedActor) (l : Label) : Prop :=
  s.numbersRequests l = true ∧ s.staysDown l = true

instance (s : EventBasedActor) (l : Label) : Decidable (Disciplined s l) :=
  inferInstanceAs (Decidable (_ ∧ _))

/-- The end of user code keeps every response handled once. -/
theorem Returned.once (h : s.HandledOnce) (hok : s.numbersRequests (.ret o) = true)
    (hr : s.Returned o s') : s'.HandledOnce := by
  -- most jobs await no response
  have hidle : ∀ {origin job}, s.phase = .invoking origin job → job.awaited = none → s.Settled := by
    intro origin job hp hj
    exact (h.busy hp).mono fun mid hm => by rw [hj] at hm; cases hm
  -- the others await the one they were called for
  have haw : ∀ {origin job awaited}, s.phase = .invoking origin job → job.awaited = some awaited →
      Once s.requests s.reached (· = awaited) := by
    intro origin job awaited hp hj
    refine (h.busy hp).mono fun mid hm => ?_
    rw [hj] at hm
    exact (Option.some.inj hm).symm
  cases hr with
  | initialized hp => exact (h.settled fun mid hb => by rw [hp] at hb; exact hb).handledOnce rfl rfl
  | caught _ hp =>
    refine caught_once (Once.mono h fun mid hb => ?_)
    rcases hp with ⟨hp | hp, -⟩ | ⟨origin, job, hp, rfl⟩
    · rw [hp] at hb
      exact hb.elim
    · rw [hp] at hb
      exact hb.elim
    · rw [hp] at hb
      exact ⟨job, rfl, hb⟩
  | cleanup hp => exact Once.clear h
  | @handled origin hadTimeout ptr hp =>
    have hsettled : ({ (s.postProcess o).2 with current := ptr } : EventBasedActor).Settled :=
      postProcess_once (hidle hp rfl)
    exact hsettled.success
  | skipped hp =>
    exact Settled.skipped (s := { s with current := _, hasTimeout := _ }) (hidle hp rfl)
  | gone hp => exact (hidle hp rfl).handledOnce rfl rfl
  | response hp => exact finishResponse_once (postProcess_once (haw hp rfl))
  | failure hp => exact (haw hp rfl).mono fun mid hm => by rw [hm]; rfl
  | unhandled hp => exact finishResponse_once (s := s.quit _) (haw hp rfl)
  | arrived hp hj => exact finishResponse_once (haw hp (by rcases hj with rfl | rfl <;> rfl))
  | timeout hp => exact (hidle hp rfl).success
  -- saving the state sends a request of its own
  | saved hp ht =>
    have hreq : Once (s.requests.newRequestId .normal).2 s.reached fun _ => False :=
      Once.request (hidle hp rfl) (by simpa [numbersRequests, hp, ht] using hok)
    exact Settled.dropped (s := { s with requests := _ }) hreq.handler
  | loaded hp => exact Settled.dropped (s := s.send _) (hidle hp rfl)

/-- So does what user code does. -/
theorem act_once {a : Action} (h : s.HandledOnce) (hok : s.numbersRequests (.act a) = true) :
    (s.act a).HandledOnce := by
  cases a with
  | request mp =>
    have hreq : Once (s.requests.newRequestId mp).2 s.reached s.phase.busyWith :=
      Once.request h hok
    exact hreq
  | setResponseHandler mid bhvr => exact Once.handler h
  | become bhvr discardOld =>
    obtain ⟨mailbox, enqueued, sent, he⟩ := s.become_eq bhvr discardOld
    rw [he]
    exact h
  | makeResponsePromise =>
    obtain ⟨current, promises, he, -⟩ := s.keepPromise_eq
    rw [show s.act .makeResponsePromise = s.keepPromise from rfl, he]
    exact h
  | unbecome | quit rsn | trapExit value | onSyncFailure value | isMigratedFrom value | relay r =>
    exact h

/-- The actor is not busy with a response between two messages. -/
theorem HandledOnce.settled_of_takes (h : s.HandledOnce) (hp : s.phase.takes = true) :
    s.Settled := by
  refine h.settled fun mid hb => ?_
  cases hphase : s.phase <;> simp_all [Phase.takes, Phase.busyWith]

/-- The actor is revived only if it is not busy with a response. -/
theorem HandledOnce.revive {rsn : Option ExitReason} {eptr : Bool} {job : Option Job}
    (h : s.HandledOnce) (hp : s.phase = .failed eptr job)
    (hr : rsn.getD s.plannedExitReason = ExitReason.notExited)
    (hok : s.staysDown (.handle rsn) = true) : s.Settled := by
  refine h.settled fun mid hb => ?_
  rw [hp] at hb
  cases job with
  | none => exact hb
  | some job =>
    have haw : job.awaited = some mid := hb
    simp [staysDown, hp, haw, hr] at hok

/-- Every step keeps every response handled once. -/
theorem HandledOnce.step {l : Label} (h : s.HandledOnce) (hok : Disciplined s l)
    (hs : s.step l = some s') : s'.HandledOnce := by
  -- one case for each step of the actor
  cases step_cases hs with
  | enqueue =>
    obtain ⟨mailbox, enqueued, sent, he⟩ := s.enqueue_eq _ _ _
    rw [he]
    exact h
  | act => exact act_once h hok.1
  | ret hr => exact Returned.once h hok.1 hr
  | takes ht hi =>
    -- nothing is pending that has reached its handler, so the next response is a new one
    have hsettled := h.settled_of_takes ht.takes
    obtain ⟨mailbox, first, unvisited, rfl⟩ := ht.eq
    exact Invoked.once (s := { s with mailbox, first, unvisited }) hsettled hi
  | reads hr =>
    have hsettled := h.settled_of_takes hr.takes
    obtain ⟨mailbox, first, phase, rfl, -⟩ := hr.eq
    exact hsettled.handledOnce rfl rfl
  | resetTimeout =>
    obtain ⟨mailbox, enqueued, sent, he⟩ := s.requestTimeout_eq _
    rw [he]
    exact h
  | block | deliver => exact h
  | handle hp hphase =>
    rcases hphase with rfl | ⟨rfl, hrsn⟩
    · exact Once.mono h fun _ _ => trivial
    · exact (h.revive hp hrsn hok.2).handledOnce rfl rfl
  | exit hp => exact (h.settled fun mid hb => by rw [hp] at hb; exact hb).handledOnce rfl rfl

-- -------------------------
-- Runs
-- -------------------------

/-- In every disciplined run each response is handled once. -/
theorem handledOnce (h : Reachable Disciplined s) : s.HandledOnce := by
  refine Reach.invariant ?_ (fun s l s' hi hok hs => hi.step hok hs) h
  rintro s ⟨ref, priorityAware, serializable, rfl⟩
  exact ⟨nofun, nofun, List.nodup_nil, nofun⟩

/-- **Handlers of responses fire at most once.** In every run in which an actor is not revived
after the handler of a response threw: messages with the id of a response reach a handler at
most once, and all later ones are dropped. -/
theorem response_handled_once (h : Reachable Disciplined s) {mid : MessageId}
    (hr : MessageId.isResponse mid = true) :
    s.reached.count mid ≤ 1 ∧ (mid ∈ s.reached → s.phase.takes = true →
      ∀ (e : MailboxElement) (origin : Origin) (awaited : MessageId), e.mid = mid →
        s.invokeMessage e origin awaited = s.dropped origin) := by
  have hinv := handledOnce h
  refine ⟨?_, fun hm ht e origin awaited he => ?_⟩
  · have hcount := List.nodup_iff_count.mp hinv.nodup mid
    rwa [List.count_filter hr] at hcount
  · have hbusy : ¬ s.phase.busyWith mid := by
      intro hb
      cases hp : s.phase <;> simp_all [Phase.takes, Phase.busyWith]
    have hlate : s.requests.awaits mid = false := by
      by_contra ha
      exact hbusy (hinv.fresh mid hm hr (by simpa using ha))
    have htype : s.filterMsg e = .expiredSyncResponse := by
      simp [filterMsg, he, hr, hlate]
    unfold invokeMessage
    rw [htype]

/-- The id of the response to the first request of an actor. -/
def Sample.firstResponse : MessageId := 0x8000000000000001

/-- An actor makes a request and gets the response to it. -/
def Sample.receives : List Label :=
  [.act (.become ⟨none, .user 0⟩ false), .act (.request .normal),
    .act (.setResponseHandler Sample.firstResponse ⟨none, .user 0⟩), .ret .void,
    .enqueue (.localActor 7) Sample.firstResponse .user, .next]

/-- The handler returns: a second response is dropped. -/
theorem response_handled_once_duplicate : ∃ s : EventBasedActor, Reachable Disciplined s ∧
    Sample.firstResponse ∈ s.reached ∧ s.phase.takes = true ∧
    s.reached.count Sample.firstResponse ≤ 1 ∧
    s.invokeMessage ⟨1, .localActor 7, Sample.firstResponse, .user⟩ .mailbox 0 =
      s.dropped .mailbox := by
  obtain ⟨s, hrun, hs⟩ := exists_run (fun s l => if Disciplined s l then step s l else none)
    (initial 0 false false) (Sample.receives ++ ([.ret .void] : List Label))
    (fun s => Sample.firstResponse ∈ s.reached && s.phase.takes) (by decide +kernel)
  simp only [Bool.and_eq_true, decide_eq_true_eq] at hs
  have hreach : Reachable Disciplined s :=
    reach_of_checked_run (.init ⟨0, false, false, rfl⟩) hrun
  obtain ⟨hcount, hlate⟩ := response_handled_once hreach (by decide :
    MessageId.isResponse Sample.firstResponse = true)
  exact ⟨s, hreach, hs.1, hs.2, hcount, hlate hs.1 hs.2 _ _ _ rfl⟩

/-- The handler throws and the actor is revived: a second response reaches it again. -/
theorem response_handled_twice : ¬ ∀ s : EventBasedActor, Reachable anyStep s →
    ∀ mid, MessageId.isResponse mid = true → s.reached.count mid ≤ 1 := by
  intro h
  obtain ⟨s, hrun, hs⟩ := exists_run step (initial 0 false false)
    (Sample.receives ++ ([.ret .thrown, .handle (some ExitReason.notExited),
      .enqueue (.localActor 7) Sample.firstResponse .user, .next] : List Label))
    (fun s => s.reached.count Sample.firstResponse = 2) (by decide +kernel)
  have hcount := h s (reach_of_run (.init ⟨0, false, false, rfl⟩) hrun) Sample.firstResponse
    (by decide)
  rw [of_decide_eq_true hs] at hcount
  exact absurd hcount (by decide)

end EventBasedActor

end BoostActor
