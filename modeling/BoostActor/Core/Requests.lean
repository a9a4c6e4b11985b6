import Mathlib.Data.List.Induction
import BoostActor.Core.MessageId

/-!
# Requests and their responses

A local actor numbers its requests and keeps a list of the responses it waits for,
with the handler of each. A response is recognised by its id alone, as a whole word:
the id under which it is stored comes from the number of the request, the id it
arrives with from the request as the last actor received it.

* `Requests` — the pending responses and the functions that maintain them;
* `Relay` — the ways in which an actor passes a request on;
* `correlated_iff` — the two ids are the same exactly when the request ends up with the
  priority that its number has, which is the normal one.
-/

namespace BoostActor

variable {β : Type}

-- -------------------------
-- Pending responses
-- -------------------------

/-- What a local actor knows about its requests. The handlers are of type `β`; a response
without handler has the empty behavior. -/
structure Requests (β : Type) where
  lastRequestId : MessageId
  pendingResponses : List (MessageId × Option β)

/-- The classes of a response in `filter_msg`. -/
inductive ResponseType where
  | syncResponse
  | expiredSyncResponse
deriving DecidableEq, Repr

namespace Requests

/-- An actor that has not asked anything. -/
def initial : Requests β := ⟨0, []⟩

/-- `new_request_id(mp)`. -/
def newRequestId (q : Requests β) (mp : MessagePriority) : MessageId × Requests β :=
  let result := q.lastRequestId + 1
  (if mp = .normal then result else MessageId.withHighPriority result,
    ⟨result, (MessageId.responseId result, none) :: q.pendingResponses⟩)

/-- `mark_arrived(mid)`. -/
def markArrived (q : Requests β) (mid : MessageId) : Requests β :=
  { q with pendingResponses := q.pendingResponses.filter (·.1 != mid) }

/-- `awaits(mid)`. -/
def awaits (q : Requests β) (mid : MessageId) : Bool := q.pendingResponses.any (·.1 == mid)

/-- `find_pending_response(mid)`. -/
def findPendingResponse (q : Requests β) (mid : MessageId) : Option (MessageId × Option β) :=
  q.pendingResponses.find? (·.1 == mid)

/-- `awaited_response_id()`. -/
def awaitedResponseId (q : Requests β) : MessageId :=
  (q.pendingResponses.head?.map (·.1)).getD 0

/-- Replaces the handler of the first pending response with the given id. -/
def assign (mid : MessageId) (bhvr : β) :
    List (MessageId × Option β) → List (MessageId × Option β)
  | [] => []
  | pr :: prs => if pr.1 == mid then (pr.1, some bhvr) :: prs else pr :: assign mid bhvr prs

/-- `set_response_handler(response_id, bhvr)`. -/
def setResponseHandler (q : Requests β) (responseId : MessageId) (bhvr : β) : Requests β :=
  { q with pendingResponses := assign responseId bhvr q.pendingResponses }

/-- What `filter_msg` makes of a message with the flag of a response. -/
def filterResponse (q : Requests β) (mid : MessageId) : Option ResponseType :=
  if MessageId.isResponse mid then
    some (if q.awaits mid then .syncResponse else .expiredSyncResponse)
  else none

/-- What else the requester does while it waits. -/
inductive Op (β : Type) where
  | request (mp : MessagePriority)
  | handler (mid : MessageId) (bhvr : β)
  | arrived (mid : MessageId)

/-- One of these operations. -/
def apply (q : Requests β) : Op β → Requests β
  | .request mp => (q.newRequestId mp).2
  | .handler mid bhvr => q.setResponseHandler mid bhvr
  | .arrived mid => q.markArrived mid

/-- A sequence of them. -/
def run (q : Requests β) (ops : List (Op β)) : Requests β := ops.foldl apply q

/-- The operation is about another response than the one with the given id. -/
def Op.spares (mid : MessageId) : Op β → Prop
  | .request _ => True
  | .handler mid' _ => mid' ≠ mid
  | .arrived mid' => mid' ≠ mid

end Requests

-- -------------------------
-- Passing a request on
-- -------------------------

/-- How an actor passes the request on that it is working on. -/
inductive Relay where
  /-- `forward_current_message(dest)` -/
  | forward
  /-- `forward_current_message(dest, prio)` -/
  | forwardWith (prio : MessagePriority)
  /-- `delegate(mp, dest, xs...)` -/
  | delegate (mp : MessagePriority)
deriving DecidableEq, Repr

/-- The id with which a request is passed on. -/
def Relay.mid : Relay → MessageId → MessageId
  | .forward, mid => mid
  | .forwardWith prio, mid => MessageId.withPriority prio mid
  | .delegate mp, mid => MessageId.withPriority mp mid

/-- The id with which a request arrives at the end of a chain. -/
def relayed (chain : List Relay) (mid : MessageId) : MessageId :=
  chain.foldl (fun mid r => r.mid mid) mid

/-- The priority that a relay asks for. -/
def Relay.priority? : Relay → Option MessagePriority
  | .forward => none
  | .forwardWith prio => some prio
  | .delegate mp => some mp

/-- The priority that was asked for last. -/
def lastPriority (chain : List Relay) : Option MessagePriority :=
  chain.foldl (fun p r => r.priority?.or p) none

/-- Along a chain only the priority changes, and the last choice of it counts. -/
theorem relayed_eq (chain : List Relay) (mid : MessageId) : relayed chain mid =
    ((lastPriority chain).map (MessageId.withPriority · mid)).getD mid := by
  induction chain using List.reverseRecOn with
  | nil => rfl
  | append_singleton chain r ih =>
    have hrelayed : relayed (chain ++ [r]) mid = r.mid (relayed chain mid) := by
      rw [relayed, List.foldl_append]
      rfl
    have hlast : lastPriority (chain ++ [r]) = r.priority?.or (lastPriority chain) := by
      rw [lastPriority, List.foldl_append]
      rfl
    rw [hrelayed, hlast, ih]
    cases r with
    | forward => rfl
    | forwardWith prio =>
      cases lastPriority chain with
      | none => rfl
      | some p => simp [Relay.mid, Relay.priority?]
    | delegate mp =>
      cases lastPriority chain with
      | none => rfl
      | some p => simp [Relay.mid, Relay.priority?]

-- -------------------------
-- Correlation
-- -------------------------

/-- The id of the answer to a request that is sent with priority `mp` and then passed on
along a chain. -/
def answerId (q : Requests β) (mp : MessagePriority) (chain : List Relay) : MessageId :=
  MessageId.responseId (relayed chain (q.newRequestId mp).1)

/-- The requester after `sync_send(mp, dest, xs...).then(bhvr)`. -/
def Requests.syncSendThen (q : Requests β) (mp : MessagePriority) (bhvr : β) : Requests β :=
  (q.newRequestId mp).2.setResponseHandler (MessageId.responseId (q.newRequestId mp).1) bhvr

/-- The answer to a request has the id under which the requester stored the pending
response: its handler is installed there, and whatever the requester does until the
answer arrives, it is awaited, it is not dropped as expired, and its handler is the one
that was given for it. -/
structure Correlated (q : Requests β) (mp : MessagePriority) (chain : List Relay) (bhvr : β) :
    Prop where
  same : answerId q mp chain = MessageId.responseId (q.lastRequestId + 1)
  installed : (q.syncSendThen mp bhvr).findPendingResponse (answerId q mp chain) =
    some (answerId q mp chain, some bhvr)
  handled : ∀ ops : List (Requests.Op β), (∀ op ∈ ops, op.spares (answerId q mp chain)) →
    ((q.syncSendThen mp bhvr).run ops).awaits (answerId q mp chain) = true ∧
    ((q.syncSendThen mp bhvr).run ops).filterResponse (answerId q mp chain) =
      some .syncResponse ∧
    (answerId q mp chain, some bhvr) ∈ ((q.syncSendThen mp bhvr).run ops).pendingResponses

namespace Requests

variable {q : Requests β} {mid : MessageId} {bhvr : β}

/-- Assigning a handler to another id keeps this one. -/
theorem mem_assign {mid' : MessageId} {bhvr' : β} {prs : List (MessageId × Option β)}
    (hne : mid' ≠ mid) (h : (mid, some bhvr) ∈ prs) :
    (mid, some bhvr) ∈ assign mid' bhvr' prs := by
  induction prs with
  | nil => cases h
  | cons pr prs ih =>
    unfold assign
    rcases List.mem_cons.mp h with rfl | h
    · rw [if_neg (by simpa using Ne.symm hne)]
      exact List.mem_cons_self
    · split
      · exact List.mem_cons_of_mem _ h
      · exact List.mem_cons_of_mem _ (ih h)

/-- A pending response stays while the requester is busy with others. -/
theorem mem_run {ops : List (Op β)} (hops : ∀ op ∈ ops, op.spares mid)
    (h : (mid, some bhvr) ∈ q.pendingResponses) :
    (mid, some bhvr) ∈ (q.run ops).pendingResponses := by
  induction ops generalizing q with
  | nil => exact h
  | cons op ops ih =>
    refine ih (fun op' hop' => hops op' (List.mem_cons_of_mem _ hop')) ?_
    have hop := hops op List.mem_cons_self
    cases op with
    | request mp => exact List.mem_cons_of_mem _ h
    | handler mid' bhvr' => exact mem_assign hop h
    | arrived mid' => exact List.mem_filter.mpr ⟨h, by simpa using Ne.symm hop⟩

theorem awaits_of_mem {b : Option β} (h : (mid, b) ∈ q.pendingResponses) :
    q.awaits mid = true := by
  rw [awaits, List.any_eq_true]
  exact ⟨_, h, beq_self_eq_true mid⟩

/-- The id that a request is sent with. -/
theorem newRequestId_fst (mp : MessagePriority) : (q.newRequestId mp).1 =
    if mp = .normal then q.lastRequestId + 1
    else MessageId.withPriority .high (q.lastRequestId + 1) := by
  unfold newRequestId
  split
  · rfl
  · rw [MessageId.withPriority, if_pos rfl]

/-- The handler goes to the new entry only if the id for `then` is that of the entry. -/
theorem syncSendThen_pending (mp : MessagePriority) :
    (q.syncSendThen mp bhvr).pendingResponses =
      if MessageId.responseId (q.lastRequestId + 1) == MessageId.responseId (q.newRequestId mp).1
      then (MessageId.responseId (q.lastRequestId + 1), some bhvr) :: q.pendingResponses
      else (MessageId.responseId (q.lastRequestId + 1), none) ::
        assign (MessageId.responseId (q.newRequestId mp).1) bhvr q.pendingResponses := rfl

/-- Without high priority, it always is. -/
theorem syncSendThen_normal : q.syncSendThen .normal bhvr = ⟨q.lastRequestId + 1,
    (MessageId.responseId (q.lastRequestId + 1), some bhvr) :: q.pendingResponses⟩ := by
  simp [syncSendThen, newRequestId, setResponseHandler, assign]

end Requests

variable {q : Requests β} {mp : MessagePriority} {chain : List Relay} {bhvr : β}

/-- The condition under which the flags of a request are those of its number: the number
is that of a request, and every choice of a priority that counts is the one it has. -/
def KeepsPriority (q : Requests β) (mp : MessagePriority) (chain : List Relay) : Prop :=
  MessageId.isRequest (q.lastRequestId + 1) = true ∧
  (mp = .high → MessageId.isHighPriority (q.lastRequestId + 1) = true) ∧
  ∀ prio, lastPriority chain = some prio →
    MessageId.isHighPriority (q.lastRequestId + 1) = decide (prio = .high)

/-- Then the request arrives with its number as id. -/
theorem KeepsPriority.relayed (h : KeepsPriority q mp chain) :
    (q.newRequestId mp).1 = q.lastRequestId + 1 ∧
    BoostActor.relayed chain (q.newRequestId mp).1 = q.lastRequestId + 1 := by
  obtain ⟨-, hmp, hchain⟩ := h
  have hsent : (q.newRequestId mp).1 = q.lastRequestId + 1 := by
    rw [Requests.newRequestId_fst]
    split
    · rfl
    · next hne =>
      have hhigh : mp = .high := by cases mp <;> simp_all
      exact MessageId.withPriority_eq_self (by simpa using hmp hhigh)
  refine ⟨hsent, ?_⟩
  rw [hsent, relayed_eq]
  cases hp : lastPriority chain with
  | none => rfl
  | some prio => exact MessageId.withPriority_eq_self (hchain prio hp)

/-- With the priority kept the answer reaches the handler. -/
theorem KeepsPriority.correlated (h : KeepsPriority q mp chain) : Correlated q mp chain bhvr := by
  obtain ⟨hsent, hrelayed⟩ := h.relayed
  have hsame : answerId q mp chain = MessageId.responseId (q.lastRequestId + 1) := by
    rw [answerId, hrelayed]
  have hpending : (q.syncSendThen mp bhvr).pendingResponses =
      (answerId q mp chain, some bhvr) :: q.pendingResponses := by
    rw [Requests.syncSendThen_pending, hsent, if_pos (beq_self_eq_true _), hsame]
  have hresponse : MessageId.isResponse (answerId q mp chain) = true := by
    rw [hsame]
    exact MessageId.isResponse_responseId h.1
  refine ⟨hsame, ?_, fun ops hops => ?_⟩
  · rw [Requests.findPendingResponse, hpending]
    simp
  · have hmem : (answerId q mp chain, some bhvr) ∈
        ((q.syncSendThen mp bhvr).run ops).pendingResponses :=
      Requests.mem_run hops (by rw [hpending]; exact List.mem_cons_self)
    have hawaits := Requests.awaits_of_mem hmem
    refine ⟨hawaits, ?_, hmem⟩
    rw [Requests.filterResponse, if_pos hresponse, if_pos hawaits]

/-- A response that is recognised answers a request. -/
theorem Correlated.isRequest (h : Correlated q mp chain bhvr) :
    MessageId.isRequest (q.lastRequestId + 1) = true := by
  have hfilter := (h.handled [] (by simp)).2.1
  cases hr : MessageId.isRequest (q.lastRequestId + 1) with
  | true => rfl
  | false =>
    -- the stored id is zero, and zero is not the id of a response
    rw [h.same, MessageId.responseId_eq_zero hr] at hfilter
    cases hfilter

/-- And only then. -/
theorem Correlated.keepsPriority (h : Correlated q mp chain bhvr) : KeepsPriority q mp chain := by
  have hreq := h.isRequest
  have hsentReq : MessageId.isRequest (q.newRequestId mp).1 = true := by
    rw [Requests.newRequestId_fst]
    split
    · exact hreq
    · rw [MessageId.isRequest_withPriority, hreq]
  -- relaying keeps requests requests
  have hrelayedReq : MessageId.isRequest (relayed chain (q.newRequestId mp).1) = true := by
    rw [relayed_eq]
    cases lastPriority chain with
    | none => exact hsentReq
    | some prio =>
      show MessageId.isRequest (MessageId.withPriority prio _) = true
      rw [MessageId.isRequest_withPriority, hsentReq]
  refine ⟨hreq, fun hmp => ?_, fun prio hprio => ?_⟩
  · -- otherwise the handler was given for another id
    have hinst := h.installed
    rw [Requests.findPendingResponse, Requests.syncSendThen_pending, h.same] at hinst
    split at hinst
    · next heq =>
      have hbit := congrArg MessageId.isHighPriority (beq_iff_eq.mp heq)
      rw [MessageId.isHighPriority_responseId hreq, MessageId.isHighPriority_responseId hsentReq,
        Requests.newRequestId_fst, hmp, if_neg (by decide)] at hbit
      rw [hbit, MessageId.isHighPriority_withPriority]
      rfl
    · simp at hinst
  · have hbit := congrArg MessageId.isHighPriority h.same
    rw [answerId, MessageId.isHighPriority_responseId hrelayedReq,
      MessageId.isHighPriority_responseId hreq, relayed_eq, hprio] at hbit
    rw [← hbit]
    exact MessageId.isHighPriority_withPriority

/-- **Responses are correlated exactly when priorities are kept.** For every requester,
every priority of the request and every chain of forwards and delegations, the response
finds its handler if and only if the last priority that was chosen on the way is the one
of the number of the request. -/
theorem correlated_iff (q : Requests β) (mp : MessagePriority) (chain : List Relay) (bhvr : β) :
    Correlated q mp chain bhvr ↔ KeepsPriority q mp chain :=
  ⟨Correlated.keepsPriority, KeepsPriority.correlated⟩

/-- An actor that has made fewer than `2^61 - 1` requests: all choices have to be for the
normal priority. -/
theorem keepsPriority_iff_normal (h : q.lastRequestId.toNat < 2 ^ 61 - 1) :
    KeepsPriority q mp chain ↔ mp = .normal ∧ lastPriority chain ≠ some .high := by
  have hnat : (q.lastRequestId + 1).toNat = q.lastRequestId.toNat + 1 := by
    rw [UInt64.toNat_add, UInt64.toNat_one, Nat.mod_eq_of_lt (by omega)]
  have hne : q.lastRequestId + 1 ≠ 0 := by
    intro he
    rw [he] at hnat
    cases hnat
  obtain ⟨hreq, hprio⟩ := MessageId.flags_of_lt hne (by omega)
  rw [KeepsPriority, hreq, hprio]
  refine ⟨fun ⟨_, hmp, hchain⟩ => ⟨?_, fun hhigh => ?_⟩, fun ⟨hmp, hchain⟩ => ⟨rfl, ?_, ?_⟩⟩
  · cases mp with
    | normal => rfl
    | high => cases hmp rfl
  · simpa using hchain .high hhigh
  · rintro rfl
    cases hmp
  · intro prio hp
    cases prio with
    | normal => rfl
    | high => exact absurd hp hchain

/-- A request with high priority: its response is dropped as expired. -/
theorem correlated_high : ¬ ∀ (mp : MessagePriority) (chain : List Relay),
    Correlated (Requests.initial (β := Unit)) mp chain () := by
  intro h
  obtain ⟨hmp, -⟩ := (keepsPriority_iff_normal (by decide)).mp (h .high []).keepsPriority
  cases hmp

end BoostActor
