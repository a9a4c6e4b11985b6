import Mathlib.Tactic.Common
import BoostActor.Lib.Run
import BoostActor.Core.MessageId

/-!
# Timeouts of blocking actors

`blocking_actor::dequeue` requests a timeout, reads messages until one is handled and then resets
its timeout with the id that `request_timeout` returned. Handlers can call `dequeue` again, to any
depth. `request_timeout` increments the counter twice: once for the id that it returns and once
for the id in the message.

* `BlockingActor.step` — an actor with the calls of `dequeue` that have not returned;
* `Parity` — the ids in use are even, those returned are odd;
* `request_timeout_unusable` — in every reachable state the id that `request_timeout` returns is
  not the id of the active timeout, and no call of `dequeue` resets its timeout.
-/

namespace BoostActor

open Lib

namespace BlockingActor

-- -------------------------
-- State
-- -------------------------

/-- The messages in the mailbox of a blocking actor. -/
inductive Letter where
  | timeout (timeoutId : UInt32)
  | response (mid : MessageId)
  /-- an exit message that ends the actor -/
  | exit
  /-- an exit message with a normal reason, or a system message -/
  | signal
  | message
deriving DecidableEq, Repr

/-- The local variables of a call of `dequeue`: the timeout of its behavior, the awaited response,
the id of its timeout, and whether it still is in `invoke_from_cache`. -/
structure Dequeue where
  timeout : Option Nat
  mid : MessageId
  timeoutId : UInt32
  fromCache : Bool
deriving DecidableEq, Repr

/-- The user code that `invoke_message` runs. -/
inductive Handler where
  /-- for an ordinary message; `hadTimeout` is a local variable of `invoke_message` -/
  | message (hadTimeout : Bool)
  | timeout
  | response
deriving DecidableEq, Repr

/-- A call of `dequeue` that waits for user code. -/
structure Waiting where
  call : Dequeue
  handler : Handler
  letter : Letter
deriving DecidableEq, Repr

/-- How user code ends: a handler that does not match or that calls `skip_message` skips. -/
inductive Outcome where
  | success
  | skip
  | throw
deriving DecidableEq, Repr

end BlockingActor

/-- A blocking actor. `active` is a call of `dequeue` that is looking for a message; without one,
user code is running, for the first call in `waiting` and before or after all calls if there is
none. -/
structure BlockingActor where
  hasTimeout : Bool
  timeoutId : UInt32
  mailbox : List BlockingActor.Letter
  /-- delayed messages of the scheduler -/
  delayed : List (Nat × BlockingActor.Letter)
  cache : List BlockingActor.Letter
  pendingResponses : List MessageId
  active : Option BlockingActor.Dequeue
  waiting : List BlockingActor.Waiting
deriving DecidableEq, Repr

namespace BlockingActor

def initial : BlockingActor := ⟨false, 0, [], [], [], [], none, []⟩

-- -------------------------
-- Timeouts
-- -------------------------

/-- `is_active_timeout`. -/
def isActiveTimeout (s : BlockingActor) (tid : UInt32) : Bool :=
  s.hasTimeout && s.timeoutId = tid

/-- `enqueue`, to the actor itself. -/
def enqueue (s : BlockingActor) (l : Letter) : BlockingActor :=
  { s with mailbox := s.mailbox ++ [l] }

/-- `delayed_send`, to the actor itself. -/
def delayedSend (s : BlockingActor) (d : Nat) (l : Letter) : BlockingActor :=
  { s with delayed := s.delayed ++ [(d, l)] }

/-- `request_timeout`; an invalid duration is `none`. -/
def requestTimeout (s : BlockingActor) : Option Nat → UInt32 × BlockingActor
  | none => (0, { s with hasTimeout := false })
  | some d =>
    let s := { s with hasTimeout := true, timeoutId := s.timeoutId + 1 }
    let result := s.timeoutId
    let s := { s with timeoutId := s.timeoutId + 1 }
    let msg := Letter.timeout s.timeoutId
    (result, if d = 0 then s.enqueue msg else s.delayedSend d msg)

/-- `request_sync_timeout_msg`. -/
def requestSyncTimeoutMsg (s : BlockingActor) (mid : MessageId) : Option Nat → BlockingActor
  | none => s
  | some d => s.delayedSend d (.response mid)

/-- `reset_timeout`. -/
def resetTimeout (s : BlockingActor) (tid : UInt32) : BlockingActor :=
  if s.isActiveTimeout tid then { s with hasTimeout := false } else s

-- -------------------------
-- `dequeue`
-- -------------------------

/-- Back to the loop of `dequeue` or `invoke_from_cache`, after `im_dropped`. -/
def dropped (s : BlockingActor) (c : Dequeue) : BlockingActor := { s with active := some c }

/-- The same after `im_skipped`: the element is put into the cache or stays there. -/
def skipped (s : BlockingActor) (c : Dequeue) (l : Letter) : BlockingActor :=
  { s with active := some c, cache := s.cache ++ [l] }

/-- After `im_success`: a call that has read from its mailbox resets its timeout. -/
def success (s : BlockingActor) (c : Dequeue) : BlockingActor :=
  if c.fromCache = false ∧ c.mid = 0 then s.resetTimeout c.timeoutId else s

/-- User code is called. -/
def call (s : BlockingActor) (w : Waiting) : BlockingActor :=
  { s with active := none, waiting := w :: s.waiting }

/-- `invoke_message`, up to a call of user code. -/
def invokeMessage (s : BlockingActor) (c : Dequeue) (l : Letter) : BlockingActor :=
  match l with
  | .signal => s.dropped c
  -- `quit` throws an exception
  | .exit => { s with active := none }
  | .timeout tid =>
    if s.isActiveTimeout tid = true ∧ c.mid = 0 then s.call ⟨c, .timeout, l⟩ else s.dropped c
  | .response mid =>
    if mid ∉ s.pendingResponses then s.dropped c
    else if MessageId.valid c.mid = true ∧ mid = c.mid then s.call ⟨c, .response, l⟩
    else s.skipped c l
  | .message =>
    if MessageId.valid c.mid then s.skipped c l
    else { s with hasTimeout := false }.call ⟨c, .message s.hasTimeout, l⟩

/-- The rest of `invoke_message`, when user code returns to a call of `dequeue`. -/
def returnTo (s : BlockingActor) (w : Waiting) (o : Outcome) : BlockingActor :=
  match o, w.handler with
  | .throw, _ => s
  | _, .timeout => s.success w.call
  | _, .response =>
    { s with pendingResponses := s.pendingResponses.filter (· ≠ w.call.mid) }.success w.call
  | .success, .message _ => s.success w.call
  | .skip, .message hadTimeout =>
    { s with hasTimeout := s.hasTimeout || hadTimeout }.skipped w.call w.letter

/-- What can happen to a blocking actor. -/
inductive Input where
  /-- user code calls `dequeue` -/
  | dequeue (timeout : Option Nat) (mid : MessageId)
  /-- user code sends a request -/
  | request (mid : MessageId)
  /-- another actor sends a message -/
  | send (l : Letter)
  /-- the scheduler sends a delayed message -/
  | expire (index : Nat)
  /-- `invoke_from_cache` passes an element of the cache to `invoke_message` -/
  | cached (index : Nat)
  /-- `invoke_from_cache` returns false -/
  | searched
  /-- the next message is passed to `invoke_message` -/
  | next
  /-- user code returns to a call of `dequeue` -/
  | ret (o : Outcome)
deriving DecidableEq, Repr

/-- One step of the actor. Which elements `invoke_from_cache` visits is left open, as well as
the order in the cache. -/
def step (s : BlockingActor) : Input → Option BlockingActor
  | .dequeue timeout mid =>
    if s.active = none then some { s with active := some ⟨timeout, mid, 0, true⟩ } else none
  | .request mid =>
    if s.active = none then some { s with pendingResponses := mid :: s.pendingResponses } else none
  | .send l => some (s.enqueue l)
  | .expire index =>
    match s.delayed[index]? with
    | some (_, l) => some ({ s with delayed := s.delayed.eraseIdx index }.enqueue l)
    | none => none
  | .cached index =>
    match s.active, s.cache[index]? with
    | some c, some l =>
      if c.fromCache then some ({ s with cache := s.cache.eraseIdx index }.invokeMessage c l)
      else none
    | _, _ => none
  | .searched =>
    match s.active with
    | some c =>
      if c.fromCache then
        if c.mid = 0 then
          let (timeoutId, s) := s.requestTimeout c.timeout
          some { s with active := some { c with timeoutId, fromCache := false } }
        else
          some { s.requestSyncTimeoutMsg c.mid c.timeout with
            active := some { c with fromCache := false } }
      else none
    | none => none
  | .next =>
    match s.active, s.mailbox with
    | some c, l :: mailbox =>
      if c.fromCache then none else some ({ s with mailbox }.invokeMessage c l)
    | _, _ => none
  | .ret o =>
    match s.active, s.waiting with
    | none, w :: waiting => some ({ s with waiting }.returnTo w o)
    | _, _ => none

def isInitial (s : BlockingActor) : Prop := s = initial

/-- The states of all runs. -/
def Reachable : BlockingActor → Prop := Reach isInitial step anyStep

-- -------------------------
-- Parity of ids
-- -------------------------

/-- The call has requested a timeout of its own. -/
def Dequeue.requested (c : Dequeue) : Bool := !c.fromCache && c.mid = 0 && c.timeout.isSome

/-- The calls of `dequeue` that have not returned. -/
def calls (s : BlockingActor) : List Dequeue := s.active.toList ++ s.waiting.map (·.call)

/-- The id of the last timeout message is even, the ids that calls of `dequeue` have are odd. -/
structure Parity (s : BlockingActor) : Prop where
  even : s.timeoutId.toNat % 2 = 0
  odd : ∀ c ∈ s.calls, c.requested = true → c.timeoutId.toNat % 2 = 1

variable {s s' : BlockingActor}

theorem toNat_succ_mod (x : UInt32) : (x + 1).toNat % 2 = (x.toNat + 1) % 2 := by
  rw [UInt32.toNat_add]
  have : (1 : UInt32).toNat = 1 := rfl
  omega

/-- A timeout with an odd id is never the active one. -/
theorem Parity.inactive (h : s.timeoutId.toNat % 2 = 0) {tid : UInt32} (ht : tid.toNat % 2 = 1) :
    s.isActiveTimeout tid = false := by
  have hne : s.timeoutId ≠ tid := by
    rintro rfl
    omega
  simp [isActiveTimeout, hne]

theorem resetTimeout_inactive {tid : UInt32} (h : s.isActiveTimeout tid = false) :
    s.resetTimeout tid = s := by
  simp [resetTimeout, h]

/-- The counter, and the calls, after a step. -/
theorem Parity.of_eq (h : Parity s) (ht : s'.timeoutId = s.timeoutId)
    (hc : ∀ c ∈ s'.calls, c.requested = true → c ∈ s.calls) : Parity s' :=
  ⟨ht ▸ h.even, fun c hmem hr => h.odd c (hc c hmem hr) hr⟩

/-- Resetting a timeout changes the flag only. -/
theorem resetTimeout_eq (s : BlockingActor) (tid : UInt32) :
    ∃ hasTimeout, s.resetTimeout tid = { s with hasTimeout } := by
  unfold resetTimeout
  split
  · exact ⟨false, rfl⟩
  · exact ⟨s.hasTimeout, rfl⟩

/-- So does the end of a successful call. -/
theorem success_eq (s : BlockingActor) (c : Dequeue) :
    ∃ hasTimeout, s.success c = { s with hasTimeout } := by
  unfold success
  split
  · exact s.resetTimeout_eq _
  · exact ⟨s.hasTimeout, rfl⟩

/-- `invoke_message` moves the call that is looking for a message, or ends it. -/
theorem invokeMessage_calls (c : Dequeue) (l : Letter) :
    (s.invokeMessage c l).timeoutId = s.timeoutId ∧
      ∀ c' ∈ (s.invokeMessage c l).calls, c' = c ∨ c' ∈ s.waiting.map (·.call) := by
  -- nothing is called, and the call goes on
  have hdrop : (s.dropped c).timeoutId = s.timeoutId ∧
      ∀ c' ∈ (s.dropped c).calls, c' = c ∨ c' ∈ s.waiting.map (·.call) :=
    ⟨rfl, fun c' hc' => by simpa [dropped, calls] using hc'⟩
  have hskip : (s.skipped c l).timeoutId = s.timeoutId ∧
      ∀ c' ∈ (s.skipped c l).calls, c' = c ∨ c' ∈ s.waiting.map (·.call) :=
    ⟨rfl, fun c' hc' => by simpa [skipped, calls] using hc'⟩
  -- user code is called while the call waits
  have hcall : ∀ (b : Bool) (h : Handler),
      ({ s with hasTimeout := b }.call ⟨c, h, l⟩).timeoutId = s.timeoutId ∧
        ∀ c' ∈ ({ s with hasTimeout := b }.call ⟨c, h, l⟩).calls,
          c' = c ∨ c' ∈ s.waiting.map (·.call) :=
    fun _ _ => ⟨rfl, fun c' hc' => by simpa [call, calls] using hc'⟩
  unfold invokeMessage
  cases l with
  | signal => exact hdrop
  | exit => exact ⟨rfl, fun c' hc' => Or.inr (by simpa [calls] using hc')⟩
  | timeout tid =>
    dsimp only
    split
    · exact hcall s.hasTimeout .timeout
    · exact hdrop
  | response mid =>
    dsimp only
    -- only the response that is awaited is passed to its handler
    split
    · exact hdrop
    · split
      · exact hcall s.hasTimeout .response
      · exact hskip
  | message =>
    dsimp only
    split
    · exact hskip
    · exact hcall false (.message s.hasTimeout)

/-- Returning to a call of `dequeue` continues or ends it. -/
theorem returnTo_calls (w : Waiting) (o : Outcome) (ha : s.active = none) :
    (s.returnTo w o).timeoutId = s.timeoutId ∧
      ∀ c' ∈ (s.returnTo w o).calls, c' = w.call ∨ c' ∈ s.waiting.map (·.call) := by
  have hdone : ∀ s₁ : BlockingActor, s₁.timeoutId = s.timeoutId → s₁.active = none →
      s₁.waiting = s.waiting → (s₁.success w.call).timeoutId = s.timeoutId ∧
        ∀ c' ∈ (s₁.success w.call).calls, c' = w.call ∨ c' ∈ s.waiting.map (·.call) := by
    intro s₁ ht hact hw
    obtain ⟨hasTimeout, he⟩ := s₁.success_eq w.call
    rw [he]
    refine ⟨ht, fun c' hc' => Or.inr ?_⟩
    simpa [calls, hact, hw] using hc'
  unfold returnTo
  split
  · exact ⟨rfl, fun c' hc' => Or.inr (by simpa [calls, ha] using hc')⟩
  · exact hdone s rfl ha rfl
  · exact hdone _ rfl ha rfl
  · exact hdone s rfl ha rfl
  · exact ⟨rfl, fun c' hc' => by simpa [skipped, calls] using hc'⟩

/-- The counter is incremented twice, or not at all. -/
theorem requestTimeout_spec (h : Parity s) (d : Option Nat) :
    (s.requestTimeout d).2.timeoutId.toNat % 2 = 0 ∧
      (s.requestTimeout d).2.waiting = s.waiting ∧
      (d.isSome = true → (s.requestTimeout d).1.toNat % 2 = 1) := by
  have heven := h.even
  have hodd : (s.timeoutId + 1).toNat % 2 = 1 := by
    rw [toNat_succ_mod]
    omega
  have hnext : (s.timeoutId + 1 + 1).toNat % 2 = 0 := by
    rw [toNat_succ_mod]
    omega
  cases d with
  | none => exact ⟨heven, rfl, fun hd => nomatch hd⟩
  | some d =>
    unfold requestTimeout
    dsimp only
    split
    · exact ⟨hnext, rfl, fun _ => hodd⟩
    · exact ⟨hnext, rfl, fun _ => hodd⟩

/-- Invoking a message with the call that runs gives no call a new id. -/
theorem Parity.invoked (h : Parity s) {c : Dequeue} (ha : s.active = some c)
    (cache mailbox : List Letter) (l : Letter) :
    Parity (({ s with cache, mailbox } : BlockingActor).invokeMessage c l) := by
  obtain ⟨ht, hc⟩ := invokeMessage_calls (s := { s with cache, mailbox }) c l
  apply h.of_eq ht
  intro c' hc' _
  rcases hc c' hc' with rfl | hmem
  · simp [calls, ha]
  · exact List.mem_append_right _ hmem

/-- A call at the end of its cache: the only step that gives a call an id. -/
theorem Parity.searched (h : Parity s) (hs : s.step .searched = some s') : Parity s' := by
  simp only [BlockingActor.step] at hs
  split at hs
  · next c ha =>
    split at hs
    · split at hs
      · -- no response is awaited: the timeout of the call is requested now
        obtain ⟨heven, hw, hodd⟩ := requestTimeout_spec h c.timeout
        cases hs
        refine ⟨heven, fun c' hc' hr => ?_⟩
        simp only [calls, hw, Option.toList_some, List.cons_append, List.nil_append,
          List.mem_cons] at hc'
        rcases hc' with rfl | hc'
        · simp only [Dequeue.requested, Bool.and_eq_true] at hr
          exact hodd hr.2
        · exact h.odd c' (List.mem_append_right _ hc') hr
      · -- a response is awaited: the counter of `request_timeout` is not involved
        next hmid =>
        cases hs
        refine ⟨?_, fun c' hc' hr => ?_⟩
        · cases hto : c.timeout <;> exact h.even
        · have hw : (s.requestSyncTimeoutMsg c.mid c.timeout).waiting = s.waiting := by
            cases c.timeout <;> rfl
          simp only [calls, hw, Option.toList_some, List.cons_append, List.nil_append,
            List.mem_cons] at hc'
          rcases hc' with rfl | hc'
          · simp [Dequeue.requested, hmid] at hr
          · exact h.odd c' (List.mem_append_right _ hc') hr
    · cases hs
  · cases hs

/-- Every step keeps the parities. -/
theorem Parity.step (h : Parity s) {i : Input} (hs : s.step i = some s') : Parity s' := by
  cases i with
  | dequeue timeout mid =>
    simp only [BlockingActor.step, Option.ite_none_right_eq_some, Option.some.injEq] at hs
    obtain ⟨ha, rfl⟩ := hs
    refine h.of_eq rfl ?_
    intro c hc hr
    simp only [calls, Option.toList_some, List.cons_append, List.nil_append, List.mem_cons] at hc
    rcases hc with rfl | hc
    · -- a new call still reads from the cache
      simp [Dequeue.requested] at hr
    · simpa [calls, ha] using hc
  | request mid =>
    simp only [BlockingActor.step, Option.ite_none_right_eq_some, Option.some.injEq] at hs
    obtain ⟨-, rfl⟩ := hs
    exact h.of_eq rfl fun _ hc _ => hc
  | send l =>
    cases hs
    exact h.of_eq rfl fun _ hc _ => hc
  | expire index =>
    simp only [BlockingActor.step] at hs
    split at hs
    · cases hs
      exact h.of_eq rfl fun _ hc _ => hc
    · cases hs
  | cached index =>
    -- user code may call `dequeue` again before it returns
    simp only [BlockingActor.step] at hs
    split at hs
    · next c l ha hl =>
      simp only [Option.ite_none_right_eq_some, Option.some.injEq] at hs
      obtain ⟨-, rfl⟩ := hs
      exact h.invoked ha _ s.mailbox l
    · cases hs
  | searched => exact h.searched hs
  | next =>
    simp only [BlockingActor.step] at hs
    split at hs
    · next c l mailbox ha hl =>
      simp only [Option.ite_none_left_eq_some, Option.some.injEq] at hs
      obtain ⟨-, rfl⟩ := hs
      exact h.invoked ha s.cache mailbox l
    · cases hs
  | ret o =>
    simp only [BlockingActor.step] at hs
    split at hs
    · next w waiting ha hw =>
      cases hs
      obtain ⟨ht, hc⟩ := returnTo_calls (s := { s with waiting }) w o ha
      apply h.of_eq ht
      intro c' hc' _
      -- the call that goes on is one of those that waited
      rcases hc c' hc' with rfl | hmem
      · simp [calls, hw]
      · simp only [calls, hw, List.map_cons]
        exact List.mem_append_right _ (List.mem_cons_of_mem _ hmem)
    · cases hs

theorem Reachable.parity (h : Reachable s) : Parity s := by
  refine Reach.invariant (fun s hs => ?_) (fun _ _ _ hp _ hs => hp.step hs) h
  rw [show s = initial from hs]
  exact ⟨rfl, fun c hc => absurd hc (by simp [calls, initial])⟩

-- -------------------------
-- The result of `request_timeout`
-- -------------------------

/-- The message that `request_timeout` created for the duration `d`. -/
def created (s : BlockingActor) (d : Nat) : Option Letter :=
  if d = 0 then s.mailbox.getLast? else s.delayed.getLast?.map (·.2)

/-- The message has the id behind the one that is returned. -/
theorem created_requestTimeout (s : BlockingActor) (d : Nat) :
    (s.requestTimeout (some d)).2.created d =
      some (.timeout ((s.requestTimeout (some d)).1 + 1)) := by
  unfold requestTimeout created
  by_cases hd : d = 0
  · simp [hd, enqueue]
  · simp [hd, delayedSend]

theorem requestTimeout_hasTimeout (s : BlockingActor) (d : Nat) :
    (s.requestTimeout (some d)).2.hasTimeout = true := by
  unfold requestTimeout
  dsimp only
  split
  · rfl
  · rfl

/-- **In every reachable state and for every valid duration, the id that `request_timeout` returns
is not the id of the active timeout, the message carries another id, and `reset_timeout` changes
nothing. No call of `dequeue` ever resets the timeout it has requested.** -/
theorem request_timeout_unusable (h : Reachable s) :
    (∀ d, let (result, s') := s.requestTimeout (some d)
      s'.hasTimeout = true ∧ s'.isActiveTimeout result = false ∧
        s'.created d ≠ some (.timeout result) ∧ s'.resetTimeout result = s') ∧
      ∀ c ∈ s.calls, c.requested = true → s.resetTimeout c.timeoutId = s := by
  constructor
  · intro d
    obtain ⟨heven, -, hodd⟩ := requestTimeout_spec h.parity (some d)
    have hinactive := Parity.inactive heven (hodd rfl)
    have hcreated : (s.requestTimeout (some d)).2.created d ≠
        some (.timeout (s.requestTimeout (some d)).1) := by
      rw [created_requestTimeout]
      intro heq
      have hid := toNat_succ_mod (s.requestTimeout (some d)).1
      rw [Letter.timeout.inj (Option.some.inj heq)] at hid
      omega
    exact ⟨s.requestTimeout_hasTimeout d, hinactive, hcreated, resetTimeout_inactive hinactive⟩
  · intro c hc hr
    exact resetTimeout_inactive (Parity.inactive h.parity.even (h.parity.odd c hc hr))

theorem initial_reachable : Reachable initial := .init rfl

/-- A handler for a message calls `dequeue` again: both calls have requested a timeout. -/
def nested : List Input :=
  [.dequeue (some 5) 0, .searched, .send .message, .next, .dequeue (some 7) 0, .searched]

/-- After a nested call of `dequeue`, too, the result of `request_timeout` is of no use. -/
theorem request_timeout_unusable_nested : ∃ s : BlockingActor,
    runAll step initial nested = some s ∧
      s.calls = [⟨some 7, 0, 3, false⟩, ⟨some 5, 0, 1, false⟩] ∧
      (∀ d, let (result, s') := s.requestTimeout (some d)
        s'.hasTimeout = true ∧ s'.isActiveTimeout result = false ∧
          s'.created d ≠ some (.timeout result) ∧ s'.resetTimeout result = s') ∧
      ∀ c ∈ s.calls, c.requested = true → s.resetTimeout c.timeoutId = s := by
  obtain ⟨s, hs, hcalls⟩ := exists_run step initial nested
    (fun s => s.calls = [⟨some 7, 0, 3, false⟩, ⟨some 5, 0, 1, false⟩]) (by decide)
  rw [decide_eq_true_eq] at hcalls
  exact ⟨s, hs, hcalls, request_timeout_unusable (reach_of_run initial_reachable hs)⟩

/-- A call of `dequeue` with a timeout of 5 that ends because of the timeout. -/
def timedOut : List Input :=
  [.dequeue (some 5) 0, .searched, .expire 0, .next, .ret .success]

/-- A new actor that calls `request_timeout` cannot use the result; after a call of `dequeue` has
ended, its timeout still is active. -/
theorem timeout_not_reset :
    (¬ ∀ s : BlockingActor, Reachable s → ∀ d, let (result, s') := s.requestTimeout (some d)
      s'.isActiveTimeout result = true ∧ s'.created d = some (.timeout result) ∧
        (s'.resetTimeout result).hasTimeout = false) ∧
      (runAll step initial timedOut).map (fun s => (s.calls, s.isActiveTimeout 2)) =
        some ([], true) := by
  constructor
  · intro h
    have hactive := (h initial initial_reachable 5).1
    revert hactive
    decide
  · decide

end BlockingActor

end BoostActor
