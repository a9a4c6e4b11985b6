import Mathlib.Algebra.Ring.Nat
import Mathlib.Tactic.Common

/-!
# Message ids

A message id is one word: three flags and the number of the request. Asynchronous
messages have number zero. The response to a request has its id with the response
flag set; whatever other flag the id has at that time stays in it.

* `MessageId.isRequest_withPriority` — priorities do not change what an id is;
* `MessageId.isHighPriority_responseId` — but they stay in the id of the response.
-/

namespace BoostActor

/-- `message_id`. -/
abbrev MessageId := UInt64

/-- `message_priority`. -/
inductive MessagePriority where
  | normal
  | high
deriving DecidableEq, Repr

namespace MessageId

-- -------------------------
-- Flags
-- -------------------------

/-- `response_flag_mask`. -/
def responseFlagMask : MessageId := 0x8000000000000000

/-- `answered_flag_mask`. -/
def answeredFlagMask : MessageId := 0x4000000000000000

/-- `high_prioity_flag_mask`. -/
def highPriorityFlagMask : MessageId := 0x2000000000000000

/-- `message_id::is_answered`. -/
def isAnswered (mid : MessageId) : Bool := mid &&& answeredFlagMask ≠ 0

/-- `message_id::is_high_priority`. -/
def isHighPriority (mid : MessageId) : Bool := mid &&& highPriorityFlagMask ≠ 0

/-- `message_id::valid`. -/
def valid (mid : MessageId) : Bool := mid &&& 0x1FFFFFFFFFFFFFFF ≠ 0

/-- `message_id::is_response`. -/
def isResponse (mid : MessageId) : Bool := mid &&& 0x8000000000000000 ≠ 0

/-- `message_id::is_request`. -/
def isRequest (mid : MessageId) : Bool := valid mid && !isResponse mid

/-- `message_id::response_id`. -/
def responseId (mid : MessageId) : MessageId :=
  if isRequest mid then mid ||| responseFlagMask else 0

/-- `message_id::with_high_priority`. -/
def withHighPriority (mid : MessageId) : MessageId := mid ||| highPriorityFlagMask

/-- `message_id::with_normal_priority`. -/
def withNormalPriority (mid : MessageId) : MessageId := mid &&& ~~~highPriorityFlagMask

/-- `message_id::mark_as_answered`. -/
def markAsAnswered (mid : MessageId) : MessageId := mid ||| answeredFlagMask

/-- The choice between the two priorities, as `forward_current_message` and `delegate`
make it. -/
def withPriority (prio : MessagePriority) (mid : MessageId) : MessageId :=
  if prio = .high then withHighPriority mid else withNormalPriority mid

-- -------------------------
-- Setting and clearing flags
-- -------------------------

variable {mid mid' : MessageId} {prio : MessagePriority}

theorem or_and_distrib (x y m : MessageId) : (x ||| y) &&& m = (x &&& m) ||| (y &&& m) := by
  apply UInt64.toBitVec_inj.mp
  simp only [UInt64.toBitVec_and, UInt64.toBitVec_or]
  ext i hi
  simp [Bool.and_or_distrib_right]

theorem and_or_distrib (x y m : MessageId) : (x &&& y) ||| m = (x ||| m) &&& (y ||| m) := by
  apply UInt64.toBitVec_inj.mp
  simp only [UInt64.toBitVec_and, UInt64.toBitVec_or]
  ext i hi
  simp [Bool.or_and_distrib_right]

/-- The priority does not reach into other parts of the word. -/
theorem withPriority_and {m : MessageId} (hm : highPriorityFlagMask &&& m = 0) :
    withPriority prio mid &&& m = mid &&& m := by
  unfold withPriority
  split
  · rw [withHighPriority, or_and_distrib, hm, UInt64.or_zero]
  · have hnot : ~~~highPriorityFlagMask &&& m = m := by
      calc ~~~highPriorityFlagMask &&& m
          = (~~~highPriorityFlagMask &&& m) ||| (highPriorityFlagMask &&& m) := by
            rw [hm, UInt64.or_zero]
        _ = (~~~highPriorityFlagMask ||| highPriorityFlagMask) &&& m := by rw [or_and_distrib]
        _ = m := by simp
    rw [withNormalPriority, UInt64.and_assoc, hnot]

/-- The priority does not matter to whether an id is a request. -/
@[simp] theorem isRequest_withPriority :
    isRequest (withPriority prio mid) = isRequest mid := by
  have hvalid : withPriority prio mid &&& 0x1FFFFFFFFFFFFFFF = mid &&& 0x1FFFFFFFFFFFFFFF :=
    withPriority_and (by decide)
  have hresponse : withPriority prio mid &&& 0x8000000000000000 = mid &&& 0x8000000000000000 :=
    withPriority_and (by decide)
  rw [isRequest, isRequest, valid, isResponse, hvalid, hresponse, valid, isResponse]

/-- The priority bit is the priority that was set. -/
@[simp] theorem isHighPriority_withPriority :
    isHighPriority (withPriority prio mid) = decide (prio = .high) := by
  unfold withPriority isHighPriority
  cases prio with
  | normal =>
    have hclear : withNormalPriority mid &&& highPriorityFlagMask = 0 := by
      rw [withNormalPriority, UInt64.and_assoc]
      simp
    simp [hclear]
  | high =>
    have hset : withHighPriority mid &&& highPriorityFlagMask = highPriorityFlagMask := by
      rw [withHighPriority, or_and_distrib, UInt64.and_self]
      apply UInt64.toBitVec_inj.mp
      simp only [UInt64.toBitVec_and, UInt64.toBitVec_or]
      ext i hi
      simp
    rw [if_pos rfl, hset]
    decide

/-- The last choice of a priority counts. -/
@[simp] theorem withPriority_withPriority (prio' : MessagePriority) :
    withPriority prio' (withPriority prio mid) = withPriority prio' mid := by
  unfold withPriority withHighPriority withNormalPriority
  cases prio with
  | normal =>
    cases prio' with
    | normal => simp [UInt64.and_assoc]
    | high => simp [and_or_distrib]
  | high =>
    cases prio' with
    | normal => simp [or_and_distrib]
    | high => simp [UInt64.or_assoc]

/-- A flag is a single bit. -/
theorem flag_eq {mask : MessageId} {i : Nat} (hi : i < 64)
    (hmask : mask.toBitVec = BitVec.twoPow 64 i) :
    decide (mid &&& mask ≠ 0) = mid.toBitVec.getLsbD i := by
  have hand : mid.toBitVec &&& BitVec.twoPow 64 i =
      if mid.toBitVec.getLsbD i then BitVec.twoPow 64 i else 0#64 := BitVec.and_twoPow _ _
  have hzero : mid &&& mask = 0 ↔ mid.toBitVec &&& BitVec.twoPow 64 i = 0#64 := by
    rw [← UInt64.toBitVec_inj, UInt64.toBitVec_and, hmask]
    rfl
  rw [Bool.eq_iff_iff, decide_eq_true_iff, ne_eq, hzero, hand]
  cases mid.toBitVec.getLsbD i with
  | false => simp
  | true =>
    have hne : BitVec.twoPow 64 i ≠ 0#64 := by
      intro he
      have hbit := congrArg (BitVec.getLsbD · i) he
      simp [hi] at hbit
    simpa using hne

theorem isHighPriority_eq : isHighPriority mid = mid.toBitVec.getLsbD 61 :=
  flag_eq (by decide) (by decide)

theorem isResponse_eq : isResponse mid = mid.toBitVec.getLsbD 63 :=
  flag_eq (by decide) (by decide)

/-- Numbers that do not reach the flags are requests of normal priority. -/
theorem flags_of_lt (h0 : mid ≠ 0) (h : mid.toNat < 2 ^ 61) :
    isRequest mid = true ∧ isHighPriority mid = false := by
  have hbit : ∀ {i : Nat}, 61 ≤ i → mid.toBitVec.getLsbD i = false := by
    intro i hi
    have hpow : 2 ^ 61 ≤ 2 ^ i := Nat.pow_le_pow_right (by decide) hi
    exact Nat.testBit_lt_two_pow (Nat.lt_of_lt_of_le h hpow)
  have hvalid : mid &&& 0x1FFFFFFFFFFFFFFF = mid := by
    apply UInt64.toNat_inj.mp
    rw [UInt64.toNat_and]
    show mid.toNat &&& (2 ^ 61 - 1) = mid.toNat
    rw [Nat.and_two_pow_sub_one_eq_mod, Nat.mod_eq_of_lt h]
  refine ⟨?_, ?_⟩
  · rw [isRequest, isResponse_eq, hbit (by decide), valid, hvalid]
    simpa using h0
  · rw [isHighPriority_eq, hbit (by decide)]

/-- An id that has a priority already stays as it is. -/
theorem withPriority_eq_self (h : isHighPriority mid = decide (prio = .high)) :
    withPriority prio mid = mid := by
  have hmask : highPriorityFlagMask.toBitVec = BitVec.twoPow 64 61 := by decide
  rw [isHighPriority_eq, BitVec.getLsbD_eq_getElem (by decide : 61 < 64)] at h
  unfold withPriority withHighPriority withNormalPriority
  apply UInt64.toBitVec_inj.mp
  cases prio with
  | normal =>
    rw [if_neg (by decide), UInt64.toBitVec_and, UInt64.toBitVec_not, hmask]
    ext i hi
    by_cases hp : i = 61
    · subst hp
      simpa using h.symm
    · simp [hp]
  | high =>
    rw [if_pos rfl, UInt64.toBitVec_or, hmask]
    ext i hi
    by_cases hp : i = 61
    · subst hp
      simpa using h
    · simp [hp]

-- -------------------------
-- Response ids
-- -------------------------

/-- The id of a response carries the response flag. -/
theorem isResponse_responseId (h : isRequest mid = true) : isResponse (responseId mid) = true := by
  have hset : (mid ||| responseFlagMask) &&& 0x8000000000000000 = 0x8000000000000000 := by
    rw [or_and_distrib]
    apply UInt64.toBitVec_inj.mp
    simp only [UInt64.toBitVec_and, UInt64.toBitVec_or, responseFlagMask]
    ext i hi
    simp
  rw [responseId, if_pos h, isResponse, hset]
  decide

/-- The id of a response is valid. -/
theorem valid_responseId (h : isRequest mid = true) : valid (responseId mid) = true := by
  have hother : responseFlagMask &&& 0x1FFFFFFFFFFFFFFF = 0 := by decide
  rw [responseId, if_pos h, valid, or_and_distrib, hother, UInt64.or_zero]
  rw [isRequest, Bool.and_eq_true] at h
  exact h.1

@[simp] theorem isResponse_markAsAnswered : isResponse (markAsAnswered mid) = isResponse mid := by
  have hother : answeredFlagMask &&& 0x8000000000000000 = 0 := by decide
  rw [markAsAnswered, isResponse, or_and_distrib, hother, UInt64.or_zero, isResponse]

/-- The priority of a request stays in the id of its response. -/
theorem isHighPriority_responseId (h : isRequest mid = true) :
    isHighPriority (responseId mid) = isHighPriority mid := by
  have hother : responseFlagMask &&& highPriorityFlagMask = 0 := by decide
  rw [responseId, if_pos h, isHighPriority, or_and_distrib, hother, UInt64.or_zero, isHighPriority]

/-- Different requests have different responses. -/
theorem responseId_inj (h : isRequest mid = true) (h' : isRequest mid' = true)
    (he : responseId mid = responseId mid') : mid = mid' := by
  have hflag : ∀ {m : MessageId}, isRequest m = true → m.toBitVec.getLsbD 63 = false := by
    intro m hm
    rw [← isResponse_eq]
    rw [isRequest, Bool.and_eq_true] at hm
    simpa using hm.2
  have hmask : responseFlagMask.toBitVec = BitVec.twoPow 64 63 := by decide
  rw [responseId, if_pos h, responseId, if_pos h', ← UInt64.toBitVec_inj, UInt64.toBitVec_or,
    UInt64.toBitVec_or, hmask] at he
  apply UInt64.toBitVec_inj.mp
  apply BitVec.eq_of_getLsbD_eq
  intro i hi
  by_cases hp : i = 63
  · subst hp
    rw [hflag h, hflag h']
  · -- the other bits are not touched
    have hbit := congrArg (BitVec.getLsbD · i) he
    have hne : ¬ 63 = i := fun heq => hp heq.symm
    simpa [BitVec.getLsbD_twoPow, hne] using hbit

theorem responseId_eq_zero (h : isRequest mid = false) : responseId mid = 0 := by
  rw [responseId, h, if_neg (by decide)]

end MessageId

end BoostActor
