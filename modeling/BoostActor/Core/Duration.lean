import BoostActor.Core.PlainValues
import Mathlib.Algebra.Ring.Int.Defs

/-!
# Durations and deadlines

A `duration` is made from a `std::chrono::duration` and added to the time of a clock to
get the deadline of a delayed message (`duration.hpp`, `insert_dmsg` in
`abstract_coordinator.cpp`). Minutes are scaled in unsigned arithmetic, which wraps
around; the count becomes a signed number when a deadline is computed, and is scaled to
nanoseconds in signed arithmetic, for which an overflow is undefined.

* `deadline_safe_iff` — a duration keeps its span and the deadline is not earlier than
  the time of the clock if and only if the deadline has a representation.
-/

namespace BoostActor

-- -------------------------
-- Durations of the standard library
-- -------------------------

/-- The periods that `get_time_unit_from_period` recognizes. -/
inductive Period where
  | minutes
  | seconds
  | milliseconds
  | microseconds
deriving DecidableEq, Repr

/-- The count of a `std::chrono::duration` with 64 bits. -/
inductive ChronoCount where
  | signed (n : Int64)
  | unsigned (n : UInt64)

/-- `std::chrono::duration`. -/
structure ChronoDuration where
  count : ChronoCount
  period : Period

namespace ChronoCount

def toInt : ChronoCount → Int
  | signed n => n.toInt
  | unsigned n => n.toNat

/-- `static_cast<uint64_t>(d.count())`. -/
def toUInt64 : ChronoCount → UInt64
  | signed n => n.toUInt64
  | unsigned n => n

end ChronoCount

namespace Period

/-- `get_time_unit_from_period`. -/
def timeUnit : Period → TimeUnit
  | minutes => .seconds
  | seconds => .seconds
  | milliseconds => .milliseconds
  | microseconds => .microseconds

/-- `Num`. -/
def num : Period → UInt64
  | minutes => 60
  | _ => 1

end Period

/-- `rd`. -/
def ChronoDuration.rd (d : ChronoDuration) : Except Fault UInt64 :=
  if d.count.toInt < 0 then throw (.invalidArgument "negative durations are not supported")
  else return d.count.toUInt64 * d.period.num

/-- The constructor of `duration`. -/
def Duration.ofChrono (d : ChronoDuration) : Except Fault Duration := do
  return ⟨d.period.timeUnit, ← d.rd⟩

-- -------------------------
-- Time points
-- -------------------------

/-- The result of signed arithmetic with 64 bits. -/
def signedResult (n : Int) : Except Fault Int64 :=
  if -2 ^ 63 ≤ n ∧ n < 2 ^ 63 then return Int64.ofInt n
  else throw (.undefined "signed integer overflow")

/-- `lhs += std::chrono::seconds(count)`, for seconds and other units: the count becomes a
signed number, and the duration one of nanoseconds. -/
def addChrono (lhs : Int64) (count : UInt64) (nanos : Int) : Except Fault Int64 := do
  let d ← signedResult (count.toInt64.toInt * nanos)
  signedResult (lhs.toInt + d.toInt)

/-- `operator+=`. -/
def addDuration (lhs : Int64) (rhs : Duration) : Except Fault Int64 :=
  match rhs.unit with
  | .seconds => addChrono lhs rhs.count (10 ^ 9)
  | .milliseconds => addChrono lhs rhs.count (10 ^ 6)
  | .microseconds => addChrono lhs rhs.count (10 ^ 3)
  | .invalid => return lhs

-- -------------------------
-- Spans
-- -------------------------

/-- A period in nanoseconds. -/
def Period.nanos : Period → Nat
  | minutes => 60 * 10 ^ 9
  | seconds => 10 ^ 9
  | milliseconds => 10 ^ 6
  | microseconds => 10 ^ 3

/-- A unit in nanoseconds. -/
def TimeUnit.nanos : TimeUnit → Nat
  | invalid => 0
  | seconds => 10 ^ 9
  | milliseconds => 10 ^ 6
  | microseconds => 10 ^ 3

/-- The nanoseconds of a duration of the standard library. -/
def ChronoDuration.span (d : ChronoDuration) : Int := d.count.toInt * d.period.nanos

/-- The nanoseconds of a duration. -/
def Duration.span (d : Duration) : Int := d.count.toNat * d.unit.nanos

/-- What is expected of a duration and the deadline that it yields. -/
structure DeadlineSafe (d : ChronoDuration) (val : Duration) (now : Int64) : Prop where
  sameSpan : val.span = d.span
  notEarlier : ∃ deadline, addDuration now val = .ok deadline ∧ now ≤ deadline

-- -------------------------
-- Casts between counts
-- -------------------------

/-- The cast wraps around from 2^63 on. -/
theorem toInt_toInt64 (n : UInt64) :
    n.toInt64.toInt = if n.toNat < 2 ^ 63 then (n.toNat : Int) else n.toNat - 2 ^ 64 := by
  have hvalue : n.toInt64.toInt = n.toBitVec.toInt := rfl
  have hnat : n.toBitVec.toNat = n.toNat := rfl
  rw [hvalue, BitVec.toInt_eq_toNat_cond, hnat]
  by_cases hsmall : n.toNat < 2 ^ 63
  · rw [if_pos hsmall, if_pos (by omega)]
  · rw [if_neg hsmall, if_neg (by omega)]
    rfl

/-- A signed result is the exact one, if there is one. -/
theorem signedResult_eq_ok {n : Int} {r : Int64} (h : signedResult n = .ok r) :
    r.toInt = n ∧ -2 ^ 63 ≤ n ∧ n < 2 ^ 63 := by
  unfold signedResult at h
  split_ifs at h with hrange
  cases h
  exact ⟨Int64.toInt_ofInt_of_le hrange.1 hrange.2, hrange⟩

theorem signedResult_of_range {n : Int} (hlo : -2 ^ 63 ≤ n) (hhi : n < 2 ^ 63) :
    signedResult n = .ok (Int64.ofInt n) := if_pos ⟨hlo, hhi⟩

/-- Adding a duration scales its count by the unit. -/
theorem addDuration_eq {val : Duration} (hunit : val.unit ≠ .invalid) (now : Int64) :
    addDuration now val = addChrono now val.count val.unit.nanos := by
  obtain ⟨unit, count⟩ := val
  cases unit with
  | invalid => exact absurd rfl hunit
  | _ => rfl

/-- Without overflows the sum is exact. -/
theorem addChrono_exact {now : Int64} {count : UInt64} {nanos : Nat} (hnanos : 0 < nanos)
    (hscaled : (count.toNat * nanos : Int) < 2 ^ 63)
    (hsum : now.toInt + count.toNat * nanos < 2 ^ 63) :
    ∃ deadline, addChrono now count nanos = .ok deadline ∧
      deadline.toInt = now.toInt + count.toNat * nanos := by
  have hnow := now.le_toInt
  have hcount : count.toNat * 1 ≤ count.toNat * nanos := Nat.mul_le_mul_left _ hnanos
  have hprod : ((count.toNat * nanos : Nat) : Int) = count.toNat * nanos := Int.natCast_mul _ _
  have hcast := toInt_toInt64 count
  rw [if_pos (by omega)] at hcast
  have hscale : signedResult (count.toInt64.toInt * nanos) =
      .ok (Int64.ofInt (count.toNat * nanos)) := by
    rw [hcast]
    exact signedResult_of_range (by omega) (by omega)
  have hd := (signedResult_eq_ok hscale).1
  rw [hcast] at hd
  have hadd : signedResult (now.toInt + (Int64.ofInt (count.toNat * nanos)).toInt) =
      .ok (Int64.ofInt (now.toInt + count.toNat * nanos)) := by
    rw [hd]
    exact signedResult_of_range (by omega) hsum
  refine ⟨Int64.ofInt (now.toInt + count.toNat * nanos), ?_, ?_⟩
  · unfold addChrono
    rw [hscale]
    exact hadd
  · exact Int64.toInt_ofInt_of_le (by omega) hsum

/-- The deadline is not earlier if and only if no step of the computation overflows, the
conversion of the count included. -/
theorem addChrono_safe_iff {now : Int64} (hnow : 0 ≤ now.toInt) (count : UInt64) {nanos : Nat}
    (hnanos : 0 < nanos) :
    (∃ deadline, addChrono now count nanos = .ok deadline ∧ now ≤ deadline) ↔
      now.toInt + count.toNat * nanos < 2 ^ 63 := by
  have hcast := toInt_toInt64 count
  -- a later deadline needs a count that keeps its sign, and a sum that fits
  constructor
  · rintro ⟨deadline, hadd, hle⟩
    unfold addChrono at hadd
    cases hscale : signedResult (count.toInt64.toInt * nanos) with
    | error e =>
      rw [hscale] at hadd
      cases hadd
    | ok d =>
      rw [hscale] at hadd
      obtain ⟨hd, -, -⟩ := signedResult_eq_ok hscale
      obtain ⟨hsum, -, hlt⟩ := signedResult_eq_ok (r := deadline) hadd
      rw [Int64.le_iff_toInt_le, hsum] at hle
      split_ifs at hcast with hsmall
      · rw [hd, hcast] at hlt
        exact hlt
      · -- a count that has become negative yields an earlier deadline
        have hneg : count.toInt64.toInt * (nanos : Int) < 0 :=
          Int.mul_neg_of_neg_of_pos (by have := count.toNat_lt; omega) (by omega)
        omega
  · -- the other way round, nothing overflows
    intro hlt
    have hscaled : 0 ≤ (count.toNat * nanos : Int) := Int.mul_nonneg (by omega) (by omega)
    obtain ⟨deadline, hadd, hdeadline⟩ := addChrono_exact hnanos (by omega) hlt
    refine ⟨deadline, hadd, ?_⟩
    rw [Int64.le_iff_toInt_le, hdeadline]
    omega

/-- A deadline that has a representation is exact. -/
theorem addDuration_exact {now : Int64} {val : Duration} (hspan : val.span < 2 ^ 63)
    (hsum : now.toInt + val.span < 2 ^ 63) :
    ∃ deadline, addDuration now val = .ok deadline ∧
      deadline.toInt = now.toInt + val.span := by
  by_cases hunit : val.unit = .invalid
  · unfold addDuration Duration.span
    rw [hunit]
    exact ⟨now, rfl, (Int.add_zero _).symm⟩
  · have hnanos : 0 < val.unit.nanos := by
      cases hval : val.unit with
      | invalid => exact absurd hval hunit
      | _ => decide
    rw [addDuration_eq hunit]
    exact addChrono_exact hnanos hspan hsum

/-- Counts that are not negative fit into the unsigned type. -/
theorem toNat_toUInt64 {n : ChronoCount} (h : 0 ≤ n.toInt) :
    (n.toUInt64.toNat : Int) = n.toInt := by
  cases n with
  | unsigned n => rfl
  | signed n =>
    have hle : 0 ≤ n := Int64.le_iff_toInt_le.mpr h
    show (n.toUInt64.toNat : Int) = n.toInt
    rw [Int64.toNat_toUInt64_of_le hle]
    exact Int.toNat_of_nonneg h

/-- What the constructor accepts, and the count it stores. -/
theorem ofChrono_eq_ok {d : ChronoDuration} {val : Duration} (h : Duration.ofChrono d = .ok val) :
    0 ≤ d.count.toInt ∧ val.unit = d.period.timeUnit ∧
      (val.count.toNat : Int) = d.count.toInt * d.period.num.toNat % 2 ^ 64 := by
  unfold Duration.ofChrono ChronoDuration.rd at h
  split_ifs at h with hneg
  · cases h
  · cases h
    have hcount := toNat_toUInt64 (Int.not_lt.mp hneg)
    refine ⟨Int.not_lt.mp hneg, rfl, ?_⟩
    rw [UInt64.toNat_mul, Int.natCast_emod, Int.natCast_mul, hcount]
    rfl

/-- The nanoseconds of a period by the unit that it is mapped to. -/
theorem Period.nanos_eq (p : Period) : p.nanos = p.num.toNat * p.timeUnit.nanos := by
  cases p <;> rfl

/-- A duration has the same span unless minutes have wrapped around. -/
theorem span_eq_iff {d : ChronoDuration} {val : Duration} (h : Duration.ofChrono d = .ok val) :
    val.span = d.span ↔ d.count.toInt * d.period.num.toNat < 2 ^ 64 := by
  obtain ⟨hpos, hunit, hcount⟩ := ofChrono_eq_ok h
  unfold Duration.span ChronoDuration.span
  rw [hunit, hcount]
  have hscaled : 0 ≤ d.count.toInt * d.period.num.toNat := Int.mul_nonneg hpos (by omega)
  have hnanos : (d.period.timeUnit.nanos : Int) ≠ 0 := by
    cases d.period <;> decide
  rw [d.period.nanos_eq, Int.natCast_mul, ← Int.mul_assoc]
  constructor
  · intro heq
    rw [← Int.eq_of_mul_eq_mul_right hnanos heq]
    exact Int.emod_lt_of_pos _ (by decide)
  · intro hlt
    rw [Int.emod_eq_of_lt hscaled hlt]

/-- For every duration that the constructor accepts and every time that is not negative: the
span is kept and the deadline is not earlier if and only if the time of the clock plus the
duration, in nanoseconds, is less than 2 ^ 63. -/
theorem deadline_safe_iff {d : ChronoDuration} {val : Duration}
    (haccepted : Duration.ofChrono d = .ok val) {now : Int64} (hnow : 0 ≤ now.toInt) :
    DeadlineSafe d val now ↔ now.toInt + d.span < 2 ^ 63 := by
  obtain ⟨hpos, hunit, hcount⟩ := ofChrono_eq_ok haccepted
  have hvalid : val.unit ≠ .invalid := by
    rw [hunit]
    cases d.period <;> exact TimeUnit.noConfusion
  have hnanos : 0 < val.unit.nanos := by
    rw [hunit]
    cases d.period <;> decide
  have hadd := addChrono_safe_iff hnow val.count hnanos
  rw [← addDuration_eq hvalid] at hadd
  -- the deadline is the exact one, so that the span is kept
  constructor
  · rintro ⟨hspan, hdeadline⟩
    rw [← hspan]
    exact hadd.mp hdeadline
  · intro hlt
    have hspan : val.span = d.span := by
      -- a representable deadline leaves no room for minutes to wrap around
      rw [span_eq_iff haccepted]
      unfold ChronoDuration.span at hlt
      have hscale : d.count.toInt * d.period.num.toNat ≤ d.count.toInt * d.period.nanos :=
        Int.mul_le_mul_of_nonneg_left (by cases d.period <;> decide) hpos
      omega
    refine ⟨hspan, hadd.mpr ?_⟩
    rw [← hspan] at hlt
    exact hlt

/-- Ninety minutes. -/
theorem deadline_safe_ninety_minutes :
    DeadlineSafe ⟨.signed 90, .minutes⟩ ⟨.seconds, 5400⟩ 1000000000000000000 :=
  (deadline_safe_iff (d := ⟨.signed 90, .minutes⟩) rfl (by decide)).mpr (by decide)

/-- The largest number of seconds that fits 64 bits becomes negative, so that the deadline is
a second before the time of the clock; the largest signed number of them overflows, and the
largest signed number of minutes does not even keep its span. -/
theorem infinite_delays_not_safe :
    (∃ deadline, addDuration 1000000000000000000 ⟨.seconds, 18446744073709551615⟩ = .ok deadline ∧
      deadline.toInt = 999999999000000000) ∧
    Duration.ofChrono ⟨.unsigned 18446744073709551615, .seconds⟩ =
      .ok ⟨.seconds, 18446744073709551615⟩ ∧
    ¬ DeadlineSafe ⟨.unsigned 18446744073709551615, .seconds⟩ ⟨.seconds, 18446744073709551615⟩
      1000000000000000000 ∧
    ¬ DeadlineSafe ⟨.signed 9223372036854775807, .seconds⟩ ⟨.seconds, 9223372036854775807⟩ 0 ∧
    Duration.ofChrono ⟨.signed 9223372036854775807, .minutes⟩ =
      .ok ⟨.seconds, 18446744073709551556⟩ ∧
    (⟨.seconds, 18446744073709551556⟩ : Duration).span ≠
      (⟨.signed 9223372036854775807, .minutes⟩ : ChronoDuration).span := by
  refine ⟨⟨999999999000000000, rfl, rfl⟩, rfl, fun h => ?_, fun h => ?_, rfl, by decide⟩
  · have hlt := (addChrono_safe_iff (by decide) _ (by decide : 0 < 10 ^ 9)).mp h.notEarlier
    exact absurd hlt (by decide)
  · have hlt := (addChrono_safe_iff (by decide) _ (by decide : 0 < 10 ^ 9)).mp h.notEarlier
    exact absurd hlt (by decide)

end BoostActor
