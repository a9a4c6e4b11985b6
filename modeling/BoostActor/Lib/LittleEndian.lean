import Mathlib.Algebra.Ring.Nat
import Mathlib.Tactic.Common

/-!
# Little-endian byte strings

Natural numbers as byte strings of a fixed width, least significant byte first:
what copying the object representation of an unsigned integer yields on a
little-endian machine.

* `ofBytesLE_toBytesLE` — a number that fits the width survives the round trip;
* `toBytesLE_ofBytesLE` — so does every byte string.
-/

namespace Lib

/-- The `w` low bytes of `v`. -/
def toBytesLE : (w : Nat) → (v : Nat) → List UInt8
  | 0, _ => []
  | w + 1, v => UInt8.ofNat v :: toBytesLE w (v / 256)

/-- The number a byte string stands for. -/
def ofBytesLE : List UInt8 → Nat
  | [] => 0
  | b :: bs => b.toNat + 256 * ofBytesLE bs

@[simp] theorem length_toBytesLE (w v : Nat) : (toBytesLE w v).length = w := by
  induction w generalizing v with
  | zero => rfl
  | succ w ih => rw [toBytesLE, List.length_cons, ih]

/-- A byte string stands for a number that fits into it. -/
theorem ofBytesLE_lt (bs : List UInt8) : ofBytesLE bs < 256 ^ bs.length := by
  induction bs with
  | nil => simp [ofBytesLE]
  | cons b bs ih =>
    have hb := b.toNat_lt
    rw [ofBytesLE, List.length_cons, Nat.pow_succ]
    omega

/-- A number that fits is read as it was written. -/
theorem ofBytesLE_toBytesLE {w v : Nat} (h : v < 256 ^ w) : ofBytesLE (toBytesLE w v) = v := by
  induction w generalizing v with
  | zero =>
    rw [Nat.pow_zero] at h
    simp [toBytesLE, ofBytesLE]
    omega
  | succ w ih =>
    have hdiv : v / 256 < 256 ^ w := by
      rw [Nat.pow_succ] at h
      exact Nat.div_lt_of_lt_mul (by omega)
    rw [toBytesLE, ofBytesLE, ih hdiv, UInt8.toNat_ofNat']
    omega

/-- Every byte string is that of the number it stands for. -/
theorem toBytesLE_ofBytesLE (bs : List UInt8) : toBytesLE bs.length (ofBytesLE bs) = bs := by
  induction bs with
  | nil => rfl
  | cons b bs ih =>
    have hb := b.toNat_lt
    have hlow : UInt8.ofNat (b.toNat + 256 * ofBytesLE bs) = b := by
      apply UInt8.toNat_inj.mp
      rw [UInt8.toNat_ofNat']
      omega
    have hhigh : (b.toNat + 256 * ofBytesLE bs) / 256 = ofBytesLE bs := by omega
    rw [List.length_cons, ofBytesLE, toBytesLE, hlow, hhigh, ih]

end Lib
