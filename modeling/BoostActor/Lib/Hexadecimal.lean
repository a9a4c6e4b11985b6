import BoostActor.Lib.Decimal

/-!
# Hexadecimal numbers in text

Numbers written to a character stream in base 16. A stream has a fill character and a
width; the width only holds for the next output, which is filled from the left.

* `HexStream.put_byte` — with a width of two, each byte has exactly two digits.
-/

namespace Lib

/-- The character of a hexadecimal digit. -/
def hexDigit (d : Nat) : UInt8 := if d < 10 then UInt8.ofNat (48 + d) else UInt8.ofNat (87 + d)

/-- The hexadecimal digits of a number. -/
def hexadecimal (n : Nat) : List UInt8 :=
  if n = 0 then [48] else (Nat.digits 16 n).reverse.map hexDigit

/-- A stream with `std::hex`. -/
structure HexStream where
  out : List UInt8
  fill : UInt8
  width : Nat

namespace HexStream

/-- A new stream fills with spaces. -/
def new : HexStream := ⟨[], 32, 0⟩

def setFill (s : HexStream) (fill : UInt8) : HexStream := { s with fill := fill }

def setWidth (s : HexStream) (width : Nat) : HexStream := { s with width := width }

/-- `operator<<`. -/
def put (s : HexStream) (n : Nat) : HexStream :=
  { s with
    out := s.out ++ List.replicate (s.width - (hexadecimal n).length) s.fill ++ hexadecimal n
    width := 0 }

end HexStream

theorem hexadecimal_digit {n : Nat} (h : n < 16) : hexadecimal n = [hexDigit n] := by
  unfold hexadecimal
  split_ifs with hn
  · rw [hn]
    rfl
  · rw [Nat.digits_of_lt 16 n hn h]
    rfl

/-- Two digits suffice for a byte. -/
theorem hexadecimal_two_digits {n : Nat} (hlo : 16 ≤ n) (hhi : n < 256) :
    hexadecimal n = [hexDigit (n / 16), hexDigit (n % 16)] := by
  have hhigh : n / 16 < 16 := by omega
  unfold hexadecimal
  rw [if_neg (by omega), Nat.digits_def' (by omega) (by omega),
    Nat.digits_of_lt 16 (n / 16) (by omega) hhigh]
  rfl

/-- With zeros as the fill, a byte has its two digits. -/
theorem HexStream.put_byte {s : HexStream} (hfill : s.fill = 48) (b : UInt8) :
    (s.setWidth 2).put b.toNat =
      ⟨s.out ++ [hexDigit (b.toNat / 16), hexDigit (b.toNat % 16)], 48, 0⟩ := by
  have hb := b.toNat_lt
  unfold put setWidth
  by_cases hdigit : b.toNat < 16
  · have hhigh : b.toNat / 16 = 0 := by omega
    have hlow : b.toNat % 16 = b.toNat := by omega
    simp only [hexadecimal_digit hdigit, hhigh, hlow, hfill, List.append_assoc]
    rfl
  · simp only [hexadecimal_two_digits (Nat.not_lt.mp hdigit) (by omega), hfill,
      List.append_assoc]
    rfl

end Lib
