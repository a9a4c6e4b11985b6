import Mathlib.Data.Nat.Digits.Defs
import Mathlib.Data.List.TakeWhile
import Mathlib.Tactic.Common

/-!
# Decimal numbers in text

How numbers are written to and extracted from a character stream in the classic
locale. Extraction skips white space, takes a sign and the digits behind it, and
stores 0 if there are none, or the nearest bound if the number is out of range.

* `takeWhile_until`, `dropWhile_until` — scanning up to a delimiter;
* `readDigits_decimal` — the digits of a number have its value;
* `extractInt_decimalInt`, `extractNat_decimal` — a number in range is read back;
* `extractInt_literal`, `extractNat_literal` — so is a literal of such a number.
-/

namespace Lib

/-- `isdigit`. -/
def isDigit (c : UInt8) : Bool := 48 ≤ c && c ≤ 57

/-- `isspace`. -/
def isSpace (c : UInt8) : Bool := c = 32 || (9 ≤ c && c ≤ 13)

-- -------------------------
-- Scanning
-- -------------------------

section

variable {α : Type} {p : α → Bool} {x : α} {xs rest : List α}

theorem dropWhile_of_head (h : p x = false) : (x :: xs).dropWhile p = x :: xs :=
  List.dropWhile_cons_of_neg (Bool.eq_false_iff.mp h)

/-- A text ends before the first character of a kind. -/
theorem not_of_mem_takeWhile (h : x ∈ xs.takeWhile fun x => !p x) : p x = false :=
  (Bool.not_eq_true' _).mp (List.mem_takeWhile_imp (p := fun x => !p x) h)

/-- And goes on with that character. -/
theorem head_dropWhile_not (hx : x ∈ (xs.dropWhile fun x => !p x).head?) : p x = true := by
  have hhead := List.head?_dropWhile_not (fun x => !p x) xs
  rw [Option.mem_def.mp hx] at hhead
  exact (Bool.not_eq_false' _).mp hhead

/-- An element without the property is behind the first one without it. -/
theorem mem_dropWhile (hx : x ∈ xs) (h : p x = false) : x ∈ xs.dropWhile p := by
  have hsplit : x ∈ xs.takeWhile p ++ xs.dropWhile p := by
    rwa [List.takeWhile_append_dropWhile]
  rcases List.mem_append.mp hsplit with hx | hx
  · rw [List.mem_takeWhile_imp hx] at h
    cases h
  · exact hx

/-- Dropping ends where the text goes on with something else. -/
theorem dropWhile_append_of_all (hxs : ∀ x ∈ xs, p x = true)
    (hrest : ∀ x ∈ rest.head?, p x = false) :
    (xs ++ rest).dropWhile p = rest := by
  rw [List.dropWhile_append_of_pos hxs]
  cases rest with
  | nil => rfl
  | cons x rest => exact dropWhile_of_head (hrest x rfl)

/-- What is searched for comes right behind the elements without it. -/
theorem dropWhile_until (hxs : ∀ x ∈ xs, p x = false) (hrest : ∀ x ∈ rest.head?, p x = true) :
    ((xs ++ rest).dropWhile fun x => !p x) = rest :=
  dropWhile_append_of_all (fun x hx => (Bool.not_eq_true' _).mpr (hxs x hx))
    fun x hx => (Bool.not_eq_false' _).mpr (hrest x hx)

/-- Up to the first delimiter. -/
theorem takeWhile_until (hxs : ∀ x ∈ xs, p x = false) (hrest : ∀ x ∈ rest.head?, p x = true) :
    ((xs ++ rest).takeWhile fun x => !p x) = xs := by
  have hsplit : ((xs ++ rest).takeWhile fun x => !p x) ++ rest = xs ++ rest := by
    conv_lhs => rhs; rw [← dropWhile_until hxs hrest]
    exact List.takeWhile_append_dropWhile
  exact List.append_cancel_right hsplit

end

-- -------------------------
-- Writing
-- -------------------------

/-- The decimal digits of a number. -/
def decimal (n : Nat) : List UInt8 :=
  if n = 0 then [48] else (Nat.digits 10 n).reverse.map fun d => UInt8.ofNat (48 + d)

/-- A number with its sign. -/
def decimalInt (n : Int) : List UInt8 :=
  if n < 0 then 45 :: decimal n.natAbs else decimal n.natAbs

-- -------------------------
-- Reading
-- -------------------------

/-- The number that digits stand for. -/
def readDigits (cs : List UInt8) : Nat := cs.foldl (fun n c => 10 * n + (c.toNat - 48)) 0

/-- The sign in front of a number, and what follows it. -/
def takeSign : List UInt8 → Bool × List UInt8
  | 45 :: cs => (true, cs)
  | 43 :: cs => (false, cs)
  | cs => (false, cs)

/-- A sign and the digits behind it. -/
def scanNumber (cs : List UInt8) : Bool × Nat :=
  let (negative, cs) := takeSign (cs.dropWhile isSpace)
  (negative, readDigits (cs.takeWhile isDigit))

/-- Extracts a signed integer with the bounds `lo` and `hi`. -/
def extractInt (lo hi : Int) (cs : List UInt8) : Int :=
  let (negative, n) := scanNumber cs
  max lo (min hi (if negative then -n else n))

/-- Extracts an unsigned integer up to `hi`; a negative number wraps around. -/
def extractNat (hi : Nat) (cs : List UInt8) : Nat :=
  let (negative, n) := scanNumber cs
  if hi < n then hi else if negative then (hi + 1 - n) % (hi + 1) else n

-- -------------------------
-- Digits
-- -------------------------

theorem toNat_digit {d : Nat} (h : d < 10) : (UInt8.ofNat (48 + d)).toNat = 48 + d := by
  rw [UInt8.toNat_ofNat']
  omega

theorem isDigit_iff {c : UInt8} : isDigit c = true ↔ 48 ≤ c.toNat ∧ c.toNat ≤ 57 := by
  rw [isDigit, Bool.and_eq_true, decide_eq_true_eq, decide_eq_true_eq, UInt8.le_iff_toNat_le,
    UInt8.le_iff_toNat_le]
  rfl

/-- A number is written with digits only. -/
theorem isDigit_of_mem_decimal {n : Nat} {c : UInt8} (h : c ∈ decimal n) : isDigit c = true := by
  rw [isDigit_iff]
  unfold decimal at h
  split_ifs at h with hn
  · obtain rfl := List.mem_singleton.mp h
    decide
  · obtain ⟨d, hd, rfl⟩ := List.mem_map.mp h
    have hlt : d < 10 := Nat.digits_lt_base (by omega) (List.mem_reverse.mp hd)
    rw [toNat_digit hlt]
    omega

theorem decimal_ne_nil (n : Nat) : decimal n ≠ [] := by
  unfold decimal
  split_ifs with hn
  · exact List.cons_ne_nil _ _
  · intro h
    rw [List.map_eq_nil_iff, List.reverse_eq_nil_iff, Nat.digits_eq_nil_iff_eq_zero] at h
    exact hn h

-- -------------------------
-- Reading back
-- -------------------------

/-- The digits of a number stand for it. -/
theorem readDigits_decimal (n : Nat) : readDigits (decimal n) = n := by
  unfold decimal readDigits
  split_ifs with hn
  · exact hn.symm
  · -- Horner's scheme, from the first digit to the last
    have hdigits : ∀ ds : List Nat, (∀ d ∈ ds, d < 10) →
        (ds.reverse.map fun d => UInt8.ofNat (48 + d)).foldl (fun n c => 10 * n + (c.toNat - 48)) 0
          = Nat.ofDigits 10 ds := by
      intro ds hds
      rw [List.foldl_map, List.foldl_reverse, Nat.ofDigits_eq_foldr]
      induction ds with
      | nil => rfl
      | cons d ds ih =>
        have hd := toNat_digit (hds d List.mem_cons_self)
        rw [List.foldr_cons, List.foldr_cons, ih fun e he => hds e (List.mem_cons_of_mem d he), hd]
        rw [Nat.add_sub_cancel_left, Nat.add_comm]
        rfl
    rw [hdigits _ fun d hd => Nat.digits_lt_base (by omega) hd, Nat.ofDigits_digits]

/-- Behind the digits of a number comes no digit of it. -/
theorem takeWhile_decimal (n : Nat) : (decimal n).takeWhile isDigit = decimal n :=
  List.takeWhile_eq_self_iff.mpr fun _ => isDigit_of_mem_decimal

/-- No digit is a space. -/
theorem not_isSpace_of_isDigit {c : UInt8} (h : isDigit c = true) : isSpace c = false := by
  rw [isDigit_iff] at h
  rw [isSpace, Bool.or_eq_false_iff, Bool.and_eq_false_iff, decide_eq_false_iff_not,
    decide_eq_false_iff_not, decide_eq_false_iff_not, UInt8.le_iff_toNat_le, UInt8.le_iff_toNat_le]
  refine ⟨fun hc => ?_, .inr ?_⟩
  · rw [hc] at h
    exact absurd h (by decide)
  · show ¬ c.toNat ≤ 13
    omega

/-- A number without a sign is scanned as it was written. -/
theorem scanNumber_decimal (n : Nat) : scanNumber (decimal n) = (false, n) := by
  cases hd : decimal n with
  | nil => exact absurd hd (decimal_ne_nil n)
  | cons c cs =>
    have hc : isDigit c = true := isDigit_of_mem_decimal (hd ▸ List.mem_cons_self)
    have hsign : takeSign (c :: cs) = (false, c :: cs) := by
      unfold takeSign
      split
      · next heq => exact absurd ((List.cons.inj heq).1 ▸ hc) (by decide)
      · next heq => exact absurd ((List.cons.inj heq).1 ▸ hc) (by decide)
      · rfl
    unfold scanNumber
    rw [dropWhile_of_head (not_isSpace_of_isDigit hc), hsign, ← hd]
    dsimp only
    rw [takeWhile_decimal, readDigits_decimal]

theorem scanNumber_minus (n : Nat) : scanNumber (45 :: decimal n) = (true, n) := by
  show (true, readDigits ((decimal n).takeWhile isDigit)) = _
  rw [takeWhile_decimal, readDigits_decimal]

/-- A signed integer within the bounds is extracted as it was written. -/
theorem extractInt_decimalInt {lo hi n : Int} (hlo : lo ≤ n) (hhi : n ≤ hi) :
    extractInt lo hi (decimalInt n) = n := by
  unfold extractInt decimalInt
  split_ifs with hneg
  · rw [scanNumber_minus]
    dsimp only
    rw [if_pos rfl]
    omega
  · rw [scanNumber_decimal]
    dsimp only
    rw [if_neg Bool.false_ne_true]
    omega

/-- An unsigned integer within the bound is extracted as it was written. -/
theorem extractNat_decimal {hi n : Nat} (h : n ≤ hi) : extractNat hi (decimal n) = n := by
  unfold extractNat
  rw [scanNumber_decimal]
  dsimp only
  rw [if_neg (by omega), if_neg Bool.false_ne_true]

-- -------------------------
-- Literals
-- -------------------------

/-- The text without the spaces around it. -/
def trimSpaces (cs : List UInt8) : List UInt8 :=
  ((cs.dropWhile fun c => c = 32).reverse.dropWhile fun c => c = 32).reverse

/-- The number that a text is a decimal literal of: digits with or without a sign, and
spaces around them. -/
def literal? (cs : List UInt8) : Option Int :=
  let (negative, digits) := takeSign (trimSpaces cs)
  if digits ≠ [] ∧ digits.all isDigit then
    some (if negative then -readDigits digits else readDigits digits)
  else none

/-- Only spaces are trimmed, and they stood around the rest. -/
theorem trimSpaces_eq (cs : List UInt8) : ∃ before behind,
    cs = before ++ (trimSpaces cs ++ behind) ∧ (∀ c ∈ before, c = 32) ∧ ∀ c ∈ behind, c = 32 := by
  have hspaces : ∀ cs : List UInt8, ∀ c ∈ cs.takeWhile (fun c => c = 32), c = 32 :=
    fun cs c hc => by simpa using List.mem_takeWhile_imp hc
  refine ⟨cs.takeWhile fun c => c = 32,
    ((cs.dropWhile fun c => c = 32).reverse.takeWhile fun c => c = 32).reverse, ?_, hspaces cs,
    fun c hc => hspaces _ c (List.mem_reverse.mp hc)⟩
  unfold trimSpaces
  rw [← List.reverse_append, List.takeWhile_append_dropWhile, List.reverse_reverse,
    List.takeWhile_append_dropWhile]

/-- A sign or a digit. -/
def IsNumeric (c : UInt8) : Prop := c = 45 ∨ c = 43 ∨ isDigit c = true

theorem not_isSpace_of_isNumeric {c : UInt8} (h : IsNumeric c) : isSpace c = false := by
  rcases h with rfl | rfl | h
  · decide
  · decide
  · exact not_isSpace_of_isDigit h

/-- There is one sign at most in front of the digits. -/
theorem takeSign_eq {cs digits : List UInt8} {negative : Bool}
    (h : takeSign cs = (negative, digits)) :
    cs = 45 :: digits ∨ cs = 43 :: digits ∨ cs = digits := by
  unfold takeSign at h
  split at h
  · exact .inl (congrArg (45 :: ·) (Prod.mk.inj h).2)
  · exact .inr (.inl (congrArg (43 :: ·) (Prod.mk.inj h).2))
  · exact .inr (.inr (Prod.mk.inj h).2)

/-- What is between the spaces of a literal, and the number it is scanned as. -/
theorem literal?_eq_some {cs : List UInt8} {n : Int} (h : literal? cs = some n) :
    trimSpaces cs ≠ [] ∧ (∀ c ∈ trimSpaces cs, IsNumeric c) ∧
      ∃ negative m, scanNumber (trimSpaces cs) = (negative, m) ∧
        n = if negative then -(m : Int) else m := by
  unfold literal? at h
  cases hsign : takeSign (trimSpaces cs) with
  | mk negative digits =>
    rw [hsign] at h
    dsimp only at h
    have hdigits : digits ≠ [] ∧ digits.all isDigit = true := by
      by_contra hnot
      rw [if_neg hnot] at h
      cases h
    rw [if_pos hdigits] at h
    obtain ⟨hne, hall⟩ := hdigits
    have hall : ∀ c ∈ digits, isDigit c = true := List.all_eq_true.mp hall
    -- a sign may be in front; everything behind it is a digit
    have hnumeric : ∀ c ∈ trimSpaces cs, IsNumeric c := by
      intro c hc
      rcases takeSign_eq hsign with heq | heq | heq
      · rw [heq] at hc
        exact (List.mem_cons.mp hc).imp id fun hc => .inr (hall c hc)
      · rw [heq] at hc
        exact .inr ((List.mem_cons.mp hc).imp id (hall c))
      · rw [heq] at hc
        exact .inr (.inr (hall c hc))
    have hne : trimSpaces cs ≠ [] := by
      rcases takeSign_eq hsign with heq | heq | heq
      · exact heq ▸ List.cons_ne_nil _ _
      · exact heq ▸ List.cons_ne_nil _ _
      · exact heq ▸ hne
    -- so there is no space to skip
    have hstart : (trimSpaces cs).dropWhile isSpace = trimSpaces cs := by
      cases ht : trimSpaces cs with
      | nil => rfl
      | cons c ds =>
        exact dropWhile_of_head (not_isSpace_of_isNumeric (hnumeric c (ht ▸ List.mem_cons_self)))
    refine ⟨hne, hnumeric, negative, readDigits digits, ?_, (Option.some.inj h).symm⟩
    unfold scanNumber
    rw [hstart, hsign]
    dsimp only
    rw [List.takeWhile_eq_self_iff.mpr hall]

/-- A literal within the bounds is extracted as what it stands for. -/
theorem extractInt_literal {lo hi n : Int} {cs : List UInt8} (h : literal? cs = some n)
    (hlo : lo ≤ n) (hhi : n ≤ hi) : extractInt lo hi (trimSpaces cs) = n := by
  obtain ⟨-, -, negative, m, hscan, rfl⟩ := literal?_eq_some h
  unfold extractInt
  rw [hscan]
  dsimp only
  omega

/-- Of the negative literals only those of zero are in range. -/
theorem extractNat_literal {hi : Nat} {n : Int} {cs : List UInt8} (h : literal? cs = some n)
    (hlo : 0 ≤ n) (hhi : n ≤ hi) : extractNat hi (trimSpaces cs) = n.toNat := by
  obtain ⟨-, -, negative, m, hscan, rfl⟩ := literal?_eq_some h
  unfold extractNat
  rw [hscan]
  cases negative with
  | false =>
    have hm : m ≤ hi := Int.ofNat_le.mp hhi
    show (if hi < m then hi else m) = m
    exact if_neg (Nat.not_lt.mpr hm)
  | true =>
    have hm : m = 0 := by
      have hneg : (0 : Int) ≤ -m := hlo
      omega
    subst hm
    show (hi + 1 - 0) % (hi + 1) = 0
    rw [Nat.sub_zero, Nat.mod_self]

end Lib
