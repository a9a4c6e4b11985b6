import Mathlib.Tactic.Common

/-!
# Binary search

`lowerBound` is the loop of `std::lower_bound`: it halves a range until nothing
is left of it. On a list where the elements that come before the value all stand
in front of the others, the position it ends at separates the two.

* `lowerBound_eq` — the position is the length of the prefix that comes before;
* `drop_lowerBound`, `take_lowerBound` — the two parts of the list.
-/

namespace Lib

variable {α : Type}

/-- The loop over the range of `len` positions that starts at `first`. -/
def lowerBoundLoop (before : α → Bool) (xs : List α) (first len : Nat) : Nat :=
  if 0 < len then
    let half := len / 2
    match xs[first + half]? with
    | some mid =>
      if before mid then lowerBoundLoop before xs (first + half + 1) (len - half - 1)
      else lowerBoundLoop before xs first half
    | none => first
  else first
termination_by len

/-- `std::lower_bound`: the first position whose element does not come before the
value that is searched for. -/
def lowerBound (before : α → Bool) (xs : List α) : Nat :=
  lowerBoundLoop before xs 0 xs.length

/-- Whatever comes before the value stands in front of whatever does not. -/
def Partitioned (before : α → Bool) (xs : List α) : Prop :=
  xs.Pairwise fun x y => before y = true → before x = true

variable {before : α → Bool} {xs : List α}

/-- In a partitioned list, the position tells which elements come before the value. -/
theorem Partitioned.before_iff (h : Partitioned before xs) {i : Nat} {x : α}
    (hx : xs[i]? = some x) : before x = true ↔ i < (xs.takeWhile before).length := by
  induction xs generalizing i with
  | nil => cases hx
  | cons y ys ih =>
    obtain ⟨hy, hys⟩ := List.pairwise_cons.mp h
    by_cases hb : before y = true
    · rw [List.takeWhile_cons_of_pos hb, List.length_cons]
      cases i with
      | zero =>
        cases hx
        simp [hb]
      | succ i =>
        rw [ih hys hx]
        omega
    · rw [List.takeWhile_cons_of_neg hb]
      have hx' : before x ≠ true := by
        intro hbx
        rcases List.mem_cons.mp (List.mem_of_getElem? hx) with rfl | hmem
        · exact hb hbx
        · exact hb (hy x hmem hbx)
      simp [hx']

-- -------------------------
-- The search
-- -------------------------

/-- The position that separates the two parts stays within the range. -/
theorem lowerBoundLoop_eq (h : Partitioned before xs) (first len : Nat)
    (hlo : first ≤ (xs.takeWhile before).length)
    (hhi : (xs.takeWhile before).length ≤ first + len) (hlen : first + len ≤ xs.length) :
    lowerBoundLoop before xs first len = (xs.takeWhile before).length := by
  induction first, len using lowerBoundLoop.induct before xs with
  | case1 first len hpos half mid hmid hb ih =>
    have hlt := (h.before_iff hmid).mp hb
    rw [lowerBoundLoop, if_pos hpos]
    simp only [hmid, hb, if_true, half]
    exact ih (by omega) (by omega) (by omega)
  | case2 first len hpos half mid hmid hb ih =>
    have hle : ¬ first + half < (xs.takeWhile before).length := by
      rw [← h.before_iff hmid]
      exact hb
    rw [lowerBoundLoop, if_pos hpos]
    simp only [hmid, hb, half]
    exact ih hlo (by omega) (by omega)
  | case3 first len hpos half hmid =>
    have := List.getElem?_eq_none_iff.mp hmid
    omega
  | case4 first len hzero =>
    rw [lowerBoundLoop, if_neg hzero]
    omega

/-- The bound is the number of elements that come before the value. -/
theorem lowerBound_eq (h : Partitioned before xs) :
    lowerBound before xs = (xs.takeWhile before).length := by
  have hle := (List.takeWhile_prefix before (l := xs)).length_le
  exact lowerBoundLoop_eq h 0 xs.length (by omega) (by omega) (by omega)

/-- In front of the bound are the elements that come before the value. -/
theorem take_lowerBound (h : Partitioned before xs) :
    xs.take (lowerBound before xs) = xs.takeWhile before := by
  rw [lowerBound_eq h]
  exact (List.prefix_iff_eq_take.mp (List.takeWhile_prefix before)).symm

/-- Behind the bound are those that do not. -/
theorem drop_lowerBound (h : Partitioned before xs) :
    xs.drop (lowerBound before xs) = xs.dropWhile before := by
  have hsplit := List.takeWhile_append_dropWhile (p := before) (l := xs)
  rw [lowerBound_eq h]
  exact (congrArg (List.drop _) hsplit).symm.trans List.drop_left

/-- The element at the position is the first one that does not come before. -/
theorem getElem?_lowerBound (h : Partitioned before xs) :
    xs[lowerBound before xs]? = (xs.dropWhile before).head? := by
  rw [← drop_lowerBound h, List.head?_drop]

end Lib
