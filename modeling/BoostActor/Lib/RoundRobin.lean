import Mathlib.Data.List.Rotate
import Mathlib.Data.List.Chain
import Mathlib.Tactic.Common

/-!
# Taking turns

The elements of a list take turns: turn number `pos` is that of the element at `pos`
modulo the length. A block of turns may begin anywhere.

* `length_div_mul_count_le`, `count_le_mul_length_div` — in any block of turns, each
  element has its share;
* `isChain_turns` — different elements have consecutive turns.
-/

namespace Lib

variable {α : Type} {xs : List α} {pos k : Nat}

/-- Whose turn it is. -/
def turn? (xs : List α) (pos : Nat) : Option α := xs[pos % xs.length]?

/-- Those who have `k` turns in a row. -/
def turns (xs : List α) : (pos k : Nat) → List α
  | _, 0 => []
  | pos, k + 1 => (turn? xs pos).toList ++ turns xs (pos + 1) k

theorem turn?_eq_some (h : xs ≠ []) (pos : Nat) :
    ∃ hlt : pos % xs.length < xs.length, turn? xs pos = some xs[pos % xs.length] := by
  have hlt : pos % xs.length < xs.length := Nat.mod_lt pos (List.length_pos_of_ne_nil h)
  exact ⟨hlt, List.getElem?_eq_getElem hlt⟩

/-- Turns in a row are taken up where they were left. -/
theorem turns_add (xs : List α) (pos j k : Nat) :
    turns xs pos (j + k) = turns xs pos j ++ turns xs (pos + j) k := by
  induction j generalizing pos with
  | zero =>
    rw [Nat.zero_add]
    rfl
  | succ j ih => rw [Nat.succ_add, turns, turns, ih, List.append_assoc, Nat.succ_add_eq_add_succ]

@[simp] theorem turns_nil (pos k : Nat) : turns ([] : List α) pos k = [] := by
  induction k generalizing pos with
  | zero => rfl
  | succ k ih =>
    rw [turns, ih]
    rfl

@[simp] theorem length_turns (h : xs ≠ []) (pos k : Nat) : (turns xs pos k).length = k := by
  induction k generalizing pos with
  | zero => rfl
  | succ k ih =>
    obtain ⟨_, hturn⟩ := turn?_eq_some h pos
    rw [turns, hturn, List.length_append, ih]
    exact Nat.add_comm 1 k

/-- The turns come in order. -/
theorem getElem?_turns {i : Nat} (h : xs ≠ []) (pos : Nat) (hi : i < k) :
    (turns xs pos k)[i]? = turn? xs (pos + i) := by
  induction k generalizing pos i with
  | zero => exact absurd hi (Nat.not_lt_zero i)
  | succ k ih =>
    obtain ⟨_, hturn⟩ := turn?_eq_some h pos
    rw [turns, hturn]
    cases i with
    | zero => exact hturn.symm
    | succ i =>
      have hnext := ih (pos + 1) (Nat.lt_of_succ_lt_succ hi)
      rw [Nat.add_assoc, Nat.add_comm 1 i] at hnext
      exact hnext

/-- As many turns as there are elements: the list from somewhere in it. -/
theorem turns_length (h : xs ≠ []) (pos : Nat) : turns xs pos xs.length = xs.rotate pos := by
  apply List.ext_getElem?
  intro i
  by_cases hi : i < xs.length
  · rw [getElem?_turns h pos hi, List.getElem?_rotate hi, Nat.add_comm]
    rfl
  · rw [List.getElem?_eq_none, List.getElem?_eq_none]
    · rw [List.length_rotate]
      omega
    · rw [length_turns h]
      omega

section

variable [DecidableEq α]

-- -------------------------
-- How often it is whose turn
-- -------------------------

/-- A block of turns has rounds, and some turns more. -/
theorem count_turns (h : xs ≠ []) (pos q r : Nat) (x : α) :
    (turns xs pos (q * xs.length + r)).count x =
      q * xs.count x + (turns xs (pos + q * xs.length) r).count x := by
  induction q generalizing pos with
  | zero => rw [Nat.zero_mul, Nat.zero_add, Nat.zero_mul, Nat.zero_add, Nat.add_zero]
  | succ q ih =>
    have hround : (turns xs pos xs.length).count x = xs.count x := by
      rw [turns_length h]
      exact (List.rotate_perm xs pos).count_eq x
    have hlength : (q + 1) * xs.length + r = xs.length + (q * xs.length + r) := by
      rw [Nat.succ_mul]
      omega
    have hpos : pos + xs.length + q * xs.length = pos + (q + 1) * xs.length := by
      rw [Nat.succ_mul]
      omega
    rw [hlength, turns_add, List.count_append, hround, ih, hpos, Nat.succ_mul q (xs.count x)]
    omega

/-- In less than a round, nobody has more turns than places. -/
theorem count_turns_le (h : xs ≠ []) (pos : Nat) (hk : k ≤ xs.length) (x : α) :
    (turns xs pos k).count x ≤ xs.count x := by
  obtain ⟨j, hj⟩ := Nat.exists_eq_add_of_le hk
  have hround : turns xs pos k ++ turns xs (pos + k) j = xs.rotate pos := by
    rw [← turns_add, ← hj, turns_length h]
  rw [← (List.rotate_perm xs pos).count_eq x, ← hround, List.count_append]
  exact Nat.le_add_right _ _

/-- Each place has at least the share that is rounded down. -/
theorem length_div_mul_count_le (xs : List α) (pos k : Nat) (x : α) :
    xs.count x * (k / xs.length) ≤ (turns xs pos k).count x := by
  by_cases h : xs = []
  · rw [h, List.count_nil, Nat.zero_mul]
    exact Nat.zero_le _
  · have hcount := count_turns h pos (k / xs.length) (k % xs.length) x
    rw [Nat.mul_comm (k / xs.length) xs.length, Nat.div_add_mod] at hcount
    rw [hcount, Nat.mul_comm]
    exact Nat.le_add_right _ _

/-- Each place has at most the share that is rounded up. -/
theorem count_le_mul_length_div (xs : List α) (pos k : Nat) (x : α) :
    (turns xs pos k).count x ≤ xs.count x * ((k + xs.length - 1) / xs.length) := by
  by_cases h : xs = []
  · rw [h, turns_nil, List.count_nil]
    exact Nat.zero_le _
  · have hpos : 0 < xs.length := List.length_pos_of_ne_nil h
    have hmod : k % xs.length < xs.length := Nat.mod_lt k hpos
    have hk := Nat.div_add_mod k xs.length
    have hcount := count_turns h pos (k / xs.length) (k % xs.length) x
    rw [Nat.mul_comm (k / xs.length) xs.length, hk] at hcount
    rw [hcount, Nat.mul_comm (k / xs.length)]
    by_cases hzero : k % xs.length = 0
    · -- only whole rounds
      have hceil : k / xs.length ≤ (k + xs.length - 1) / xs.length :=
        Nat.div_le_div_right (by omega)
      rw [hzero]
      exact Nat.mul_le_mul_left _ hceil
    · -- at most one more turn in a round that is not complete
      have hceil : k / xs.length + 1 ≤ (k + xs.length - 1) / xs.length := by
        rw [Nat.le_div_iff_mul_le hpos, Nat.succ_mul, Nat.mul_comm]
        omega
      calc
        _ ≤ xs.count x * (k / xs.length) + xs.count x :=
          Nat.add_le_add_left (count_turns_le h _ (Nat.le_of_lt hmod) x) _
        _ = xs.count x * (k / xs.length + 1) := by rw [Nat.mul_succ]
        _ ≤ _ := Nat.mul_le_mul_left _ hceil

end

-- -------------------------
-- Two turns in a row
-- -------------------------

/-- Consecutive turns are those of different places. -/
theorem turn?_succ_ne (hnodup : xs.Nodup) (hone : 1 < xs.length) (pos : Nat) :
    turn? xs pos ≠ turn? xs (pos + 1) := by
  have hne : xs ≠ [] := List.ne_nil_of_length_pos (by omega)
  obtain ⟨_, hfirst⟩ := turn?_eq_some hne pos
  obtain ⟨_, hsecond⟩ := turn?_eq_some hne (pos + 1)
  rw [hfirst, hsecond]
  intro h
  rw [Option.some.injEq, hnodup.getElem_inj_iff] at h
  have hfirst := Nat.div_add_mod pos xs.length
  have hsecond := Nat.div_add_mod (pos + 1) xs.length
  rw [← h] at hsecond
  -- a multiple of the length would be 1
  have hone' : xs.length * ((pos + 1) / xs.length) = xs.length * (pos / xs.length) + 1 := by omega
  have hdvd : xs.length ∣ 1 :=
    (Nat.dvd_add_right (Nat.dvd_mul_right _ _)).mp (hone' ▸ Nat.dvd_mul_right _ _)
  have hle := Nat.le_of_dvd (by decide) hdvd
  omega

/-- With two or more different elements, nobody has two turns in a row. -/
theorem isChain_turns (hnodup : xs.Nodup) (hone : 1 < xs.length) (pos k : Nat) :
    (turns xs pos k).IsChain (· ≠ ·) := by
  have hne : xs ≠ [] := List.ne_nil_of_length_pos (by omega)
  induction k generalizing pos with
  | zero => exact List.isChain_nil
  | succ k ih =>
    obtain ⟨_, hfirst⟩ := turn?_eq_some hne pos
    rw [turns, hfirst]
    cases k with
    | zero => exact List.isChain_singleton _
    | succ k =>
      have hnext := ih (pos + 1)
      have hdiff := turn?_succ_ne hnodup hone pos
      obtain ⟨_, hsecond⟩ := turn?_eq_some hne (pos + 1)
      rw [hfirst, hsecond] at hdiff
      rw [turns, hsecond] at hnext ⊢
      exact List.isChain_cons_cons.mpr ⟨fun heq => hdiff (congrArg some heq), hnext⟩

end Lib
