import Mathlib.Tactic.Common

/-!
# Threads

The local states of threads are a list, and a step changes one of them. Most invariants of such
systems say how many threads are at some point of their program.

* `countP_set_add` — what a step of one thread does to a number of threads;
* `count_flatMap_set_add` — what a step of one thread does to all that the threads hold;
* `two_le_countP` — two threads at such a point are counted twice;
* `two_le_count_flatMap` — what two threads hold is there twice.
-/

namespace Lib

section

variable {L : Type} {ts : List L} {i j : Nat} {l l' : L} {p : L → Bool}

/-- One thread goes from one local state to another. -/
theorem countP_set_add (h : ts[i]? = some l) (l' : L) (p : L → Bool) :
    (ts.set i l').countP p + (if p l then 1 else 0) = ts.countP p + if p l' then 1 else 0 := by
  induction ts generalizing i with
  | nil => simp at h
  | cons t ts ih =>
    cases i with
    | zero =>
      obtain rfl : t = l := by simpa using h
      rw [List.set_cons_zero, List.countP_cons, List.countP_cons]
      omega
    | succ i =>
      have hts := ih (by simpa using h)
      rw [List.set_cons_succ, List.countP_cons, List.countP_cons]
      omega

/-- The same for all that the threads hold together. -/
theorem count_flatMap_set_add {R : Type} [DecidableEq R] (h : ts[i]? = some l) (l' : L)
    (f : L → List R) (x : R) :
    ((ts.set i l').flatMap f).count x + (f l).count x =
      (ts.flatMap f).count x + (f l').count x := by
  induction ts generalizing i with
  | nil => simp at h
  | cons t ts ih =>
    cases i with
    | zero =>
      obtain rfl : t = l := by simpa using h
      rw [List.set_cons_zero, List.flatMap_cons, List.flatMap_cons, List.count_append,
        List.count_append]
      omega
    | succ i =>
      have hts := ih (by simpa using h)
      rw [List.set_cons_succ, List.flatMap_cons, List.flatMap_cons, List.count_append,
        List.count_append]
      omega

/-- A thread is counted. -/
theorem countP_pos (h : ts[i]? = some l) (hl : p l = true) : 0 < ts.countP p :=
  List.countP_pos_iff.mpr ⟨l, List.mem_of_getElem? h, hl⟩

/-- Two threads are counted twice. -/
theorem two_le_countP (hne : i ≠ j) (hi : ts[i]? = some l) (hj : ts[j]? = some l')
    (hl : p l = true) (hl' : p l' = true) : 2 ≤ ts.countP p := by
  induction ts generalizing i j with
  | nil => simp at hi
  | cons t ts ih =>
    rw [List.countP_cons]
    cases i with
    | zero =>
      cases j with
      | zero => exact absurd rfl hne
      | succ j =>
        -- one of them is the first thread
        have hrest := countP_pos (by simpa using hj : ts[j]? = some l') hl'
        obtain rfl : t = l := by simpa using hi
        rw [if_pos hl]
        omega
    | succ i =>
      cases j with
      | zero =>
        have hrest := countP_pos (by simpa using hi : ts[i]? = some l) hl
        obtain rfl : t = l' := by simpa using hj
        rw [if_pos hl']
        omega
      -- both are behind the first thread
      | succ j =>
        have hi' : ts[i]? = some l := by simpa using hi
        have hj' : ts[j]? = some l' := by simpa using hj
        have htwo := ih (by omega) hi' hj'
        omega

section

variable {R : Type} [DecidableEq R] {f : L → List R} {x : R}

-- -------------------------
-- Resources of threads
-- -------------------------

/-- A resource that a thread has is among those of all threads. -/
theorem count_flatMap_pos (h : ts[i]? = some l) (hl : x ∈ f l) : 0 < (ts.flatMap f).count x :=
  List.count_pos_iff.mpr (List.mem_flatMap.mpr ⟨l, List.mem_of_getElem? h, hl⟩)

/-- What two threads hold is there twice. -/
theorem two_le_count_flatMap (hne : i ≠ j) (hi : ts[i]? = some l) (hj : ts[j]? = some l')
    (hl : x ∈ f l) (hl' : x ∈ f l') : 2 ≤ (ts.flatMap f).count x := by
  induction ts generalizing i j with
  | nil => simp at hi
  | cons t ts ih =>
    rw [List.flatMap_cons, List.count_append]
    cases i with
    | zero =>
      cases j with
      | zero => exact absurd rfl hne
      | succ j =>
        -- one of them is the first thread
        have hrest := count_flatMap_pos (by simpa using hj : ts[j]? = some l') hl'
        obtain rfl : t = l := by simpa using hi
        have hfirst := List.count_pos_iff.mpr hl
        omega
    | succ i =>
      cases j with
      | zero =>
        have hrest := count_flatMap_pos (by simpa using hi : ts[i]? = some l) hl
        obtain rfl : t = l' := by simpa using hj
        have hfirst := List.count_pos_iff.mpr hl'
        omega
      -- both are behind the first thread
      | succ j =>
        have hi' : ts[i]? = some l := by simpa using hi
        have hj' : ts[j]? = some l' := by simpa using hj
        have htwo := ih (by omega) hi' hj'
        omega

end

/-- A thread is not counted. -/
theorem countP_lt_length (h : ts[i]? = some l) (hl : p l = false) : ts.countP p < ts.length := by
  have hothers : 0 < ts.countP fun l => ¬ p l = true := by
    refine countP_pos h ?_
    rw [hl]
    rfl
  have hsum := List.length_eq_countP_add_countP p (l := ts)
  omega

/-- No thread is counted if every thread is somewhere else. -/
theorem countP_eq_zero_of_forall (h : ∀ l ∈ ts, p l = false) : ts.countP p = 0 := by
  rw [List.countP_eq_zero]
  intro l hl hp
  rw [h l hl] at hp
  cases hp

end

end Lib
