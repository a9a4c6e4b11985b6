import Mathlib.Data.List.Basic
import Mathlib.Tactic.Common

/-!
# Patterns with wildcards

A pattern is a sequence of elements and wildcards. It is matched against the
positions of a sequence: an element takes one position it fits, a wildcard takes
any number of positions in a row. `none` is a wildcard.

* `Splits` — how the positions up to an end are divided among the pattern;
* `Matches.widen` — a wildcard in front may take more positions;
* `matches_stop` — at the end of the sequence only wildcards are left.
-/

namespace Lib

section

variable {β : Type}

/-- The positions from `pos` up to `stop` are divided among the pattern in order;
`ks` are those its elements take. -/
inductive Splits (fits : β → Nat → Prop) (stop : Nat) :
    List (Option β) → Nat → List Nat → Prop
  | nil : Splits fits stop [] stop []
  | element {b : β} {ps : List (Option β)} {pos : Nat} {ks : List Nat} :
      fits b pos → Splits fits stop ps (pos + 1) ks →
        Splits fits stop (some b :: ps) pos (pos :: ks)
  | wildcard {ps : List (Option β)} {pos next : Nat} {ks : List Nat} :
      pos ≤ next → Splits fits stop ps next ks → Splits fits stop (none :: ps) pos ks

/-- The positions from `pos` up to `stop` can be divided among the pattern. -/
def Matches (fits : β → Nat → Prop) (stop : Nat) (ps : List (Option β)) (pos : Nat) : Prop :=
  ∃ ks, Splits fits stop ps pos ks

variable {fits : β → Nat → Prop} {stop pos next : Nat} {ps qs : List (Option β)} {b : β}
  {ks : List Nat}

/-- Positions that are divided up are not behind the end. -/
theorem Splits.le (h : Splits fits stop ps pos ks) : pos ≤ stop := by
  induction h with
  | nil => exact Nat.le_refl _
  | element _ _ ih => omega
  | wildcard hle _ ih => omega

/-- Each element of the pattern takes one position. -/
theorem Splits.length_eq (h : Splits fits stop ps pos ks) :
    ks.length = (ps.filterMap id).length := by
  induction h with
  | nil => rfl
  | element _ _ ih => simp [ih]
  | wildcard _ _ ih => simpa using ih

/-- The positions taken are in the range that was divided. -/
theorem Splits.mem_range (h : Splits fits stop ps pos ks) : ∀ k ∈ ks, pos ≤ k ∧ k < stop := by
  induction h with
  | nil => simp
  | element _ hrest ih =>
    intro k hk
    have hle := hrest.le
    rcases List.mem_cons.mp hk with rfl | hk
    · omega
    · have hk := ih k hk
      omega
  | wildcard hle _ ih =>
    intro k hk
    have hk := ih k hk
    omega

/-- A position taken is one that some element of the pattern fits. -/
theorem Splits.fits_of_mem (h : Splits fits stop ps pos ks) : ∀ k ∈ ks, ∃ b, fits b k := by
  induction h with
  | nil => simp
  | @element b _ _ _ hfits _ ih =>
    intro k hk
    rcases List.mem_cons.mp hk with rfl | hk
    · exact ⟨b, hfits⟩
    · exact ih k hk
  | wildcard _ _ ih => exact ih

-- -------------------------
-- Matching
-- -------------------------

/-- An empty pattern takes no position. -/
theorem matches_nil : Matches fits stop [] pos ↔ pos = stop := by
  constructor
  · rintro ⟨_, h⟩
    cases h
    rfl
  · rintro rfl
    exact ⟨[], .nil⟩

/-- An element takes the next position, if it fits. -/
theorem matches_element :
    Matches fits stop (some b :: ps) pos ↔ fits b pos ∧ Matches fits stop ps (pos + 1) := by
  constructor
  · rintro ⟨_, h⟩
    cases h with
    | element hfits hrest => exact ⟨hfits, _, hrest⟩
  · rintro ⟨hfits, ks, hrest⟩
    exact ⟨pos :: ks, .element hfits hrest⟩

/-- A wildcard takes any number of positions. -/
theorem matches_wildcard :
    Matches fits stop (none :: ps) pos ↔ ∃ next, pos ≤ next ∧ Matches fits stop ps next := by
  constructor
  · rintro ⟨_, h⟩
    cases h with
    | wildcard hle hrest => exact ⟨_, hle, _, hrest⟩
  · rintro ⟨next, hle, ks, hrest⟩
    exact ⟨ks, .wildcard hle hrest⟩

theorem Matches.le (h : Matches fits stop ps pos) : pos ≤ stop :=
  let ⟨_, hsplit⟩ := h
  hsplit.le

/-- A wildcard in front may take more positions. -/
theorem Matches.widen (h : Matches fits stop (none :: ps) next) (hle : pos ≤ next) :
    Matches fits stop (none :: ps) pos := by
  obtain ⟨p, hp, hrest⟩ := matches_wildcard.mp h
  exact matches_wildcard.mpr ⟨p, by omega, hrest⟩

/-- At the end only wildcards are left. -/
theorem matches_stop : Matches fits stop ps stop ↔ ∀ p ∈ ps, p = none := by
  induction ps with
  | nil => simp [matches_nil]
  | cons p ps ih =>
    cases p with
    | none =>
      rw [matches_wildcard]
      constructor
      · rintro ⟨next, hle, hrest⟩
        -- nothing is left that the wildcard could take
        obtain rfl : next = stop := Nat.le_antisymm hrest.le hle
        simpa using ih.mp hrest
      · intro hall
        exact ⟨stop, Nat.le_refl _, ih.mpr fun p hp => hall p (List.mem_cons_of_mem _ hp)⟩
    | some b =>
      rw [matches_element]
      constructor
      · -- an element would need a position behind the end
        rintro ⟨-, hrest⟩
        have hle := hrest.le
        omega
      · intro hall
        exact absurd (hall _ List.mem_cons_self) (Option.some_ne_none b)

/-- Wildcards alone take whatever there is. -/
theorem matches_of_wildcards (hall : ∀ p ∈ ps, p = none) (hne : ps ≠ []) (hle : pos ≤ stop) :
    Matches fits stop ps pos := by
  cases ps with
  | nil => exact absurd rfl hne
  | cons p ps =>
    obtain rfl := hall p List.mem_cons_self
    exact matches_wildcard.mpr
      ⟨stop, hle, matches_stop.mpr fun p hp => hall p (List.mem_cons_of_mem _ hp)⟩

/-- What matches at the end is made of wildcards, and matches anywhere. -/
theorem Matches.of_end {p : Nat} (h : Matches fits stop ps p) (hge : stop ≤ p) (hps : ps ≠ [])
    (hle : pos ≤ stop) : Matches fits stop ps pos := by
  obtain rfl : p = stop := Nat.le_antisymm h.le hge
  exact matches_of_wildcards (matches_stop.mp h) hps hle

end

end Lib
