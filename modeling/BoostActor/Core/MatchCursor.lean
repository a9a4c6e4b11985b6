import BoostActor.Core.TryMatch

/-!
# The cursor of `try_match`

There is one saved position for the cursor, which a wildcard inside the rest of a
pattern overwrites. An attempt that enters such a wildcard and fails leaves a
position behind that is not the one the wildcard outside saved. But then the
message does not match at all, so a success is never built on it.

Main results:

* `tryMatch_iff_splits` — `try_match` decides whether the message can be divided
  among the pattern, and the pointers are those of such a division;
* `tryMatch_in_bounds_iff` — when the cursor stays inside the array and is always
  set back to where it was.
-/

namespace BoostActor

open Lib

-- -------------------------
-- Where the cursor is saved
-- -------------------------

/-- What stands before some wildcard of the pattern takes the positions up to one
inside the message, so that the wildcard may be entered. -/
def Enters (msg : MessageView) (ps : Pattern) (pos : Nat) : Prop :=
  ∃ front rest stop, ps = front ++ none :: rest ∧ stop < msg.size ∧
    Matches msg.Fits stop front pos

/-- A wildcard with an element before it may be entered: the cursor is saved at
another position than the one it starts from. -/
def Displaced (msg : MessageView) (ps : Pattern) (pos : Nat) : Prop :=
  ∃ front rest stop, ps = front ++ none :: rest ∧ (∃ e, some e ∈ front) ∧ stop < msg.size ∧
    Matches msg.Fits stop front pos

/-- Two wildcards with an element between them may be entered. -/
def Nested (msg : MessageView) (ps : Pattern) (pos : Nat) : Prop :=
  ∃ front inner rest stop, ps = front ++ none :: inner ++ none :: rest ∧
    (∃ e, some e ∈ inner) ∧ stop < msg.size ∧ Matches msg.Fits stop (front ++ none :: inner) pos

section

variable {msg : MessageView} {ps : Pattern} {e : ElementPattern} {pos : Nat}
  {s : SetCommitRollback}

theorem Enters.lt (h : Enters msg ps pos) : pos < msg.size := by
  obtain ⟨_, _, stop, -, hstop, hfront⟩ := h
  have hle := hfront.le
  omega

/-- A position is saved past the cursor only if a wildcard is entered. -/
theorem Displaced.enters (h : Displaced msg ps pos) : Enters msg ps pos :=
  let ⟨front, rest, stop, heq, _, hstop, hfront⟩ := h
  ⟨front, rest, stop, heq, hstop, hfront⟩

theorem Nested.enters (h : Nested msg ps pos) : Enters msg ps pos :=
  let ⟨front, inner, rest, stop, heq, _, hstop, hfront⟩ := h
  ⟨front ++ none :: inner, rest, stop, heq, hstop, hfront⟩

theorem not_enters_nil : ¬ Enters msg [] pos := by
  rintro ⟨front, rest, stop, heq, -⟩
  simp at heq

/-- An element lets the pattern behind it enter a wildcard. -/
theorem enters_element :
    Enters msg (some e :: ps) pos ↔ msg.Fits e pos ∧ Enters msg ps (pos + 1) := by
  constructor
  · rintro ⟨front, rest, stop, heq, hstop, hfront⟩
    rcases List.cons_eq_append_iff.mp heq with ⟨rfl, hnone⟩ | ⟨front', rfl, rfl⟩
    · cases hnone
    · obtain ⟨hfits, hrest⟩ := matches_element.mp hfront
      exact ⟨hfits, front', rest, stop, rfl, hstop, hrest⟩
  · rintro ⟨hfits, front, rest, stop, rfl, hstop, hfront⟩
    exact ⟨some e :: front, rest, stop, rfl, hstop, matches_element.mpr ⟨hfits, hfront⟩⟩

/-- The element moves the cursor before. -/
theorem displaced_element :
    Displaced msg (some e :: ps) pos ↔ msg.Fits e pos ∧ Enters msg ps (pos + 1) := by
  constructor
  · intro h
    exact enters_element.mp h.enters
  · rintro ⟨hfits, front, rest, stop, rfl, hstop, hfront⟩
    exact ⟨some e :: front, rest, stop, rfl, ⟨e, List.mem_cons_self⟩, hstop,
      matches_element.mpr ⟨hfits, hfront⟩⟩

/-- The same for nested ones. -/
theorem nested_element :
    Nested msg (some e :: ps) pos ↔ msg.Fits e pos ∧ Nested msg ps (pos + 1) := by
  constructor
  · rintro ⟨front, inner, rest, stop, heq, hinner, hstop, hfront⟩
    rw [List.append_assoc] at heq
    rcases List.cons_eq_append_iff.mp heq with ⟨rfl, hnone⟩ | ⟨front', rfl, rfl⟩
    · cases hnone
    · obtain ⟨hfits, hrest⟩ := matches_element.mp hfront
      exact ⟨hfits, front', inner, rest, stop, (List.append_assoc ..).symm, hinner, hstop, hrest⟩
  · rintro ⟨hfits, front, inner, rest, stop, rfl, hinner, hstop, hfront⟩
    exact ⟨some e :: front, inner, rest, stop, rfl, hinner, hstop,
      matches_element.mpr ⟨hfits, hfront⟩⟩

theorem enters_wildcard (hpos : pos < msg.size) : Enters msg (none :: ps) pos :=
  ⟨[], ps, pos, rfl, hpos, matches_nil.mpr rfl⟩

/-- The rest behind a wildcard starts at any of the positions that are left. -/
theorem displaced_wildcard : Displaced msg (none :: ps) pos ↔
    ∃ p, pos ≤ p ∧ p < msg.size ∧ Displaced msg ps p := by
  constructor
  · rintro ⟨front, rest, stop, heq, ⟨e, he⟩, hstop, hfront⟩
    rcases List.cons_eq_append_iff.mp heq with ⟨rfl, -⟩ | ⟨front', rfl, rfl⟩
    · cases he
    · obtain ⟨p, hle, hrest⟩ := matches_wildcard.mp hfront
      have hp := hrest.le
      have he' : some e ∈ front' := by simpa using he
      exact ⟨p, hle, by omega, front', rest, stop, rfl, ⟨e, he'⟩, hstop, hrest⟩
  · rintro ⟨p, hle, -, front, rest, stop, rfl, ⟨e, he⟩, hstop, hfront⟩
    exact ⟨none :: front, rest, stop, rfl, ⟨e, List.mem_cons_of_mem _ he⟩, hstop,
      matches_wildcard.mpr ⟨p, hle, hfront⟩⟩

/-- A wildcard enters another one in some attempt. -/
theorem nested_wildcard : Nested msg (none :: ps) pos ↔
    ∃ p, pos ≤ p ∧ p < msg.size ∧ (Displaced msg ps p ∨ Nested msg ps p) := by
  constructor
  · rintro ⟨front, inner, rest, stop, heq, hinner, hstop, hfront⟩
    rw [List.append_assoc] at heq
    rcases List.cons_eq_append_iff.mp heq with ⟨rfl, hcons⟩ | ⟨front', rfl, rfl⟩
    · -- this wildcard is the first of the two
      obtain rfl := (List.cons_eq_cons.mp hcons).2
      obtain ⟨p, hle, hrest⟩ := matches_wildcard.mp hfront
      have hp := hrest.le
      exact ⟨p, hle, by omega, .inl ⟨inner, rest, stop, rfl, hinner, hstop, hrest⟩⟩
    · -- both are behind it
      obtain ⟨p, hle, hrest⟩ := matches_wildcard.mp hfront
      have hp := hrest.le
      exact ⟨p, hle, by omega, .inr ⟨front', inner, rest, stop, (List.append_assoc ..).symm,
        hinner, hstop, hrest⟩⟩
  · rintro ⟨p, hle, -, ⟨front, rest, stop, rfl, hfront, hstop, hmatch⟩ |
      ⟨front, inner, rest, stop, rfl, hinner, hstop, hmatch⟩⟩
    · exact ⟨[], front, rest, stop, rfl, hfront, hstop, matches_wildcard.mpr ⟨p, hle, hmatch⟩⟩
    · exact ⟨none :: front, inner, rest, stop, rfl, hinner, hstop,
        matches_wildcard.mpr ⟨p, hle, hmatch⟩⟩

-- -------------------------
-- Attempts that fail
-- -------------------------

/-- Where a wildcard may be entered, the pattern matches if it does further on: the
wildcard may take the positions in between. -/
theorem Enters.matches_of_le {p : Nat} (h : Enters msg ps pos) (hle : pos ≤ p)
    (hmatch : Matches msg.Fits msg.size ps p) : Matches msg.Fits msg.size ps pos := by
  induction ps generalizing pos p with
  | nil => exact absurd h not_enters_nil
  | cons q ps ih =>
    cases q with
    | none => exact hmatch.widen hle
    | some e =>
      obtain ⟨hfits, hrest⟩ := enters_element.mp h
      exact matches_element.mpr ⟨hfits, ih hrest (by omega) (matches_element.mp hmatch).2⟩

/-- A loop whose attempts all fail saves a position that is not before the cursor,
and past it if one of the attempts does. -/
theorem fallbackPos_search {sub : Nat → SetCommitRollback → Bool × SetCommitRollback}
    {D : Nat → Prop} {n : Nat} (entered : Nat)
    (hfail : ∀ p s, pos ≤ p → p < pos + n → (sub p s).1 = false)
    (hsub : ∀ p s, pos ≤ p → p < pos + n → s.pos = s.fallbackPos →
      s.pos ≤ (sub p s).2.fallbackPos ∧ ((sub p s).2.fallbackPos = s.pos ↔ ¬ D p))
    (hs : s.pos = s.fallbackPos) :
    s.pos ≤ (searchFrom sub entered n pos s).2.fallbackPos ∧
      ((searchFrom sub entered n pos s).2.fallbackPos = s.pos ↔
        ∀ p, pos ≤ p → p < pos + n → ¬ D p) := by
  -- a rollback makes the saved position the cursor
  let Inv (p : Nat) (s' : SetCommitRollback) : Prop :=
    s'.pos = s'.fallbackPos ∧ s.pos ≤ s'.fallbackPos ∧
      (s'.fallbackPos = s.pos ↔ ∀ p', pos ≤ p' → p' < p → ¬ D p')
  have hstep : ∀ p s', pos ≤ p → p < pos + n → Inv p s' → (sub p s').1 = false →
      Inv (p + 1) ((sub p s').2.rollback entered) := by
    intro p s' hp hlt ⟨hcursor, hge, hiff⟩ _
    obtain ⟨hge', hiff'⟩ := hsub p s' hp hlt hcursor
    refine ⟨rfl, ?_, ?_⟩
    · rw [SetCommitRollback.fallbackPos_rollback]
      omega
    · rw [SetCommitRollback.fallbackPos_rollback]
      constructor
      · intro heq p' hp' hlt'
        rcases Nat.lt_or_ge p' p with hbefore | hat
        · exact hiff.mp (by omega) p' hp' hbefore
        · obtain rfl : p' = p := by omega
          exact hiff'.mp (by omega)
      · intro hall
        have hbefore := hiff.mpr fun p' hp' hlt' => hall p' hp' (by omega)
        have hat := hiff'.mpr (hall p hp (by omega))
        omega
  have hstart : Inv pos s :=
    ⟨hs, by omega, iff_of_true hs.symm fun p' hp' hlt' => absurd hlt' (by omega)⟩
  rcases searchFrom_rule sub entered Inv hstep hstart with ⟨p, s₀, hp, hlt, -, hfound, -⟩ |
    ⟨-, -, hge, hiff⟩
  · exact absurd ((hfail p s₀ hp hlt).symm.trans hfound) Bool.false_ne_true
  · exact ⟨hge, hiff⟩

/-- An attempt that fails leaves the saved position alone unless a wildcard is
entered. Then it is not before the cursor, and past it if there was an element
before the wildcard. -/
theorem fallbackPos_of_fail (hle : pos ≤ msg.size) (hfail : ¬ Matches msg.Fits msg.size ps pos) :
    (¬ Enters msg ps pos →
      (tryMatchFrom msg (metaElements ps) pos s).2.fallbackPos = s.fallbackPos) ∧
    (Enters msg ps pos →
      s.pos ≤ (tryMatchFrom msg (metaElements ps) pos s).2.fallbackPos ∧
      ((tryMatchFrom msg (metaElements ps) pos s).2.fallbackPos = s.pos ↔
        ¬ Displaced msg ps pos)) := by
  induction ps generalizing pos s with
  | nil =>
    refine ⟨fun _ => ?_, fun h => absurd h not_enters_nil⟩
    rcases Nat.lt_or_ge pos msg.size with hpos | hpos
    · rw [tryMatchFrom_nil hpos]
    · rw [tryMatchFrom_stop (Nat.not_lt.mpr hpos)]
  | cons p ps ih =>
    rcases Nat.lt_or_ge pos msg.size with hpos | hpos
    · cases p with
      | some e =>
        by_cases hfits : msg.Fits e pos
        · rw [tryMatchFrom_element hpos hfits, enters_element, displaced_element]
          have hrest : ¬ Matches msg.Fits msg.size ps (pos + 1) := fun h =>
            hfail (matches_element.mpr ⟨hfits, h⟩)
          obtain ⟨hstays, hmoves⟩ :=
            ih (s := (s.write pos).inc) (show pos + 1 ≤ msg.size from hpos) hrest
          refine ⟨fun h => hstays fun hrest => h ⟨hfits, hrest⟩, fun h => ?_⟩
          -- the element moved the cursor before the wildcard was entered
          have hge : s.pos + 1 ≤ _ := (hmoves h.2).1
          exact ⟨by omega, iff_of_false (by omega) (not_not.mpr h)⟩
        · rw [tryMatchFrom_misfit hpos hfits, enters_element]
          exact ⟨fun _ => rfl, fun h => absurd h.1 hfits⟩
      | none =>
        have hps : ps ≠ [] := fun hnil =>
          hfail (matches_of_wildcards (by simp [hnil]) (by simp) hle)
        refine ⟨fun h => absurd (enters_wildcard hpos) h, fun _ => ?_⟩
        rw [tryMatchFrom_wildcard hpos hps, displaced_wildcard]
        have hnone : ∀ p, pos ≤ p → ¬ Matches msg.Fits msg.size ps p := fun p hp h =>
          hfail (matches_wildcard.mpr ⟨p, hp, h⟩)
        have hattempts : ∀ p s', pos ≤ p → p < pos + (msg.size - pos) →
            (tryMatchFrom msg (metaElements ps) p s').1 = false := by
          intro p s' hp hlt
          rw [← Bool.not_eq_true, tryMatchFrom_iff (by omega)]
          exact hnone p hp
        have hsaved : ∀ p s', pos ≤ p → p < pos + (msg.size - pos) → s'.pos = s'.fallbackPos →
            s'.pos ≤ (tryMatchFrom msg (metaElements ps) p s').2.fallbackPos ∧
            ((tryMatchFrom msg (metaElements ps) p s').2.fallbackPos = s'.pos ↔
              ¬ Displaced msg ps p) := by
          intro p s' hp hlt hcursor
          obtain ⟨hstays, hmoves⟩ := ih (s := s') (by omega) (hnone p hp)
          by_cases henter : Enters msg ps p
          · exact hmoves henter
          · have heq := (hstays henter).trans hcursor.symm
            exact ⟨Nat.le_of_eq heq.symm, iff_of_true heq fun h => henter h.enters⟩
        obtain ⟨hge, hiff⟩ := fallbackPos_search (s := s.commit) s.pos hattempts hsaved rfl
        refine ⟨hge, hiff.trans ⟨fun hall => ?_, fun hnot p hp hlt hdis => ?_⟩⟩
        · rintro ⟨p, hp, hlt, hdis⟩
          exact hall p hp (by omega) hdis
        · exact hnot ⟨p, hp, by omega, hdis⟩
    · rw [tryMatchFrom_stop (Nat.not_lt.mpr hpos)]
      exact ⟨fun _ => rfl, fun h => absurd h.lt (Nat.not_lt.mpr hpos)⟩

/-- An attempt that fails does not save a position before the cursor, if there is
none saved already. -/
theorem le_fallbackPos_of_fail (hle : pos ≤ msg.size)
    (hfail : ¬ Matches msg.Fits msg.size ps pos) (hs : s.pos = s.fallbackPos) :
    s.pos ≤ (tryMatchFrom msg (metaElements ps) pos s).2.fallbackPos := by
  obtain ⟨hstays, hmoves⟩ := fallbackPos_of_fail (s := s) hle hfail
  by_cases henter : Enters msg ps pos
  · exact (hmoves henter).1
  · have heq := hstays henter
    omega

/-- Without a wildcard that is displaced, the position saved stays where the cursor is. -/
theorem fallbackPos_of_not_displaced (hle : pos ≤ msg.size)
    (hfail : ¬ Matches msg.Fits msg.size ps pos) (hs : s.pos = s.fallbackPos)
    (hdis : ¬ Displaced msg ps pos) :
    (tryMatchFrom msg (metaElements ps) pos s).2.fallbackPos = s.pos := by
  obtain ⟨hstays, hmoves⟩ := fallbackPos_of_fail (s := s) hle hfail
  by_cases henter : Enters msg ps pos
  · exact (hmoves henter).2.mpr hdis
  · exact (hstays henter).trans hs.symm

-- -------------------------
-- The pointers
-- -------------------------

/-- Pointers before the cursor stay. -/
theorem data_of_lt (hle : pos ≤ msg.size) {k : Nat} (hk : k < s.pos) :
    (tryMatchFrom msg (metaElements ps) pos s).2.data k = s.data k := by
  induction ps generalizing pos s with
  | nil =>
    rcases Nat.lt_or_ge pos msg.size with hpos | hpos
    · rw [tryMatchFrom_nil hpos]
    · rw [tryMatchFrom_stop (Nat.not_lt.mpr hpos)]
  | cons p ps ih =>
    rcases Nat.lt_or_ge pos msg.size with hpos | hpos
    · cases p with
      | some e =>
        by_cases hfits : msg.Fits e pos
        · rw [tryMatchFrom_element hpos hfits]
          -- the element is written at the cursor, which is behind `k`
          have hrest := ih (s := (s.write pos).inc) (show pos + 1 ≤ msg.size from hpos)
            (show k < s.pos + 1 by omega)
          rw [hrest, SetCommitRollback.data_inc, SetCommitRollback.data_write, if_neg (by omega)]
        · rw [tryMatchFrom_misfit hpos hfits]
      | none =>
        by_cases hps : ps = []
        · subst hps
          rw [tryMatchFrom_last hpos]
        · rw [tryMatchFrom_wildcard hpos hps]
          -- the cursor never goes back before the position it had
          let Inv (_ : Nat) (s' : SetCommitRollback) : Prop :=
            s'.pos = s'.fallbackPos ∧ s.pos ≤ s'.pos ∧ s'.data k = s.data k
          have hstep : ∀ p s', pos ≤ p → p < pos + (msg.size - pos) → Inv p s' →
              (tryMatchFrom msg (metaElements ps) p s').1 = false →
              Inv (p + 1) ((tryMatchFrom msg (metaElements ps) p s').2.rollback s.pos) := by
            intro p s' hp hlt ⟨hcursor, hge, hdata⟩ hfail
            have hle' : p ≤ msg.size := by omega
            have hmatch : ¬ Matches msg.Fits msg.size ps p := by
              rw [← tryMatchFrom_iff (s := s') hle', hfail]
              exact Bool.false_ne_true
            have hsaved := le_fallbackPos_of_fail hle' hmatch hcursor
            refine ⟨rfl, ?_, ?_⟩
            · rw [SetCommitRollback.pos_rollback]
              omega
            · rw [SetCommitRollback.data_rollback, ih hle' (by omega), hdata]
          have hstart : Inv pos s.commit := ⟨rfl, Nat.le_refl _, rfl⟩
          rcases searchFrom_rule _ s.pos Inv hstep hstart with
            ⟨p, s₀, hp, hlt, ⟨-, hge, hdata⟩, -, heq⟩ | ⟨-, -, -, hdata⟩
          · rw [heq, ih (by omega) (by omega), hdata]
          · exact hdata
    · rw [tryMatchFrom_stop (Nat.not_lt.mpr hpos)]

/-- As long as a later attempt succeeds, the ones before it leave the cursor where
it was: none of them entered a wildcard. -/
theorem searchFrom_of_matches (hpos : pos < msg.size) (hps : ps ≠ [])
    (hmatch : Matches msg.Fits msg.size (none :: ps) pos) (Inv : SetCommitRollback → Prop)
    (hinv : Inv s.commit)
    (hstep : ∀ p s', p < msg.size → s'.pos = s.pos → s'.fallbackPos = s.pos →
      ¬ Enters msg ps p → ¬ Matches msg.Fits msg.size ps p → Inv s' →
      Inv ((tryMatchFrom msg (metaElements ps) p s').2.rollback s.pos)) :
    ∃ p s', pos ≤ p ∧ p < msg.size ∧ s'.pos = s.pos ∧ Inv s' ∧ Matches msg.Fits msg.size ps p ∧
      tryMatchFrom msg (metaElements (none :: ps)) pos s =
        tryMatchFrom msg (metaElements ps) p s' := by
  rw [tryMatchFrom_wildcard hpos hps]
  obtain ⟨p₁, hp₁, hlater⟩ := matches_wildcard.mp hmatch
  -- the positions tried so far cannot be the one that matches
  let Clean (p : Nat) (s' : SetCommitRollback) : Prop :=
    s'.pos = s.pos ∧ s'.fallbackPos = s.pos ∧ Inv s' ∧
      ∀ p', pos ≤ p' → p' < p → ¬ Matches msg.Fits msg.size ps p'
  have hclean : ∀ p s', pos ≤ p → p < pos + (msg.size - pos) → Clean p s' →
      (tryMatchFrom msg (metaElements ps) p s').1 = false →
      Clean (p + 1) ((tryMatchFrom msg (metaElements ps) p s').2.rollback s.pos) := by
    intro p s' hp hlt ⟨hcursor, hsaved, hinv, htried⟩ hfail
    have hle : p ≤ msg.size := by omega
    have hnot : ¬ Matches msg.Fits msg.size ps p := by
      rw [← tryMatchFrom_iff (s := s') hle, hfail]
      exact Bool.false_ne_true
    have hbefore : p ≤ p₁ := Nat.le_of_not_lt fun h => htried p₁ hp₁ h hlater
    have henter : ¬ Enters msg ps p := fun h => hnot (h.matches_of_le hbefore hlater)
    have hkept := ((fallbackPos_of_fail (s := s') hle hnot).1 henter).trans hsaved
    refine ⟨hkept, hkept, hstep p s' (by omega) hcursor hsaved henter hnot hinv, ?_⟩
    intro p' hp' hlt'
    rcases Nat.lt_or_ge p' p with hearlier | hat
    · exact htried p' hp' hearlier
    · obtain rfl : p' = p := by omega
      exact hnot
  have hstart : Clean pos s.commit :=
    ⟨rfl, rfl, hinv, fun p' hp' hlt' => absurd hlt' (by omega)⟩
  -- the search stops at the first position that matches
  rcases searchFrom_rule _ s.pos Clean hclean hstart with
    ⟨p, s₀, hp, hlt, ⟨hcursor, -, hinv, -⟩, hfound, heq⟩ | ⟨-, -, -, -, hnone⟩
  · exact ⟨p, s₀, hp, by omega, hcursor, hinv, (tryMatchFrom_iff (by omega)).mp hfound, heq⟩
  · rcases Nat.lt_or_ge p₁ msg.size with hlt | hge
    · exact absurd hlater (hnone p₁ hp₁ (by omega))
    · have hall := hlater.of_end hge hps (Nat.le_of_lt hpos)
      exact absurd hall (hnone pos (Nat.le_refl _) (by omega))

/-- After a success the pointers from the cursor on are those of a division of the
message among the pattern. -/
theorem data_of_matches (hle : pos ≤ msg.size) (hmatch : Matches msg.Fits msg.size ps pos) :
    ∃ ks, Splits msg.Fits msg.size ps pos ks ∧ ∀ k, k < ks.length →
      (tryMatchFrom msg (metaElements ps) pos s).2.data (s.pos + k) = ks[k]? := by
  induction ps generalizing pos s with
  | nil =>
    obtain rfl := matches_nil.mp hmatch
    exact ⟨[], .nil, fun k hk => absurd hk (Nat.not_lt_zero _)⟩
  | cons p ps ih =>
    rcases Nat.lt_or_ge pos msg.size with hpos | hpos
    · cases p with
      | some e =>
        -- the pointer to the element comes first
        obtain ⟨hfits, hrest⟩ := matches_element.mp hmatch
        have hle' : pos + 1 ≤ msg.size := hpos
        obtain ⟨ks, hsplit, hdata⟩ := ih (s := (s.write pos).inc) hle' hrest
        refine ⟨pos :: ks, .element hfits hsplit, fun k hk => ?_⟩
        rw [tryMatchFrom_element hpos hfits]
        cases k with
        | zero =>
          -- the rest of the pattern writes behind the pointer
          rw [data_of_lt hle' (show s.pos + 0 < s.pos + 1 by omega), SetCommitRollback.data_inc,
            SetCommitRollback.data_write, if_pos (Nat.add_zero _)]
          rfl
        | succ k =>
          have hk' := hdata k (by simpa using hk)
          rw [show s.pos + (k + 1) = (s.write pos).inc.pos + k by simp; omega, hk']
          rfl
      | none =>
        by_cases hps : ps = []
        · subst hps
          exact ⟨[], .wildcard hle .nil, fun k hk => absurd hk (Nat.not_lt_zero _)⟩
        · obtain ⟨p, s', hp, hlt, hcursor, -, hrest, heq⟩ := searchFrom_of_matches (s := s)
            hpos hps hmatch (fun _ => True) trivial fun _ _ _ _ _ _ _ _ => trivial
          obtain ⟨ks, hsplit, hdata⟩ := ih (s := s') (Nat.le_of_lt hlt) hrest
          rw [heq, ← hcursor]
          exact ⟨ks, .wildcard hp hsplit, hdata⟩
    · -- the rest are wildcards
      obtain rfl : pos = msg.size := Nat.le_antisymm hle hpos
      obtain ⟨ks, hsplit⟩ := hmatch
      refine ⟨ks, hsplit, fun k hk => ?_⟩
      -- there are no positions at the end
      have hmem := hsplit.mem_range _ (List.getElem_mem hk)
      omega

-- -------------------------
-- The accesses
-- -------------------------

/-- Nothing that was done is forgotten. -/
theorem accesses_kept :
    s.accesses <+: (tryMatchFrom msg (metaElements ps) pos s).2.accesses := by
  induction ps generalizing pos s with
  | nil =>
    rcases Nat.lt_or_ge pos msg.size with hpos | hpos
    · exact (tryMatchFrom_nil hpos).symm ▸ List.prefix_rfl
    · exact (tryMatchFrom_stop (Nat.not_lt.mpr hpos)).symm ▸ List.prefix_rfl
  | cons p ps ih =>
    rcases Nat.lt_or_ge pos msg.size with hpos | hpos
    · cases p with
      | some e =>
        by_cases hfits : msg.Fits e pos
        · rw [tryMatchFrom_element hpos hfits]
          have hrest : (s.write pos).inc.accesses <+:
              (tryMatchFrom msg (metaElements ps) (pos + 1) (s.write pos).inc).2.accesses := ih
          exact (List.prefix_append s.accesses [.write s.pos]).trans hrest
        · exact (tryMatchFrom_misfit hpos hfits).symm ▸ List.prefix_rfl
      | none =>
        by_cases hps : ps = []
        · subst hps
          exact (tryMatchFrom_last hpos).symm ▸ List.prefix_rfl
        · rw [tryMatchFrom_wildcard hpos hps]
          let Inv (_ : Nat) (s' : SetCommitRollback) : Prop := s.accesses <+: s'.accesses
          have hstep : ∀ p s', pos ≤ p → p < pos + (msg.size - pos) → Inv p s' →
              (tryMatchFrom msg (metaElements ps) p s').1 = false →
              Inv (p + 1) ((tryMatchFrom msg (metaElements ps) p s').2.rollback s.pos) :=
            fun p s' _ _ hpre _ => (hpre.trans ih).trans (List.prefix_append _ _)
          have hstart : Inv pos s.commit := List.prefix_rfl
          rcases searchFrom_rule _ s.pos Inv hstep hstart with
            ⟨p, s₀, -, -, hpre, -, heq⟩ | ⟨-, hpre⟩
          · rw [heq]
            exact hpre.trans ih
          · exact hpre
    · exact (tryMatchFrom_stop (Nat.not_lt.mpr hpos)).symm ▸ List.prefix_rfl

-- -------------------------
-- Accesses within bounds
-- -------------------------

/-- A write is inside an array of `n` pointers, a rollback goes back to where the
cursor was when the wildcard was entered. -/
def Access.Ok (n : Nat) : Access → Prop
  | write index => index < n
  | rollback pos entered => pos = entered

instance (n : Nat) : (a : Access) → Decidable (a.Ok n)
  | .write index => inferInstanceAs (Decidable (index < n))
  | .rollback pos entered => inferInstanceAs (Decidable (pos = entered))

/-- The number of elements of a pattern that are no wildcards. -/
def Pattern.arity (ps : Pattern) : Nat := (ps.filterMap id).length

@[simp] theorem arity_element : Pattern.arity (some e :: ps) = Pattern.arity ps + 1 := rfl
@[simp] theorem arity_wildcard : Pattern.arity (none :: ps) = Pattern.arity ps := rfl

/-- Every access so far was fine. -/
def SetCommitRollback.Clean (n : Nat) (s : SetCommitRollback) : Prop := ∀ a ∈ s.accesses, a.Ok n

theorem clean_write {n ptr : Nat} : (s.write ptr).inc.Clean n ↔ s.Clean n ∧ s.pos < n := by
  simp [SetCommitRollback.Clean, or_imp, forall_and, Access.Ok]

/-- A rollback deletes what lies between both positions. -/
theorem clean_rollback {n entered : Nat} :
    (s.rollback entered).Clean n ↔ s.Clean n ∧ s.fallbackPos = entered := by
  simp [SetCommitRollback.Clean, or_imp, forall_and, Access.Ok]

theorem clean_of_kept {n : Nat} {s s' : SetCommitRollback} (hpre : s.accesses <+: s'.accesses)
    (h : s'.Clean n) : s.Clean n := fun a ha => h a (hpre.subset ha)

/-- A search in which every attempt fails keeps to the array if each attempt does, and
leaves the cursor where the loop was entered. -/
theorem clean_of_search {n : Nat} (hpos : pos < msg.size) (hps : ps ≠ [])
    (hmatch : ¬ Matches msg.Fits msg.size (none :: ps) pos) (hnest : ¬ Nested msg (none :: ps) pos)
    (hs : s.Clean n)
    (hattempt : ∀ p s', p < msg.size → s'.pos = s.pos → s'.fallbackPos = s.pos →
      ¬ Matches msg.Fits msg.size ps p → ¬ Displaced msg ps p → ¬ Nested msg ps p → s'.Clean n →
      ((tryMatchFrom msg (metaElements ps) p s').2.rollback s.pos).Clean n ∧
        (tryMatchFrom msg (metaElements ps) p s').2.fallbackPos = s.pos) :
    (tryMatchFrom msg (metaElements (none :: ps)) pos s).2.Clean n := by
  rw [nested_wildcard] at hnest
  rw [tryMatchFrom_wildcard hpos hps]
  let Inv (_ : Nat) (s' : SetCommitRollback) : Prop :=
    s'.pos = s.pos ∧ s'.fallbackPos = s.pos ∧ s'.Clean n
  have hnone : ∀ p, pos ≤ p → ¬ Matches msg.Fits msg.size ps p := fun p hp h =>
    hmatch (matches_wildcard.mpr ⟨p, hp, h⟩)
  have hstep : ∀ p s', pos ≤ p → p < pos + (msg.size - pos) → Inv p s' →
      (tryMatchFrom msg (metaElements ps) p s').1 = false →
      Inv (p + 1) ((tryMatchFrom msg (metaElements ps) p s').2.rollback s.pos) := by
    intro p s' hp hlt ⟨hcursor, hsaved, hclean⟩ _
    have hlt' : p < msg.size := by omega
    obtain ⟨hclean', hkept⟩ := hattempt p s' hlt' hcursor hsaved (hnone p hp)
      (fun h => hnest ⟨p, hp, hlt', .inl h⟩) (fun h => hnest ⟨p, hp, hlt', .inr h⟩) hclean
    exact ⟨hkept, hkept, hclean'⟩
  have hstart : Inv pos s.commit := ⟨rfl, rfl, hs⟩
  rcases searchFrom_rule _ s.pos Inv hstep hstart with ⟨p, s₀, hp, hlt, -, hfound, -⟩ |
    ⟨-, -, -, hclean⟩
  · exact absurd ((tryMatchFrom_iff (by omega)).mp hfound) (hnone p hp)
  · exact hclean

/-- An attempt that succeeds, or enters no two wildcards with an element between
them, keeps to the array. -/
theorem clean_of_not_nested {n : Nat} (hle : pos ≤ msg.size)
    (hps : Matches msg.Fits msg.size ps pos ∨ ¬ Nested msg ps pos)
    (hn : s.pos + Pattern.arity ps ≤ n) (hs : s.Clean n) :
    (tryMatchFrom msg (metaElements ps) pos s).2.Clean n := by
  induction ps generalizing pos s with
  | nil =>
    rcases Nat.lt_or_ge pos msg.size with hpos | hpos
    · rwa [tryMatchFrom_nil hpos]
    · rwa [tryMatchFrom_stop (Nat.not_lt.mpr hpos)]
  | cons p ps ih =>
    rcases Nat.lt_or_ge pos msg.size with hpos | hpos
    · cases p with
      | some e =>
        by_cases hfits : msg.Fits e pos
        · rw [tryMatchFrom_element hpos hfits]
          rw [matches_element, nested_element] at hps
          rw [arity_element] at hn
          have hrest : Matches msg.Fits msg.size ps (pos + 1) ∨ ¬ Nested msg ps (pos + 1) :=
            hps.imp And.right fun h hrest => h ⟨hfits, hrest⟩
          have hwrite : (s.write pos).inc.Clean n :=
            clean_write.mpr ⟨hs, by omega⟩
          exact ih hpos hrest (show s.pos + 1 + Pattern.arity ps ≤ n by omega) hwrite
        · rwa [tryMatchFrom_misfit hpos hfits]
      | none =>
        rw [arity_wildcard] at hn
        by_cases hnil : ps = []
        · subst hnil
          rwa [tryMatchFrom_last hpos]
        · -- an attempt that fails leaves the cursor where the loop entered
          have hattempt : ∀ p s', p < msg.size → s'.pos = s.pos → s'.fallbackPos = s.pos →
              ¬ Matches msg.Fits msg.size ps p → ¬ Displaced msg ps p → ¬ Nested msg ps p →
              s'.Clean n →
              ((tryMatchFrom msg (metaElements ps) p s').2.rollback s.pos).Clean n ∧
                (tryMatchFrom msg (metaElements ps) p s').2.fallbackPos = s.pos := by
            intro p s' hp hcursor hsaved hnot hdis hnest hclean
            have hkept := (fallbackPos_of_not_displaced (s := s') (Nat.le_of_lt hp) hnot
              (hcursor.trans hsaved.symm) hdis).trans hcursor
            have hafter := ih (s := s') (Nat.le_of_lt hp) (.inr hnest) (by omega) hclean
            exact ⟨clean_rollback.mpr ⟨hafter, hkept⟩, hkept⟩
          -- the attempts before the one that matches leave the cursor
          by_cases hmatch : Matches msg.Fits msg.size (none :: ps) pos
          · obtain ⟨p, s', -, hlt, hcursor, hclean, hrest, heq⟩ := searchFrom_of_matches (s := s)
              hpos hnil hmatch (SetCommitRollback.Clean n) hs
              fun p s' hp hcursor hsaved henter hnot hclean =>
                (hattempt p s' hp hcursor hsaved hnot (mt Displaced.enters henter)
                  (mt Nested.enters henter) hclean).1
            rw [heq]
            exact ih (Nat.le_of_lt hlt) (.inl hrest) (by omega) hclean
          · exact clean_of_search hpos hnil hmatch (hps.resolve_left hmatch) hs hattempt
    · rwa [tryMatchFrom_stop (Nat.not_lt.mpr hpos)]

/-- An attempt that fails after it entered two wildcards with an element between
them sets the cursor back to another position than it had. -/
theorem not_clean_of_nested {n : Nat} (hle : pos ≤ msg.size)
    (hfail : ¬ Matches msg.Fits msg.size ps pos) (hnest : Nested msg ps pos) :
    ¬ (tryMatchFrom msg (metaElements ps) pos s).2.Clean n := by
  induction ps generalizing pos s with
  | nil => exact absurd hnest.enters not_enters_nil
  | cons p ps ih =>
    have hpos := hnest.enters.lt
    cases p with
    | some e =>
      obtain ⟨hfits, hrest⟩ := nested_element.mp hnest
      rw [tryMatchFrom_element hpos hfits]
      exact ih hpos (fun h => hfail (matches_element.mpr ⟨hfits, h⟩)) hrest
    | none =>
      have hps : ps ≠ [] := fun hnil =>
        hfail (matches_of_wildcards (by simp [hnil]) (by simp) hle)
      have hnone : ∀ p, pos ≤ p → ¬ Matches msg.Fits msg.size ps p := fun p hp h =>
        hfail (matches_wildcard.mpr ⟨p, hp, h⟩)
      -- in the attempt at `p₁`, a position is saved past the cursor
      obtain ⟨p₁, hp₁, hlt₁, hbad⟩ := nested_wildcard.mp hnest
      rw [tryMatchFrom_wildcard hpos hps]
      -- once the attempt at `p₁` was made, a rollback went to the wrong position
      let Inv (p : Nat) (s' : SetCommitRollback) : Prop :=
        s'.pos = s'.fallbackPos ∧ s.pos ≤ s'.pos ∧ (p₁ < p → ¬ s'.Clean n)
      have hstep : ∀ p s', pos ≤ p → p < pos + (msg.size - pos) → Inv p s' →
          (tryMatchFrom msg (metaElements ps) p s').1 = false →
          Inv (p + 1) ((tryMatchFrom msg (metaElements ps) p s').2.rollback s.pos) := by
        intro p s' hp hlt ⟨hcursor, hge, hdirty⟩ _
        have hle' : p ≤ msg.size := by omega
        have hsaved := le_fallbackPos_of_fail hle' (hnone p hp) hcursor
        refine ⟨rfl, by rw [SetCommitRollback.pos_rollback]; omega, fun hp₁' hclean => ?_⟩
        obtain ⟨hafter, hback⟩ := clean_rollback.mp hclean
        rcases Nat.lt_or_ge p₁ p with hbefore | hat
        · exact hdirty hbefore (clean_of_kept accesses_kept hafter)
        · obtain rfl : p₁ = p := by omega
          rcases hbad with hdis | hnest'
          · -- the wildcard behind the element saved a position past the cursor
            have hne := ((fallbackPos_of_fail (s := s') hle' (hnone p₁ hp)).2 hdis.enters).2
            have hback' : (tryMatchFrom msg (metaElements ps) p₁ s').2.fallbackPos = s.pos := hback
            exact hne.mp (by omega) hdis
          · exact ih hle' (hnone p₁ hp) hnest' hafter
      have hstart : Inv pos s.commit := ⟨rfl, Nat.le_refl _, fun h => absurd h (by omega)⟩
      rcases searchFrom_rule _ s.pos Inv hstep hstart with ⟨p, s₀, hp, hlt, -, hfound, -⟩ |
        ⟨-, -, -, hdirty⟩
      · exact absurd ((tryMatchFrom_iff (by omega)).mp hfound) (hnone p hp)
      · exact hdirty (by omega)

end

-- -------------------------
-- Matching a whole message
-- -------------------------

section

variable {msg : MessageView} {pattern : Pattern} {out : Nat → Option Nat}

/-- The code decides whether the message can be divided among the pattern. -/
theorem tryMatch_iff : (tryMatch msg (metaElements pattern) out).1 = true ↔
    Matches msg.Fits msg.size pattern 0 :=
  tryMatchFrom_iff (Nat.zero_le _)

/-- The pointers after a success. -/
theorem data_of_tryMatch (h : (tryMatch msg (metaElements pattern) out).1 = true) :
    ∃ ks, Splits msg.Fits msg.size pattern 0 ks ∧ ks.length = pattern.arity ∧
      ∀ k, k < pattern.arity → (tryMatch msg (metaElements pattern) out).2.data k = ks[k]? := by
  obtain ⟨ks, hsplit, hdata⟩ :=
    data_of_matches (s := .new out) (Nat.zero_le msg.size) (tryMatch_iff.mp h)
  refine ⟨ks, hsplit, hsplit.length_eq, fun k hk => ?_⟩
  have hk' := hdata k (by rwa [hsplit.length_eq])
  rwa [show (SetCommitRollback.new out).pos + k = k from Nat.zero_add k] at hk'

end

section

variable {α : Type}

/-- `try_match` decides whether the message can be divided among the pattern: one
element for each type and atom constant, any number in a row for each wildcard.
If it can, each pointer is to the element that a type or atom constant takes in
such a division. -/
theorem tryMatch_iff_splits (atomOf : α → UInt64) (m : CowMessage α) (pattern : Pattern)
    (out : Nat → Option Nat) :
    let msg := m.view atomOf
    let (matched, storage) := tryMatch msg (metaElements pattern) out
    (matched = true ↔ ∃ ks, Splits msg.Fits msg.size pattern 0 ks) ∧
    (matched = true → ∃ ks, Splits msg.Fits msg.size pattern 0 ks ∧
      ks.length = pattern.arity ∧ ∀ k, k < pattern.arity → storage.data k = ks[k]?) :=
  ⟨tryMatch_iff, data_of_tryMatch⟩

/-- The cursor stays inside the array and goes back to where it was exactly if the
message matches or it never comes to a second wildcard past an element behind the
first. -/
theorem tryMatch_in_bounds_iff (atomOf : α → UInt64) (m : CowMessage α) (pattern : Pattern)
    (out : Nat → Option Nat) :
    let msg := m.view atomOf
    (∀ a ∈ (tryMatch msg (metaElements pattern) out).2.accesses, a.Ok pattern.arity) ↔
      Matches msg.Fits msg.size pattern 0 ∨ ¬ Nested msg pattern 0 := by
  intro msg
  constructor
  · intro hclean
    by_contra hnot
    obtain ⟨hfail, hnest⟩ := not_or.mp hnot
    exact not_clean_of_nested (Nat.zero_le _) hfail (not_not.mp hnest) hclean
  · intro hps
    have hstart : (SetCommitRollback.new out).Clean pattern.arity := fun a ha => by cases ha
    exact clean_of_not_nested (Nat.zero_le _) hps (Nat.le_of_eq (Nat.zero_add _)) hstart

/-- Four `int32_t` against a wildcard, an `int32_t`, a wildcard and an `int64_t`: the
third attempt to match the `int32_t` writes past the array, which holds two pointers. -/
theorem tryMatch_out_of_bounds :
    let msg := (CowMessage.makeMessage (List.replicate 4 ⟨⟨14, 0⟩, 0⟩)).view id
    let pattern : Pattern := [none, some (.typed ⟨14, 0⟩), none, some (.typed ⟨15, 0⟩)]
    Access.write 2 ∈ (tryMatch msg (metaElements pattern) fun _ => none).2.accesses ∧
    ¬ ∀ a ∈ (tryMatch msg (metaElements pattern) fun _ => none).2.accesses,
      a.Ok pattern.arity := by
  decide

end

end BoostActor
