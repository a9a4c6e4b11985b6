import BoostActor.Core.MessageLists
import BoostActor.Lib.Wildcards

/-!
# Matching a message against a pattern

`try_match` compares a message with the pattern of a match case (`try_match.cpp`,
`try_match.hpp`): a sequence of types, atom constants and wildcards. It collects
pointers to the elements that were matched in an array of the caller, through a
cursor that is set back when an attempt fails. A wildcard is matched by trying
the rest of the pattern at one position after the other.

`tryMatchFrom_iff`: whether it succeeds depends on the message and the pattern, not
on the cursor. Where the cursor goes is the subject of `Core.MatchCursor`.
-/

namespace BoostActor

open Lib

-- -------------------------
-- Patterns
-- -------------------------

/-- The type number of `atom_value`. -/
def atomTypeNr : UInt16 := (Builtin.plain (.primitive .atomValue)).typeNr

/-- What `try_match` reads of a message: its size, the type of an element, and its
value as an `atom_value`. -/
structure MessageView where
  size : Nat
  typeAt : Nat → Option ElementType
  atomAt : Nat → Option UInt64

/-- `message::match_element`. -/
def MessageView.matchElement (msg : MessageView) (pos : Nat) (typenr : UInt16)
    (rtti : Option Nat) : Bool :=
  (msg.typeAt pos).any fun t => t.matchElement typenr (rtti.getD 0)

/-- The function in a `meta_element`. -/
inductive MatchFun where
  | matchElement
  | matchAtomConstant
deriving DecidableEq, Repr

/-- A `meta_element`. -/
structure MetaElement where
  v : UInt64
  typenr : UInt16
  type : Option Nat
  fn : Option MatchFun
deriving DecidableEq, Repr

namespace MetaElement

def isWildcard (me : MetaElement) : Bool := me.typenr == 0 && me.type.isNone

def matchElement (me : MetaElement) (msg : MessageView) (pos : Nat) : Bool :=
  msg.matchElement pos me.typenr me.type

def matchAtomConstant (me : MetaElement) (msg : MessageView) (pos : Nat) : Bool :=
  msg.matchElement pos atomTypeNr none && msg.atomAt pos == some me.v

/-- `me.fun(me, msg, pos, storage)`, which stores a pointer if it returns true. It
is null in a wildcard, for which it is never called. -/
def call (me : MetaElement) (msg : MessageView) (pos : Nat) : Bool :=
  match me.fn with
  | none => false
  | some .matchElement => me.matchElement msg pos
  | some .matchAtomConstant => me.matchAtomConstant msg pos

end MetaElement

/-- An element of a pattern: a type or an `atom_constant`. -/
inductive ElementPattern where
  | typed (t : ElementType)
  | atomConstant (v : UInt64)
deriving DecidableEq, Repr

/-- A pattern; `none` is `anything`. -/
abbrev Pattern := List (Option ElementPattern)

/-- `meta_element_factory::create`. -/
def createMetaElement : Option ElementPattern → MetaElement
  | some (.typed t) =>
    if t.nr ≠ 0 then ⟨0, t.nr, none, some .matchElement⟩
    else ⟨0, 0, some t.rtti, some .matchElement⟩
  | some (.atomConstant v) => ⟨v, atomTypeNr, none, some .matchAtomConstant⟩
  | none => ⟨0, 0, none, none⟩

/-- `meta_elements`. -/
def metaElements (pattern : Pattern) : List MetaElement := pattern.map createMetaElement

-- -------------------------
-- The cursor
-- -------------------------

/-- What is done through a `set_commit_rollback` that matters to its user: a write
at an index of the array, and a rollback, with the position of the cursor after
it and the one it had when the wildcard was entered. -/
inductive Access where
  | write (index : Nat)
  | rollback (pos entered : Nat)
deriving DecidableEq, Repr

/-- A `set_commit_rollback`. A pointer in the array is given as the position of the
element it points to. `accesses` records what was done. -/
structure SetCommitRollback where
  data : Nat → Option Nat
  pos : Nat
  fallbackPos : Nat
  accesses : List Access

namespace SetCommitRollback

def new (out : Nat → Option Nat) : SetCommitRollback := ⟨out, 0, 0, []⟩

def inc (s : SetCommitRollback) : SetCommitRollback := { s with pos := s.pos + 1 }

/-- `*current() = ptr`. -/
def write (s : SetCommitRollback) (ptr : Nat) : SetCommitRollback :=
  { s with
    data := fun i => if i = s.pos then some ptr else s.data i
    accesses := s.accesses ++ [.write s.pos] }

def commit (s : SetCommitRollback) : SetCommitRollback := { s with fallbackPos := s.pos }

def rollback (s : SetCommitRollback) (entered : Nat) : SetCommitRollback :=
  { s with
    pos := s.fallbackPos
    accesses := s.accesses ++ [.rollback s.fallbackPos entered] }

variable (s : SetCommitRollback) (ptr entered : Nat)

@[simp] theorem pos_inc : s.inc.pos = s.pos + 1 := rfl
@[simp] theorem data_inc : s.inc.data = s.data := rfl
@[simp] theorem fallbackPos_inc : s.inc.fallbackPos = s.fallbackPos := rfl
@[simp] theorem accesses_inc : s.inc.accesses = s.accesses := rfl
@[simp] theorem pos_write : (s.write ptr).pos = s.pos := rfl
@[simp] theorem fallbackPos_write : (s.write ptr).fallbackPos = s.fallbackPos := rfl
@[simp] theorem accesses_write : (s.write ptr).accesses = s.accesses ++ [.write s.pos] := rfl
@[simp] theorem pos_commit : s.commit.pos = s.pos := rfl
@[simp] theorem data_commit : s.commit.data = s.data := rfl
@[simp] theorem fallbackPos_commit : s.commit.fallbackPos = s.pos := rfl
@[simp] theorem accesses_commit : s.commit.accesses = s.accesses := rfl
@[simp] theorem pos_rollback : (s.rollback entered).pos = s.fallbackPos := rfl
@[simp] theorem data_rollback : (s.rollback entered).data = s.data := rfl
@[simp] theorem fallbackPos_rollback : (s.rollback entered).fallbackPos = s.fallbackPos := rfl
@[simp] theorem accesses_rollback :
    (s.rollback entered).accesses = s.accesses ++ [.rollback s.fallbackPos entered] := rfl

theorem data_write (i : Nat) :
    (s.write ptr).data i = if i = s.pos then some ptr else s.data i := rfl

end SetCommitRollback

-- -------------------------
-- `try_match`
-- -------------------------

/-- The loop over the remaining values in `try_match`, of which there are `n`; `sub`
matches the rest of the pattern. The wildcard was entered with the cursor at
`entered`. -/
def searchFrom (sub : Nat → SetCommitRollback → Bool × SetCommitRollback) (entered : Nat) :
    (n : Nat) → (msgPos : Nat) → SetCommitRollback → Bool × SetCommitRollback
  | 0, _, s => (false, s)
  | n + 1, msgPos, s =>
    let (matched, s) := sub msgPos s
    if matched then (true, s)
    else searchFrom sub entered n (msgPos + 1) (s.rollback entered)

/-- `try_match` from a position of the message on. -/
def tryMatchFrom (msg : MessageView) :
    List MetaElement → Nat → SetCommitRollback → Bool × SetCommitRollback
  | [], msgPos, s => if msgPos < msg.size then (false, s) else (true, s)
  | me :: pattern, msgPos, s =>
    if msgPos < msg.size then
      if me.isWildcard then
        if pattern = [] then (true, s)
        else searchFrom (tryMatchFrom msg pattern) s.pos (msg.size - msgPos) msgPos s.commit
      else if !me.call msg msgPos then (false, s)
      else tryMatchFrom msg pattern (msgPos + 1) (s.write msgPos).inc
    -- a match if the remainder consists of wildcards only
    else ((me :: pattern).all MetaElement.isWildcard, s)

/-- `try_match`, with the array the caller passes. -/
def tryMatch (msg : MessageView) (pattern : List MetaElement) (out : Nat → Option Nat) :
    Bool × SetCommitRollback :=
  tryMatchFrom msg pattern 0 (.new out)

/-- The message as `try_match` reads it; `atomOf` reads a value as an `atom_value`. -/
def CowMessage.view {α : Type} (atomOf : α → UInt64) (m : CowMessage α) : MessageView where
  size := m.size
  typeAt pos := (m.elementAt pos).map Element.type
  atomAt pos := (m.elementAt pos).map fun e => atomOf e.value

-- -------------------------
-- Elements
-- -------------------------

/-- The element of the pattern matches the element at a position: it has that type,
or is that atom. -/
def MessageView.Fits (msg : MessageView) : ElementPattern → Nat → Prop
  | .typed t, pos => ∃ t', msg.typeAt pos = some t' ∧ t'.nr = t.nr ∧ (t.nr = 0 → t'.rtti = t.rtti)
  | .atomConstant v, pos =>
    (∃ t, msg.typeAt pos = some t ∧ t.nr = atomTypeNr) ∧ msg.atomAt pos = some v

/-- An element type matches its own number. -/
theorem ElementType.matchElement_iff {t : ElementType} {typenr : UInt16} {rtti : Nat} :
    t.matchElement typenr rtti = true ↔ t.nr = typenr ∧ (typenr = 0 → t.rtti = rtti) := by
  rw [matchElement]
  by_cases hnr : t.nr = typenr
  · rw [if_neg (not_not.mpr hnr), ← hnr]
    by_cases hzero : t.nr = 0
    · simp [hzero]
    · simp [hzero]
  · simp [hnr]

/-- An element of the message matches by its type. -/
theorem matchElement_iff {msg : MessageView} {pos : Nat} {typenr : UInt16} {rtti : Option Nat} :
    msg.matchElement pos typenr rtti = true ↔
      ∃ t, msg.typeAt pos = some t ∧ t.nr = typenr ∧ (typenr = 0 → t.rtti = rtti.getD 0) := by
  rw [MessageView.matchElement, Option.any_eq_true]
  simp only [ElementType.matchElement_iff]

theorem atomTypeNr_ne_zero : atomTypeNr ≠ 0 := by decide

/-- The function of an element tests what it says. -/
theorem call_create {msg : MessageView} {e : ElementPattern} {pos : Nat} :
    (createMetaElement (some e)).call msg pos = true ↔ msg.Fits e pos := by
  cases e with
  | typed t =>
    rw [createMetaElement]
    split_ifs with hnr
    · show msg.matchElement pos t.nr none = true ↔ _
      rw [matchElement_iff]
      simp only [MessageView.Fits, hnr, false_implies, and_true]
    · have hzero : t.nr = 0 := not_not.mp hnr
      show msg.matchElement pos 0 (some t.rtti) = true ↔ _
      rw [matchElement_iff]
      simp only [MessageView.Fits, hzero, Option.getD_some]
  | atomConstant v =>
    show (msg.matchElement pos atomTypeNr none && msg.atomAt pos == some v) = true ↔ _
    rw [Bool.and_eq_true, matchElement_iff, beq_iff_eq, MessageView.Fits]
    simp only [atomTypeNr_ne_zero, false_implies, and_true]

/-- A wildcard is an element without a function. -/
theorem isWildcard_create (p : Option ElementPattern) :
    (createMetaElement p).isWildcard = p.isNone := by
  rcases p with _ | t | v
  · rfl
  · rw [createMetaElement]
    split_ifs with hnr
    · simp [MetaElement.isWildcard, hnr]
    · rfl
  · simp [createMetaElement, MetaElement.isWildcard, atomTypeNr_ne_zero]

-- -------------------------
-- Each step of `try_match`
-- -------------------------

section

variable {msg : MessageView} {ps : Pattern} {e : ElementPattern} {pos : Nat}
  {s : SetCommitRollback}

theorem metaElements_eq_nil : metaElements ps = [] ↔ ps = [] := List.map_eq_nil_iff

/-- At the end of the message it depends on what is left of the pattern. -/
theorem tryMatchFrom_stop (hpos : ¬ pos < msg.size) :
    tryMatchFrom msg (metaElements ps) pos s = (ps.all Option.isNone, s) := by
  cases ps with
  | nil =>
    show (if pos < msg.size then _ else _) = _
    rw [if_neg hpos]
    rfl
  | cons p ps =>
    show (if pos < msg.size then _ else (((p :: ps).map createMetaElement).all _, s)) = _
    rw [if_neg hpos, List.all_map]
    congr 2
    funext q
    exact isWildcard_create q

theorem tryMatchFrom_nil (hpos : pos < msg.size) :
    tryMatchFrom msg (metaElements []) pos s = (false, s) := if_pos hpos

/-- A wildcard at the end of the pattern takes the rest. -/
theorem tryMatchFrom_last (hpos : pos < msg.size) :
    tryMatchFrom msg (metaElements [none]) pos s = (true, s) := by
  show (if pos < msg.size then _ else _) = _
  rw [if_pos hpos]
  rfl

/-- A wildcard tries every position. -/
theorem tryMatchFrom_wildcard (hpos : pos < msg.size) (hps : ps ≠ []) :
    tryMatchFrom msg (metaElements (none :: ps)) pos s =
      searchFrom (tryMatchFrom msg (metaElements ps)) s.pos (msg.size - pos) pos s.commit := by
  show (if pos < msg.size then
    if true = true then if metaElements ps = [] then _ else _ else _ else _) = _
  rw [if_pos hpos, if_pos rfl, if_neg (mt metaElements_eq_nil.mp hps)]
  rfl

/-- An element that does not fit ends the attempt. -/
theorem tryMatchFrom_misfit (hpos : pos < msg.size) (hfits : ¬ msg.Fits e pos) :
    tryMatchFrom msg (metaElements (some e :: ps)) pos s = (false, s) := by
  show (if pos < msg.size then if (createMetaElement (some e)).isWildcard = true then _ else
    if (!(createMetaElement (some e)).call msg pos) = true then _ else _ else _) = _
  rw [if_pos hpos, isWildcard_create, if_neg (by simp), if_pos]
  rw [Bool.not_eq_true', ← Bool.not_eq_true, call_create]
  exact hfits

/-- An element that fits is stored. -/
theorem tryMatchFrom_element (hpos : pos < msg.size) (hfits : msg.Fits e pos) :
    tryMatchFrom msg (metaElements (some e :: ps)) pos s =
      tryMatchFrom msg (metaElements ps) (pos + 1) (s.write pos).inc := by
  show (if pos < msg.size then if (createMetaElement (some e)).isWildcard = true then _ else
    if (!(createMetaElement (some e)).call msg pos) = true then _ else _ else _) = _
  rw [if_pos hpos, isWildcard_create, if_neg (by simp), call_create.mpr hfits]
  rfl

end

/-- The search ends with the first match. -/
theorem searchFrom_found {sub : Nat → SetCommitRollback → Bool × SetCommitRollback}
    {entered n pos : Nat} {s : SetCommitRollback} (h : (sub pos s).1 = true) :
    searchFrom sub entered (n + 1) pos s = sub pos s := by
  show (if (sub pos s).1 = true then (true, (sub pos s).2) else _) = _
  rw [if_pos h]
  exact Prod.ext h.symm rfl

/-- Otherwise it goes on behind the fallback. -/
theorem searchFrom_missed {sub : Nat → SetCommitRollback → Bool × SetCommitRollback}
    {entered n pos : Nat} {s : SetCommitRollback} (h : (sub pos s).1 = false) :
    searchFrom sub entered (n + 1) pos s =
      searchFrom sub entered n (pos + 1) ((sub pos s).2.rollback entered) := by
  show (if (sub pos s).1 = true then _ else _) = _
  rw [h, if_neg Bool.false_ne_true]

/-- The rule for the loop: what holds when the loop is entered, and is kept by an
attempt that fails and the rollback after it, holds where the loop ends, which it
does with the result of an attempt that succeeds or past the last position. -/
theorem searchFrom_rule (sub : Nat → SetCommitRollback → Bool × SetCommitRollback) (entered : Nat)
    (Inv : Nat → SetCommitRollback → Prop) : ∀ {n pos : Nat} {s : SetCommitRollback},
    (∀ p s, pos ≤ p → p < pos + n → Inv p s → (sub p s).1 = false →
      Inv (p + 1) ((sub p s).2.rollback entered)) →
    Inv pos s →
    (∃ p s₀, pos ≤ p ∧ p < pos + n ∧ Inv p s₀ ∧ (sub p s₀).1 = true ∧
      searchFrom sub entered n pos s = sub p s₀) ∨
    ((searchFrom sub entered n pos s).1 = false ∧
      Inv (pos + n) (searchFrom sub entered n pos s).2)
  | 0, _, _, _, hinv => .inr ⟨rfl, hinv⟩
  | n + 1, pos, s, hstep, hinv => by
    cases hsub : (sub pos s).1 with
    | true =>
      exact .inl ⟨pos, s, Nat.le_refl _, by omega, hinv, hsub, searchFrom_found hsub⟩
    | false =>
      -- the cursor goes back, and the loop goes on with the next position
      rw [searchFrom_missed hsub]
      have hnext := hstep pos s (Nat.le_refl _) (by omega) hinv hsub
      have hrest : ∀ p s, pos + 1 ≤ p → p < pos + 1 + n → Inv p s → (sub p s).1 = false →
          Inv (p + 1) ((sub p s).2.rollback entered) :=
        fun p s hle hlt => hstep p s (by omega) (by omega)
      rcases searchFrom_rule sub entered Inv hrest hnext with ⟨p, s₀, hle, hlt, hfound⟩ | hend
      · exact .inl ⟨p, s₀, by omega, by omega, hfound⟩
      · rw [show pos + (n + 1) = pos + 1 + n by omega]
        exact .inr hend

/-- Whether the loop succeeds depends on the positions alone. -/
theorem searchFrom_iff (sub : Nat → SetCommitRollback → Bool × SetCommitRollback) (entered : Nat)
    (P : Nat → Prop) {n pos : Nat} {s : SetCommitRollback}
    (hsub : ∀ p s, p < pos + n → ((sub p s).1 = true ↔ P p)) :
    (searchFrom sub entered n pos s).1 = true ↔ ∃ p, pos ≤ p ∧ p < pos + n ∧ P p := by
  -- the positions tried so far have failed
  let Tried (p : Nat) (_ : SetCommitRollback) : Prop := ∀ p', pos ≤ p' → p' < p → ¬ P p'
  have hstep : ∀ p s, pos ≤ p → p < pos + n → Tried p s → (sub p s).1 = false →
      Tried (p + 1) ((sub p s).2.rollback entered) := by
    intro p s _ hlt htried hfail p' hp' hlt'
    rcases Nat.lt_or_ge p' p with hbefore | hat
    · exact htried p' hp' hbefore
    · obtain rfl : p' = p := by omega
      exact fun hP => Bool.false_ne_true (hfail.symm.trans ((hsub p' s hlt).mpr hP))
  have hstart : Tried pos s := fun p' hp' hlt' => absurd hlt' (by omega)
  rcases searchFrom_rule sub entered Tried hstep hstart with
    ⟨p, s₀, hle, hlt, -, hfound, heq⟩ | ⟨hfail, hnone⟩
  · rw [heq]
    exact iff_of_true hfound ⟨p, hle, hlt, (hsub p s₀ hlt).mp hfound⟩
  · rw [hfail]
    exact iff_of_false Bool.false_ne_true fun ⟨p, hle, hlt, hP⟩ => hnone p hle hlt hP

-- -------------------------
-- Which messages match
-- -------------------------

section

variable {msg : MessageView} {ps : Pattern} {e : ElementPattern} {pos : Nat}
  {s : SetCommitRollback}

theorem all_isNone_iff : ps.all Option.isNone = true ↔ ∀ p ∈ ps, p = none := by
  simp [List.all_eq_true]

/-- `try_match` succeeds if the message can be divided among the pattern, whatever
the cursor. -/
theorem tryMatchFrom_iff (hle : pos ≤ msg.size) :
    (tryMatchFrom msg (metaElements ps) pos s).1 = true ↔ Matches msg.Fits msg.size ps pos := by
  -- the loop calls `try_match` on the rest of the pattern, at any position and with any cursor
  induction ps generalizing pos s with
  | nil =>
    rcases Nat.lt_or_ge pos msg.size with hpos | hpos
    · rw [tryMatchFrom_nil hpos, matches_nil]
      simp
      omega
    · obtain rfl : pos = msg.size := Nat.le_antisymm hle hpos
      rw [tryMatchFrom_stop (Nat.lt_irrefl _), matches_nil]
      simp
  | cons p ps ih =>
    rcases Nat.lt_or_ge pos msg.size with hpos | hpos
    · cases p with
      | some e =>
        rw [matches_element]
        by_cases hfits : msg.Fits e pos
        · rw [tryMatchFrom_element hpos hfits, ih hpos]
          simp [hfits]
        · rw [tryMatchFrom_misfit hpos hfits]
          simp [hfits]
      | none =>
        by_cases hps : ps = []
        · subst hps
          rw [tryMatchFrom_last hpos]
          exact iff_of_true rfl (matches_of_wildcards (by simp) (by simp) hle)
        · rw [tryMatchFrom_wildcard hpos hps, matches_wildcard,
            searchFrom_iff _ s.pos (Matches msg.Fits msg.size ps) fun p _ hp => ih (by omega)]
          constructor
          · rintro ⟨p, hp, -, hrest⟩
            exact ⟨p, hp, hrest⟩
          · rintro ⟨p, hp, hrest⟩
            rcases Nat.lt_or_ge p msg.size with hlt | hge
            · exact ⟨p, hp, by omega, hrest⟩
            · exact ⟨pos, Nat.le_refl _, by omega, hrest.of_end hge hps hle⟩
    · obtain rfl : pos = msg.size := Nat.le_antisymm hle hpos
      rw [tryMatchFrom_stop (Nat.lt_irrefl _), matches_stop]
      exact all_isNone_iff

end

end BoostActor
