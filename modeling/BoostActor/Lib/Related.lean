import Mathlib.Data.List.Forall2

/-!
# Options, results and lists of related values

`Option.Rel r`, `ExceptRel r` and `List.Forall₂ r` relate options, results and lists value
by value. The operations of a program that follows pointers keep such relations.
-/

namespace Lib

variable {α α' β β' γ δ ε : Type}

-- -------------------------
-- Options
-- -------------------------

theorem optionRel_isNone {r : α → β → Prop} {x : Option α} {y : Option β}
    (h : Option.Rel r x y) : x.isNone = y.isNone := by
  cases h <;> rfl

/-- A weaker relation holds as well. -/
theorem optionRel_imp {q r : α → β → Prop} {x : Option α} {y : Option β} (h : Option.Rel q x y)
    (himp : ∀ a b, q a b → r a b) : Option.Rel r x y := by
  cases h with
  | none => exact .none
  | some hab => exact .some (himp _ _ hab)

/-- Related functions of related values. -/
theorem optionRel_bind {q : α → β → Prop} {r : γ → δ → Prop} {f : α → Option γ}
    {g : β → Option δ} {x : Option α} {y : Option β} (h : Option.Rel q x y)
    (hfg : ∀ a b, q a b → Option.Rel r (f a) (g b)) : Option.Rel r (x.bind f) (y.bind g) := by
  cases h with
  | none => exact .none
  | some hab => exact hfg _ _ hab

/-- Related functions of related values, which always have a result. -/
theorem optionRel_map {q : α → β → Prop} {r : γ → δ → Prop} {f : α → γ} {g : β → δ}
    {x : Option α} {y : Option β} (h : Option.Rel q x y) (hfg : ∀ a b, q a b → r (f a) (g b)) :
    Option.Rel r (x.map f) (y.map g) := by
  cases h with
  | none => exact .none
  | some hab => exact .some (hfg _ _ hab)

/-- A related option has a value where the other one has. -/
theorem optionRel_some {r : α → β → Prop} {x : Option α} {b : β} (h : Option.Rel r x (some b)) :
    ∃ a, x = some a ∧ r a b := by
  cases h with
  | some hab => exact ⟨_, rfl, hab⟩

-- -------------------------
-- Results
-- -------------------------

/-- Both fail with the same error, or both have a value. -/
inductive ExceptRel (r : α → β → Prop) : Except ε α → Except ε β → Prop
  | error (e : ε) : ExceptRel r (.error e) (.error e)
  | ok {a : α} {b : β} : r a b → ExceptRel r (.ok a) (.ok b)

/-- Related functions of related values; the same error ends both. -/
theorem exceptRel_bind {q : α → β → Prop} {r : γ → δ → Prop} {f : α → Except ε γ}
    {g : β → Except ε δ} {x : Except ε α} {y : Except ε β} (h : ExceptRel q x y)
    (hfg : ∀ a b, q a b → ExceptRel r (f a) (g b)) : ExceptRel r (x >>= f) (y >>= g) := by
  cases h with
  | error e => exact .error e
  | ok hab => exact hfg _ _ hab

-- -------------------------
-- Lists
-- -------------------------

/-- The elements are visited in the same order, up to the first without a result. -/
theorem forall₂_mapM {q : α → β → Prop} {r : γ → δ → Prop} {f : α → Option γ}
    {g : β → Option δ} {xs : List α} {ys : List β} (h : List.Forall₂ q xs ys)
    (hfg : ∀ a b, q a b → Option.Rel r (f a) (g b)) :
    Option.Rel (List.Forall₂ r) (xs.mapM f) (ys.mapM g) := by
  induction h with
  | nil => exact .some .nil
  | cons hab _ ih =>
    rw [List.mapM_cons, List.mapM_cons]
    exact optionRel_bind (hfg _ _ hab) fun c d hcd =>
      optionRel_bind ih fun cs ds hcds => .some (.cons hcd hcds)

/-- The elements are visited in the same order, up to the first error. -/
theorem forall₂_mapExcept {q : α → β → Prop} {r : γ → δ → Prop} {f : α → Except ε γ}
    {g : β → Except ε δ} {xs : List α} {ys : List β} (h : List.Forall₂ q xs ys)
    (hfg : ∀ a b, q a b → ExceptRel r (f a) (g b)) :
    ExceptRel (List.Forall₂ r) (xs.mapM f) (ys.mapM g) := by
  induction h with
  | nil => exact .ok .nil
  | cons hab _ ih =>
    rw [List.mapM_cons, List.mapM_cons]
    exact exceptRel_bind (hfg _ _ hab) fun c d hcd =>
      exceptRel_bind ih fun cs ds hcds => .ok (.cons hcd hcds)

/-- Two lists are combined position by position. -/
theorem forall₂_zipWith {q : α → β → Prop} {r : γ → δ → Prop} {f : α' → α → γ} {g : β' → β → δ}
    {p : α' → β' → Prop} {us : List α'} {vs : List β'} {xs : List α} {ys : List β}
    (hp : List.Forall₂ p us vs) (h : List.Forall₂ q xs ys)
    (hfg : ∀ u v a b, p u v → q a b → r (f u a) (g v b)) :
    List.Forall₂ r (List.zipWith f us xs) (List.zipWith g vs ys) := by
  induction hp generalizing xs ys with
  | nil => exact .nil
  | cons huv _ ih =>
    cases h with
    | nil => exact .nil
    | cons hab hrest => exact .cons (hfg _ _ _ _ huv hab) (ih hrest)

/-- A test that agrees on related elements agrees on the lists. -/
theorem forall₂_any {q : α → β → Prop} {f : α → Bool} {g : β → Bool} {xs : List α} {ys : List β}
    (h : List.Forall₂ q xs ys) (hfg : ∀ a b, q a b → f a = g b) : xs.any f = ys.any g := by
  induction h with
  | nil => rfl
  | cons hab _ ih => rw [List.any_cons, List.any_cons, hfg _ _ hab, ih]

/-- The elements at a position are related, and a position is behind both ends or neither. -/
theorem forall₂_getElem? {q : α → β → Prop} {xs : List α} {ys : List β}
    (h : List.Forall₂ q xs ys) (i : Nat) : Option.Rel q xs[i]? ys[i]? := by
  induction h generalizing i with
  | nil => exact .none
  | cons hab _ ih =>
    cases i with
    | zero => exact .some hab
    | succ i => exact ih i

end Lib
