import Mathlib.Tactic.Common

/-!
# Programs with state and exceptions

Rules for imperative programs that change a state and may throw, modelled in
`EStateM`: a throw keeps every change made before it, as a C++ exception does.

Four judgements:

* `After x s Q E` — the program `x` started in `s` ends normally with a value
  and a state in `Q`, or throws with an exception and a state in `E`. The
  lemmas `after_bind`, `after_get`, ... compute it over the program text.
* `Within R x s Q` — however `x` started in `s` ends, its final state is related
  to `s` by the frame relation `R`; if it returns, the value and the state are in
  `Q`. Since `R` is a preorder this composes along the program: `Within.bind`,
  `within_ite`, `within_forM`.
* `Returns R x s` — if `x` started in `s` returns, its final state is related to `s`
  by `R`. Nothing is said about a run that throws, so `R` may be broken on the way
  and restored before the end.
* `NoThrow x s` — `x` started in `s` returns. `NoThrow.bind` takes what is known
  about the state in between from a `Within` judgement.
-/

namespace Lib

variable {ε σ α β : Type}

-- -------------------------
-- Outcomes of a program
-- -------------------------

/-- The state in which a run of `x` from `s` ends, normally or not. -/
def final (x : EStateM ε σ α) (s : σ) : σ :=
  match x s with
  | .ok _ s' => s'
  | .error _ s' => s'

/-- `x` from `s` returns with `Q`, or throws with `E`. -/
def After (x : EStateM ε σ α) (s : σ) (Q : α → σ → Prop) (E : ε → σ → Prop) : Prop :=
  match x s with
  | .ok a s' => Q a s'
  | .error e s' => E e s'

section After

variable {s : σ} {Q Q' : α → σ → Prop} {E E' : ε → σ → Prop}

-- -------------------------
-- Both ways a run can end
-- -------------------------

/-- A weaker statement holds as well. -/
theorem After.mono {x : EStateM ε σ α} (h : After x s Q E)
    (hQ : ∀ a s', Q a s' → Q' a s') (hE : ∀ e s', E e s' → E' e s') : After x s Q' E' := by
  unfold After at *
  split at h
  · exact hQ _ _ h
  · exact hE _ _ h

theorem After.and {x : EStateM ε σ α} (h : After x s Q E) (h' : After x s Q' E') :
    After x s (fun a s' => Q a s' ∧ Q' a s') (fun e s' => E e s' ∧ E' e s') := by
  unfold After at *
  split at h <;> simp_all

/-- A program that throws nothing ends with a result, of which all judgements hold. -/
theorem After.exists_and {x : EStateM ε σ α} (h : After x s Q fun _ _ => False)
    (h' : After x s Q' E') : ∃ a s', Q a s' ∧ Q' a s' := by
  have hboth := h.and h'
  unfold After at hboth
  split at hboth
  · exact ⟨_, _, hboth⟩
  · exact hboth.1.elim

/-- A judgement that does not look at the value speaks about the final state. -/
theorem after_final {x : EStateM ε σ α} {P : σ → Prop} :
    After x s (fun _ s' => P s') (fun _ s' => P s') ↔ P (final x s) := by
  unfold After final
  split <;> rfl

@[simp] theorem after_pure {a : α} : After (pure a : EStateM ε σ α) s Q E ↔ Q a s := Iff.rfl

@[simp] theorem after_throw {e : ε} : After (throw e : EStateM ε σ α) s Q E ↔ E e s := Iff.rfl

/-- A sequence: the second part runs from where the first one has returned. -/
@[simp] theorem after_bind {x : EStateM ε σ α} {f : α → EStateM ε σ β}
    {Q : β → σ → Prop} :
    After (x >>= f) s Q E ↔ After x s (fun a s' => After (f a) s' Q E) E := by
  unfold After
  simp only [bind, EStateM.bind]
  cases x s <;> rfl

@[simp] theorem after_get {Q : σ → σ → Prop} :
    After (get : EStateM ε σ σ) s Q E ↔ Q s s := Iff.rfl

@[simp] theorem after_set {s' : σ} {Q : PUnit → σ → Prop} :
    After (set s' : EStateM ε σ PUnit) s Q E ↔ Q () s' := Iff.rfl

@[simp] theorem after_modify {f : σ → σ} {Q : PUnit → σ → Prop} :
    After (modify f : EStateM ε σ PUnit) s Q E ↔ Q () (f s) := Iff.rfl

@[simp] theorem after_ite {c : Prop} [Decidable c] {x y : EStateM ε σ α} :
    After (if c then x else y) s Q E ↔ (c → After x s Q E) ∧ (¬ c → After y s Q E) := by
  split <;> simp_all

end After

-- -------------------------
-- Frames
-- -------------------------

/-- A frame relation: what a part of a program may do to the state. -/
class Frame (R : σ → σ → Prop) : Prop where
  refl : ∀ s, R s s
  trans : ∀ {a b c}, R a b → R b c → R a c

/-- `x` from `s` does to the state what `R` allows, and returns with `Q`. -/
def Within (R : σ → σ → Prop) (x : EStateM ε σ α) (s : σ) (Q : α → σ → Prop) : Prop :=
  After x s (fun a s' => R s s' ∧ Q a s') (fun _ s' => R s s')

section Within

variable {R : σ → σ → Prop} {s : σ} {Q Q' : α → σ → Prop}

-- -------------------------
-- Frame relations
-- -------------------------

/-- The frame alone. -/
theorem Within.final {x : EStateM ε σ α} (h : Within R x s Q) : R s (final x s) :=
  after_final.mp (h.mono (fun _ _ h => h.1) fun _ _ h => h)

theorem Within.mono {x : EStateM ε σ α} (h : Within R x s Q)
    (hQ : ∀ a s', R s s' → Q a s' → Q' a s') : Within R x s Q' :=
  After.mono h (fun _ _ h => ⟨h.1, hQ _ _ h.1 h.2⟩) fun _ _ h => h

/-- A frame that allows more. -/
theorem Within.weaken {R' : σ → σ → Prop} {x : EStateM ε σ α} (h : Within R x s Q)
    (hR : ∀ s', R s s' → R' s s') : Within R' x s Q :=
  After.mono h (fun _ _ h => ⟨hR _ h.1, h.2⟩) fun _ _ h => hR _ h

theorem within_modify {f : σ → σ} {Q : PUnit → σ → Prop} (hR : R s (f s)) (hQ : Q () (f s)) :
    Within R (modify f : EStateM ε σ PUnit) s Q := ⟨hR, hQ⟩

/-- An assignment, described by the state it leaves. -/
theorem within_modify_eq {f : σ → σ} (hR : R s (f s)) :
    Within R (modify f : EStateM ε σ PUnit) s fun _ s' => s' = f s := ⟨hR, rfl⟩

/-- Each branch under its condition. -/
theorem within_ite {c : Prop} [Decidable c] {x y : EStateM ε σ α}
    (hx : c → Within R x s Q) (hy : ¬ c → Within R y s Q) :
    Within R (if c then x else y) s Q := by
  split
  · next h => exact hx h
  · next h => exact hy h

/-- A program that reads the state first. -/
theorem within_get {f : σ → EStateM ε σ β} {Q : β → σ → Prop} (h : Within R (f s) s Q) :
    Within R (get >>= f) s Q := h

variable [Frame R]

theorem within_pure {a : α} (h : Q a s) : Within R (pure a : EStateM ε σ α) s Q :=
  ⟨Frame.refl s, h⟩

theorem within_throw (e : ε) : Within R (throw e : EStateM ε σ α) s Q := Frame.refl (R := R) s

/-- What both parts do is allowed, as the relation is transitive. -/
theorem Within.bind {x : EStateM ε σ α} {f : α → EStateM ε σ β} {Q' : β → σ → Prop}
    (hx : Within R x s Q) (hf : ∀ a s', R s s' → Q a s' → Within R (f a) s' Q') :
    Within R (x >>= f) s Q' := by
  refine after_bind.mpr (After.mono hx ?_ fun _ _ h => h)
  intro a s' h
  exact After.mono (hf a s' h.1 h.2) (fun _ _ h' => ⟨Frame.trans h.1 h'.1, h'.2⟩)
    fun _ _ h' => Frame.trans h.1 h'

/-- A loop whose body stays in the frame, with an invariant `I`. -/
theorem within_forM {γ : Type} {f : γ → EStateM ε σ PUnit} {I : σ → Prop} :
    ∀ {xs : List γ} {s : σ}, (∀ x ∈ xs, ∀ s, I s → Within R (f x) s fun _ => I) → I s →
      Within R (xs.forM f) s fun _ => I
  | [], _, _, hi => within_pure hi
  | x :: _, _, h, hi =>
    (h x (List.mem_cons_self ..) _ hi).bind fun _ _ _ hi' =>
      within_forM (fun y hy => h y (List.mem_cons_of_mem _ hy)) hi'

end Within

-- -------------------------
-- Programs that may throw
-- -------------------------

/-- If `x` from `s` returns, it has done to the state what `R` allows. -/
def Returns (R : σ → σ → Prop) (x : EStateM ε σ α) (s : σ) : Prop :=
  After x s (fun _ s' => R s s') fun _ _ => True

section Returns

variable {R : σ → σ → Prop} {s : σ}

/-- A frame that is also kept by runs that throw. -/
theorem Within.returns {R' : σ → σ → Prop} {x : EStateM ε σ α} {Q : α → σ → Prop}
    (h : Within R x s Q) (hR : ∀ s', R s s' → R' s s') : Returns R' x s :=
  After.mono h (fun _ _ h => hR _ h.1) fun _ _ _ => trivial

theorem returns_throw (e : ε) : Returns R (throw e : EStateM ε σ α) s := trivial

theorem returns_modify {f : σ → σ} (h : R s (f s)) :
    Returns R (modify f : EStateM ε σ PUnit) s := h

theorem returns_get {f : σ → EStateM ε σ β} (h : Returns R (f s) s) : Returns R (get >>= f) s := h

/-- Each branch under its condition. -/
theorem returns_ite {c : Prop} [Decidable c] {x y : EStateM ε σ α}
    (hx : c → Returns R x s) (hy : ¬ c → Returns R y s) : Returns R (if c then x else y) s := by
  split
  · next h => exact hx h
  · next h => exact hy h

variable [Frame R]

theorem returns_pure (a : α) : Returns R (pure a : EStateM ε σ α) s := Frame.refl (R := R) s

/-- The second part may assume that the first one has returned. -/
theorem Returns.bind {x : EStateM ε σ α} {f : α → EStateM ε σ β} (hx : Returns R x s)
    (hf : ∀ a s', R s s' → Returns R (f a) s') : Returns R (x >>= f) s := by
  refine after_bind.mpr (After.mono hx (fun a s' h => ?_) fun _ _ h => h)
  exact After.mono (hf a s' h) (fun _ _ h' => Frame.trans h h') fun _ _ h' => h'

/-- A loop whose body returns within the frame. -/
theorem returns_forM {γ : Type} {f : γ → EStateM ε σ PUnit} (h : ∀ x s, Returns R (f x) s) :
    ∀ (xs : List γ) (s : σ), Returns R (xs.forM f) s
  | [], _ => returns_pure _
  | x :: xs, s => (h x s).bind fun _ s' _ => returns_forM h xs s'

end Returns

-- -------------------------
-- Programs that do not throw
-- -------------------------

/-- `x` from `s` returns. -/
def NoThrow (x : EStateM ε σ α) (s : σ) : Prop := After x s (fun _ _ => True) fun _ _ => False

section NoThrow

variable {R : σ → σ → Prop} {s : σ} {Q : α → σ → Prop}

/-- What a program that returns does is what its frame and its postcondition say. -/
theorem NoThrow.within {x : EStateM ε σ α} (h : NoThrow x s) (hw : Within R x s Q) :
    After x s (fun a s' => R s s' ∧ Q a s') fun _ _ => False :=
  (After.and h hw).mono (fun _ _ h => h.2) fun _ _ h => h.1

theorem noThrow_pure (a : α) : NoThrow (pure a : EStateM ε σ α) s := trivial

theorem noThrow_modify (f : σ → σ) : NoThrow (modify f : EStateM ε σ PUnit) s := trivial

theorem noThrow_get {f : σ → EStateM ε σ β} (h : NoThrow (f s) s) : NoThrow (get >>= f) s := h

/-- Each branch under its condition. -/
theorem noThrow_ite {c : Prop} [Decidable c] {x y : EStateM ε σ α}
    (hx : c → NoThrow x s) (hy : ¬ c → NoThrow y s) : NoThrow (if c then x else y) s := by
  split
  · next h => exact hx h
  · next h => exact hy h

/-- The second part must not throw from any state in which the first one may end. -/
theorem NoThrow.bind {x : EStateM ε σ α} {f : α → EStateM ε σ β} (h : NoThrow x s)
    (hw : Within R x s Q) (hf : ∀ a s', R s s' → Q a s' → NoThrow (f a) s') :
    NoThrow (x >>= f) s :=
  after_bind.mpr ((h.within hw).mono (fun a s' h => hf a s' h.1 h.2) fun _ _ h => h)

/-- A loop whose body returns, with an invariant `I`. -/
theorem noThrow_forM {γ : Type} {f : γ → EStateM ε σ PUnit} {I : σ → Prop} :
    ∀ {xs : List γ} {s : σ}, (∀ x ∈ xs, ∀ s, I s → After (f x) s (fun _ => I) fun _ _ => False) →
      I s → After (xs.forM f) s (fun _ => I) fun _ _ => False
  | [], _, _, hi => hi
  | x :: _, s, h, hi =>
    after_bind.mpr ((h x (List.mem_cons_self ..) s hi).mono (fun _ _ hi' =>
      noThrow_forM (fun y hy => h y (List.mem_cons_of_mem _ hy)) hi') fun _ _ h => h)

end NoThrow

-- -------------------------
-- Loops
-- -------------------------

/-- Invariant rule for a loop over a list: `I` holds with the rest of the list
still to be done, and a throw in the body ends in `E`. -/
theorem after_forM {γ : Type} {f : γ → EStateM ε σ PUnit} {E : ε → σ → Prop}
    (I : List γ → σ → Prop)
    (hstep : ∀ x xs s, I (x :: xs) s → After (f x) s (fun _ s' => I xs s') E) :
    ∀ (xs : List γ) {s : σ}, I xs s → After (xs.forM f) s (fun _ s' => I [] s') E
  | [], _, h => h
  | x :: xs, s, h => by
    show After (f x >>= fun _ => xs.forM f) s _ E
    rw [after_bind]
    exact (hstep x xs s h).mono (fun _ _ h' => after_forM I hstep xs h') (fun _ _ h' => h')

end Lib
