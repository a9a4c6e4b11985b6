import Mathlib.Tactic.Common

/-!
# Runs of a transition system

A system with states `σ` takes a step for each input `ι`, where `none` means that
the input cannot occur. `Reach init step ok` are the states of the runs that
start in `init` and whose steps all meet the condition `ok`, which looks at the
state before the step and the input.

* `Reach.invariant` — induction over a run;
* `runAll_iff` — what holds after a list of inputs if and only if all steps meet a condition;
* `reach_of_run`, `reach_of_checked_run`, `exists_run` — a concrete run, given by the list of
  its inputs.
-/

namespace Lib

variable {σ ι : Type}

/-- The states that runs with steps in `ok` reach. -/
inductive Reach (init : σ → Prop) (step : σ → ι → Option σ) (ok : σ → ι → Prop) : σ → Prop where
  | init {s : σ} : init s → Reach init step ok s
  | step {s s' : σ} {i : ι} : Reach init step ok s → ok s i → step s i = some s' →
      Reach init step ok s'

/-- No condition on the steps of a run. -/
def anyStep (_ : σ) (_ : ι) : Prop := True

section

variable {init : σ → Prop} {step : σ → ι → Option σ} {ok : σ → ι → Prop} {s s' : σ}

/-- What holds initially and is preserved by every step holds throughout. -/
theorem Reach.invariant {I : σ → Prop} (h0 : ∀ s, init s → I s)
    (hstep : ∀ s i s', I s → ok s i → step s i = some s' → I s') (h : Reach init step ok s) :
    I s := by
  induction h with
  | init h => exact h0 _ h
  | step _ hok hs ih => exact hstep _ _ _ ih hok hs

/-- A weaker condition allows more runs. -/
theorem Reach.mono {ok' : σ → ι → Prop} (hok : ∀ s i, ok s i → ok' s i)
    (h : Reach init step ok s) : Reach init step ok' s := by
  induction h with
  | init h => exact .init h
  | step _ ho hs ih => exact .step ih (hok _ _ ho) hs

end

/-- The state after a list of inputs. -/
def runAll (step : σ → ι → Option σ) : σ → List ι → Option σ
  | s, [] => some s
  | s, i :: is => (step s i).bind fun s' => runAll step s' is

/-- All steps of a list of inputs meet a condition. -/
def AllSteps (step : σ → ι → Option σ) (ok : σ → ι → Prop) : σ → List ι → Prop
  | _, [] => True
  | s, i :: is => ok s i ∧ ∀ s', step s i = some s' → AllSteps step ok s' is

/-- A property that a step keeps if and only if it meets a condition. -/
theorem runAll_iff {step : σ → ι → Option σ} {ok : σ → ι → Prop} {P : σ → Prop}
    (hstep : ∀ s i s', step s i = some s' → (P s' ↔ P s ∧ ok s i)) :
    ∀ {is : List ι} {s s' : σ}, runAll step s is = some s' →
      (P s' ↔ P s ∧ AllSteps step ok s is)
  | [], s, s', hr => by
    cases hr
    exact (and_iff_left trivial).symm
  | i :: is, s, s', hr => by
    rw [runAll, Option.bind_eq_some_iff] at hr
    obtain ⟨s₁, h₁, hr⟩ := hr
    rw [runAll_iff hstep hr, hstep s i s₁ h₁, and_assoc]
    refine and_congr_right fun _ => and_congr_right fun _ => ⟨fun hall s₂ h₂ => ?_, fun hall => ?_⟩
    · rw [h₁] at h₂
      cases h₂
      exact hall
    · exact hall s₁ h₁

/-- Running a list of inputs reaches its final state. -/
theorem reach_of_run {init : σ → Prop} {step : σ → ι → Option σ} :
    ∀ {is : List ι} {s s' : σ}, Reach init step anyStep s → runAll step s is = some s' →
      Reach init step anyStep s'
  | [], s, s', h, hr => by
    cases hr
    exact h
  | i :: is, s, s', h, hr => by
    rw [runAll, Option.bind_eq_some_iff] at hr
    obtain ⟨s₁, h₁, hr⟩ := hr
    exact reach_of_run (h.step trivial h₁) hr

/-- The same, when the steps have to meet a condition. -/
theorem reach_of_checked_run {init : σ → Prop} {step : σ → ι → Option σ} {ok : σ → ι → Prop}
    [∀ s i, Decidable (ok s i)] : ∀ {is : List ι} {s s' : σ}, Reach init step ok s →
      runAll (fun s i => if ok s i then step s i else none) s is = some s' → Reach init step ok s'
  | [], s, s', h, hr => by
    cases hr
    exact h
  | i :: is, s, s', h, hr => by
    rw [runAll, Option.bind_eq_some_iff] at hr
    obtain ⟨s₁, h₁, hr⟩ := hr
    split at h₁
    · next hok => exact reach_of_checked_run (h.step hok h₁) hr
    · cases h₁

/-- A concrete run whose final state passes a check. -/
theorem exists_run (step : σ → ι → Option σ) (s : σ) (is : List ι) (check : σ → Bool)
    (h : (runAll step s is).any check = true) :
    ∃ s', runAll step s is = some s' ∧ check s' = true := by
  cases hr : runAll step s is with
  | none => simp [hr] at h
  | some s' => exact ⟨s', rfl, by simpa [hr] using h⟩

/-- An event of a history that one event has been added to. -/
theorem concat_eq_append_cons {events before after : List ι} {last event : ι}
    (h : events ++ [last] = before ++ event :: after) :
    (events = before ∧ last = event) ∨ ∃ rest, events = before ++ event :: rest := by
  rcases List.eq_nil_or_concat after with rfl | ⟨rest, last', rfl⟩
  · obtain ⟨hevents, hlast⟩ := List.append_inj' h rfl
    exact Or.inl ⟨hevents, (List.cons.inj hlast).1⟩
  · rw [List.concat_eq_append, ← List.cons_append, ← List.append_assoc] at h
    exact Or.inr ⟨rest, (List.append_inj' h rfl).1⟩

end Lib
