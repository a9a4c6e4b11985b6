import Mathlib.Data.List.Nodup
import BoostActor.Core.AbstractActor

/-!
# Notifying attached objects

`attach`, `detach` and `cleanup` of one actor, called by any number of threads. Every critical
section is one step, and so is every notification, since objects are notified outside of the
critical sections: those in the list by the call of `cleanup` that has taken it, and those that are
attached later by their call of `attach`.

* `detachObjects_perm` — what detaching removes matches the token;
* `Delivered.step` — every object is in one place, in every step;
* `notified_exactly_once` — who is notified, and with which reason.
-/

namespace BoostActor

open Lib

-- -------------------------
-- Operations
-- -------------------------

/-- An object that is attached to an actor. Different objects have different numbers. -/
structure AttachedObject where
  number : Nat
  attachable : Attachment
deriving DecidableEq, Repr

/-- `detach_impl`: the number of hits, and the list afterwards. -/
def detachObjects (what : Token) (mode : DetachMode) :
    List AttachedObject → Nat × List AttachedObject
  | [] => (0, [])
  | o :: os =>
    if o.attachable.matchesToken what then
      match mode with
      | .all => (1 + (detachObjects what mode os).1, (detachObjects what mode os).2)
      | .first => (1, os)
      | .dryRun => (1, o :: os)
    else ((detachObjects what mode os).1, o :: (detachObjects what mode os).2)

/-- A call of `attach` or `cleanup` that has left its critical section: the objects that it has not
notified yet. -/
structure ExitCall where
  reason : ExitReason
  rest : List AttachedObject
deriving DecidableEq, Repr

/-- An actor with the calls that notify objects, and what has happened so far: the objects that
were attached, those that were removed, with the token, and those that were notified, with the
reason. `firstCleanup` is the argument of the first call of `cleanup`, with what was removed
before. -/
structure ObservedActor where
  exitReason : ExitReason
  attachables : List AttachedObject
  calls : List ExitCall
  attached : List AttachedObject
  removed : List (AttachedObject × Token)
  notified : List (AttachedObject × ExitReason)
  firstCleanup : Option (ExitReason × List (AttachedObject × Token))
deriving DecidableEq, Repr

namespace ObservedActor

def initial : ObservedActor := ⟨ExitReason.notExited, [], [], [], [], [], none⟩

/-- The objects that are about to be notified. -/
def pending (s : ObservedActor) : List AttachedObject := s.calls.flatMap (·.rest)

/-- The critical section of `attach(ptr)`. -/
def attach (s : ObservedActor) (ptr : Option AttachedObject) : ObservedActor :=
  match ptr with
  | none => s
  | some o =>
    let s := { s with attached := o :: s.attached }
    let reason := s.exitReason
    if reason = ExitReason.notExited then { s with attachables := o :: s.attachables }
    else { s with calls := ⟨reason, [o]⟩ :: s.calls }

/-- `detach_impl` in a critical section. `detach(what)` removes all. -/
def detach (s : ObservedActor) (what : Token) (mode : DetachMode) : ObservedActor :=
  let (_, attachables) := detachObjects what mode s.attachables
  let gone := s.attachables.filter (· ∉ attachables)
  { s with attachables, removed := gone.map (·, what) ++ s.removed }

/-- The critical section of `cleanup(reason)`. -/
def cleanup (s : ObservedActor) (reason : ExitReason) : ObservedActor :=
  let s := { s with firstCleanup := s.firstCleanup.or (some (reason, s.removed)) }
  if s.exitReason ≠ ExitReason.notExited then s
  else
    { s with
      exitReason := reason
      attachables := []
      calls := ⟨reason, s.attachables⟩ :: s.calls }

/-- A call notifies its next object, or returns. -/
def notify (s : ObservedActor) (i : Nat) : Option ObservedActor :=
  match s.calls[i]? with
  | some ⟨reason, o :: rest⟩ =>
    some { s with calls := s.calls.set i ⟨reason, rest⟩, notified := (o, reason) :: s.notified }
  | some ⟨_, []⟩ => some { s with calls := s.calls.eraseIdx i }
  | none => none

/-- What can happen. -/
inductive Input where
  | attach (ptr : Option AttachedObject)
  | detach (what : Token) (mode : DetachMode)
  | cleanup (reason : ExitReason)
  | notify (i : Nat)
deriving DecidableEq, Repr

/-- An object is attached once, and nobody passes `not_exited` to `cleanup`. -/
def step (s : ObservedActor) : Input → Option ObservedActor
  | .attach ptr => if ∃ o ∈ ptr, o ∈ s.attached then none else some (s.attach ptr)
  | .detach what mode => some (s.detach what mode)
  | .cleanup reason => if reason = ExitReason.notExited then none else some (s.cleanup reason)
  | .notify i => s.notify i

def Reachable : ObservedActor → Prop := Reach (· = initial) step anyStep

end ObservedActor

-- -------------------------
-- Detaching
-- -------------------------

section Detaching

variable (what : Token) (mode : DetachMode) (os : List AttachedObject)

/-- Going through the list one by one. -/
theorem detachObjects_cons (o : AttachedObject) : detachObjects what mode (o :: os) =
    if o.attachable.matchesToken what then
      match mode with
      | .all => (1 + (detachObjects what .all os).1, (detachObjects what .all os).2)
      | .first => (1, os)
      | .dryRun => (1, o :: os)
    else ((detachObjects what mode os).1, o :: (detachObjects what mode os).2) := by
  cases mode with
  | all | first | dryRun => rfl

/-- Which objects are detached only depends on what they are. -/
theorem detachObjects_eq : ((detachObjects what mode os).1,
      (detachObjects what mode os).2.map (·.attachable)) =
    detachImpl what mode (os.map (·.attachable)) := by
  induction os with
  | nil => rfl
  | cons o os ih =>
    rw [List.map_cons, detachObjects_cons]
    cases hm : o.attachable.matchesToken what with
    | true =>
      cases mode with
      | all | first | dryRun => simp [detachImpl, hm, ← ih]
    | false =>
      cases mode with
      | all | first | dryRun => simp [detachImpl, hm, ← ih]

/-- What is detached leaves the others in order. -/
theorem detachObjects_sublist : (detachObjects what mode os).2.Sublist os := by
  induction os with
  | nil => exact List.Sublist.slnil
  | cons o os ih =>
    rw [detachObjects_cons]
    split
    · cases mode with
      | all => exact ih.trans (List.sublist_cons_self o os)
      | first => exact List.sublist_cons_self o os
      | dryRun => exact List.Sublist.refl _
    · exact ih.cons_cons o

/-- An object that is removed matches the token. -/
theorem matchesToken_of_detached {o : AttachedObject} (ho : o ∈ os)
    (hgone : o ∉ (detachObjects what mode os).2) : o.attachable.matchesToken what = true := by
  induction os with
  | nil => exact absurd ho List.not_mem_nil
  | cons p os ih =>
    rw [detachObjects_cons] at hgone
    split at hgone
    · next hp =>
      rcases List.mem_cons.mp ho with rfl | ho
      · exact hp
      · cases mode with
        | all => exact ih ho hgone
        | first => exact absurd ho hgone
        | dryRun => exact absurd (List.mem_cons_of_mem p ho) hgone
    · rcases List.mem_cons.mp ho with rfl | ho
      · exact absurd List.mem_cons_self hgone
      · exact ih ho fun hmem => hgone (List.mem_cons_of_mem p hmem)

/-- The objects that stay and those that are removed. -/
theorem detachObjects_perm (hd : os.Nodup) : ((detachObjects what mode os).2 ++
    os.filter (· ∉ (detachObjects what mode os).2)).Perm os := by
  have hsub := detachObjects_sublist what mode os
  have hkept : (detachObjects what mode os).2.Perm
      (os.filter (· ∈ (detachObjects what mode os).2)) := by
    refine (List.perm_ext_iff_of_nodup (hd.sublist hsub) (hd.filter _)).mpr fun o => ?_
    simp only [List.mem_filter, decide_eq_true_eq]
    exact ⟨fun ho => ⟨hsub.subset ho, ho⟩, fun ho => ho.2⟩
  have hsplit := List.filter_append_perm (fun o => decide (o ∈ (detachObjects what mode os).2)) os
  refine (hkept.append_right _).trans ?_
  simpa using hsplit

end Detaching

-- -------------------------
-- Runs
-- -------------------------

namespace ObservedActor

variable {s s' : ObservedActor}

/-- A call in the middle of others. -/
theorem calls_split {i : Nat} {c : ExitCall} (h : s.calls[i]? = some c) :
    ∃ pre post, s.calls = pre ++ c :: post ∧ (∀ c', s.calls.set i c' = pre ++ c' :: post) ∧
      s.calls.eraseIdx i = pre ++ post := by
  obtain ⟨hi, hc⟩ := List.getElem?_eq_some_iff.mp h
  have hsplit : s.calls = s.calls.take i ++ c :: s.calls.drop (i + 1) := by
    rw [← hc, ← List.drop_eq_getElem_cons hi, List.take_append_drop]
  refine ⟨_, _, hsplit, fun c' => ?_, ?_⟩
  · rw [List.set_eq_take_append_cons_drop, if_pos hi]
  · rw [List.eraseIdx_eq_take_drop_succ]

/-- Before the first call of `cleanup`, nobody is notified. -/
structure Running (s : ObservedActor) : Prop where
  first : s.firstCleanup = none
  exitReason : s.exitReason = ExitReason.notExited
  calls : s.calls = []
  notified : s.notified = []

/-- After it, the actor has the reason of this call, and so has every notification; no object is
removed any more. -/
structure CleanedUp (s : ObservedActor) (reason : ExitReason)
    (gone : List (AttachedObject × Token)) : Prop where
  first : s.firstCleanup = some (reason, gone)
  exitReason : s.exitReason = reason
  exited : reason ≠ ExitReason.notExited
  attachables : s.attachables = []
  removed : s.removed = gone
  calls : ∀ c ∈ s.calls, c.reason = reason
  notified : ∀ n ∈ s.notified, n.2 = reason

/-- Every object is in one place. -/
structure Delivered (s : ObservedActor) : Prop where
  once : (s.attachables ++ s.pending ++ s.notified.map (·.1) ++ s.removed.map (·.1)).Perm s.attached
  nodup : s.attached.Nodup
  removed : ∀ r ∈ s.removed, r.1.attachable.matchesToken r.2 = true
  phase : s.Running ∨ ∃ reason gone, s.CleanedUp reason gone

namespace Delivered

/-- An object that is attached late is notified at once. -/
theorem attach (h : Delivered s) {o : AttachedObject} (ho : o ∉ s.attached) :
    Delivered (s.attach (some o)) := by
  have hnodup : (o :: s.attached).Nodup := List.nodup_cons.mpr ⟨ho, h.nodup⟩
  have honce := h.once.cons o
  unfold ObservedActor.attach
  dsimp only
  rcases h.phase with hrun | ⟨reason, gone, hdone⟩
  · rw [if_pos hrun.exitReason]
    exact ⟨honce, hnodup, h.removed, Or.inl { hrun with }⟩
  · -- the actor has terminated: the new call of `attach` notifies the object
    rw [if_neg (by rw [hdone.exitReason]; exact hdone.exited)]
    refine ⟨?_, hnodup, h.removed, Or.inr ⟨reason, gone, { hdone with calls := ?_ }⟩⟩
    · refine List.Perm.trans ?_ honce
      simp only [List.append_assoc]
      exact List.perm_middle
    · intro c hc
      rcases List.mem_cons.mp hc with rfl | hc
      · exact hdone.exitReason
      · exact hdone.calls c hc

/-- An object that is detached is not notified. -/
theorem detach (h : Delivered s) (what : Token) (mode : DetachMode) :
    Delivered (s.detach what mode) := by
  have hd : s.attachables.Nodup := by
    have hall := h.once.nodup_iff.mpr h.nodup
    exact (List.nodup_append.mp (List.nodup_append.mp (List.nodup_append.mp hall).1).1).1
  have hperm := detachObjects_perm what mode s.attachables hd
  -- what was attached is still there, or was removed
  refine ⟨?_, h.nodup, ?_, ?_⟩
  · refine List.Perm.trans (List.perm_iff_count.mpr fun o => ?_) h.once
    have hcount := hperm.count_eq o
    have hgone : ∀ gone : List AttachedObject, (gone.map (·, what)).map (·.1) = gone := by
      intro gone
      simp [Function.comp_def]
    unfold ObservedActor.detach pending
    dsimp only
    rw [List.map_append, hgone]
    simp only [List.count_append] at hcount ⊢
    omega
  · intro r hr
    rcases List.mem_append.mp hr with hr | hr
    · obtain ⟨o, ho, rfl⟩ := List.mem_map.mp hr
      obtain ⟨hmem, hgone⟩ := List.mem_filter.mp ho
      exact matchesToken_of_detached what mode _ hmem (of_decide_eq_true hgone)
    · exact h.removed r hr
  · -- while the actor runs nobody has been notified
    rcases h.phase with hrun | ⟨reason, gone, hdone⟩
    · exact Or.inl { hrun with }
    · -- nothing is left to remove after the first call of `cleanup`
      refine Or.inr ⟨reason, gone, { hdone with attachables := ?_, removed := ?_ }⟩
      · unfold ObservedActor.detach
        rw [hdone.attachables]
        rfl
      · unfold ObservedActor.detach
        rw [hdone.attachables]
        exact hdone.removed

/-- The first call of `cleanup` takes the objects, later ones find none. -/
theorem cleanup (h : Delivered s) {reason : ExitReason} (hne : reason ≠ ExitReason.notExited) :
    Delivered (s.cleanup reason) := by
  unfold ObservedActor.cleanup
  dsimp only
  rcases h.phase with hrun | ⟨reason', gone, hdone⟩
  · -- the first call takes all objects
    rw [if_neg (not_not.mpr hrun.exitReason)]
    refine ⟨?_, h.nodup, h.removed, Or.inr ⟨reason, s.removed, ?_⟩⟩
    · refine List.Perm.trans ?_ h.once
      simp [pending]
    · refine ⟨by rw [hrun.first]; rfl, rfl, hne, rfl, rfl, ?_, ?_⟩
      · rw [hrun.calls]
        intro c hc
        rw [List.mem_singleton.mp hc]
      · rw [hrun.notified]
        exact fun n hn => absurd hn List.not_mem_nil
  · rw [if_pos (by rw [hdone.exitReason]; exact hdone.exited)]
    refine ⟨h.once, h.nodup, h.removed, Or.inr ⟨reason', gone, { hdone with first := ?_ }⟩⟩
    rw [hdone.first]
    rfl

/-- The next object of a call is notified. -/
theorem notify (h : Delivered s) {i : Nat} (hs : s.notify i = some s') : Delivered s' := by
  unfold ObservedActor.notify at hs
  split at hs
  · -- the call notifies its next object
    next reason o rest hc =>
    obtain ⟨pre, post, hcalls, hset, -⟩ := calls_split hc
    rw [hset] at hs
    cases hs
    rcases h.phase with hrun | ⟨reason', gone, hdone⟩
    · rw [hrun.calls] at hc
      cases hc
    · have hthis := hdone.calls ⟨reason, o :: rest⟩ (by rw [hcalls]; simp)
      refine ⟨?_, h.nodup, h.removed,
        Or.inr ⟨reason', gone, { hdone with calls := ?_, notified := ?_ }⟩⟩
      · refine List.Perm.trans (List.perm_iff_count.mpr fun p => ?_) h.once
        unfold pending
        rw [hcalls]
        simp only [List.flatMap_append, List.flatMap_cons, List.map_cons, List.count_append,
          List.count_cons]
        omega
      · -- the other calls go on with what they have
        intro c hc
        rcases List.mem_append.mp hc with hc | hc
        · exact hdone.calls c (by rw [hcalls]; exact List.mem_append_left _ hc)
        · rcases List.mem_cons.mp hc with rfl | hc
          · exact hthis
          · exact hdone.calls c (by rw [hcalls]; simp [hc])
      · intro n hn
        rcases List.mem_cons.mp hn with rfl | hn
        · exact hthis
        · exact hdone.notified n hn
  · -- the call has notified all of its objects and returns
    next reason hc =>
    obtain ⟨pre, post, hcalls, -, herase⟩ := calls_split hc
    rw [herase] at hs
    cases hs
    have hsub : ∀ c ∈ pre ++ post, c ∈ s.calls := by
      intro c hc
      rw [hcalls]
      simp only [List.mem_append, List.mem_cons] at hc ⊢
      tauto
    refine ⟨?_, h.nodup, h.removed, ?_⟩
    · refine List.Perm.trans ?_ h.once
      simp [pending, hcalls]
    · rcases h.phase with hrun | ⟨reason', gone, hdone⟩
      · rw [hrun.calls] at hc
        cases hc
      · exact Or.inr ⟨reason', gone, { hdone with calls := fun c hc => hdone.calls c (hsub c hc) }⟩
  · cases hs

/-- Every step delivers. -/
theorem step {i : Input} (h : Delivered s) (hs : s.step i = some s') : Delivered s' := by
  cases i with
  | attach ptr =>
    simp only [ObservedActor.step, Option.ite_none_left_eq_some, Option.some.injEq] at hs
    obtain ⟨hnew, rfl⟩ := hs
    cases ptr with
    | none => exact h
    | some o => exact h.attach fun ho => hnew ⟨o, rfl, ho⟩
  | detach what mode =>
    cases hs
    exact h.detach what mode
  | cleanup reason =>
    simp only [ObservedActor.step, Option.ite_none_left_eq_some, Option.some.injEq] at hs
    obtain ⟨hne, rfl⟩ := hs
    exact h.cleanup hne
  | notify i => exact h.notify hs

end Delivered

/-- In every run, objects are notified once unless they were detached. -/
theorem Reachable.delivered (h : Reachable s) : Delivered s := by
  refine h.invariant ?_ fun _ _ _ hi _ hs => hi.step hs
  rintro s rfl
  refine ⟨.refl _, List.nodup_nil, ?_, Or.inl ⟨rfl, rfl, rfl, rfl⟩⟩
  exact fun r hr => absurd hr List.not_mem_nil

/-- What the calls that have not returned still have to do. -/
def todo (s : ObservedActor) : Nat := (s.calls.map fun c => c.rest.length + 1).sum

/-- The calls can notify their objects and return. -/
theorem exists_returned (s : ObservedActor) : ∃ is s', (∀ i ∈ is, i = Input.notify 0) ∧
    runAll step s is = some s' ∧ s'.calls = [] ∧ s'.attached = s.attached ∧
    s'.firstCleanup = s.firstCleanup := by
  induction hn : s.todo using Nat.strong_induction_on generalizing s with
  -- on what is left to do
  | h n ih =>
    -- one notification, or one return, leaves less to do
    have hnext : ∀ s₁, s.notify 0 = some s₁ → s₁.todo < n → s₁.attached = s.attached →
        s₁.firstCleanup = s.firstCleanup → ∃ is s', (∀ i ∈ is, i = Input.notify 0) ∧
          runAll step s is = some s' ∧ s'.calls = [] ∧ s'.attached = s.attached ∧
          s'.firstCleanup = s.firstCleanup := by
      intro s₁ hs₁ hlt hattached hfirst
      obtain ⟨is, s', his, hrun, hcalls, hattached', hfirst'⟩ := ih s₁.todo hlt s₁ rfl
      refine ⟨.notify 0 :: is, s', ?_, ?_, hcalls, hattached'.trans hattached,
        hfirst'.trans hfirst⟩
      · intro i hi
        rcases List.mem_cons.mp hi with rfl | hi
        · rfl
        · exact his i hi
      · show (s.notify 0).bind (fun s => runAll step s is) = some s'
        rw [hs₁]
        exact hrun
    cases hcalls : s.calls with
    | nil => exact ⟨[], s, fun i hi => absurd hi List.not_mem_nil, rfl, hcalls, rfl, rfl⟩
    | cons c calls =>
      obtain ⟨reason, rest⟩ := c
      -- the call has notified everybody and returns
      cases rest with
      | nil =>
        refine hnext { s with calls } ?_ ?_ rfl rfl
        · simp [notify, hcalls]
        · rw [← hn]
          simp [todo, hcalls]
      -- the call has somebody to notify
      | cons o rest =>
        refine hnext { s with
          calls := ⟨reason, rest⟩ :: calls
          notified := (o, reason) :: s.notified } ?_ ?_ rfl rfl
        · simp [notify, hcalls]
        · rw [← hn]
          simp [todo, hcalls]

/-- An object that is attached after the first call of `cleanup` is notified by `attach`. -/
theorem CleanedUp.attach_notifies {reason : ExitReason} {gone : List (AttachedObject × Token)}
    (h : s.CleanedUp reason gone) {o : AttachedObject} (ho : o ∉ s.attached) :
    ∃ s₁ s₂, s.step (.attach (some o)) = some s₁ ∧ s₁.step (.notify 0) = some s₂ ∧
      s₂.notified = (o, reason) :: s.notified := by
  have hattach : s.step (.attach (some o)) = some (s.attach (some o)) := by
    refine if_neg ?_
    rintro ⟨p, hpo, hp⟩
    cases hpo
    exact ho hp
  have hcall : s.attach (some o) =
      { s with attached := o :: s.attached, calls := ⟨reason, [o]⟩ :: s.calls } := by
    have hexited : s.exitReason ≠ ExitReason.notExited := by
      rw [h.exitReason]
      exact h.exited
    unfold attach
    dsimp only
    rw [if_neg hexited, h.exitReason]
  rw [hcall] at hattach
  exact ⟨_, _, hattach, rfl, rfl⟩

/-- **Attached objects are notified exactly once**, in every interleaving of `attach`, `detach` and
`cleanup`. Nobody is notified before the first call of `cleanup`. Afterwards no object is removed
any more, and every notification has the reason of this call, also that of an object that is
attached later, which `attach` notifies itself. Every object that was attached is at any time
attached, about to be notified, notified or removed, exactly once. An object that is removed
matches the token; all calls can return, and then nothing is about to be notified. -/
theorem notified_exactly_once (h : Reachable s) :
    (s.Running ∨ ∃ reason gone, s.CleanedUp reason gone ∧ ∀ o, o ∉ s.attached →
      ∃ s₁ s₂, s.step (.attach (some o)) = some s₁ ∧ s₁.step (.notify 0) = some s₂ ∧
        s₂.notified = (o, reason) :: s.notified) ∧
    (∀ o ∈ s.attached, s.attachables.count o + s.pending.count o +
      (s.notified.map (·.1)).count o + (s.removed.map (·.1)).count o = 1) ∧
    (∀ r ∈ s.removed, r.1.attachable.matchesToken r.2 = true) ∧
    ∃ is s', (∀ i ∈ is, i = Input.notify 0) ∧ runAll step s is = some s' ∧ s'.pending = [] ∧
      s'.attached = s.attached ∧ s'.firstCleanup = s.firstCleanup := by
  have hdel := h.delivered
  refine ⟨?_, ?_, hdel.removed, ?_⟩
  · rcases hdel.phase with hrun | ⟨reason, gone, hdone⟩
    · exact Or.inl hrun
    · exact Or.inr ⟨reason, gone, hdone, fun o ho => hdone.attach_notifies ho⟩
  · intro o ho
    have hcount := hdel.once.count_eq o
    rw [List.count_eq_one_of_mem hdel.nodup ho] at hcount
    simpa only [List.count_append] using hcount
  · obtain ⟨is, s', his, hrun, hcalls, hattached, hfirst⟩ := s.exists_returned
    refine ⟨is, s', his, hrun, ?_, hattached, hfirst⟩
    rw [pending, hcalls]
    rfl

/-- Of two monitors one is removed before the first of two calls of `cleanup`, and a functor is
attached after it. -/
theorem notified_exactly_once_two : ∃ s : ObservedActor, Reachable s ∧
    s.notified = [(⟨2, .observer 8 .monitor⟩, 5), (⟨3, .functor 0⟩, 5)] ∧
    (s.notified.map (·.1)).count ⟨2, .observer 8 .monitor⟩ ≤ 1 := by
  obtain ⟨s, hs, hcheck⟩ := exists_run step initial
    [.attach (some ⟨1, .observer 9 .monitor⟩), .attach (some ⟨2, .observer 8 .monitor⟩),
      .detach (.observer 9 .monitor) .all, .cleanup 5, .attach (some ⟨3, .functor 0⟩),
      .cleanup 7, .notify 0, .notify 1]
    (fun s => s.notified = [(⟨2, .observer 8 .monitor⟩, 5), (⟨3, .functor 0⟩, 5)] ∧
      ⟨2, .observer 8 .monitor⟩ ∈ s.attached) (by decide)
  simp only [decide_eq_true_eq] at hcheck
  have hreach : Reachable s := reach_of_run (.init rfl) hs
  refine ⟨s, hreach, hcheck.1, ?_⟩
  have honce := (notified_exactly_once hreach).2.1 _ hcheck.2
  omega

end ObservedActor

end BoostActor
