import BoostActor.Core.Links

/-!
# Monitors

`monitor` attaches a monitor to another actor, also if one is attached already: each call creates a
new, independent monitor. `demonitor` is meant to remove one of them, as `detach` is meant to
remove the first object that matches; it removes all of them.

* `Keeps` — operations that do not change how often something is attached;
* `monitorCount_run` — the monitors of an actor after a run;
* `monitors_independent_iff` — when an actor receives as many messages as monitors are left.
-/

namespace BoostActor

open Lib

namespace ActorSystem

variable {s s' : ActorSystem} {a b self : ActorRef} {x : Attachment}

/-- How often something is attached to an actor. -/
def attachedCount (s : ActorSystem) (a : ActorRef) (x : Attachment) : Nat :=
  (s.actors a).attachables.count x

/-- The number of monitors that `b` has attached to `a`. -/
def monitorCount (s : ActorSystem) (b a : ActorRef) : Nat :=
  s.attachedCount a (.observer b .monitor)

/-- How many monitors of `b` should be left after some operations: `monitor` adds one, and
`demonitor` removes one, if there is one. -/
def monitorsLeft (b a : ActorRef) : List Op → Nat → Nat
  | [], n => n
  | op :: ops, n =>
    monitorsLeft b a ops
      (if op = .monitor b (some a) then n + 1
      else if op = .demonitor b (some a) then n - 1
      else n)

-- -------------------------
-- Operations on other attachables
-- -------------------------

/-- Attachables that do not match are not removed. -/
theorem count_detachImpl {what : Token} (h : x.matchesToken what = false) (mode : DetachMode)
    (as : List Attachment) : (detachImpl what mode as).2.count x = as.count x := by
  induction as with
  | nil => rfl
  | cons a as ih =>
    cases hm : a.matchesToken what with
    | false =>
      cases mode with
      | all | first | dryRun => simp [detachImpl, hm, List.count_cons, ih]
    | true =>
      have hne : a ≠ x := by
        rintro rfl
        rw [h] at hm
        cases hm
      cases mode with
      | all | first | dryRun => simp [detachImpl, hm, List.count_cons_of_ne hne, ih]

/-- Neither whether the actor is alive nor how often `x` is attached to it changes. -/
structure Keeps (a : ActorRef) (x : Attachment) (s s' : ActorSystem) : Prop where
  alive : s'.alive a ↔ s.alive a
  count : s'.attachedCount a x = s.attachedCount a x

namespace Keeps

theorem refl (s : ActorSystem) : Keeps a x s s := ⟨Iff.rfl, rfl⟩

theorem trans {s'' : ActorSystem} (h : Keeps a x s s') (h' : Keeps a x s' s'') : Keeps a x s s'' :=
  ⟨h'.alive.trans h.alive, h'.count.trans h.count⟩

/-- Another actor changes, or something else of this one. -/
theorem modify {f : AbstractActor → AbstractActor}
    (h : a ≠ self ∨ (f (s.actors self)).exitReason = (s.actors self).exitReason ∧
      (f (s.actors self)).attachables.count x = (s.actors self).attachables.count x) :
    Keeps a x s (s.modify self f) := by
  by_cases ha : a = self
  · obtain ⟨he, hc⟩ := h.resolve_left (not_not.mpr ha)
    constructor
    · simp [ActorSystem.alive, AbstractActor.exited, ha, he]
    · simp [attachedCount, ha, hc]
  · constructor
    · simp [ActorSystem.alive, ha]
    · simp [attachedCount, ha]

theorem enqueue (whom : ActorRef) (m : Signal) : Keeps a x s (s.enqueue whom m) :=
  modify (Or.inr ⟨rfl, rfl⟩)

theorem subscribers (subscribers : GroupRef → Finset ActorRef) :
    Keeps a x s { s with subscribers } :=
  ⟨Iff.rfl, rfl⟩

theorem attachImpl {y : Attachment} (h : a ≠ self ∨ y ≠ x) : Keeps a x s (s.attachImpl self y) :=
  modify (h.imp_right fun hne => ⟨rfl, List.count_cons_of_ne hne⟩)

/-- Telling an attachment of the exit detaches at most links. -/
theorem actorExited (self : ActorRef) (reason : ExitReason) (y : Attachment) :
    Keeps a x s (actorExited self reason s y) := by
  cases y with
  | observer whom type =>
    cases type with
    | monitor => exact enqueue _ _
    | link => exact enqueue _ _
  | subscription g => exact subscribers _
  | functor f => exact .refl s

theorem foldl (self : ActorRef) (reason : ExitReason) (ys : List Attachment) :
    Keeps a x s (ys.foldl (ActorSystem.actorExited self reason) s) := by
  induction ys generalizing s with
  | nil => exact .refl s
  | cons y ys ih => exact (actorExited self reason y).trans ih

/-- `attach` of something else or elsewhere. -/
theorem attach {y : Attachment} (h : a ≠ self ∨ y ≠ x) : Keeps a x s (s.attach self y) := by
  unfold ActorSystem.attach
  split
  · exact actorExited _ _ _
  · exact attachImpl h

theorem detach {what : Token} (mode : DetachMode) (h : a ≠ self ∨ x.matchesToken what = false) :
    Keeps a x s (s.detach self what mode).2 := by
  rw [detach_snd]
  exact modify (h.imp_right fun hno => ⟨rfl, count_detachImpl hno mode _⟩)

/-- Joining a group attaches a subscription. -/
theorem join (g : GroupRef) (h : x ≠ .subscription g) : Keeps a x s (s.join self g) := by
  rw [join_eq]
  split
  · exact (subscribers _).trans (attachImpl (Or.inr h.symm))
  · exact .refl s

/-- Leaving a group detaches a subscription. -/
theorem leave (g : GroupRef) (h : x.matchesToken (.subscription (some g)) = false) :
    Keeps a x s (s.leave self g) := by
  have hdetach : Keeps a x s (s.detach self (.subscription (some g)) .all).2 :=
    detach _ (Or.inr h)
  unfold ActorSystem.leave
  dsimp only
  split
  · exact hdetach.trans (subscribers _)
  · exact hdetach

/-- `link_to` attaches links. -/
theorem linkTo (other : Option ActorRef) (h : ∀ c, x ≠ .observer c .link) :
    Keeps a x s (s.establishLinkImpl self other) := by
  cases other with
  | none => exact .refl s
  | some other =>
    have hl := linked_of_establishLinkImpl s self other
    generalize s.establishLinkImpl self (some other) = s' at hl ⊢
    cases hl with
    | nothing => exact .refl s
    | exited | otherExited => exact enqueue _ _
    | linked => exact (attachImpl (Or.inr (h _).symm)).trans (attachImpl (Or.inr (h _).symm))

/-- `unlink_from` detaches links. -/
theorem unlinkFrom (other : Option ActorRef) (h : ∀ c, x.matchesToken (.observer c .link) = false) :
    Keeps a x s (s.removeLinkImpl self other) := by
  cases other with
  | none => exact .refl s
  | some other =>
    unfold removeLinkImpl
    dsimp only
    split
    · exact .refl s
    · split
      · unfold removeBacklinkImpl
        split
        · exact detach _ (Or.inr (h _))
        · exact (detach _ (Or.inr (h _))).trans (detach _ (Or.inr (h _)))
      · exact detach _ (Or.inr (h _))

end Keeps

-- -------------------------
-- Monitors in a run
-- -------------------------

/-- The token of `demonitor` matches the monitors of the same observer only. -/
theorem matches_monitor (b c : ActorRef) (type : ObserveType) :
    Attachment.matchesToken (.observer b .monitor) (.observer c type) =
      decide (c = b ∧ type = .monitor) := by
  simp [Attachment.matchesToken]

/-- Every other operation keeps the monitors of `b`, or terminates the actor. -/
theorem keeps_of_step {op : Op} (hs : s.step op = some s') (hm : op ≠ .monitor b (some a))
    (hd : op ≠ .demonitor b (some a)) (ha : s'.alive a) :
    Keeps a (.observer b .monitor) s s' := by
  -- links and monitors of the same observer are different attachments
  have hlink : ∀ c, Attachment.matchesToken (.observer b .monitor) (.observer c .link) = false := by
    intro c
    simp [matches_monitor]
  cases op with
  | linkTo self other =>
    cases hs
    exact Keeps.linkTo other fun c => by simp
  | unlinkFrom self other =>
    cases hs
    exact Keeps.unlinkFrom other hlink
  | monitor self whom =>
    -- only `monitor(b, a)` attaches a monitor of `b` at `a`
    cases hs
    cases whom with
    | none => exact .refl s
    | some whom =>
      refine Keeps.attach ?_
      by_cases hw : a = whom
      · subst hw
        refine Or.inr fun heq => ?_
        cases heq
        exact hm rfl
      · exact Or.inl hw
  | demonitor self whom =>
    -- only `demonitor(b, a)` detaches one
    cases hs
    cases whom with
    | none => exact .refl s
    | some whom =>
      refine Keeps.detach .all ?_
      by_cases hw : a = whom
      · subst hw
        refine Or.inr ?_
        rw [matches_monitor, decide_eq_false_iff_not]
        rintro ⟨rfl, -⟩
        exact hd rfl
      · exact Or.inl hw
  | attachFunctor self f =>
    cases hs
    exact Keeps.attach (Or.inr (by simp))
  | join self g =>
    cases hs
    exact Keeps.join g (by simp)
  | leave self g =>
    cases hs
    exact Keeps.leave g (by simp [Attachment.matchesToken])
  | sendExit self whom reason =>
    cases hs
    exact Keeps.enqueue _ _
  | filterExit self i =>
    simp only [step] at hs
    split at hs
    · split at hs
      · cases hs
      · cases hs
        exact Keeps.unlinkFrom _ hlink
    · cases hs
  | terminate self reason =>
    simp only [step, Option.ite_none_left_eq_some, Option.some.injEq] at hs
    obtain ⟨hne, rfl⟩ := hs
    unfold cleanup at ha ⊢
    split at ha
    · next hexited =>
      rw [if_pos hexited]
      exact .refl s
    · next hexited =>
      rw [if_neg hexited]
      -- `a` is alive afterwards, so it is another actor that terminates
      have hself : a ≠ self := by
        rintro rfl
        have hfold := (Keeps.foldl (x := .functor 0) a reason (s.actors a).attachables).alive.mp ha
        simp [alive, AbstractActor.exited, hne] at hfold
      exact (Keeps.modify (Or.inl hself)).trans (Keeps.foldl _ _ _)

/-- The monitors after `monitor` and `demonitor`. -/
theorem monitorCount_monitor (ha : s.alive a) :
    (s.monitor b (some a)).monitorCount b a = s.monitorCount b a + 1 := by
  show (s.attach a (.observer b .monitor)).monitorCount b a = _
  rw [attach, if_neg (by simpa [alive] using ha)]
  simp [monitorCount, attachedCount, attachImpl]

/-- `demonitor` removes every monitor of the observer. -/
theorem monitorCount_demonitor (s : ActorSystem) (b a : ActorRef) :
    (s.demonitor b (some a)).monitorCount b a = 0 := by
  show ((s.detach a (.observer b .monitor) .all).2.actors a).attachables.count _ = 0
  rw [detach_snd, modify_actors, if_pos rfl, detachImpl_all, List.count_eq_zero]
  intro hmem
  have := (List.mem_filter.mp hmem).2
  simp [Attachment.matchesToken] at this

/-- An actor that is alive has been alive before. -/
theorem alive_of_step {op : Op} (hs : s.step op = some s') (ha : s'.alive a) : s.alive a := by
  by_cases hm : op = .monitor a (some a)
  · subst hm
    cases hs
    exact ((SameLinks.monitor _).alive a).mp ha
  · by_cases hd : op = .demonitor a (some a)
    · subst hd
      cases hs
      exact ((SameLinks.demonitor _).alive a).mp ha
    · exact (keeps_of_step hs hm hd ha).alive.mp ha

/-- An actor that is alive after a run was alive before. -/
theorem alive_of_run {ops : List Op} (h : runAll step s ops = some s') (ha : s'.alive a) :
    s.alive a := by
  induction ops generalizing s with
  | nil =>
    cases h
    exact ha
  | cons op ops ih =>
    rw [runAll, Option.bind_eq_some_iff] at h
    obtain ⟨s₁, hs₁, h⟩ := h
    exact alive_of_step hs₁ (ih h)

/-- The monitors of `b` after a run: `demonitor` removes all of them. -/
theorem monitorCount_run {ops : List Op} (h : runAll step s ops = some s') (ha : s'.alive a)
    (b : ActorRef) :
    (.demonitor b (some a) ∉ ops →
      s'.monitorCount b a = s.monitorCount b a + ops.count (.monitor b (some a))) ∧
    ∀ pre post, ops = pre ++ .demonitor b (some a) :: post → .demonitor b (some a) ∉ post →
      s'.monitorCount b a = post.count (.monitor b (some a)) := by
  induction ops generalizing s with
  | nil =>
    cases h
    exact ⟨fun _ => rfl, fun pre post h => by simp at h⟩
  | cons op ops ih =>
    rw [runAll, Option.bind_eq_some_iff] at h
    obtain ⟨s₁, hs₁, h⟩ := h
    obtain ⟨ihnone, ihlast⟩ := ih h
    have ha₁ := alive_of_run h ha
    constructor
    · -- without a `demonitor` the first operation may add one monitor
      intro hnot
      rw [List.mem_cons, not_or] at hnot
      rw [ihnone hnot.2, List.count_cons]
      by_cases hm : op = .monitor b (some a)
      · subst hm
        cases hs₁
        have hstep : s.step (.monitor b (some a)) = some _ := rfl
        rw [monitorCount_monitor (alive_of_step hstep ha₁)]
        simp
        omega
      · have hkeep := (keeps_of_step hs₁ hm (Ne.symm hnot.1) ha₁).count
        rw [monitorCount, hkeep]
        simp [hm, monitorCount]
    · -- the last `demonitor` is this operation or a later one
      intro pre post hcut hnot
      cases pre with
      | nil =>
        cases hcut
        cases hs₁
        rw [ihnone hnot, monitorCount_demonitor, Nat.zero_add]
      | cons op' pre =>
        cases hcut
        exact ihlast pre post rfl hnot

-- -------------------------
-- Termination
-- -------------------------

/-- The down messages among those that a terminated actor sends to `b`. -/
theorem count_signals (a : ActorRef) (reason : ExitReason) (b : ActorRef) (xs : List Attachment) :
    (xs.filterMap (signal a reason b)).count (.down a reason) =
      xs.count (.observer b .monitor) := by
  induction xs with
  | nil => rfl
  | cons x xs ih =>
    rw [List.filterMap_cons, List.count_cons]
    cases x with
    | observer whom type =>
      cases type with
      | monitor =>
        by_cases hw : whom = b
        · simp [signal, hw, ih]
        · simp [signal, hw, ih]
      | link =>
        by_cases hw : whom = b
        · simp [signal, hw, ih]
        · simp [signal, hw, ih]
    | subscription g => simp [signal, ih]
    | functor f => simp [signal, ih]

/-- On termination each monitor is told once. -/
theorem count_down_cleanup (ha : s.alive a) (reason : ExitReason) (b : ActorRef) :
    ((s.cleanup a reason).actors b).received.count (.down a reason) =
      (s.actors b).received.count (.down a reason) + s.monitorCount b a := by
  rw [received_cleanup ha, List.count_append, count_signals]
  rfl

/-- The count of a run in two parts. -/
theorem monitorsLeft_append (b a : ActorRef) (ops ops' : List Op) (n : Nat) :
    monitorsLeft b a (ops ++ ops') n = monitorsLeft b a ops' (monitorsLeft b a ops n) := by
  induction ops generalizing n with
  | nil => rfl
  | cons op ops ih => exact ih _

/-- Without a `demonitor` each `monitor` counts. -/
theorem monitorsLeft_of_notMem {ops : List Op} (h : .demonitor b (some a) ∉ ops) (n : Nat) :
    monitorsLeft b a ops n = n + ops.count (.monitor b (some a)) := by
  induction ops generalizing n with
  | nil => rfl
  | cons op ops ih =>
    rw [List.mem_cons, not_or] at h
    rw [monitorsLeft, ih h.2, List.count_cons, if_neg (Ne.symm h.1)]
    by_cases hm : op = .monitor b (some a)
    · simp [hm]
      omega
    · simp [hm]

/-- What is left after the last call of `demonitor`. -/
theorem monitorsLeft_last {pre post : List Op} (h : .demonitor b (some a) ∉ post) (n : Nat) :
    monitorsLeft b a (pre ++ .demonitor b (some a) :: post) n =
      monitorsLeft b a pre n - 1 + post.count (.monitor b (some a)) := by
  rw [monitorsLeft_append, monitorsLeft, monitorsLeft_of_notMem h]
  simp

/-- The last occurrence in a list. -/
theorem exists_last {α : Type} [DecidableEq α] {x : α} {xs : List α} (h : x ∈ xs) :
    ∃ pre post, xs = pre ++ x :: post ∧ x ∉ post := by
  obtain ⟨as, bs, heq, hnot⟩ := List.eq_append_cons_of_mem (List.mem_reverse.mpr h)
  refine ⟨bs.reverse, as.reverse, ?_, by simpa using hnot⟩
  have hrev := congrArg List.reverse heq
  simpa using hrev

/-- `monitor` and `demonitor` of `b` on `a` leave all other attachables, the groups and what actors
have received as they are. -/
def Unaffected (b a : ActorRef) : Prop :=
  ∀ op, op = .monitor b (some a) ∨ op = .demonitor b (some a) → ∀ s s' : ActorSystem,
    s.alive a → s.step op = some s' → s'.subscribers = s.subscribers ∧
      ∀ c, (s'.actors c).received = (s.actors c).received ∧
        ∀ x, c ≠ a ∨ x ≠ .observer b .monitor → s'.attachedCount c x = s.attachedCount c x

/-- Neither operation of one observer touches the attachments of another. -/
theorem unaffected (b a : ActorRef) : Unaffected b a := by
  intro op hop s s' ha hs
  have hmodify : ∀ f : AbstractActor → AbstractActor,
      (f (s.actors a)).received = (s.actors a).received → ∀ c,
        ((s.modify a f).actors c).received = (s.actors c).received := by
    intro f hf c
    by_cases hc : c = a
    · simp [hc, hf]
    · simp [hc]
  rcases hop with rfl | rfl
  · -- `monitor` attaches an attachment of this observer, `demonitor` detaches those of it
    have hattach : s.step (.monitor b (some a)) =
        some (s.attachImpl a (.observer b .monitor)) := by
      show some (s.attach a (.observer b .monitor)) = _
      rw [attach, if_neg (by simpa [alive] using ha)]
    rw [hattach] at hs
    cases hs
    refine ⟨rfl, fun c => ⟨hmodify _ rfl c, fun x hx => (Keeps.attachImpl ?_).count⟩⟩
    exact hx.imp_right Ne.symm
  · cases hs
    have hdetach : s.demonitor b (some a) = s.modify a fun c =>
      { c with attachables := (detachImpl (.observer b .monitor) .all c.attachables).2 } := rfl
    refine ⟨rfl, fun c => ⟨hdetach ▸ hmodify _ rfl c, fun x hx => (Keeps.detach .all ?_).count⟩⟩
    refine hx.imp_right fun hne => ?_
    rw [Attachment.matches_observer]
    simpa using hne

/-- At the last call of `demonitor` there is at most one monitor to remove. -/
def OneAtLast (b a : ActorRef) (ops : List Op) : Prop :=
  ∀ pre post, ops = pre ++ .demonitor b (some a) :: post → .demonitor b (some a) ∉ post →
    monitorsLeft b a pre 0 ≤ 1

/-- **Monitors are independent if and only if the last `demonitor` has at most one to remove.** In
every run in which `a` stays alive, `b` receives as many down messages when `a` terminates as
monitors are left, and all other attachables and groups are unaffected, if and only if there was no
call of `demonitor`, or at most one monitor was left at the last one. -/
theorem monitors_independent_iff (b a : ActorRef) {ops : List Op}
    (h : runAll step initial ops = some s) (ha : s.alive a) (reason : ExitReason) :
    (((s.cleanup a reason).actors b).received.count (.down a reason) =
        (s.actors b).received.count (.down a reason) + monitorsLeft b a ops 0 ∧
      Unaffected b a) ↔ OneAtLast b a ops := by
  rw [and_iff_left (unaffected b a), count_down_cleanup ha, Nat.add_left_cancel_iff]
  obtain ⟨hnone, hlast⟩ := monitorCount_run h ha b
  constructor
  · intro heq pre post hcut hnot
    rw [hlast pre post hcut hnot, hcut, monitorsLeft_last hnot] at heq
    omega
  · intro hone
    by_cases hmem : .demonitor b (some a) ∈ ops
    · obtain ⟨pre, post, hcut, hnot⟩ := exists_last hmem
      have hle := hone pre post hcut hnot
      rw [hlast pre post hcut hnot, hcut, monitorsLeft_last hnot]
      omega
    · rw [hnone hmem, monitorsLeft_of_notMem hmem]
      rfl

/-- Two monitors, and no call of `demonitor`. -/
theorem monitors_independent_two : ∃ s : ActorSystem,
    runAll step initial [.monitor 2 (some 1), .monitor 2 (some 1)] = some s ∧
      ((s.cleanup 1 7).actors 2).received.count (.down 1 7) = 2 := by
  obtain ⟨s, hs, hcheck⟩ := exists_run step initial [.monitor 2 (some 1), .monitor 2 (some 1)]
    (fun s => s.alive 1 ∧ (s.actors 2).received = []) (by decide)
  simp only [decide_eq_true_eq] at hcheck
  obtain ⟨halive, hnothing⟩ := hcheck
  have hone : OneAtLast 2 1 [.monitor 2 (some 1), .monitor 2 (some 1)] := by
    intro pre post hcut _
    have hmem : Op.demonitor 2 (some 1) ∈ [Op.monitor 2 (some 1), .monitor 2 (some 1)] := by
      rw [hcut]
      simp
    exact absurd hmem (by decide)
  have hcount := ((monitors_independent_iff 2 1 hs halive 7).mpr hone).1
  rw [hnothing] at hcount
  exact ⟨s, hs, hcount⟩

/-- Two monitors, one of which should be removed: the observer is told nothing. -/
theorem demonitor_removes_all :
    ¬ ∀ (b a : ActorRef) (ops : List Op) (s : ActorSystem) (reason : ExitReason),
      runAll step initial ops = some s → s.alive a →
        ((s.cleanup a reason).actors b).received.count (.down a reason) =
          (s.actors b).received.count (.down a reason) + monitorsLeft b a ops 0 := by
  intro h
  obtain ⟨s, hs, hcheck⟩ := exists_run step initial
    [.monitor 2 (some 1), .monitor 2 (some 1), .demonitor 2 (some 1)]
    (fun s => s.alive 1 ∧ ((s.cleanup 1 7).actors 2).received.count (.down 1 7) = 0) (by decide)
  simp only [decide_eq_true_eq] at hcheck
  have hleft : monitorsLeft 2 1
      [.monitor 2 (some 1), .monitor 2 (some 1), .demonitor 2 (some 1)] 0 = 1 := by decide
  have heq := h 2 1 _ s 7 hs hcheck.1
  omega

end ActorSystem

end BoostActor
