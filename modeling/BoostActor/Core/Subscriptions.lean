import BoostActor.Core.Links

/-!
# Subscriptions to groups

A group knows its subscribers, and each of them holds a subscription to the group. Joining
and leaving change both sides, and an actor that terminates unsubscribes through its
attachables.

* `Subscribed` — the invariant: both sides agree;
* `subscriptions_agree` — it holds in every run in which no terminated actor joins a group.
-/

namespace BoostActor

open Lib

namespace ActorSystem

variable {s s' : ActorSystem} {self : ActorRef}

/-- The number of subscriptions to `g` that `a` holds. -/
def subscriptionCount (s : ActorSystem) (a : ActorRef) (g : GroupRef) : Nat :=
  (s.actors a).attachables.count (.subscription g)

/-- Subscribers of a group hold one subscription to it, others hold none, and terminated
actors are no subscribers. -/
structure Subscribed (s : ActorSystem) : Prop where
  count : ∀ a g, s.subscriptionCount a g = if a ∈ s.subscribers g then 1 else 0
  dead : ∀ {a}, ¬ s.alive a → ∀ g, a ∉ s.subscribers g

/-- An actor joins groups before it terminates. -/
def joinsAlive (s : ActorSystem) : Op → Prop
  | .join self _ => s.alive self
  | _ => True

instance (s : ActorSystem) (op : Op) : Decidable (joinsAlive s op) := by
  unfold joinsAlive
  split <;> infer_instance

-- -------------------------
-- Operations on other attachables
-- -------------------------

/-- Who is alive and who holds a subscription does not change, nor do the groups. -/
structure SameSubscriptions (s s' : ActorSystem) : Prop where
  alive : ∀ a, s'.alive a ↔ s.alive a
  count : ∀ a g, s'.subscriptionCount a g = s.subscriptionCount a g
  subscribers : s'.subscribers = s.subscribers

theorem SameSubscriptions.refl (s : ActorSystem) : SameSubscriptions s s :=
  ⟨fun _ => Iff.rfl, fun _ _ => rfl, rfl⟩

theorem SameSubscriptions.trans {s'' : ActorSystem} (h : SameSubscriptions s s')
    (h' : SameSubscriptions s' s'') : SameSubscriptions s s'' :=
  ⟨fun a => (h'.alive a).trans (h.alive a), fun a g => (h'.count a g).trans (h.count a g),
    h'.subscribers.trans h.subscribers⟩

/-- The groups agree after a step that leaves the subscriptions alone. -/
theorem Subscribed.same (h : Subscribed s) (hs : SameSubscriptions s s') : Subscribed s' := by
  refine ⟨fun a g => ?_, fun ha g => ?_⟩
  · rw [hs.count, hs.subscribers]
    exact h.count a g
  · rw [hs.subscribers]
    exact h.dead (fun ha' => ha ((hs.alive _).mpr ha')) g

namespace SameSubscriptions

/-- Modifying an actor without its subscriptions. -/
theorem modify {f : AbstractActor → AbstractActor}
    (he : (f (s.actors self)).exitReason = (s.actors self).exitReason)
    (hc : ∀ g, (f (s.actors self)).attachables.count (.subscription g) =
      (s.actors self).attachables.count (.subscription g)) :
    SameSubscriptions s (s.modify self f) := by
  refine ⟨fun a => ?_, fun a g => ?_, rfl⟩
  · by_cases ha : a = self
    · simp [ActorSystem.alive, AbstractActor.exited, ha, he]
    · simp [ActorSystem.alive, ha]
  · by_cases ha : a = self
    · simp [subscriptionCount, ha, hc]
    · simp [subscriptionCount, ha]

theorem enqueue (whom : ActorRef) (m : Signal) : SameSubscriptions s (s.enqueue whom m) :=
  modify rfl fun _ => rfl

theorem attachImpl {x : Attachment} (hx : ∀ g, x ≠ .subscription g) :
    SameSubscriptions s (s.attachImpl self x) :=
  modify rfl fun g => List.count_cons_of_ne (hx g)

/-- Attaching anything else, also to a terminated actor. -/
theorem attach {x : Attachment} (hx : ∀ g, x ≠ .subscription g) :
    SameSubscriptions s (s.attach self x) := by
  unfold ActorSystem.attach
  split
  · cases x with
    | observer whom type =>
      cases type with
      | monitor => exact enqueue _ _
      | link => exact enqueue _ _
    | subscription g => exact absurd rfl (hx g)
    | functor f => exact .refl s
  · exact attachImpl hx

/-- Detaching observers. -/
theorem detach (whom : ActorRef) (type : ObserveType) (mode : DetachMode) :
    SameSubscriptions s (s.detach self (.observer whom type) mode).2 := by
  rw [detach_snd]
  refine modify rfl fun g => ?_
  have hne : ¬ Attachment.matchesToken (.subscription g) (.observer whom type) = true := by
    simp [Attachment.matchesToken]
  cases mode with
  | all =>
    rw [detachImpl_all]
    exact List.count_filter (by simpa using hne)
  | first =>
    rw [detachImpl_first]
    simp only [Attachment.matches_observer, ← List.erase_eq_eraseP']
    exact List.count_erase_of_ne (by simp)
  | dryRun => rw [detachImpl_dryRun]

/-- `link_to` attaches links. -/
theorem linkTo (other : Option ActorRef) :
    SameSubscriptions s (s.establishLinkImpl self other) := by
  cases other with
  | none => exact .refl s
  | some other =>
    have hl := linked_of_establishLinkImpl s self other
    generalize s.establishLinkImpl self (some other) = s' at hl ⊢
    cases hl with
    | nothing => exact .refl s
    | exited => exact enqueue _ _
    | otherExited => exact enqueue _ _
    | linked => exact (attachImpl (by simp)).trans (attachImpl (by simp))

/-- `unlink_from` detaches links. -/
theorem unlinkFrom (other : Option ActorRef) :
    SameSubscriptions s (s.removeLinkImpl self other) := by
  cases other with
  | none => exact .refl s
  | some other =>
    unfold removeLinkImpl
    dsimp only
    split
    · exact .refl s
    · split
      · unfold removeBacklinkImpl
        split
        · exact detach _ _ _
        · exact (detach _ _ _).trans (detach _ _ _)
      · exact detach _ _ _

end SameSubscriptions

-- -------------------------
-- Joining, leaving, terminating
-- -------------------------

namespace Subscribed

/-- Joining adds the actor to the group and the subscription to the actor. -/
theorem join (h : Subscribed s) (ha : s.alive self) (g : GroupRef) :
    Subscribed (s.join self g) := by
  rw [join_eq]
  split
  · -- a subscription is attached only once
    next hfree =>
    refine ⟨fun a g' => ?_, fun {a} hdead g' => ?_⟩
    · by_cases hg : g' = g
      · subst hg
        by_cases hs : a = self
        · have hz : (s.actors self).attachables.count (.subscription g') = 0 :=
            List.count_eq_zero.mpr hfree.1
          simp [subscriptionCount, attachImpl, hs, hz]
        · have hc := h.count a g'
          simpa [subscriptionCount, attachImpl, hs] using hc
      · have hc := h.count a g'
        by_cases hs : a = self
        · subst hs
          simpa [subscriptionCount, attachImpl, hg, Ne.symm hg] using hc
        · simpa [subscriptionCount, attachImpl, hs, hg] using hc
    · rw [alive_attachImpl] at hdead
      have hne : a ≠ self := fun he => hdead (he ▸ ha)
      have hold := h.dead hdead g'
      by_cases hg : g' = g
      · subst hg
        simpa [attachImpl, hne] using hold
      · simpa [attachImpl, hg] using hold
  · exact h

/-- Leaving takes both away. -/
theorem leave (h : Subscribed s) (self : ActorRef) (g : GroupRef) :
    Subscribed (s.leave self g) := by
  let s₁ := (s.detach self (.subscription (some g)) .all).2
  have hcount₁ : ∀ a g', s₁.subscriptionCount a g' =
      if a = self ∧ g' = g then 0 else s.subscriptionCount a g' := by
    intro a g'
    show ((s.detach self _ _).2.actors a).attachables.count _ = _
    rw [detach_snd, modify_actors, detachImpl_all]
    simp only [Attachment.matches_subscription]
    by_cases ha : a = self
    · by_cases hg : g' = g
      · simp [ha, hg, List.count_eq_zero]
      · simp [ha, hg, subscriptionCount, List.count_filter]
    · simp [ha, subscriptionCount]
  -- the actor leaves the group if a subscription was detached
  have halive : ∀ a, s₁.alive a ↔ s.alive a := fun a => alive_detach s self a _ _
  have hhits : (s.detach self (.subscription (some g)) .all).1 = s.subscriptionCount self g := by
    simp only [ActorSystem.detach, detachImpl_all, Attachment.matches_subscription]
    rfl
  unfold ActorSystem.leave
  dsimp only
  rw [hhits]
  split
  · refine ⟨fun a g' => ?_, fun {a} ha g' => ?_⟩
    · show s₁.subscriptionCount a g' = _
      rw [hcount₁, h.count]
      by_cases hg : g' = g
      · subst hg
        by_cases hs : a = self
        · simp [unsubscribe, hs]
        · simp [unsubscribe, hs, ActorSystem.detach]
      · simp [unsubscribe, hg, ActorSystem.detach]
    · have hold := h.dead (fun h' => ha ((halive a).mpr h')) g'
      by_cases hg : g' = g
      · subst hg
        simpa [unsubscribe, ActorSystem.detach] using fun _ => hold
      · simpa [unsubscribe, hg, ActorSystem.detach] using hold
  · -- without one the actor was no subscriber
    next hz =>
    refine ⟨fun a g' => ?_, fun {a} ha g' => ?_⟩
    · show s₁.subscriptionCount a g' = if a ∈ s.subscribers g' then 1 else 0
      rw [hcount₁]
      split
      · next hk =>
        rw [hk.1, hk.2, ← h.count]
        omega
      · exact h.count a g'
    · exact h.dead (fun h' => ha ((halive a).mpr h')) g'

end Subscribed

/-- An actor that exits unsubscribes from the groups it holds a subscription to. -/
theorem subscribers_foldl (self : ActorRef) (reason : ExitReason) (xs : List Attachment)
    (s : ActorSystem) (g : GroupRef) :
    (xs.foldl (actorExited self reason) s).subscribers g =
      if .subscription g ∈ xs then (s.subscribers g).erase self else s.subscribers g := by
  induction xs generalizing s with
  | nil => simp
  | cons x xs ih =>
    rw [List.foldl_cons, ih]
    cases x with
    | observer whom type =>
      cases type with
      | monitor => simp [actorExited, enqueue]
      | link => simp [actorExited, enqueue]
    | subscription g' =>
      by_cases hg : g = g'
      · subst hg
        simp [actorExited, unsubscribe]
      · simp [actorExited, unsubscribe, hg]
    | functor f => simp [actorExited]

/-- Telling the attachments of the exit leaves those of the others alone. -/
theorem attachables_foldl (self : ActorRef) (reason : ExitReason) (xs : List Attachment)
    (s : ActorSystem) (a : ActorRef) :
    ((xs.foldl (actorExited self reason) s).actors a).attachables = (s.actors a).attachables := by
  induction xs generalizing s with
  | nil => rfl
  | cons x xs ih =>
    rw [List.foldl_cons, ih]
    have henqueue : ∀ (whom : ActorRef) (m : Signal),
        ((s.enqueue whom m).actors a).attachables = (s.actors a).attachables := by
      intro whom m
      by_cases ha : a = whom
      · simp [enqueue, ha]
      · simp [enqueue, ha]
    cases x with
    | observer whom type =>
      cases type with
      | monitor => exact henqueue _ _
      | link => exact henqueue _ _
    | subscription g => rfl
    | functor f => rfl

/-- A terminated actor is a subscriber of no group. -/
theorem Subscribed.terminate (h : Subscribed s) (self : ActorRef) (reason : ExitReason) :
    Subscribed (s.cleanup self reason) := by
  unfold cleanup
  split
  · exact h
  let s₁ := s.modify self fun a => { a with exitReason := reason, attachables := [] }
  -- the groups that the actor held a subscription to are those it was a subscriber of
  have hmem : ∀ {a g}, a ∈ ((s.actors self).attachables.foldl (actorExited self reason)
      s₁).subscribers g ↔ a ∈ s.subscribers g ∧ a ≠ self := by
    intro a g
    rw [subscribers_foldl]
    split
    · rw [Finset.mem_erase, and_comm]
      rfl
    · next hsub =>
      have hz : s.subscriptionCount self g = 0 := List.count_eq_zero.mpr hsub
      refine ⟨fun ha => ⟨ha, fun he => ?_⟩, fun ha => ha.1⟩
      replace ha : a ∈ s.subscribers g := ha
      rw [h.count, if_pos (he ▸ ha)] at hz
      cases hz
  refine ⟨fun a g => ?_, fun {a} ha g hsub => ?_⟩
  · rw [subscriptionCount, attachables_foldl]
    by_cases hs : a = self
    · rw [if_neg fun hsub => (hmem.mp hsub).2 hs]
      simp [hs]
    · have hsame : (s₁.actors a).attachables = (s.actors a).attachables := by simp [s₁, hs]
      have hc : (s₁.actors a).attachables.count (.subscription g) =
          if a ∈ s.subscribers g then 1 else 0 := by
        rw [hsame]
        exact h.count a g
      refine hc.trans ?_
      by_cases hsub : a ∈ s.subscribers g
      · rw [if_pos hsub, if_pos (hmem.mpr ⟨hsub, hs⟩)]
      · rw [if_neg hsub, if_neg fun hsub' => hsub (hmem.mp hsub').1]
  · obtain ⟨hold, hne⟩ := hmem.mp hsub
    refine h.dead (fun ha' => ha ?_) g hold
    refine ((sameLinks_foldl self reason _ s₁).alive a).mpr ?_
    simpa [s₁, alive, hne] using ha'

-- -------------------------
-- Runs
-- -------------------------

/-- Every step keeps actors and groups in agreement. -/
theorem Subscribed.step {op : Op} (h : Subscribed s) (hok : joinsAlive s op)
    (hs : s.step op = some s') : Subscribed s' := by
  cases op with
  | linkTo self other =>
    cases hs
    exact h.same (.linkTo other)
  | unlinkFrom self other =>
    cases hs
    exact h.same (.unlinkFrom other)
  | monitor self whom =>
    cases hs
    cases whom with
    | none => exact h
    | some whom => exact h.same (.attach (by simp))
  | demonitor self whom =>
    cases hs
    cases whom with
    | none => exact h
    | some whom => exact h.same (.detach _ _ _)
  | attachFunctor self f =>
    cases hs
    exact h.same (.attach (by simp))
  | join self g =>
    cases hs
    exact h.join hok g
  | leave self g =>
    cases hs
    exact h.leave self g
  | sendExit self whom reason =>
    cases hs
    exact h.same (.enqueue _ _)
  | filterExit self i =>
    simp only [ActorSystem.step] at hs
    split at hs
    · split at hs
      · cases hs
      · cases hs
        exact h.same (.unlinkFrom _)
    · cases hs
  | terminate self reason =>
    simp only [ActorSystem.step] at hs
    split at hs
    · cases hs
    · cases hs
      exact h.terminate self reason

theorem Subscribed.initial (h : s = ActorSystem.initial) : Subscribed s := by
  rw [h]
  exact ⟨fun _ _ => by simp [subscriptionCount, ActorSystem.initial], fun _ _ => by
    simp [ActorSystem.initial]⟩

/-- `joined_groups` lists a group as often as the actor holds a subscription to it. -/
theorem count_joinedGroups (s : ActorSystem) (a : ActorRef) (g : GroupRef) :
    (s.joinedGroups a).count g = s.subscriptionCount a g := by
  unfold joinedGroups subscriptionCount
  induction (s.actors a).attachables with
  | nil => rfl
  | cons x xs ih =>
    cases x with
    | observer whom type => simpa [Attachment.matchesToken] using ih
    | subscription g' =>
      by_cases hg : g' = g
      · simpa [Attachment.matchesToken, hg] using ih
      · simpa [Attachment.matchesToken, hg] using ih
    | functor f => simpa [Attachment.matchesToken] using ih

/-- In every run in which actors join groups before they terminate, an actor is a subscriber
of a group if and only if it holds exactly one subscription to it, its joined groups are
those it is subscribed to, without duplicates, and it is no subscriber after its end. -/
theorem subscriptions_agree (h : Reachable joinsAlive s) (a : ActorRef) :
    (∀ g, a ∈ s.subscribers g ↔ s.subscriptionCount a g = 1) ∧
    (∀ g, g ∈ s.joinedGroups a ↔ a ∈ s.subscribers g) ∧ (s.joinedGroups a).Nodup ∧
    (¬ s.alive a → ∀ g, a ∉ s.subscribers g) := by
  have hinv : Subscribed s :=
    h.invariant (fun _ hs => .initial hs) fun _ _ _ hi hok hs => hi.step hok hs
  have hle : ∀ g, s.subscriptionCount a g ≤ 1 := by
    intro g
    rw [hinv.count]
    split <;> omega
  refine ⟨fun g => ?_, fun g => ?_, ?_, hinv.dead⟩
  · rw [hinv.count]
    split
    · next hsub => simp [hsub]
    · next hsub => simp [hsub]
  · rw [← List.count_pos_iff, count_joinedGroups, hinv.count]
    split
    · next hsub => simp [hsub]
    · next hsub => simp [hsub]
  · rw [List.nodup_iff_count_le_one]
    intro g
    rw [count_joinedGroups]
    exact hle g

/-- Actor 1 joins two groups and leaves one of them. -/
theorem subscriptions_agree_leave : ∃ s : ActorSystem, Reachable joinsAlive s ∧
    s.joinedGroups 1 = [8] ∧ (8 ∈ s.joinedGroups 1 ↔ 1 ∈ s.subscribers 8) := by
  have h₁ : Reachable joinsAlive (initial.join 1 7) :=
    .step (i := .join 1 7) (.init rfl) (by decide) rfl
  have h₂ : Reachable joinsAlive ((initial.join 1 7).join 1 8) :=
    .step (i := .join 1 8) h₁ (by decide) rfl
  have h₃ : Reachable joinsAlive (((initial.join 1 7).join 1 8).leave 1 7) :=
    .step (i := .leave 1 7) h₂ trivial rfl
  exact ⟨_, h₃, by decide, (subscriptions_agree h₃ 1).2.1 8⟩

end ActorSystem

end BoostActor
