import BoostActor.Core.AbstractActor

/-!
# Links are symmetric

Each of two linked actors holds an attachable for the other one. The four linking
operations keep both halves in step as long as both actors are alive; the half of a
terminated actor goes away with it.

* `Symmetric` — the invariant, in terms of the number of link attachables;
* `links_symmetric` — it holds in every run, and exits are reported once.
-/

namespace BoostActor

open Lib

namespace ActorSystem

variable {s s' : ActorSystem} {a b self other : ActorRef} {reason : ExitReason}

/-- An actor has not terminated. -/
def alive (s : ActorSystem) (a : ActorRef) : Prop := (s.actors a).exited = false

instance (s : ActorSystem) (a : ActorRef) : Decidable (s.alive a) :=
  inferInstanceAs (Decidable (_ = _))

/-- The number of link attachables that `a` holds for `b`. -/
def linkCount (s : ActorSystem) (a b : ActorRef) : Nat :=
  (s.actors a).attachables.count (.observer b .link)

/-- Links between live actors are held by both, at most once. -/
structure Symmetric (s : ActorSystem) : Prop where
  sym : ∀ {a b}, s.alive a → s.alive b → s.linkCount a b = s.linkCount b a
  le : ∀ a b, s.linkCount a b ≤ 1
  self : ∀ a, s.linkCount a a = 0
  dead : ∀ {a}, ¬ s.alive a → ∀ b, s.linkCount a b = 0

-- -------------------------
-- Operations on other attachables
-- -------------------------

/-- Who is alive and who holds a link does not change. -/
structure SameLinks (s s' : ActorSystem) : Prop where
  alive : ∀ a, s'.alive a ↔ s.alive a
  linkCount : ∀ a b, s'.linkCount a b = s.linkCount a b

theorem SameLinks.refl (s : ActorSystem) : SameLinks s s := ⟨fun _ => Iff.rfl, fun _ _ => rfl⟩

theorem SameLinks.trans {s'' : ActorSystem} (h : SameLinks s s') (h' : SameLinks s' s'') :
    SameLinks s s'' :=
  ⟨fun a => (h'.alive a).trans (h.alive a), fun a b => (h'.linkCount a b).trans (h.linkCount a b)⟩

/-- Links stay symmetric. -/
theorem Symmetric.same (h : Symmetric s) (hs : SameLinks s s') : Symmetric s' := by
  refine ⟨fun ha hb => ?_, fun a b => ?_, fun a => ?_, fun ha b => ?_⟩
  · rw [hs.linkCount, hs.linkCount]
    exact h.sym ((hs.alive _).mp ha) ((hs.alive _).mp hb)
  · rw [hs.linkCount]
    exact h.le a b
  · rw [hs.linkCount]
    exact h.self a
  · rw [hs.linkCount]
    exact h.dead (fun hs' => ha ((hs.alive _).mpr hs')) b

namespace SameLinks

/-- One actor changes, but neither its links nor whether it is alive. -/
theorem modify {f : AbstractActor → AbstractActor}
    (he : (f (s.actors self)).exitReason = (s.actors self).exitReason)
    (hl : ∀ b, (f (s.actors self)).attachables.count (.observer b .link) =
      (s.actors self).attachables.count (.observer b .link)) :
    SameLinks s (s.modify self f) := by
  refine ⟨fun a => ?_, fun a b => ?_⟩
  · by_cases ha : a = self
    · simp [ActorSystem.alive, AbstractActor.exited, ha, he]
    · simp [ActorSystem.alive, ha]
  · by_cases ha : a = self
    · simp [ActorSystem.linkCount, ha, hl]
    · simp [ActorSystem.linkCount, ha]

theorem enqueue (whom : ActorRef) (m : Signal) : SameLinks s (s.enqueue whom m) :=
  modify rfl fun _ => rfl

theorem subscribers (subscribers : GroupRef → Finset ActorRef) :
    SameLinks s { s with subscribers } :=
  ⟨fun _ => Iff.rfl, fun _ _ => rfl⟩

theorem attachImpl {x : Attachment} (hx : ∀ b, x ≠ .observer b .link) :
    SameLinks s (s.attachImpl self x) :=
  modify rfl fun b => List.count_cons_of_ne (hx b)

/-- What a notification does is no link. -/
theorem actorExited (self : ActorRef) (reason : ExitReason) (x : Attachment) :
    SameLinks s (actorExited self reason s x) := by
  cases x with
  | observer whom type =>
    cases type with
    | monitor => exact enqueue _ _
    | link => exact enqueue _ _
  | subscription g => exact subscribers _
  | functor f => exact .refl s

theorem attach {x : Attachment} (hx : ∀ b, x ≠ .observer b .link) :
    SameLinks s (s.attach self x) := by
  unfold ActorSystem.attach
  split
  · exact actorExited _ _ _
  · exact attachImpl hx

/-- Detaching what is not a link. -/
theorem detachAll {what : Token}
    (hw : ∀ b, Attachment.matchesToken (.observer b .link) what = false) :
    SameLinks s (s.detach self what .all).2 := by
  rw [detach_snd]
  refine modify rfl fun b => ?_
  rw [detachImpl_all]
  exact List.count_filter (by simp [hw b])

/-- Joining a group makes no link. -/
theorem join (g : GroupRef) : SameLinks s (s.join self g) := by
  rw [join_eq]
  split
  · exact (subscribers _).trans (attachImpl (by simp))
  · exact .refl s

theorem leave (g : GroupRef) : SameLinks s (s.leave self g) := by
  have h : SameLinks s (s.detach self (.subscription (some g)) .all).2 := detachAll fun _ => rfl
  unfold ActorSystem.leave
  dsimp only
  split
  · exact h.trans (subscribers _)
  · exact h

theorem monitor (whom : Option ActorRef) : SameLinks s (s.monitor self whom) := by
  cases whom with
  | none => exact .refl s
  | some whom => exact attach (by simp)

theorem demonitor (whom : Option ActorRef) : SameLinks s (s.demonitor self whom) := by
  cases whom with
  | none => exact .refl s
  | some whom => exact detachAll fun _ => by simp [Attachment.matchesToken]

end SameLinks

-- -------------------------
-- Links
-- -------------------------

/-- `other` holds no link for `self`. -/
theorem detach_link_eq_zero :
    (s.detach self (.observer other .link) .dryRun).1 = 0 ↔ s.linkCount self other = 0 := by
  rw [detach_dryRun, linkCount, List.count_eq_zero]
  simp only [Attachment.matches_observer, beq_eq_false_iff_ne]
  exact ⟨fun h hmem => h _ hmem rfl, fun h x hx hxe => h (hxe ▸ hx)⟩

/-- What `link_to` does. -/
inductive Linked (s : ActorSystem) (self other : ActorRef) : ActorSystem → Prop where
  | nothing (h : other = self ∨ s.alive self ∧ s.alive other ∧ s.linkCount other self ≠ 0) :
      Linked s self other s
  /-- `self` has terminated -/
  | exited (hne : other ≠ self) (h : ¬ s.alive self) :
      Linked s self other (s.enqueue other (.exit self (s.actors self).exitReason))
  /-- `other` has terminated -/
  | otherExited (hne : other ≠ self) (h : s.alive self) (h' : ¬ s.alive other) :
      Linked s self other (s.enqueue self (.exit other (s.actors other).exitReason))
  | linked (hne : other ≠ self) (h : s.alive self) (h' : s.alive other)
      (hc : s.linkCount other self = 0) :
      Linked s self other
        ((s.attachImpl other (.observer self .link)).attachImpl self (.observer other .link))

/-- What can happen when a link is established. -/
theorem linked_of_establishLinkImpl (s : ActorSystem) (self other : ActorRef) :
    Linked s self other (s.establishLinkImpl self (some other)) := by
  unfold establishLinkImpl
  dsimp only
  by_cases hne : other = self
  · rw [if_pos hne]
    exact .nothing (.inl hne)
  rw [if_neg hne]
  -- this actor may have terminated
  cases hs : (s.actors self).exited with
  | true =>
    rw [if_pos rfl]
    exact .exited hne (by simp [alive, hs])
  | false =>
    rw [if_neg (by simp)]
    unfold establishBacklinkImpl
    rw [if_neg (Ne.symm hne)]
    -- or the other one
    cases ho : (s.actors other).exited with
    | true => exact .otherExited hne hs (by simp [alive, ho])
    | false =>
      rw [if_neg (by simp)]
      -- or they are linked already
      by_cases hc : s.linkCount other self = 0
      · rw [if_pos (detach_link_eq_zero.mpr hc)]
        exact .linked hne hs ho hc
      · rw [if_neg fun h => hc (detach_link_eq_zero.mp h)]
        exact .nothing (.inr ⟨hs, ho, hc⟩)

/-- The number of links after one was attached. -/
theorem linkCount_attachImpl (s : ActorSystem) (self other a b : ActorRef) :
    (s.attachImpl self (.observer other .link)).linkCount a b =
      s.linkCount a b + if a = self ∧ b = other then 1 else 0 := by
  by_cases ha : a = self
  · by_cases hb : b = other
    · simp [linkCount, attachImpl, ha, hb]
    · simp [linkCount, attachImpl, ha, hb, Ne.symm hb]
  · simp [linkCount, attachImpl, ha]

/-- The number of links after one was detached. -/
theorem linkCount_detach (s : ActorSystem) (self other a b : ActorRef) :
    (s.detach self (.observer other .link) .first).2.linkCount a b =
      s.linkCount a b - if a = self ∧ b = other then 1 else 0 := by
  rw [detach_snd, linkCount, modify_actors, detachImpl_first]
  by_cases ha : a = self
  · rw [if_pos ha]
    simp only [Attachment.matches_observer, ← List.erase_eq_eraseP', ha, true_and, linkCount,
      List.count_erase]
    by_cases hb : b = other
    · simp [hb]
    · simp [hb, Ne.symm hb]
  · simp [ha, linkCount]

theorem alive_attachImpl (s : ActorSystem) (self a : ActorRef) (x : Attachment) :
    (s.attachImpl self x).alive a ↔ s.alive a := by
  by_cases ha : a = self
  · simp [alive, attachImpl, AbstractActor.exited, ha]
  · simp [alive, attachImpl, ha]

theorem alive_detach (s : ActorSystem) (self a : ActorRef) (what : Token) (mode : DetachMode) :
    (s.detach self what mode).2.alive a ↔ s.alive a := by
  by_cases ha : a = self
  · simp [alive, detach, AbstractActor.exited, ha]
  · simp [alive, detach, ha]

namespace Symmetric

/-- A link is established on both sides. -/
theorem linkTo (h : Symmetric s) (self : ActorRef) (other : Option ActorRef) :
    Symmetric (s.establishLinkImpl self other) := by
  cases other with
  | none => exact h
  | some other =>
    have hl := linked_of_establishLinkImpl s self other
    generalize s.establishLinkImpl self (some other) = s' at hl ⊢
    cases hl with
    | nothing => exact h
    | exited => exact h.same (.enqueue _ _)
    | otherExited => exact h.same (.enqueue _ _)
    | linked hne hs ho hc =>
      have hc' : s.linkCount self other = 0 := by rw [h.sym hs ho, hc]
      refine ⟨fun {a b} ha hb => ?_, fun a b => ?_, fun a => ?_, fun {a} ha b => ?_⟩
      · -- both sides count one more
        rw [alive_attachImpl, alive_attachImpl] at ha hb
        simp only [linkCount_attachImpl, h.sym ha hb]
        split_ifs <;> simp_all
      · simp only [linkCount_attachImpl]
        have := h.le a b
        split_ifs <;> simp_all
      · have hboth : ∀ {x y : ActorRef}, x ≠ y → ¬ (a = x ∧ a = y) :=
          fun hxy hxy' => hxy (hxy'.1.symm.trans hxy'.2)
        simp only [linkCount_attachImpl, h.self, if_neg (hboth hne), if_neg (hboth (Ne.symm hne))]
      · rw [alive_attachImpl, alive_attachImpl] at ha
        simp only [linkCount_attachImpl, h.dead ha]
        split_ifs <;> simp_all

/-- Both halves of a link are removed. -/
theorem unlinkFrom (h : Symmetric s) (self : ActorRef) (other : Option ActorRef) :
    Symmetric (s.removeLinkImpl self other) := by
  cases other with
  | none => exact h
  | some other =>
    unfold removeLinkImpl
    dsimp only
    split
    · exact h
    next hne =>
    -- the first half
    let s₁ := (s.detach self (.observer other .link) .first).2
    have hcount₁ := linkCount_detach s self other
    have halive₁ : ∀ a, s₁.alive a ↔ s.alive a := fun a => alive_detach s self a _ _
    have hfst : (s.detach self (.observer other .link) .first).1 > 0 ↔
        0 < s.linkCount self other := by
      rw [detach, detachImpl_first, linkCount, List.count_pos_iff]
      by_cases hmem : .observer other .link ∈ (s.actors self).attachables
      · simp [Attachment.matches_observer, hmem]
      · simp [Attachment.matches_observer, hmem]
    split
    · -- the second half
      unfold removeBacklinkImpl
      rw [if_neg (Ne.symm hne)]
      have halive : ∀ a, (s₁.detach other (.observer self .link) .first).2.alive a ↔ s.alive a :=
        fun a => (alive_detach s₁ other a _ _).trans (halive₁ a)
      have hcount : ∀ a b, (s₁.detach other (.observer self .link) .first).2.linkCount a b =
          s.linkCount a b - (if a = self ∧ b = other then 1 else 0) -
            if a = other ∧ b = self then 1 else 0 := by
        intro a b
        rw [linkCount_detach, hcount₁]
      refine ⟨fun {a b} ha hb => ?_, fun a b => ?_, fun a => ?_, fun {a} ha b => ?_⟩
      · rw [halive] at ha hb
        rw [hcount, hcount, h.sym ha hb]
        simp only [and_comm (a := b = self), and_comm (a := b = other)]
        omega
      · rw [hcount]
        have := h.le a b
        omega
      · rw [hcount, h.self]
        simp
      · rw [halive] at ha
        rw [hcount, h.dead ha]
        simp
    · -- there was no link, so nothing has been detached
      next hnone =>
      have hsame : SameLinks s s₁ := by
        refine ⟨halive₁, fun a b => ?_⟩
        have hz : s.linkCount self other = 0 := by
          rw [hfst] at hnone
          omega
        rw [hcount₁]
        split
        · next hk => rw [hk.1, hk.2, hz]
        · rfl
      exact h.same hsame

end Symmetric

-- -------------------------
-- Termination
-- -------------------------

/-- What an attachable sends to `c` when its actor terminates. -/
def signal (self : ActorRef) (reason : ExitReason) (c : ActorRef) :
    Attachment → Option Signal
  | .observer whom .monitor => if whom = c then some (.down self reason) else none
  | .observer whom .link => if whom = c then some (.exit self reason) else none
  | _ => none

/-- A notification is a message to one actor. -/
theorem received_actorExited (self : ActorRef) (reason : ExitReason) (s : ActorSystem)
    (x : Attachment) (c : ActorRef) : ((actorExited self reason s x).actors c).received =
      (s.actors c).received ++ (signal self reason c x).toList := by
  have henqueue : ∀ (whom : ActorRef) (m : Signal), ((s.enqueue whom m).actors c).received =
      (s.actors c).received ++ (if whom = c then some m else none).toList := by
    intro whom m
    by_cases hc : whom = c
    · simp [enqueue, hc]
    · simp [enqueue, hc, Ne.symm hc]
  cases x with
  | observer whom type =>
    cases type with
    | monitor => exact henqueue _ _
    | link => exact henqueue _ _
  | subscription g => simp [actorExited, unsubscribe, signal]
  | functor f => simp [actorExited, signal]

/-- The messages of all notifications. -/
theorem received_foldl (self : ActorRef) (reason : ExitReason) (xs : List Attachment)
    (s : ActorSystem) (c : ActorRef) :
    ((xs.foldl (actorExited self reason) s).actors c).received =
      (s.actors c).received ++ xs.filterMap (signal self reason c) := by
  induction xs generalizing s with
  | nil => simp
  | cons x xs ih =>
    rw [List.foldl_cons, ih, received_actorExited, List.append_assoc]
    cases hx : signal self reason c x with
    | none => simp [hx]
    | some m => simp [hx]

/-- What an actor sends when it terminates. -/
theorem received_cleanup (ha : s.alive a) (reason : ExitReason) (c : ActorRef) :
    ((s.cleanup a reason).actors c).received =
      (s.actors c).received ++ (s.actors a).attachables.filterMap (signal a reason c) := by
  have hsame : ((s.modify a fun x => { x with exitReason := reason, attachables := [] }).actors
      c).received = (s.actors c).received := by
    by_cases hc : c = a
    · simp [hc]
    · simp [hc]
  rw [cleanup, if_neg (by simpa [alive] using ha), received_foldl, hsame]

theorem sameLinks_foldl (self : ActorRef) (reason : ExitReason) (xs : List Attachment)
    (s : ActorSystem) : SameLinks s (xs.foldl (actorExited self reason) s) := by
  induction xs generalizing s with
  | nil => exact .refl s
  | cons x xs ih => exact (SameLinks.actorExited self reason x).trans (ih _)

/-- A terminated actor has no links. -/
theorem Symmetric.terminate (h : Symmetric s) (self : ActorRef)
    (hr : reason ≠ ExitReason.notExited) :
    Symmetric (s.cleanup self reason) := by
  unfold cleanup
  split
  · exact h
  refine Symmetric.same ?_ (sameLinks_foldl _ _ _ _)
  let s₁ := s.modify self fun a => { a with exitReason := reason, attachables := [] }
  have halive : ∀ a, s₁.alive a ↔ a ≠ self ∧ s.alive a := by
    intro a
    by_cases ha : a = self
    · simp [s₁, alive, AbstractActor.exited, ha, hr]
    · simp [s₁, alive, ha]
  have hcount : ∀ a b, s₁.linkCount a b = if a = self then 0 else s.linkCount a b := by
    intro a b
    by_cases ha : a = self
    · simp [s₁, linkCount, ha]
    · simp [s₁, linkCount, ha]
  refine ⟨fun {a b} ha hb => ?_, fun a b => ?_, fun a => ?_, fun {a} ha b => ?_⟩
  · -- the links of others with it do not count any more
    rw [halive] at ha hb
    rw [hcount, hcount, if_neg ha.1, if_neg hb.1, h.sym ha.2 hb.2]
  · rw [hcount]
    split
    · omega
    · exact h.le a b
  · rw [hcount, h.self]
    simp
  · rw [hcount]
    split
    · rfl
    · next hne => exact h.dead (fun hs => ha ((halive a).mpr ⟨hne, hs⟩)) b

-- -------------------------
-- Runs
-- -------------------------

/-- Every step keeps links symmetric. -/
theorem Symmetric.step {op : Op} (h : Symmetric s) (hs : s.step op = some s') : Symmetric s' := by
  cases op with
  | linkTo self other =>
    cases hs
    exact h.linkTo self other
  | unlinkFrom self other =>
    cases hs
    exact h.unlinkFrom self other
  | monitor self whom =>
    cases hs
    exact h.same (.monitor whom)
  | demonitor self whom =>
    cases hs
    exact h.same (.demonitor whom)
  | attachFunctor self f =>
    cases hs
    exact h.same (.attach (by simp))
  | join self g =>
    cases hs
    exact h.same (.join g)
  | leave self g =>
    cases hs
    exact h.same (.leave g)
  | sendExit self whom reason =>
    cases hs
    exact h.same (.enqueue _ _)
  -- an exit message makes an actor that traps exits break the link
  | filterExit self i =>
    simp only [ActorSystem.step] at hs
    split at hs
    · split at hs
      · cases hs
      · cases hs
        exact h.unlinkFrom self _
    · cases hs
  | terminate self reason =>
    simp only [ActorSystem.step] at hs
    split at hs
    · cases hs
    · next hr =>
      cases hs
      exact h.terminate self hr

theorem Symmetric.initial (h : s = ActorSystem.initial) : Symmetric s := by
  rw [h]
  exact ⟨fun _ _ => rfl, fun _ _ => Nat.zero_le _, fun _ => rfl, fun _ _ => rfl⟩

theorem symmetric_of_reachable {ok : ActorSystem → Op → Prop} (h : Reachable ok s) :
    Symmetric s :=
  h.invariant (fun _ hs => .initial hs) fun _ _ _ hi _ hs => hi.step hs

/-- The exit messages among those that a terminated actor sends to `c`. -/
theorem filter_signals (self : ActorRef) (reason : ExitReason) (c : ActorRef)
    (xs : List Attachment) : (xs.filterMap (signal self reason c)).filter Signal.isExit =
      List.replicate (xs.count (.observer c .link)) (.exit self reason) := by
  induction xs with
  | nil => rfl
  | cons x xs ih =>
    rw [List.filterMap_cons]
    cases x with
    | observer whom type =>
      cases type with
      | monitor =>
        by_cases hc : whom = c
        · simp [signal, hc, Signal.isExit, ih]
        · simp [signal, hc, ih]
      | link =>
        by_cases hc : whom = c
        · simp [signal, hc, List.filter_cons, Signal.isExit, ih, List.replicate_succ]
        · simp [signal, hc, ih]
    | subscription g => simp [signal, ih]
    | functor f => simp [signal, ih]

/-- Links are symmetric in every run; an actor that terminates sends one exit message to each
actor that it is linked to, and linking to a terminated actor yields one exit message and no
link. -/
theorem links_symmetric (h : Reachable anyStep s) :
    (∀ a b, s.alive a → s.alive b → (0 < s.linkCount a b ↔ 0 < s.linkCount b a) ∧
      s.linkCount a b ≤ 1) ∧
    (∀ a reason c, s.alive a → ∃ ms,
      ((s.cleanup a reason).actors c).received = (s.actors c).received ++ ms ∧
      ms.filter Signal.isExit = if 0 < s.linkCount a c then [.exit a reason] else []) ∧
    (∀ a b, a ≠ b → ¬ s.alive b →
      (∀ c d, (s.establishLinkImpl a (some b)).linkCount c d = s.linkCount c d) ∧
      ∃ c source, (s.alive a → c = a ∧ source = b) ∧
        ∀ d, ((s.establishLinkImpl a (some b)).actors d).received = (s.actors d).received ++
          if d = c then [.exit source (s.actors source).exitReason] else []) := by
  have hsym := symmetric_of_reachable h
  refine ⟨fun a b ha hb => ?_, fun a reason c ha => ?_, fun a b hne hb => ?_⟩
  · rw [hsym.sym ha hb]
    exact ⟨Iff.rfl, hsym.le b a⟩
  · -- every link is one signal to the other side
    refine ⟨(s.actors a).attachables.filterMap (signal a reason c),
      received_cleanup ha reason c, ?_⟩
    rw [filter_signals]
    have hle := hsym.le a c
    rw [linkCount] at hle ⊢
    rcases Nat.le_one_iff_eq_zero_or_eq_one.mp hle with hc | hc
    · simp [hc]
    · simp [hc]
  · have hl := linked_of_establishLinkImpl s a b
    have hsent : ∀ {c source : ActorRef} {reason}, ∀ d,
        ((s.enqueue c (.exit source reason)).actors d).received = (s.actors d).received ++
          if d = c then [.exit source reason] else [] := by
      intro c source reason d
      by_cases hd : d = c
      · simp [enqueue, hd]
      · simp [enqueue, hd]
    generalize s.establishLinkImpl a (some b) = s' at hl ⊢
    cases hl with
    | nothing h =>
      rcases h with h | h
      · exact absurd h.symm hne
      · exact absurd h.2.1 hb
    -- one of them has terminated and the other one is told so at once
    | exited _ ha =>
      exact ⟨(SameLinks.enqueue _ _).linkCount, b, a, fun h => absurd h ha, hsent⟩
    | otherExited _ ha =>
      exact ⟨(SameLinks.enqueue _ _).linkCount, a, b, fun _ => ⟨rfl, rfl⟩, hsent⟩
    | linked _ _ hb' => exact absurd hb' hb

/-- Actors 1 and 2 are linked, and actor 1 terminates: actor 2 is told so once. -/
theorem links_symmetric_exit : ∃ s : ActorSystem, Reachable anyStep s ∧ s.alive 1 ∧
    0 < s.linkCount 1 2 ∧ 0 < s.linkCount 2 1 ∧ ∃ ms,
      ((s.cleanup 1 7).actors 2).received = (s.actors 2).received ++ ms ∧
      ms.filter Signal.isExit = [.exit 1 7] := by
  have hreach : Reachable anyStep (initial.establishLinkImpl 1 (some 2)) :=
    .step (i := .linkTo 1 (some 2)) (.init rfl) trivial rfl
  have hall := links_symmetric hreach
  obtain ⟨ms, hms, hexit⟩ := hall.2.1 1 7 2 (by decide)
  exact ⟨_, hreach, by decide, by decide, by decide, ms, hms, hexit⟩

end ActorSystem

end BoostActor
