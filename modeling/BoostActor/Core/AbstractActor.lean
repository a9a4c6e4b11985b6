import Mathlib.Data.Finset.Basic
import BoostActor.Lib.Run
import BoostActor.Core.MailboxElement

/-!
# Attachables

`abstract_actor` keeps a list of attachables: monitors and links of other actors,
subscriptions to groups and functors. Here is what the library does with them, for any set
of local actors: attaching and detaching, links, monitors, groups and termination. Every
operation is atomic.

`received` records the exit and down messages that were enqueued to an actor.
-/

namespace BoostActor

open Lib

-- -------------------------
-- Attachables
-- -------------------------

/-- A pointer to a group. -/
abbrev GroupRef := Nat

/-- `default_attachable::observe_type`. -/
inductive ObserveType where
  | monitor
  | link
deriving DecidableEq, Repr

/-- `attachable`: a `default_attachable`, a `subscription` or a functor. -/
inductive Attachment where
  | observer (whom : ActorRef) (type : ObserveType)
  | subscription (group : GroupRef)
  | functor (f : Nat)
deriving DecidableEq, Repr

/-- `attachable::token`. A subscription token without group selects all subscriptions. -/
inductive Token where
  | observer (whom : ActorRef) (type : ObserveType)
  | subscription (group : Option GroupRef)
deriving DecidableEq, Repr

/-- `attachable::matches`. -/
def Attachment.matchesToken : Attachment → Token → Bool
  | .observer o t, .observer o' t' => o' = o && t' = t
  | .subscription g, .subscription (some g') => g' = g
  | .subscription _, .subscription none => true
  | _, _ => false

/-- The flags of `detach_impl`: remove all, stop on the first hit, or only look for one.
(Looking for all of them would not terminate; nobody does.) -/
inductive DetachMode where
  | all
  | first
  | dryRun
deriving DecidableEq, Repr

/-- `detach_impl`: the number of hits, and the list afterwards. -/
def detachImpl (what : Token) (mode : DetachMode) : List Attachment → Nat × List Attachment
  | [] => (0, [])
  | a :: as =>
    if a.matchesToken what then
      match mode with
      | .all => (1 + (detachImpl what mode as).1, (detachImpl what mode as).2)
      | .first => (1, as)
      | .dryRun => (1, a :: as)
    else ((detachImpl what mode as).1, a :: (detachImpl what mode as).2)

/-- All that match are counted and removed. -/
theorem detachImpl_all (what : Token) (as : List Attachment) :
    detachImpl what .all as =
      (as.countP (·.matchesToken what), as.filter (!·.matchesToken what)) := by
  induction as with
  | nil => rfl
  | cons a as ih =>
    rw [detachImpl, ih]
    cases h : a.matchesToken what with
    | true => simp [h, Nat.add_comm]
    | false => simp [h]

/-- The first that matches is removed. -/
theorem detachImpl_first (what : Token) (as : List Attachment) :
    detachImpl what .first as =
      (if as.any (·.matchesToken what) then 1 else 0, as.eraseP (·.matchesToken what)) := by
  induction as with
  | nil => rfl
  | cons a as ih =>
    rw [detachImpl, ih]
    cases h : a.matchesToken what with
    | true => simp [h]
    | false => simp [h]

/-- One that matches is found, and nothing is removed. -/
theorem detachImpl_dryRun (what : Token) (as : List Attachment) :
    detachImpl what .dryRun as = (if as.any (·.matchesToken what) then 1 else 0, as) := by
  induction as with
  | nil => rfl
  | cons a as ih =>
    rw [detachImpl, ih]
    cases h : a.matchesToken what with
    | true => simp [h]
    | false => simp [h]

/-- A token for an observer selects this observer. -/
theorem Attachment.matches_observer (a : Attachment) (whom : ActorRef) (type : ObserveType) :
    a.matchesToken (.observer whom type) = (a == .observer whom type) := by
  cases a with
  | observer o t => simp [matchesToken, Bool.beq_eq_decide_eq, eq_comm]
  | subscription g => simp [matchesToken]
  | functor f => simp [matchesToken]

/-- A token for a group selects the subscription to it. -/
theorem Attachment.matches_subscription (a : Attachment) (g : GroupRef) :
    a.matchesToken (.subscription (some g)) = (a == .subscription g) := by
  cases a with
  | observer o t => simp [matchesToken]
  | subscription g' => simp [matchesToken, Bool.beq_eq_decide_eq, eq_comm]
  | functor f => simp [matchesToken]

-- -------------------------
-- Actors
-- -------------------------

/-- `exit_msg` and `down_msg`. -/
inductive Signal where
  | exit (source : ActorRef) (reason : ExitReason)
  | down (source : ActorRef) (reason : ExitReason)
deriving DecidableEq, Repr

def Signal.isExit : Signal → Bool
  | .exit _ _ => true
  | .down _ _ => false

/-- `abstract_actor`. -/
structure AbstractActor where
  exitReason : ExitReason
  attachables : List Attachment
  received : List Signal
deriving DecidableEq, Repr

/-- `exited`. -/
def AbstractActor.exited (a : AbstractActor) : Bool := a.exitReason ≠ ExitReason.notExited

/-- Local actors and local groups. -/
structure ActorSystem where
  actors : ActorRef → AbstractActor
  subscribers : GroupRef → Finset ActorRef

namespace ActorSystem

def initial : ActorSystem where
  actors _ := ⟨ExitReason.notExited, [], []⟩
  subscribers _ := ∅

/-- Changes one actor. -/
def modify (s : ActorSystem) (a : ActorRef) (f : AbstractActor → AbstractActor) : ActorSystem :=
  { s with actors := Function.update s.actors a (f (s.actors a)) }

@[simp] theorem modify_actors (s : ActorSystem) (a b : ActorRef)
    (f : AbstractActor → AbstractActor) :
    (s.modify a f).actors b = if b = a then f (s.actors a) else s.actors b :=
  Function.update_apply ..

@[simp] theorem modify_subscribers (s : ActorSystem) (a : ActorRef)
    (f : AbstractActor → AbstractActor) : (s.modify a f).subscribers = s.subscribers := rfl

/-- `enqueue`, of an exit or down message. -/
def enqueue (s : ActorSystem) (whom : ActorRef) (m : Signal) : ActorSystem :=
  s.modify whom fun a => { a with received := a.received ++ [m] }

/-- `attach_impl`. -/
def attachImpl (s : ActorSystem) (self : ActorRef) (x : Attachment) : ActorSystem :=
  s.modify self fun a => { a with attachables := x :: a.attachables }

/-- `detach_impl` on the attachables of an actor. -/
def detach (s : ActorSystem) (self : ActorRef) (what : Token) (mode : DetachMode) :
    Nat × ActorSystem :=
  let (n, attachables) := detachImpl what mode (s.actors self).attachables
  (n, s.modify self fun a => { a with attachables })

/-- What is detached changes the attachables of that actor only. -/
theorem detach_snd (s : ActorSystem) (self : ActorRef) (what : Token) (mode : DetachMode) :
    (s.detach self what mode).2 = s.modify self fun a =>
      { a with attachables := (detachImpl what mode a.attachables).2 } := rfl

/-- A dry run finds nothing when no attachable matches. -/
theorem detach_dryRun (s : ActorSystem) (self : ActorRef) (what : Token) :
    (s.detach self what .dryRun).1 = 0 ↔
      ∀ a ∈ (s.actors self).attachables, a.matchesToken what = false := by
  simp only [detach, detachImpl_dryRun]
  split
  · next h => simpa using h
  · next h => simpa using h

-- -------------------------
-- Groups
-- -------------------------

/-- `local_group::subscribe`: whether a subscription is made. -/
def subscribe (s : ActorSystem) (g : GroupRef) (who : ActorRef) : Bool × ActorSystem :=
  (who ∉ s.subscribers g,
    { s with subscribers := Function.update s.subscribers g (insert who (s.subscribers g)) })

/-- `local_group::unsubscribe`. -/
def unsubscribe (s : ActorSystem) (g : GroupRef) (who : ActorRef) : ActorSystem :=
  { s with subscribers := Function.update s.subscribers g ((s.subscribers g).erase who) }

/-- `local_actor::join`. -/
def join (s : ActorSystem) (self : ActorRef) (g : GroupRef) : ActorSystem :=
  if (s.detach self (.subscription (some g)) .dryRun).1 = 0 then
    match s.subscribe g self with
    | (true, s) => s.attachImpl self (.subscription g)
    | (false, s) => s
  else s

/-- Joining takes effect when the actor holds no subscription and is no subscriber. -/
theorem join_eq (s : ActorSystem) (self : ActorRef) (g : GroupRef) : s.join self g =
    if .subscription g ∉ (s.actors self).attachables ∧ self ∉ s.subscribers g then
      { s with
        subscribers := Function.update s.subscribers g (insert self (s.subscribers g))
      }.attachImpl self (.subscription g)
    else s := by
  have hfree : (s.detach self (.subscription (some g)) .dryRun).1 = 0 ↔
      .subscription g ∉ (s.actors self).attachables := by
    rw [detach_dryRun]
    simp only [Attachment.matches_subscription, beq_eq_false_iff_ne]
    exact ⟨fun h hmem => h _ hmem rfl, fun h x hx hxe => h (hxe ▸ hx)⟩
  unfold join subscribe
  by_cases h₁ : .subscription g ∈ (s.actors self).attachables
  · rw [if_neg fun h => hfree.mp h h₁, if_neg fun h => h.1 h₁]
  · rw [if_pos (hfree.mpr h₁)]
    by_cases h₂ : self ∈ s.subscribers g
    · rw [if_neg fun h => h.2 h₂]
      simp [h₂]
    · rw [if_pos ⟨h₁, h₂⟩]
      simp [h₂]

/-- `local_actor::leave`. -/
def leave (s : ActorSystem) (self : ActorRef) (g : GroupRef) : ActorSystem :=
  let (n, s) := s.detach self (.subscription (some g)) .all
  if n > 0 then s.unsubscribe g self else s

/-- `local_actor::joined_groups`. -/
def joinedGroups (s : ActorSystem) (self : ActorRef) : List GroupRef :=
  ((s.actors self).attachables.filter (·.matchesToken (.subscription none))).filterMap fun
    | .subscription g => some g
    | _ => none

-- -------------------------
-- Termination
-- -------------------------

/-- `attachable::actor_exited`. What functors do is not modelled. -/
def actorExited (self : ActorRef) (reason : ExitReason) (s : ActorSystem) : Attachment → ActorSystem
  | .observer whom .monitor => s.enqueue whom (.down self reason)
  | .observer whom .link => s.enqueue whom (.exit self reason)
  | .subscription g => s.unsubscribe g self
  | .functor _ => s

/-- `abstract_actor::attach`. -/
def attach (s : ActorSystem) (self : ActorRef) (x : Attachment) : ActorSystem :=
  if (s.actors self).exited then actorExited self (s.actors self).exitReason s x
  else s.attachImpl self x

/-- `abstract_actor::cleanup`. -/
def cleanup (s : ActorSystem) (self : ActorRef) (reason : ExitReason) : ActorSystem :=
  if (s.actors self).exited then s
  else
    let head := (s.actors self).attachables
    let s := s.modify self fun a => { a with exitReason := reason, attachables := [] }
    head.foldl (actorExited self reason) s

-- -------------------------
-- Links and monitors
-- -------------------------

/-- `establish_backlink_impl`, of `self`. -/
def establishBacklinkImpl (s : ActorSystem) (self other : ActorRef) : Bool × ActorSystem :=
  if other = self then (false, s)
  else if (s.actors self).exited then
    (false, s.enqueue other (.exit self (s.actors self).exitReason))
  else if (s.detach self (.observer other .link) .dryRun).1 = 0 then
    (true, s.attachImpl self (.observer other .link))
  else (false, s)

/-- `establish_link_impl`, of `self`. -/
def establishLinkImpl (s : ActorSystem) (self : ActorRef) : Option ActorRef → ActorSystem
  | none => s
  | some other =>
    if other = self then s
    else if (s.actors self).exited then
      s.enqueue other (.exit self (s.actors self).exitReason)
    else match s.establishBacklinkImpl other self with
      | (true, s) => s.attachImpl self (.observer other .link)
      | (false, s) => s

/-- `remove_backlink_impl`, of `self`. -/
def removeBacklinkImpl (s : ActorSystem) (self other : ActorRef) : ActorSystem :=
  if other = self then s else (s.detach self (.observer other .link) .first).2

/-- `remove_link_impl`, of `self`. -/
def removeLinkImpl (s : ActorSystem) (self : ActorRef) : Option ActorRef → ActorSystem
  | none => s
  | some other =>
    if other = self then s
    else
      let (n, s) := s.detach self (.observer other .link) .first
      if n > 0 then s.removeBacklinkImpl other self else s

/-- `local_actor::monitor`. -/
def monitor (s : ActorSystem) (self : ActorRef) : Option ActorRef → ActorSystem
  | none => s
  | some whom => s.attach whom (.observer self .monitor)

/-- `local_actor::demonitor`. -/
def demonitor (s : ActorSystem) (self : ActorRef) : Option ActorRef → ActorSystem
  | none => s
  | some whom => (s.detach whom (.observer self .monitor) .all).2

-- -------------------------
-- Steps
-- -------------------------

/-- What can happen to a set of actors. -/
inductive Op where
  | linkTo (self : ActorRef) (other : Option ActorRef)
  | unlinkFrom (self : ActorRef) (other : Option ActorRef)
  | monitor (self : ActorRef) (whom : Option ActorRef)
  | demonitor (self : ActorRef) (whom : Option ActorRef)
  | attachFunctor (self : ActorRef) (f : Nat)
  | join (self : ActorRef) (g : GroupRef)
  | leave (self : ActorRef) (g : GroupRef)
  /-- `send_exit` -/
  | sendExit (self whom : ActorRef) (reason : ExitReason)
  /-- `filter_msg` looks at an exit message, number `i` of those received -/
  | filterExit (self : ActorRef) (i : Nat)
  | terminate (self : ActorRef) (reason : ExitReason)
deriving DecidableEq, Repr

def step (s : ActorSystem) : Op → Option ActorSystem
  | .linkTo self other => some (s.establishLinkImpl self other)
  | .unlinkFrom self other => some (s.removeLinkImpl self other)
  | .monitor self whom => some (s.monitor self whom)
  | .demonitor self whom => some (s.demonitor self whom)
  | .attachFunctor self f => some (s.attach self (.functor f))
  | .join self g => some (s.join self g)
  | .leave self g => some (s.leave self g)
  | .sendExit self whom reason => some (s.enqueue whom (.exit self reason))
  | .filterExit self i =>
    match (s.actors self).received[i]? with
    | some (.exit source _) =>
      -- make sure to get rid of attachables if they're no longer needed
      if (s.actors self).exited then none else some (s.removeLinkImpl self (some source))
    | _ => none
  | .terminate self reason =>
    if reason = ExitReason.notExited then none else some (s.cleanup self reason)

/-- The states of runs whose operations all meet a condition. -/
def Reachable (ok : ActorSystem → Op → Prop) : ActorSystem → Prop :=
  Reach (· = initial) step ok

end ActorSystem

end BoostActor
