import Mathlib.Data.List.Basic

/-!
# The flags of an actor

Nine features of an actor share one integer with the flags of its channel. Each has a bit mask of
its own, but two of the masks are equal.

* `getFlag_setFlag` — a setter changes the features with the same mask only;
* `getters_agree_iff` — when every getter returns what its own setter was given last.
-/

namespace BoostActor

/-- The value of `flags_`, an `int`. -/
abbrev Flags := BitVec 32

-- -------------------------
-- Masks
-- -------------------------

def isAbstractActorFlag : Flags := 0x100000

def trapExitFlag : Flags := 0x01
def hasTimeoutFlag : Flags := 0x02
def isRegisteredFlag : Flags := 0x04
def isInitializedFlag : Flags := 0x08
def isBlockingFlag : Flags := 0x10
def isDetachedFlag : Flags := 0x20
def isPriorityAwareFlag : Flags := 0x40
def isSerializableFlag : Flags := 0x40
def isMigratedFromFlag : Flags := 0x80

-- -------------------------
-- Getters and setters
-- -------------------------

/-- What the setters work on: the flags of an actor and the number of registered actors in the
registry, a `size_t`. -/
structure FlaggedActor where
  flags : Flags
  running : UInt64
deriving DecidableEq, Repr

namespace FlaggedActor

/-- `set_flag`. -/
def setFlag (a : FlaggedActor) (enableFlag : Bool) (mask : Flags) : FlaggedActor :=
  { a with flags := if enableFlag then a.flags ||| mask else a.flags &&& ~~~mask }

/-- `get_flag`. -/
def getFlag (a : FlaggedActor) (mask : Flags) : Bool := a.flags &&& mask != 0

def trapExit (a : FlaggedActor) : Bool := a.getFlag trapExitFlag
def hasTimeout (a : FlaggedActor) : Bool := a.getFlag hasTimeoutFlag
def isRegistered (a : FlaggedActor) : Bool := a.getFlag isRegisteredFlag
def isInitialized (a : FlaggedActor) : Bool := a.getFlag isInitializedFlag
def isBlocking (a : FlaggedActor) : Bool := a.getFlag isBlockingFlag
def isDetached (a : FlaggedActor) : Bool := a.getFlag isDetachedFlag
def isPriorityAware (a : FlaggedActor) : Bool := a.getFlag isPriorityAwareFlag
def isSerializable (a : FlaggedActor) : Bool := a.getFlag isSerializableFlag
def isMigratedFrom (a : FlaggedActor) : Bool := a.getFlag isMigratedFromFlag

def setTrapExit (a : FlaggedActor) (value : Bool) : FlaggedActor := a.setFlag value trapExitFlag
def setHasTimeout (a : FlaggedActor) (value : Bool) : FlaggedActor := a.setFlag value hasTimeoutFlag

/-- `is_registered(value)`, which also counts the actor in the registry. -/
def setIsRegistered (a : FlaggedActor) (value : Bool) : FlaggedActor :=
  if a.isRegistered = value then a
  else
    let running := if value then a.running + 1 else a.running - 1
    { a with running }.setFlag value isRegisteredFlag

def setIsInitialized (a : FlaggedActor) (value : Bool) : FlaggedActor :=
  a.setFlag value isInitializedFlag
def setIsBlocking (a : FlaggedActor) (value : Bool) : FlaggedActor := a.setFlag value isBlockingFlag
def setIsDetached (a : FlaggedActor) (value : Bool) : FlaggedActor := a.setFlag value isDetachedFlag
def setIsPriorityAware (a : FlaggedActor) (value : Bool) : FlaggedActor :=
  a.setFlag value isPriorityAwareFlag
def setIsSerializable (a : FlaggedActor) (value : Bool) : FlaggedActor :=
  a.setFlag value isSerializableFlag
def setIsMigratedFrom (a : FlaggedActor) (value : Bool) : FlaggedActor :=
  a.setFlag value isMigratedFromFlag

end FlaggedActor

-- -------------------------
-- Features
-- -------------------------

/-- A feature with a getter and a setter. -/
inductive Feature where
  | trapExit
  | hasTimeout
  | isRegistered
  | isInitialized
  | isBlocking
  | isDetached
  | isPriorityAware
  | isSerializable
  | isMigratedFrom
deriving DecidableEq, Repr

namespace Feature

/-- The getter. -/
def get : Feature → FlaggedActor → Bool
  | trapExit => (·.trapExit)
  | hasTimeout => (·.hasTimeout)
  | isRegistered => (·.isRegistered)
  | isInitialized => (·.isInitialized)
  | isBlocking => (·.isBlocking)
  | isDetached => (·.isDetached)
  | isPriorityAware => (·.isPriorityAware)
  | isSerializable => (·.isSerializable)
  | isMigratedFrom => (·.isMigratedFrom)

/-- The setter. -/
def set : Feature → FlaggedActor → Bool → FlaggedActor
  | trapExit => FlaggedActor.setTrapExit
  | hasTimeout => FlaggedActor.setHasTimeout
  | isRegistered => FlaggedActor.setIsRegistered
  | isInitialized => FlaggedActor.setIsInitialized
  | isBlocking => FlaggedActor.setIsBlocking
  | isDetached => FlaggedActor.setIsDetached
  | isPriorityAware => FlaggedActor.setIsPriorityAware
  | isSerializable => FlaggedActor.setIsSerializable
  | isMigratedFrom => FlaggedActor.setIsMigratedFrom

/-- The bit of a feature. -/
def bit : Feature → Nat
  | trapExit => 0
  | hasTimeout => 1
  | isRegistered => 2
  | isInitialized => 3
  | isBlocking => 4
  | isDetached => 5
  | isPriorityAware | isSerializable => 6
  | isMigratedFrom => 7

/-- No feature has the bit that tells actors from other channels. -/
theorem bit_lt (f : Feature) : f.bit < 20 := by cases f <;> decide

end Feature

/-- A call of a setter. -/
structure SetterCall where
  feature : Feature
  value : Bool
deriving DecidableEq, Repr

namespace FlaggedActor

/-- A sequence of calls. -/
def run (a : FlaggedActor) (calls : List SetterCall) : FlaggedActor :=
  calls.foldl (fun a c => c.feature.set a c.value) a

end FlaggedActor

/-- The value that the setter of a feature was given last, if it was called at all. -/
def lastGiven (f : Feature) : List SetterCall → Bool → Bool
  | [], init => init
  | c :: calls, init => lastGiven f calls (if c.feature = f then c.value else init)

-- -------------------------
-- Bits
-- -------------------------

namespace FlaggedActor

/-- A mask with one bit tests this bit. -/
theorem getFlag_twoPow (a : FlaggedActor) {i : Nat} (hi : i < 32) :
    a.getFlag (BitVec.twoPow 32 i) = a.flags.getLsbD i := by
  rw [getFlag, BitVec.and_twoPow]
  cases hbit : a.flags.getLsbD i with
  | false => simp
  | true =>
    have hne : BitVec.twoPow 32 i ≠ 0#32 := by
      intro hzero
      have := congrArg (BitVec.getLsbD · i) hzero
      simp [hi] at this
    simpa using hne

/-- A mask with one bit sets or clears this bit. -/
theorem getLsbD_setFlag (a : FlaggedActor) (value : Bool) {i j : Nat} (hj : j < 32) :
    (a.setFlag value (BitVec.twoPow 32 i)).flags.getLsbD j =
      if i = j then value else a.flags.getLsbD j := by
  cases value with
  | true =>
    by_cases hij : i = j
    · subst hij
      simp [setFlag, hj]
    · simp [setFlag, hij]
  | false =>
    by_cases hij : i = j
    · subst hij
      simp [setFlag, hj]
    · simp [setFlag, hij, Ne.symm hij, hj]

end FlaggedActor

namespace Feature

variable {f : Feature} {a : FlaggedActor} {value : Bool}

theorem get_eq (f : Feature) (a : FlaggedActor) : f.get a = a.flags.getLsbD f.bit := by
  have hbit := a.getFlag_twoPow (Nat.lt_trans f.bit_lt (by decide))
  cases f <;> exact hbit

/-- Every setter writes the bit of its feature; the registry does not matter. -/
theorem flags_set (f : Feature) (a : FlaggedActor) (value : Bool) :
    (f.set a value).flags = (a.setFlag value (BitVec.twoPow 32 f.bit)).flags := by
  cases f with
  | isRegistered =>
    show (a.setIsRegistered value).flags = _
    unfold FlaggedActor.setIsRegistered
    split
    · next hsame =>
      -- nothing is written, and nothing would change
      apply BitVec.eq_of_getLsbD_eq
      intro j hj
      rw [a.getLsbD_setFlag value hj]
      split
      · next hbit =>
        rw [← hbit, ← hsame]
        exact (get_eq .isRegistered a).symm
      · rfl
    · rfl
  | _ => rfl

/-- A setter changes the features with the same mask only. -/
theorem getFlag_setFlag (f g : Feature) (a : FlaggedActor) (value : Bool) :
    f.get (g.set a value) = if g.bit = f.bit then value else f.get a := by
  have hlt : f.bit < 32 := Nat.lt_trans f.bit_lt (by decide)
  rw [get_eq, flags_set, FlaggedActor.getLsbD_setFlag _ _ hlt, get_eq]

end Feature

-- -------------------------
-- Sequences of calls
-- -------------------------

/-- Neither of the two features with the same mask. -/
def Feature.alone : Feature → Bool
  | isPriorityAware | isSerializable => false
  | _ => true

/-- Features with the same bit are the same, but for two. -/
theorem Feature.eq_of_bit {f g : Feature} (ha : f.alone = true) (h : g.bit = f.bit) : g = f := by
  cases f <;> cases g <;> first | rfl | exact absurd h (by decide) | exact absurd ha (by decide)

/-- A feature with a mask of its own keeps the value it was given last. -/
theorem Feature.get_run {f : Feature} (ha : f.alone = true) (a : FlaggedActor)
    (calls : List SetterCall) : f.get (a.run calls) = lastGiven f calls (f.get a) := by
  induction calls generalizing a with
  | nil => rfl
  | cons c calls ih =>
    have hset : f.get (c.feature.set a c.value) = if c.feature = f then c.value else f.get a := by
      rw [getFlag_setFlag]
      by_cases heq : c.feature = f
      · rw [if_pos (congrArg bit heq), if_pos heq]
      · rw [if_neg fun h => heq (eq_of_bit ha h), if_neg heq]
    rw [lastGiven, ← hset]
    exact ih _

/-- The two features with the same mask have the same value, which one of them was given last. -/
theorem Feature.shared_run (a : FlaggedActor) (calls : List SetterCall) {x y : Bool}
    (h : a.isPriorityAware = x ∨ a.isPriorityAware = y) :
    (a.run calls).isPriorityAware = lastGiven isPriorityAware calls x ∨
      (a.run calls).isPriorityAware = lastGiven isSerializable calls y := by
  induction calls generalizing a x y with
  | nil => exact h
  | cons c calls ih =>
    refine ih _ ?_
    have hset : (c.feature.set a c.value).isPriorityAware =
        if c.feature.bit = 6 then c.value else a.isPriorityAware :=
      getFlag_setFlag .isPriorityAware c.feature a c.value
    rw [hset]
    cases c.feature with
    | isPriorityAware => exact Or.inl rfl
    | isSerializable => exact Or.inr rfl
    | _ => exact h

theorem FlaggedActor.isSerializable_eq (a : FlaggedActor) :
    a.isSerializable = a.isPriorityAware := rfl

/-- **Every getter returns the value that its own setter was given last, or the initial one, if
and only if this value is the same for `is_priority_aware` and `is_serializable`.** -/
theorem getters_agree_iff (a : FlaggedActor) (calls : List SetterCall) :
    (∀ f : Feature, f.get (a.run calls) = lastGiven f calls (f.get a)) ↔
      lastGiven .isPriorityAware calls a.isPriorityAware =
        lastGiven .isSerializable calls a.isSerializable := by
  constructor
  · intro h
    have hp : (a.run calls).isPriorityAware = _ := h .isPriorityAware
    have hs : (a.run calls).isSerializable = _ := h .isSerializable
    exact hp.symm.trans (((a.run calls).isSerializable_eq).symm.trans hs)
  · intro h f
    have hshared : (a.run calls).isPriorityAware =
        lastGiven .isPriorityAware calls a.isPriorityAware := by
      rcases Feature.shared_run a calls (Or.inl rfl) with hx | hy
      · exact hx
      · exact hy.trans h.symm
    cases hf : f.alone with
    | true => exact Feature.get_run hf a calls
    | false =>
      cases f with
      | isPriorityAware => exact hshared
      | isSerializable => exact hshared.trans h
      | _ => cases hf

/-- Making an actor serializable makes it aware of priorities. -/
theorem getters_disagree :
    ¬ ∀ (a : FlaggedActor) (calls : List SetterCall) (f : Feature),
      f.get (a.run calls) = lastGiven f calls (f.get a) := by
  intro h
  have := h ⟨isAbstractActorFlag, 0⟩ [⟨.isSerializable, true⟩] .isPriorityAware
  revert this
  decide

end BoostActor
