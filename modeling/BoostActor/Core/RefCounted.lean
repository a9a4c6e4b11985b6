import BoostActor.Core.Binary
import BoostActor.Lib.Run
import BoostActor.Lib.Threads

/-!
# Reference counting

Actors, messages, groups and storages are shared between threads and count their references
(`ref_counted.cpp`). Who releases a reference first asks whether it is the only one, and then
deletes the object without touching the counter; otherwise it decrements the counter and deletes the
object if nobody has another reference.

Each access to the counter is a step of its own. Who copies a reference has one.

* `Inv.step` — what a step with one reference preserves, whatever is done with the others;
* `refCounted_reach` — the object is deleted once, by the last one that releases a reference, and
  nobody uses it afterwards.
-/

namespace BoostActor

open Lib

/-! ## The code -/

/-- What happens with a reference. -/
inductive Reference where
  | held
  /-- in `deref`, about to ask whether it is unique -/
  | checking
  /-- about to decrement the counter -/
  | subtracting
  /-- about to call `request_deletion` -/
  | deleting (decrementedRc : Bool)
  | released
deriving DecidableEq, Repr

/-- An object with its counter and all references to it. -/
structure RefCounted where
  rc : UInt64
  refs : List Reference
  /-- how often the object has been deleted -/
  deletions : Nat
deriving DecidableEq, Repr

/-- What is done with reference `i`. -/
inductive RefAction where
  /-- `ref`: it is copied -/
  | ref (i : Nat)
  /-- `deref` is called -/
  | deref (i : Nat)
  /-- the next step of `deref` -/
  | run (i : Nat)
deriving DecidableEq, Repr

namespace RefCounted

/-- A new object, with one reference. -/
def initial : RefCounted := ⟨1, [.held], 0⟩

/-- Nobody touches the object once it has been deleted. -/
def touch (s s' : RefCounted) : Option (Except Fault RefCounted) :=
  if s.deletions = 0 then some (.ok s') else some (.error (.undefined "use after free"))

def exec (s : RefCounted) : RefAction → Option (Except Fault RefCounted)
  | .ref i =>
    match s.refs[i]? with
    | some .held => s.touch { s with rc := s.rc + 1, refs := s.refs ++ [.held] }
    | _ => none
  | .deref i =>
    match s.refs[i]? with
    | some .held => some (.ok { s with refs := s.refs.set i .checking })
    | _ => none
  | .run i =>
    match s.refs[i]? with
    | some .checking =>
      if s.rc = 1 then s.touch { s with refs := s.refs.set i (.deleting false) }
      else s.touch { s with refs := s.refs.set i .subtracting }
    | some .subtracting =>
      if s.rc = 1 then s.touch { s with rc := s.rc - 1, refs := s.refs.set i (.deleting true) }
      else s.touch { s with rc := s.rc - 1, refs := s.refs.set i .released }
    | some (.deleting _) =>
      s.touch { s with refs := s.refs.set i .released, deletions := s.deletions + 1 }
    | _ => none

def step (s : RefCounted) (a : RefAction) : Option RefCounted := (s.exec a).bind Except.toOption

end RefCounted

namespace Reference

/-- A reference that has not been released yet. -/
def counted : Reference → Bool
  | .held => true
  | .checking => true
  | .subtracting => true
  | _ => false

/-- Somebody who deletes the object. -/
def deletes : Reference → Bool
  | .deleting _ => true
  | _ => false

end Reference

/-! ## What every step preserves -/

namespace RefCounted

/-- How many references there are. -/
def count (s : RefCounted) : Nat := s.refs.countP Reference.counted

/-- There is room for another reference in the counter. -/
def Room (s : RefCounted) : RefAction → Prop
  | .ref _ => s.count + 1 < 2 ^ 64
  | _ => True

instance (s : RefCounted) : (a : RefAction) → Decidable (s.Room a)
  | .ref _ => inferInstanceAs (Decidable (_ < _))
  | .deref _ => isTrue trivial
  | .run _ => isTrue trivial

/-- What holds between two accesses. -/
structure Inv (s : RefCounted) : Prop where
  /-- as long as somebody has a reference, the counter is right -/
  counter : 0 < s.count → s.rc.toNat = s.count
  /-- afterwards somebody deletes the object, or has done so -/
  deletion : s.refs.countP Reference.deletes + s.deletions = if s.count = 0 then 1 else 0

variable {s s' : RefCounted} {i : Nat} {r r' : Reference}

/-- An object with a counted reference is not deleted. -/
theorem Inv.alive (h : Inv s) (hpos : 0 < s.count) : s.deletions = 0 := by
  have hdeletion := h.deletion
  rw [if_neg (by omega)] at hdeletion
  omega

theorem count_pos (hi : s.refs[i]? = some r) (hr : r.counted = true) : 0 < s.count :=
  countP_pos hi hr

theorem count_set (hi : s.refs[i]? = some r) (r' : Reference) :
    (s.refs.set i r').countP Reference.counted + (if r.counted then 1 else 0) =
      s.count + if r'.counted then 1 else 0 :=
  countP_set_add hi r' _

/-- A step that keeps the reference. -/
theorem Inv.keep (h : Inv s) (hi : s.refs[i]? = some r) (hr : r.counted = true)
    (hr' : r'.counted = true) : Inv { s with refs := s.refs.set i r' } := by
  have hcount := count_set hi r'
  have hdeletes := countP_set_add hi r' Reference.deletes
  rw [if_pos hr, if_pos hr'] at hcount
  have hno : r.deletes = false ∧ r'.deletes = false := by
    cases r <;> cases r' <;> first | exact ⟨rfl, rfl⟩ | (cases hr; done) | cases hr'
  rw [hno.1, hno.2] at hdeletes
  have hsame : (s.refs.set i r').countP Reference.counted = s.count := by omega
  have hsame' : (s.refs.set i r').countP Reference.deletes =
      s.refs.countP Reference.deletes := by simpa using hdeletes
  refine ⟨?_, ?_⟩
  · show 0 < (s.refs.set i r').countP _ → s.rc.toNat = (s.refs.set i r').countP _
    rw [hsame]
    exact h.counter
  · show (s.refs.set i r').countP _ + s.deletions =
      if (s.refs.set i r').countP _ = 0 then 1 else 0
    rw [hsame, hsame']
    exact h.deletion

/-- Another reference. -/
theorem Inv.ref (h : Inv s) (hi : s.refs[i]? = some .held) (hroom : s.count + 1 < 2 ^ 64) :
    Inv { s with rc := s.rc + 1, refs := s.refs ++ [.held] } := by
  have hpos := count_pos hi rfl
  have hcounter := h.counter hpos
  have hdeletion := h.deletion
  have hcount : (s.refs ++ [Reference.held]).countP Reference.counted = s.count + 1 := by
    rw [List.countP_append]
    rfl
  refine ⟨fun _ => ?_, ?_⟩
  · show (s.rc + 1).toNat = (s.refs ++ [Reference.held]).countP _
    rw [hcount, UInt64.toNat_add, UInt64.toNat_one]
    omega
  · show (s.refs ++ [Reference.held]).countP _ + s.deletions =
      if (s.refs ++ [Reference.held]).countP _ = 0 then 1 else 0
    rw [hcount, if_neg (by omega), List.countP_append]
    rw [if_neg (by omega)] at hdeletion
    exact hdeletion

/-- The last reference is released: its owner is going to delete the object. -/
theorem Inv.last (h : Inv s) (hi : s.refs[i]? = some r) (hr : r.counted = true)
    (hone : s.rc = 1) (rc : UInt64) (d : Bool) :
    Inv { s with rc, refs := s.refs.set i (.deleting d) } := by
  have hpos := count_pos hi hr
  have hcounter := h.counter hpos
  have hdeletion := h.deletion
  have hcount := count_set hi (.deleting d)
  have hdeletes := countP_set_add hi (.deleting d) Reference.deletes
  -- a reference that counts does not delete
  have hno : r.deletes = false := by
    cases r <;> first | rfl | cases hr
  rw [hone, UInt64.toNat_one] at hcounter
  rw [if_pos hr] at hcount
  rw [hno] at hdeletes
  replace hcount : (s.refs.set i (.deleting d)).countP Reference.counted + 1 = s.count := hcount
  replace hdeletes : (s.refs.set i (.deleting d)).countP Reference.deletes =
    s.refs.countP Reference.deletes + 1 := hdeletes
  have hzero : (s.refs.set i (.deleting d)).countP Reference.counted = 0 := by omega
  refine ⟨fun hp => ?_, ?_⟩
  · replace hp : 0 < (s.refs.set i (.deleting d)).countP Reference.counted := hp
    omega
  · show (s.refs.set i (.deleting d)).countP _ + s.deletions =
      if (s.refs.set i (.deleting d)).countP _ = 0 then 1 else 0
    rw [hzero, if_pos rfl]
    rw [if_neg (by omega)] at hdeletion
    omega

/-- A reference is released, and there are others. -/
theorem Inv.release (h : Inv s) (hi : s.refs[i]? = some .subtracting) (hmore : s.rc ≠ 1) :
    Inv { s with rc := s.rc - 1, refs := s.refs.set i .released } := by
  have hpos := count_pos hi rfl
  have hcounter := h.counter hpos
  have hdeletion := h.deletion
  have hcount := count_set hi .released
  have hdeletes := countP_set_add hi .released Reference.deletes
  simp [Reference.counted] at hcount
  simp [Reference.deletes] at hdeletes
  -- the counter shows another reference, so this one is not the last
  have htwo : s.count ≠ 1 := by
    intro hone
    rw [hone] at hcounter
    exact hmore (UInt64.toNat_inj.mp hcounter)
  have hle : (1 : UInt64) ≤ s.rc := by
    rw [UInt64.le_iff_toNat_le, hcounter]
    exact hpos
  refine ⟨fun _ => ?_, ?_⟩
  · show (s.rc - 1).toNat = (s.refs.set i .released).countP _
    rw [UInt64.toNat_sub_of_le _ _ hle, UInt64.toNat_one]
    omega
  · show (s.refs.set i .released).countP _ + s.deletions =
      if (s.refs.set i .released).countP _ = 0 then 1 else 0
    rw [if_neg (by omega)] at hdeletion ⊢
    omega

/-- The object is deleted. -/
theorem Inv.delete (h : Inv s) {d : Bool} (hi : s.refs[i]? = some (.deleting d)) :
    Inv { s with refs := s.refs.set i .released, deletions := s.deletions + 1 } := by
  have hdeletion := h.deletion
  have hcount := count_set hi .released
  have hdeletes := countP_set_add hi .released Reference.deletes
  simp [Reference.counted] at hcount
  simp [Reference.deletes] at hdeletes
  have hzero : s.count = 0 := by
    by_contra hne
    rw [if_neg hne] at hdeletion
    omega
  rw [if_pos hzero] at hdeletion
  refine ⟨fun hp => ?_, ?_⟩
  · replace hp : 0 < (s.refs.set i .released).countP Reference.counted := hp
    omega
  · show (s.refs.set i .released).countP _ + (s.deletions + 1) =
      if (s.refs.set i .released).countP _ = 0 then 1 else 0
    rw [if_pos (by omega)]
    omega

/-- Who deletes the object is the first to do so. -/
theorem Inv.undeleted (h : Inv s) {d : Bool} (hi : s.refs[i]? = some (.deleting d)) :
    s.deletions = 0 := by
  have hpos := countP_pos hi (p := Reference.deletes) rfl
  have hdeletion := h.deletion
  split_ifs at hdeletion <;> omega

theorem touch_of_zero (h : s.deletions = 0) (s' : RefCounted) : s.touch s' = some (.ok s') :=
  if_pos h

/-- What a step does. -/
theorem Inv.exec (h : Inv s) {a : RefAction} (hroom : s.Room a) {out : Except Fault RefCounted}
    (hexec : s.exec a = some out) : ∃ s', out = .ok s' ∧ Inv s' := by
  cases a with
  | ref i =>
    rw [RefCounted.exec] at hexec
    split at hexec
    · next hi =>
      rw [touch_of_zero (h.alive (count_pos hi rfl))] at hexec
      cases hexec
      exact ⟨_, rfl, h.ref hi hroom⟩
    · cases hexec
  -- `deref` loads the counter first
  | deref i =>
    rw [RefCounted.exec] at hexec
    split at hexec
    · next hi =>
      cases hexec
      exact ⟨_, rfl, h.keep hi rfl rfl⟩
    · cases hexec
  | run i =>
    -- the load has seen one: the object is deleted without a subtraction
    rw [RefCounted.exec] at hexec
    split at hexec
    · next hi =>
      rw [touch_of_zero (h.alive (count_pos hi rfl)),
        touch_of_zero (h.alive (count_pos hi rfl))] at hexec
      split_ifs at hexec with hone <;> cases hexec
      · exact ⟨_, rfl, h.last hi rfl hone s.rc false⟩
      · exact ⟨_, rfl, h.keep hi rfl rfl⟩
    · -- otherwise the subtraction tells whether this was the last reference
      next hi =>
      rw [touch_of_zero (h.alive (count_pos hi rfl)),
        touch_of_zero (h.alive (count_pos hi rfl))] at hexec
      split_ifs at hexec with hone <;> cases hexec
      · exact ⟨_, rfl, h.last hi rfl hone _ true⟩
      · exact ⟨_, rfl, h.release hi hone⟩
    · next d hi =>
      rw [touch_of_zero (h.undeleted hi)] at hexec
      cases hexec
      exact ⟨_, rfl, h.delete hi⟩
    · cases hexec

/-- Every step keeps the invariant. -/
theorem Inv.step (h : Inv s) {a : RefAction} (hroom : s.Room a) (hs : s.step a = some s') :
    Inv s' := by
  obtain ⟨out, hexec, hout⟩ := Option.bind_eq_some_iff.mp hs
  obtain ⟨s₁, rfl, hinv⟩ := h.exec hroom hexec
  cases hout
  exact hinv

theorem Inv.init : Inv initial := ⟨fun _ => rfl, rfl⟩

/-! ## Runs -/

/-- What the owners of references can rely on. -/
structure Counted (s : RefCounted) : Prop where
  /-- the object is there as long as somebody has a reference -/
  alive : 0 < s.count → s.deletions = 0
  /-- the counter is right as long as somebody has a reference -/
  counter : 0 < s.count → s.rc.toNat = s.count
  /-- the object is not deleted twice -/
  once : s.deletions ≤ 1
  /-- it has been deleted when nobody has a reference or is about to delete it -/
  noLeak : (∀ r ∈ s.refs, r = .released) → s.deletions = 1
  /-- nobody uses the object or its counter after it has been deleted -/
  faultless : ∀ a f, s.Room a → s.exec a ≠ some (.error f)

theorem Inv.counted (h : Inv s) : Counted s := by
  have hdeletion := h.deletion
  refine ⟨h.alive, h.counter, ?_, fun hall => ?_, fun a f hroom hexec => ?_⟩
  · split_ifs at hdeletion <;> omega
  · have hcount : s.count = 0 := countP_eq_zero_of_forall fun r hr => by rw [hall r hr]; rfl
    have hdeletes : s.refs.countP Reference.deletes = 0 :=
      countP_eq_zero_of_forall fun r hr => by rw [hall r hr]; rfl
    rw [if_pos hcount] at hdeletion
    omega
  · obtain ⟨s', hok, -⟩ := h.exec hroom hexec
    cases hok

/-- For any number of references that are copied and released by any number of threads. -/
theorem refCounted_reach (hreach : Reach (· = initial) step Room s) : Counted s :=
  (hreach.invariant (I := Inv) (fun s hs => by rw [hs]; exact .init) fun _ _ _ h hroom hs =>
    h.step hroom hs).counted

/-- Two references are released at the same time: both owners see that they are not alone. -/
theorem refCounted_race : ∃ s : RefCounted, s.refs = [.released, .deleting true] ∧ s.deletions = 0 ∧
    Counted s :=
  ⟨_, rfl, rfl, refCounted_reach (reach_of_checked_run (.init rfl)
    (rfl : runAll _ _ [.ref 0, .deref 0, .deref 1, .run 0, .run 1, .run 0, .run 1] = some _))⟩

end RefCounted

end BoostActor
