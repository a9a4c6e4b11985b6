import BoostActor.Core.Binary
import BoostActor.Lib.Run
import BoostActor.Lib.Threads
import BoostActor.Lib.UnorderedMap

/-!
# Singletons

`lazy_get` (`singletons.hpp`) creates an object when it is needed for the first time: it looks at an
atomic pointer, locks a mutex if the pointer is null, and looks again. `dispose` takes the object
away with a compare-and-swap and deletes it.

Each access to the pointer is a step of its own, as is everything that is done to an object. A new
object may be where a deleted one was.

* `Inv.step` — what a step of one thread preserves, whatever the others do;
* `singletons_reach` — no object is used before it is initialized or deleted twice;
* `singletons_once` — as long as nobody calls `dispose`, there is one object.
-/

namespace BoostActor

open Lib

-- -------------------------
-- The code
-- -------------------------

/-- Where a thread is. -/
inductive SingletonThread where
  | idle
  /-- in `lazy_get`, about to look at the pointer -/
  | getting
  /-- about to lock the mutex -/
  | locking
  /-- with the mutex, about to look again -/
  | testing
  /-- with the mutex, about to call the factory -/
  | creating
  /-- with the mutex, about to call `initialize` -/
  | initializing (a : Nat)
  /-- with the mutex, about to store the pointer -/
  | storing (a : Nat)
  /-- with the mutex, about to return -/
  | leaving (a : Nat)
  | returned (a : Nat)
  /-- in `dispose`, about to look at the pointer -/
  | disposing
  /-- about to exchange the pointer, if it is still `p` -/
  | exchanging (p : Option Nat)
  /-- about to call `dispose` of the object -/
  | deleting (a : Nat)
deriving DecidableEq, Repr

/-- The pointer, the objects with whether they have been initialized, and the threads. -/
structure Singleton where
  ptr : Option Nat
  heap : UMap Nat Bool
  threads : List SingletonThread
  /-- how many objects have been created -/
  created : Nat
  /-- how many of them have been deleted -/
  deleted : Nat

/-- The next step of thread `i`. -/
inductive SingletonAction where
  | lazyGet (i : Nat)
  | dispose (i : Nat)
  /-- the factory returns a new object -/
  | create (i a : Nat)
  /-- any other step -/
  | run (i : Nat) (spurious : Bool)
deriving DecidableEq, Repr

namespace SingletonThread

/-- A thread that has the mutex. -/
def locks : SingletonThread → Bool
  | .testing => true
  | .creating => true
  | .initializing _ => true
  | .storing _ => true
  | .leaving _ => true
  | _ => false

/-- The object that only this thread knows. -/
def owns : SingletonThread → Option Nat
  | .initializing a => some a
  | .storing a => some a
  | .deleting a => some a
  | _ => none

/-- Whether that object has been initialized. -/
def hasInitialized : SingletonThread → Bool
  | .initializing _ => false
  | _ => true

/-- A thread that has found no object and has not stored one yet. -/
def builds : SingletonThread → Bool
  | .creating => true
  | .initializing _ => true
  | .storing _ => true
  | _ => false

/-- A thread in `dispose`. -/
def disposes : SingletonThread → Bool
  | .disposing => true
  | .exchanging _ => true
  | .deleting _ => true
  | _ => false

/-- What `lazy_get` returns. -/
def result : SingletonThread → Option Nat
  | .leaving a => some a
  | .returned a => some a
  | _ => none

end SingletonThread

namespace Singleton

def isInitial (s : Singleton) : Prop :=
  s.ptr = none ∧ s.heap = UMap.empty ∧ (∀ t ∈ s.threads, t = .idle) ∧ s.created = 0 ∧ s.deleted = 0

/-- Nobody has the mutex. -/
def free (s : Singleton) : Bool := s.threads.all fun t => ! t.locks

def set (s : Singleton) (i : Nat) (t : SingletonThread) : Singleton :=
  { s with threads := s.threads.set i t }

/-- The next step of a thread that is in a function. -/
def run (s : Singleton) (i : Nat) (spurious : Bool) :
    SingletonThread → Option (Except Fault Singleton)
  | .getting =>
    match s.ptr with
    | some a => some (.ok (s.set i (.returned a)))
    | none => some (.ok (s.set i .locking))
  | .locking => if s.free then some (.ok (s.set i .testing)) else none
  | .testing =>
    match s.ptr with
    | some a => some (.ok (s.set i (.leaving a)))
    | none => some (.ok (s.set i .creating))
  | .initializing a =>
    match s.heap.find? a with
    | some false =>
      some (.ok { s with heap := s.heap.set a true, threads := s.threads.set i (.storing a) })
    | _ => some (.error (.undefined "invalid pointer"))
  | .storing a => some (.ok { s with ptr := some a, threads := s.threads.set i (.leaving a) })
  | .leaving a => some (.ok (s.set i (.returned a)))
  | .returned _ => some (.ok (s.set i .idle))
  | .disposing => some (.ok (s.set i (.exchanging s.ptr)))
  | .exchanging none => some (.ok (s.set i .idle))
  | .exchanging (some p) =>
    if s.ptr = some p ∧ spurious = false then
      some (.ok { s with ptr := none, threads := s.threads.set i (.deleting p) })
    else some (.ok (s.set i (.exchanging s.ptr)))
  | .deleting a =>
    match s.heap.find? a with
    | some true =>
      some (.ok { s with
        heap := s.heap.erase a, threads := s.threads.set i .idle, deleted := s.deleted + 1 })
    | _ => some (.error (.undefined "invalid pointer"))
  | .idle => none
  | .creating => none

def exec (s : Singleton) : SingletonAction → Option (Except Fault Singleton)
  | .lazyGet i =>
    match s.threads[i]? with
    | some .idle => some (.ok (s.set i .getting))
    | _ => none
  | .dispose i =>
    match s.threads[i]? with
    | some .idle => some (.ok (s.set i .disposing))
    | _ => none
  | .create i a =>
    match s.threads[i]?, s.heap.find? a with
    | some .creating, none =>
      some (.ok { s with
        heap := s.heap.set a false, threads := s.threads.set i (.initializing a),
        created := s.created + 1 })
    | _, _ => none
  | .run i spurious =>
    match s.threads[i]? with
    | some t => s.run i spurious t
    | none => none

def step (s : Singleton) (a : SingletonAction) : Option Singleton :=
  (s.exec a).bind Except.toOption

-- -------------------------
-- What every step preserves
-- -------------------------

/-- All that own an object: the pointer, and threads that nobody else knows about. -/
def owners (s : Singleton) : List Nat :=
  s.ptr.toList ++ s.threads.flatMap fun t => t.owns.toList

/-- What holds between two steps. -/
structure Inv (s : Singleton) : Prop where
  mutex : s.threads.countP SingletonThread.locks ≤ 1
  /-- every object has one owner, and nobody owns anything else -/
  owned : ∀ a, s.owners.count a = if (s.heap.find? a).isSome then 1 else 0
  published : ∀ a, s.ptr = some a → s.heap.find? a = some true
  initialized : ∀ t ∈ s.threads, ∀ a, t.owns = some a → s.heap.find? a = some t.hasInitialized
  builds : ∀ t ∈ s.threads, t.builds = true → s.ptr = none
  balance : s.created = s.deleted + s.ptr.toList.length + s.threads.countP (·.owns.isSome)

variable {s s' : Singleton} {i j : Nat} {t t' : SingletonThread}

theorem count_toList (o : Option Nat) (a : Nat) :
    o.toList.count a = if o = some a then 1 else 0 := by
  cases o with
  | none => rfl
  | some b =>
    rw [Option.toList_some, List.count_singleton]
    simp only [beq_iff_eq, Option.some.injEq]

/-- A free mutex is locked by nobody. -/
theorem countP_locks_of_free (h : s.free = true) : s.threads.countP SingletonThread.locks = 0 := by
  unfold free at h
  rw [List.all_eq_true] at h
  refine countP_eq_zero_of_forall fun t ht => ?_
  simpa using h t ht

/-- What a thread owns, nobody else does. -/
theorem Inv.owns_alone (h : Inv s) (hi : s.threads[i]? = some t) (hj : s.threads[j]? = some t')
    (hne : i ≠ j) {a : Nat} (ht : t.owns = some a) : t'.owns ≠ some a := by
  intro ht'
  have htwo := two_le_count_flatMap (f := fun t : SingletonThread => t.owns.toList) (x := a) hne hi
    hj (by simp [ht]) (by simp [ht'])
  have hone := h.owned a
  rw [owners, List.count_append] at hone
  split_ifs at hone <;> omega

/-- The pointer does not own what a thread owns. -/
theorem Inv.ptr_ne (h : Inv s) (hi : s.threads[i]? = some t) {a : Nat} (ht : t.owns = some a) :
    s.ptr ≠ some a := by
  intro hp
  have hpos := count_flatMap_pos (f := fun t : SingletonThread => t.owns.toList) (x := a) hi
    (by simp [ht])
  have hone := h.owned a
  rw [owners, List.count_append, count_toList, if_pos hp] at hone
  split_ifs at hone <;> omega

/-- A thread that builds an object has the mutex. -/
theorem locks_of_builds (h : t.builds = true) : t.locks = true := by
  cases t <;> first | rfl | cases h

/-- A step of one thread, from `t` to `t'`: it locks the mutex only if that is free, owns what it
says afterwards, touches no object but its own, and needs the mutex to store a pointer. -/
theorem Inv.set (h : Inv s) (hi : s.threads[i]? = some t) {s' : Singleton}
    (hthreads : s'.threads = s.threads.set i t')
    (hlock : t'.locks = true → t.locks = true ∨ s.free = true)
    (hown : ∀ a, s'.ptr.toList.count a + t'.owns.toList.count a +
      (if (s.heap.find? a).isSome then 1 else 0) = s.ptr.toList.count a + t.owns.toList.count a +
      if (s'.heap.find? a).isSome then 1 else 0)
    (hframe : ∀ a, t.owns ≠ some a → ∀ b, s.heap.find? a = some b → s'.heap.find? a = some b)
    (hpublish : ∀ a, s'.ptr = some a → s.ptr = some a ∨ s'.heap.find? a = some true)
    (howns : ∀ a, t'.owns = some a → s'.heap.find? a = some t'.hasInitialized)
    (hptr : s'.ptr = none ∨ s'.ptr = s.ptr ∨ t.locks = true)
    (hbuilds : t'.builds = true → s'.ptr = none)
    (hbalance : s'.created + s.deleted + s.ptr.toList.length +
      (if t.owns.isSome then 1 else 0) = s.created + s'.deleted + s'.ptr.toList.length +
      if t'.owns.isSome then 1 else 0) : Inv s' := by
  refine ⟨?_, fun a => ?_, fun a ha => ?_, ?_, ?_, ?_⟩
  · -- at most one thread has the mutex
    have hset := countP_set_add hi t' SingletonThread.locks
    have hall := h.mutex
    rw [hthreads]
    by_cases ht' : t'.locks = true
    · rcases hlock ht' with ht | hfree
      · rw [if_pos ht, if_pos ht'] at hset
        omega
      · rw [countP_locks_of_free hfree, if_pos ht'] at hset
        omega
    · rw [if_neg ht'] at hset
      omega
  · -- each object is published, owned by one thread, or deleted
    have hset := count_flatMap_set_add hi t' (fun t => t.owns.toList) a
    have hall := h.owned a
    have hhere := hown a
    rw [owners, List.count_append] at hall ⊢
    rw [hthreads]
    omega
  · rcases hpublish a ha with hold | hnew
    · exact hframe a (fun ht => h.ptr_ne hi ht hold) _ (h.published a hold)
    · exact hnew
  · intro t₁ ht₁ a ha
    rw [hthreads] at ht₁
    obtain ⟨j, hj⟩ := List.getElem?_of_mem ht₁
    by_cases hij : i = j
    · obtain rfl : t' = t₁ := by
        rw [← hij, List.getElem?_set_self (List.getElem?_eq_some_iff.mp hi).1] at hj
        exact Option.some.inj hj
      exact howns a ha
    · rw [List.getElem?_set_ne hij] at hj
      exact hframe a (h.owns_alone hj hi (Ne.symm hij) ha) _
        (h.initialized t₁ (List.mem_of_getElem? hj) a ha)
  · intro t₁ ht₁ hb
    rw [hthreads] at ht₁
    obtain ⟨j, hj⟩ := List.getElem?_of_mem ht₁
    by_cases hij : i = j
    · obtain rfl : t' = t₁ := by
        rw [← hij, List.getElem?_set_self (List.getElem?_eq_some_iff.mp hi).1] at hj
        exact Option.some.inj hj
      exact hbuilds hb
    · rw [List.getElem?_set_ne hij] at hj
      rcases hptr with hnone | hsame | hlocked
      · exact hnone
      · rw [hsame]
        exact h.builds t₁ (List.mem_of_getElem? hj) hb
      · -- both would have the mutex
        have htwo := two_le_countP hij hi hj hlocked (locks_of_builds hb)
        have hone := h.mutex
        omega
  · have hset := countP_set_add hi t' (·.owns.isSome)
    have hall := h.balance
    rw [hthreads]
    omega

/-- A step that changes nothing but the thread. -/
theorem Inv.setThread (h : Inv s) (hi : s.threads[i]? = some t)
    (hlock : t'.locks = true → t.locks = true ∨ s.free = true) (ht : t.owns = none)
    (ht' : t'.owns = none) (hbuilds : t'.builds = true → s.ptr = none) : Inv (s.set i t') := by
  refine h.set hi rfl hlock (fun a => ?_) (fun a _ b hb => hb) (fun a ha => .inl ha)
    (fun a ha => ?_) (.inr (.inl rfl)) hbuilds ?_
  · rw [ht, ht']
    rfl
  · rw [ht'] at ha
    cases ha
  · rw [ht, ht']
    rfl

/-- The factory has returned an object that was not there before. -/
theorem Inv.create (h : Inv s) (hi : s.threads[i]? = some .creating) {a : Nat}
    (ha : s.heap.find? a = none) : Inv { s with
      heap := s.heap.set a false, threads := s.threads.set i (.initializing a),
      created := s.created + 1 } := by
  refine h.set hi rfl (fun _ => .inl rfl) (fun b => ?_) (fun b _ x hx => ?_) (fun b hb => .inl hb)
    ?_ (.inr (.inl rfl)) (fun _ => h.builds _ (List.mem_of_getElem? hi) rfl) ?_
  · dsimp only
    rw [UMap.find?_set]
    by_cases hba : a = b
    · subst hba
      simp [SingletonThread.owns, ha]
    · simp [SingletonThread.owns, hba]
  · have hba : a ≠ b := by
      rintro rfl
      rw [ha] at hx
      cases hx
    dsimp only
    rw [UMap.find?_set_of_ne _ hba]
    exact hx
  · rintro b ⟨⟩
    exact UMap.find?_set_self ..
  · simp [SingletonThread.owns]
    omega

/-- The object is ready. -/
theorem Inv.initialize (h : Inv s) {a : Nat} (hi : s.threads[i]? = some (.initializing a)) :
    Inv { s with heap := s.heap.set a true, threads := s.threads.set i (.storing a) } := by
  have ha := h.initialized _ (List.mem_of_getElem? hi) a rfl
  refine h.set hi rfl (fun _ => .inl rfl) (fun b => ?_) (fun b hb x hx => ?_) (fun b hb => .inl hb)
    ?_ (.inr (.inl rfl)) (fun _ => h.builds _ (List.mem_of_getElem? hi) rfl) ?_
  · dsimp only
    rw [UMap.find?_set]
    by_cases hba : a = b
    · subst hba
      simp [SingletonThread.owns, ha]
    · simp [SingletonThread.owns, hba]
  · have hba : a ≠ b := fun hab => hb (congrArg some hab)
    dsimp only
    rw [UMap.find?_set_of_ne _ hba]
    exact hx
  · rintro b ⟨⟩
    exact UMap.find?_set_self ..
  · rfl

/-- Everybody can see the object. -/
theorem Inv.store (h : Inv s) {a : Nat} (hi : s.threads[i]? = some (.storing a)) :
    Inv { s with ptr := some a, threads := s.threads.set i (.leaving a) } := by
  have ha := h.initialized _ (List.mem_of_getElem? hi) a rfl
  have hnone := h.builds _ (List.mem_of_getElem? hi) rfl
  refine h.set hi rfl (fun _ => .inl rfl) (fun b => ?_) (fun b _ x hx => hx) ?_
    (fun b hb => by cases hb) (.inr (.inr rfl)) (fun hb => by cases hb) ?_
  · simp [SingletonThread.owns, hnone]
  · rintro b ⟨⟩
    exact .inr ha
  · simp [SingletonThread.owns, hnone]

/-- Nobody sees the object any more. -/
theorem Inv.exchange (h : Inv s) {p : Nat} (hi : s.threads[i]? = some (.exchanging (some p)))
    (hp : s.ptr = some p) :
    Inv { s with ptr := none, threads := s.threads.set i (.deleting p) } := by
  refine h.set hi rfl (fun hl => by cases hl) (fun b => ?_) (fun b _ x hx => hx)
    (fun b hb => by cases hb) ?_ (.inl rfl) (fun hb => by cases hb) ?_
  · simp [SingletonThread.owns, hp]
  · rintro b ⟨⟩
    exact h.published p hp
  · simp [SingletonThread.owns, hp]

/-- The object is gone. -/
theorem Inv.delete (h : Inv s) {a : Nat} (hi : s.threads[i]? = some (.deleting a)) :
    Inv { s with
      heap := s.heap.erase a, threads := s.threads.set i .idle, deleted := s.deleted + 1 } := by
  have ha := h.initialized _ (List.mem_of_getElem? hi) a rfl
  refine h.set hi rfl (fun hl => by cases hl) (fun b => ?_) (fun b hb x hx => ?_)
    (fun b hb => .inl hb) (fun b hb => by cases hb) (.inr (.inl rfl)) (fun hb => by cases hb) ?_
  · dsimp only
    rw [UMap.find?_erase]
    by_cases hba : a = b
    · subst hba
      simp [SingletonThread.owns, ha]
    · simp [SingletonThread.owns, hba]
  · have hba : a ≠ b := fun hab => hb (congrArg some hab)
    dsimp only
    rw [UMap.find?_erase_of_ne hba]
    exact hx
  · simp [SingletonThread.owns]
    omega

/-- Every step of a thread keeps the invariant. -/
theorem Inv.run (h : Inv s) (hi : s.threads[i]? = some t) {spurious : Bool}
    (hrun : s.run i spurious t = some (.ok s')) : Inv s' := by
  -- one case for each state of the thread
  cases t with
  | getting =>
    rw [Singleton.run] at hrun
    split at hrun <;> cases hrun
    · exact h.setThread hi (fun hl => by cases hl) rfl rfl fun hb => by cases hb
    · exact h.setThread hi (fun hl => by cases hl) rfl rfl fun hb => by cases hb
  | locking =>
    rw [Singleton.run] at hrun
    split_ifs at hrun with hfree
    cases hrun
    exact h.setThread hi (fun _ => .inr hfree) rfl rfl fun hb => by cases hb
  | testing =>
    rw [Singleton.run] at hrun
    split at hrun <;> cases hrun
    · exact h.setThread hi (fun _ => .inl rfl) rfl rfl fun hb => by cases hb
    · next hnone => exact h.setThread hi (fun _ => .inl rfl) rfl rfl fun _ => hnone
  | initializing a =>
    rw [Singleton.run, h.initialized _ (List.mem_of_getElem? hi) a rfl] at hrun
    cases hrun
    exact h.initialize hi
  | storing a =>
    cases hrun
    exact h.store hi
  | leaving a =>
    cases hrun
    exact h.setThread hi (fun hl => by cases hl) rfl rfl fun hb => by cases hb
  | returned a =>
    cases hrun
    exact h.setThread hi (fun hl => by cases hl) rfl rfl fun hb => by cases hb
  | disposing =>
    cases hrun
    exact h.setThread hi (fun hl => by cases hl) rfl rfl fun hb => by cases hb
  | exchanging p =>
    cases p with
    | none =>
      cases hrun
      exact h.setThread hi (fun hl => by cases hl) rfl rfl fun hb => by cases hb
    | some p =>
      rw [Singleton.run] at hrun
      split_ifs at hrun with hp <;> cases hrun
      · exact h.exchange hi hp.1
      · exact h.setThread hi (fun hl => by cases hl) rfl rfl fun hb => by cases hb
  | deleting a =>
    rw [Singleton.run, h.initialized _ (List.mem_of_getElem? hi) a rfl] at hrun
    cases hrun
    exact h.delete hi
  | idle | creating => cases hrun

/-- Every action keeps the invariant. -/
theorem Inv.step (h : Inv s) {a : SingletonAction} (hstep : s.step a = some s') : Inv s' := by
  obtain ⟨out, hexec, hout⟩ := Option.bind_eq_some_iff.mp hstep
  cases a with
  -- calls start from an idle thread
  | lazyGet i =>
    rw [exec] at hexec
    split at hexec <;> cases hexec
    next hi =>
    cases hout
    exact h.setThread hi (fun hl => by cases hl) rfl rfl fun hb => by cases hb
  | dispose i =>
    rw [exec] at hexec
    split at hexec <;> cases hexec
    next hi =>
    cases hout
    exact h.setThread hi (fun hl => by cases hl) rfl rfl fun hb => by cases hb
  | create i a =>
    rw [exec] at hexec
    split at hexec <;> cases hexec
    next hi ha =>
    cases hout
    exact h.create hi ha
  | run i spurious =>
    rw [exec] at hexec
    split at hexec
    · next hi =>
      cases out with
      | error f => cases hout
      | ok s₁ =>
        cases hout
        exact h.run hi hexec
    · cases hexec

/-- An object is used only while it is there and at the time it should be. -/
theorem Inv.faultless (h : Inv s) (a : SingletonAction) (f : Fault) :
    s.exec a ≠ some (.error f) := by
  intro hexec
  -- the accesses that may fail need an object that is there
  cases a with
  | run i spurious =>
    rw [exec] at hexec
    split at hexec
    · next t hi =>
      cases t with
      | initializing a =>
        rw [Singleton.run, h.initialized _ (List.mem_of_getElem? hi) a rfl] at hexec
        cases hexec
      | deleting a =>
        rw [Singleton.run, h.initialized _ (List.mem_of_getElem? hi) a rfl] at hexec
        cases hexec
      | exchanging p =>
        cases p with
        | none => cases hexec
        | some p =>
          rw [Singleton.run] at hexec
          split_ifs at hexec <;> cases hexec
      | getting | locking | testing =>
        rw [Singleton.run] at hexec
        split at hexec <;> cases hexec
      | storing | leaving | returned | disposing | idle | creating => cases hexec
    · cases hexec
  | lazyGet | dispose | create =>
    rw [exec] at hexec
    split at hexec <;> cases hexec

/-- A new singleton satisfies the invariant. -/
theorem Inv.init (h : s.isInitial) : Inv s := by
  obtain ⟨hptr, hheap, hidle, hcreated, hdeleted⟩ := h
  have hidle' (q : SingletonThread → Bool) (hq : q .idle = false) : s.threads.countP q = 0 :=
    countP_eq_zero_of_forall fun t ht => by rw [hidle t ht, hq]
  refine ⟨?_, fun a => ?_, fun a ha => ?_, fun t ht a ha => ?_, fun t ht hb => ?_, ?_⟩
  · rw [hidle' _ rfl]
    exact Nat.zero_le _
  · have hnone : s.threads.flatMap (fun t => t.owns.toList) = [] := by
      rw [List.flatMap_eq_nil_iff]
      intro t ht
      rw [hidle t ht]
      rfl
    rw [owners, hptr, hnone, hheap]
    rfl
  · rw [hptr] at ha
    cases ha
  · rw [hidle t ht] at ha
    cases ha
  · exact hptr
  · rw [hcreated, hdeleted, hptr, hidle' _ rfl]
    rfl

-- -------------------------
-- Runs
-- -------------------------

/-- What the threads can rely on. -/
structure Kept (s : Singleton) : Prop where
  mutex : s.threads.countP SingletonThread.locks ≤ 1
  /-- every object has one owner, and nobody owns anything else -/
  owned : ∀ a, s.owners.count a = if (s.heap.find? a).isSome then 1 else 0
  /-- who finds an object finds it initialized -/
  published : ∀ a, s.ptr = some a → s.heap.find? a = some true
  /-- an object that is not there any more has been deleted once -/
  balance : s.created = s.deleted + s.owners.length
  /-- no object is used when it is not there, or initialized twice, or deleted uninitialized -/
  faultless : ∀ a f, s.exec a ≠ some (.error f)

/-- As many numbers as there are. -/
theorem length_flatMap_toList {α β : Type} (f : α → Option β) (as : List α) :
    (as.flatMap fun a => (f a).toList).length = as.countP fun a => (f a).isSome := by
  induction as with
  | nil => rfl
  | cons a as ih =>
    rw [List.flatMap_cons, List.length_append, ih, List.countP_cons]
    cases f a with
    | none => simp
    | some b =>
      simp
      omega

/-- For any number of threads that call `lazy_get` and `dispose` in any order. -/
theorem singletons_reach (hreach : Reach isInitial step anyStep s) : Kept s := by
  have h : Inv s := hreach.invariant (fun _ h => Inv.init h) fun _ _ _ h _ hstep => h.step hstep
  refine ⟨h.mutex, h.owned, h.published, ?_, h.faultless⟩
  rw [owners, List.length_append, length_flatMap_toList, h.balance, Nat.add_assoc]

/-- Two threads dispose of the object, and a third one creates the next one at the same address. -/
theorem singletons_two_disposals : ∃ s : Singleton, s.ptr = some 7 ∧ s.created = 2 ∧ Kept s :=
  ⟨_, rfl, rfl, singletons_reach (reach_of_run
    (.init ⟨rfl, rfl, by decide, rfl, rfl⟩ :
      Reach isInitial step anyStep ⟨none, .empty, [.idle, .idle, .idle], 0, 0⟩)
    (rfl : runAll _ _ [.lazyGet 0, .run 0 false, .run 0 false, .run 0 false, .create 0 7,
      .run 0 false, .run 0 false, .run 0 false, .dispose 1, .dispose 2, .run 1 false, .run 2 false,
      .run 1 true, .run 2 false, .run 1 false, .run 1 false, .run 2 false, .lazyGet 1,
      .run 1 false, .run 1 false, .run 1 false, .create 1 7, .run 1 false, .run 1 false] =
      some _))⟩

-- -------------------------
-- Without a disposal
-- -------------------------

/-- Nobody calls `dispose` yet. -/
def Undisposed (_ : Singleton) : SingletonAction → Prop
  | .dispose _ => False
  | _ => True

instance (s : Singleton) : (a : SingletonAction) → Decidable (s.Undisposed a)
  | .lazyGet _ => isTrue trivial
  | .dispose _ => isFalse id
  | .create _ _ => isTrue trivial
  | .run _ _ => isTrue trivial

/-- What holds as long as nobody has called `dispose`. -/
structure Used (s : Singleton) : Prop where
  inv : Inv s
  undeleted : s.deleted = 0
  undisposed : ∀ t ∈ s.threads, t.disposes = false
  result : ∀ t ∈ s.threads, ∀ a, t.result = some a → s.ptr = some a

/-- What a step of `lazy_get` can do. -/
theorem run_cases {spurious : Bool} (hrun : s.run i spurious t = some (.ok s'))
    (ht : t.disposes = false) : ∃ t', s'.threads = s.threads.set i t' ∧ t'.disposes = false ∧
      s'.deleted = s.deleted ∧ (s'.ptr = s.ptr ∨ ∃ a, t = .storing a) ∧
      ∀ a, t'.result = some a → s'.ptr = some a ∨ t.result = some a := by
  -- without a disposal a thread leaves the deleted objects alone
  cases t with
  | getting =>
    rw [run] at hrun
    split at hrun <;> cases hrun
    · next a ha =>
      refine ⟨_, rfl, rfl, rfl, .inl rfl, ?_⟩
      rintro b ⟨⟩
      exact .inl ha
    · exact ⟨_, rfl, rfl, rfl, .inl rfl, fun b hb => by cases hb⟩
  | locking =>
    rw [run] at hrun
    split_ifs at hrun
    cases hrun
    exact ⟨_, rfl, rfl, rfl, .inl rfl, fun b hb => by cases hb⟩
  | testing =>
    rw [run] at hrun
    split at hrun <;> cases hrun
    · next a ha =>
      refine ⟨_, rfl, rfl, rfl, .inl rfl, ?_⟩
      rintro b ⟨⟩
      exact .inl ha
    · exact ⟨_, rfl, rfl, rfl, .inl rfl, fun b hb => by cases hb⟩
  | initializing a =>
    rw [run] at hrun
    split at hrun <;> cases hrun
    exact ⟨_, rfl, rfl, rfl, .inl rfl, fun b hb => by cases hb⟩
  | storing a =>
    cases hrun
    exact ⟨_, rfl, rfl, rfl, .inr ⟨a, rfl⟩, fun b hb => .inl hb⟩
  | leaving a =>
    cases hrun
    exact ⟨_, rfl, rfl, rfl, .inl rfl, fun b hb => .inr hb⟩
  | returned a =>
    cases hrun
    exact ⟨_, rfl, rfl, rfl, .inl rfl, fun b hb => by cases hb⟩
  | idle | creating => cases hrun
  | disposing | exchanging | deleting => cases ht

/-- The pointer is stored only if it is null, which means that nothing has been returned yet. -/
theorem Used.set (h : Used s) (hinv : Inv s') (hi : s.threads[i]? = some t)
    (hthreads : s'.threads = s.threads.set i t') (ht' : t'.disposes = false)
    (hdeleted : s'.deleted = s.deleted) (hptr : s'.ptr = s.ptr ∨ ∃ a, t = .storing a)
    (hresult : ∀ a, t'.result = some a → s'.ptr = some a ∨ t.result = some a) : Used s' := by
  have hkeep : ∀ a, s.ptr = some a → s'.ptr = some a := by
    intro a ha
    rcases hptr with hsame | ⟨b, rfl⟩
    · rw [hsame]
      exact ha
    · rw [h.inv.builds _ (List.mem_of_getElem? hi) rfl] at ha
      cases ha
  refine ⟨hinv, by rw [hdeleted, h.undeleted], fun t₁ ht₁ => ?_, fun t₁ ht₁ a ha => ?_⟩
  · rw [hthreads] at ht₁
    rcases List.mem_or_eq_of_mem_set ht₁ with hmem | rfl
    · exact h.undisposed t₁ hmem
    · exact ht'
  · rw [hthreads] at ht₁
    rcases List.mem_or_eq_of_mem_set ht₁ with hmem | rfl
    · exact hkeep a (h.result t₁ hmem a ha)
    · rcases hresult a ha with hnew | hold
      · exact hnew
      · exact hkeep a (h.result t (List.mem_of_getElem? hi) a hold)

/-- Every action without a disposal keeps the singleton in use. -/
theorem Used.step (h : Used s) {a : SingletonAction} (hok : s.Undisposed a)
    (hstep : s.step a = some s') : Used s' := by
  have hinv := h.inv.step hstep
  obtain ⟨out, hexec, hout⟩ := Option.bind_eq_some_iff.mp hstep
  cases a with
  | lazyGet i =>
    rw [exec] at hexec
    split at hexec <;> cases hexec
    next hi =>
    cases hout
    exact h.set hinv hi rfl rfl rfl (.inl rfl) fun a ha => by cases ha
  | dispose i => exact absurd hok id
  | create i a =>
    rw [exec] at hexec
    split at hexec <;> cases hexec
    next hi _ =>
    cases hout
    exact h.set hinv hi rfl rfl rfl (.inl rfl) fun a ha => by cases ha
  | run i spurious =>
    rw [exec] at hexec
    split at hexec
    · next t hi =>
      cases out with
      | error f => cases hout
      | ok s₁ =>
        cases hout
        obtain ⟨t', hthreads, ht', hdeleted, hptr, hresult⟩ :=
          run_cases hexec (h.undisposed t (List.mem_of_getElem? hi))
        exact h.set hinv hi hthreads ht' hdeleted hptr hresult
    · cases hexec

/-- A thread that owns an object builds it. -/
theorem builds_of_owns (ht : t.disposes = false) (h : t.owns.isSome = true) : t.builds = true := by
  cases t <;> first | rfl | (cases h; done) | cases ht

/-- In use, it has been created at most once. -/
theorem Used.created_le (h : Used s) : s.created ≤ 1 := by
  have hbalance := h.inv.balance
  rw [h.undeleted] at hbalance
  have hmutex := h.inv.mutex
  have hle : s.threads.countP (·.owns.isSome) ≤ s.threads.countP SingletonThread.locks := by
    refine List.countP_mono_left fun t ht howns => ?_
    exact locks_of_builds (builds_of_owns (h.undisposed t ht) howns)
  rcases Nat.eq_zero_or_pos (s.threads.countP (·.owns.isSome)) with hzero | hpos
  · have hptr : s.ptr.toList.length ≤ 1 := by cases s.ptr <;> simp
    omega
  · -- a thread that builds an object has found none
    obtain ⟨t, ht, howns⟩ := List.countP_pos_iff.mp hpos
    rw [h.inv.builds t ht (builds_of_owns (h.undisposed t ht) howns)] at hbalance
    simp only [Option.toList_none, List.length_nil] at hbalance
    omega

/-- For any number of threads that call `lazy_get`, one object is created, and all of them return
it, initialized. -/
theorem singletons_once (hreach : Reach isInitial step Undisposed s) :
    s.created ≤ 1 ∧ ∀ t ∈ s.threads, ∀ a, t.result = some a →
      s.ptr = some a ∧ s.heap.find? a = some true := by
  have h : Used s := hreach.invariant
    (fun s h => ⟨Inv.init h, h.2.2.2.2, fun t ht => by rw [h.2.2.1 t ht]; rfl,
      fun t ht a ha => by rw [h.2.2.1 t ht] at ha; cases ha⟩)
    fun _ _ _ h hok hstep => h.step hok hstep
  exact ⟨h.created_le, fun t ht a ha =>
    ⟨h.result t ht a ha, h.inv.published a (h.result t ht a ha)⟩⟩

/-- Two threads find no object, and the second one waits for the first. -/
theorem singletons_once_two : ∃ s : Singleton,
    s.threads = [.leaving 7, .returned 7] ∧ s.created ≤ 1 ∧
    ∀ t ∈ s.threads, ∀ a, t.result = some a → s.ptr = some a ∧ s.heap.find? a = some true :=
  ⟨_, rfl, singletons_once (reach_of_checked_run
    (.init ⟨rfl, rfl, by decide, rfl, rfl⟩ :
      Reach isInitial step Undisposed ⟨none, .empty, [.idle, .idle], 0, 0⟩)
    (rfl : runAll _ _ [.lazyGet 0, .lazyGet 1, .run 0 false, .run 1 false, .run 1 false,
      .run 1 false, .create 1 7, .run 1 false, .run 1 false, .run 1 false, .run 0 false,
      .run 0 false] = some _))⟩

end Singleton

end BoostActor
