import BoostActor.Lib.Run
import BoostActor.Core.MailboxElement
import BoostActor.Core.Message

/-!
# Actor pools

An actor pool has no thread of its own. A message to it is a call in the thread of its
sender: `filter` looks at the message with a shared lock, gives that lock up to get the
exclusive one, and then changes the workers. In between, other calls go first.

`filter` recognises a message to the pool by the types of its elements alone, and every atom
has the same type. So a message that asks to delete a worker passes the test for a message
with a new worker, which comes first: the worker is monitored and inserted once more.

A worker that terminates calls the pool with a down message for every monitor. A monitor on a
terminated worker fires at once, in the thread that attaches it. `make` does this without a
lock. A put message does it with the shared lock still held, so that the call for the down
message waits for its own thread: nobody gets the exclusive lock from then on.

* `entries_covered` — every entry has a monitor or a down message to come;
* `workers_alive` — when all down messages have been processed, all workers are alive, in every
  run in which down messages do not overtake the insertion of their worker.
-/

namespace BoostActor

open Lib

-- -------------------------
-- Messages
-- -------------------------

/-- An element of a message to a pool. A handle or address may be invalid. -/
inductive PoolValue where
  | exitMsg (reason : ExitReason)
  | downMsg (source : Option ActorRef)
  | atom (value : UInt64)
  | actor (handle : Option ActorRef)
  /-- an element of any other type -/
  | other
deriving DecidableEq, Repr

/-- The branches of `filter`, with the elements that they use. -/
inductive PoolContent where
  | exit (reason : ExitReason)
  | down (source : Option ActorRef)
  | put (worker : Option ActorRef)
  | get
  /-- what is meant for a worker -/
  | work
deriving DecidableEq, Repr

/-- The first test of `filter` that a message passes. `match_elements` compares the types of
the elements, and an atom constant stands for the type of all atoms. -/
def PoolContent.of : List PoolValue → PoolContent
  | [.exitMsg reason] => .exit reason
  | [.downMsg source] => .down source
  -- `{sys_atom, put_atom, actor}`; the test for `{sys_atom, delete_atom, actor}` comes later
  -- and asks for the same types, so no message passes that one first
  | [.atom _, .atom _, .actor worker] => .put worker
  -- `{sys_atom, get_atom}`
  | [.atom _, .atom _] => .get
  | _ => .work

namespace ActorPool

/-- A call that waits for the exclusive lock. -/
inductive Call where
  | exit (reason : ExitReason)
  | down (source : ActorRef)
  | put (worker : ActorRef)
deriving DecidableEq, Repr

/-- Where `make` is. -/
inductive Making where
  /-- `make` has returned -/
  | done
  /-- at the beginning of the loop, with the number of workers to come -/
  | loop (n : Nat)
  /-- `attach` calls the pool, since the worker has terminated; `locking` says whether the call
  has come to the exclusive lock -/
  | attaching (n : Nat) (worker : ActorRef) (locking : Bool)
  /-- the monitor is attached -/
  | attached (n : Nat) (worker : ActorRef)
deriving DecidableEq, Repr

/-- What others send to a pool. -/
inductive Request where
  | exit (reason : ExitReason)
  | put (worker : Option ActorRef)
  | delete (what : Option ActorRef)
deriving DecidableEq, Repr

/-- The elements of the message. -/
def Request.msg : Request → List PoolValue
  | .exit reason => [.exitMsg reason]
  | .put worker => [.atom (atom "SYS"), .atom (atom "PUT"), .actor worker]
  | .delete what => [.atom (atom "SYS"), .atom (atom "DELETE"), .actor what]

end ActorPool

/-- `actor_pool`, with what matters about its workers. -/
structure ActorPool where
  workers : List ActorRef
  plannedReason : ExitReason
  making : ActorPool.Making
  waiting : List ActorPool.Call
  /-- the calls that hold a shared lock forever -/
  stuck : Nat
  /-- the down messages that have not entered the pool yet, by their source -/
  downs : List ActorRef
  exited : ActorRef → Bool
  /-- the monitors of the pool at a worker -/
  monitors : ActorRef → Nat

namespace ActorPool

/-- A new pool, by either version of `make`; nothing has been attached to any actor yet. -/
def isInitial (s : ActorPool) : Prop :=
  s.workers = [] ∧ s.plannedReason = ExitReason.notExited ∧
    (s.making = .done ∨ ∃ n, s.making = .loop n) ∧ s.waiting = [] ∧ s.stuck = 0 ∧ s.downs = [] ∧
    s.monitors = fun _ => 0

-- -------------------------
-- Calls
-- -------------------------

/-- `attach`, for an actor that has not terminated. -/
def attach (s : ActorPool) (w : ActorRef) : ActorPool :=
  { s with monitors := Function.update s.monitors w (s.monitors w + 1) }

/-- `filter`, up to the exclusive lock. A pool that has quit bounces messages. -/
def filter (s : ActorPool) (c : Call) : ActorPool :=
  if s.plannedReason ≠ ExitReason.notExited then s else { s with waiting := s.waiting ++ [c] }

/-- `filter`, up to the exclusive lock, for a new worker. -/
def putWorker (s : ActorPool) (w : ActorRef) : ActorPool :=
  if s.plannedReason ≠ ExitReason.notExited then s
  else if s.exited w then
    -- the call for the down message does not get the lock that its own thread holds
    { s with stuck := s.stuck + 1, waiting := s.waiting ++ [.down w] }
  else (s.attach w).filter (.put w)

/-- `filter`, up to the exclusive lock, for the messages of others. -/
def request (s : ActorPool) (r : Request) : ActorPool :=
  match PoolContent.of r.msg with
  | .exit reason => s.filter (.exit reason)
  | .put (some w) => s.putWorker w
  | _ => s

/-- A worker that is to be deleted is treated as a new one. -/
theorem request_delete (s : ActorPool) (what : Option ActorRef) :
    s.request (.delete what) = s.request (.put what) := rfl

/-- `filter`, with the exclusive lock. -/
def locked (s : ActorPool) : Call → ActorPool
  | .exit reason => { s with workers := [], plannedReason := reason }
  | .down source =>
    let workers := s.workers.erase source
    { s with
      workers
      plannedReason := if workers.isEmpty then ExitReason.outOfWorkers else s.plannedReason }
  | .put w => { s with workers := s.workers ++ [w] }

/-- A worker terminates, and its monitors fire. -/
def terminate (s : ActorPool) (w : ActorRef) : ActorPool :=
  { s with
    exited := Function.update s.exited w true
    downs := s.downs ++ List.replicate (s.monitors w) w
    monitors := Function.update s.monitors w 0 }

-- -------------------------
-- Steps
-- -------------------------

inductive Move where
  | terminate (w : ActorRef)
  | request (r : Request)
  /-- a down message enters the pool -/
  | deliver (source : ActorRef)
  /-- a call gets the exclusive lock -/
  | lock (c : Call)
  /-- `make` gets a worker from its factory and attaches a monitor -/
  | makeAttach (worker : ActorRef)
  /-- the next part of the call that `attach` makes -/
  | makeDown
  /-- `make` inserts the worker -/
  | makePush
  | makeReturn
deriving DecidableEq, Repr

/-- A step of `make`. -/
def makeStep (s : ActorPool) : Move → Option ActorPool
  | .makeAttach w =>
    match s.making with
    | .loop (n + 1) =>
      if s.exited w then some { s with making := .attaching n w false }
      else some { s.attach w with making := .attached n w }
    | _ => none
  | .makeDown =>
    match s.making with
    | .attaching n w false =>
      if s.plannedReason ≠ ExitReason.notExited then some { s with making := .attached n w }
      else some { s with making := .attaching n w true }
    | .attaching n w true =>
      if s.stuck = 0 then some { s.locked (.down w) with making := .attached n w } else none
    | _ => none
  | .makePush =>
    match s.making with
    | .attached n w => some { s.locked (.put w) with making := .loop n }
    | _ => none
  | .makeReturn => if s.making = .loop 0 then some { s with making := .done } else none
  | _ => none

def step (s : ActorPool) : Move → Option ActorPool
  | .terminate w => some (s.terminate w)
  | .request r => if s.making = .done then some (s.request r) else none
  | .deliver w =>
    if w ∈ s.downs then some ({ s with downs := s.downs.erase w }.filter (.down w)) else none
  | .lock c =>
    if c ∈ s.waiting ∧ s.stuck = 0 then
      some ({ s with waiting := s.waiting.erase c }.locked c)
    else none
  | m => s.makeStep m

/-- The states of runs whose steps all meet a condition. -/
def Reachable (ok : ActorPool → Move → Prop) : ActorPool → Prop := Reach isInitial step ok

-- -------------------------
-- Dispatching
-- -------------------------

/-- The policies that come with the library; `pos` and `i` are the positions they draw. -/
inductive Policy where
  | roundRobin (pos : Nat)
  | broadcast
  | random (i : Nat)
deriving DecidableEq, Repr

/-- The workers that get a message. -/
def Policy.select (p : Policy) (workers : List ActorRef) : List ActorRef :=
  match p with
  | .roundRobin pos => (workers[pos % workers.length]?).toList
  | .broadcast => workers.tail ++ workers.head?.toList
  | .random i => (workers[i]?).toList

/-- A message is dispatched to workers of the pool only. -/
theorem Policy.mem_of_mem_select {p : Policy} {workers : List ActorRef} {w : ActorRef}
    (h : w ∈ p.select workers) : w ∈ workers := by
  cases p with
  | roundRobin pos => exact List.mem_of_getElem? (Option.mem_toList.mp h)
  | random i => exact List.mem_of_getElem? (Option.mem_toList.mp h)
  | broadcast =>
    rcases List.mem_append.mp h with h | h
    · exact List.mem_of_mem_tail h
    · exact List.mem_of_mem_head? (Option.mem_toList.mp h)

-- -------------------------
-- The condition
-- -------------------------

/-- The down messages of a worker that have not been processed. -/
def outstanding (s : ActorPool) (w : ActorRef) : Nat :=
  s.downs.count w + s.waiting.count (.down w) +
    match s.making with
    | .attaching _ v _ => if v = w then 1 else 0
    | _ => 0

/-- The calls that have attached a monitor to a worker and not inserted it yet. -/
def inserting (s : ActorPool) (w : ActorRef) : Nat :=
  s.waiting.count (.put w) +
    match s.making with
    | .attaching _ v _ => if v = w then 1 else 0
    | .attached _ v => if v = w then 1 else 0
    | _ => 0

/-- The source of a down message that is processed without removing an entry. -/
def ignored (s : ActorPool) : Move → Option ActorRef
  | .deliver w => if s.plannedReason ≠ ExitReason.notExited then some w else none
  | .lock (.down w) => if w ∈ s.workers then none else some w
  | .makeDown =>
    match s.making with
    | .attaching _ w false => if s.plannedReason ≠ ExitReason.notExited then some w else none
    | .attaching _ w true => if w ∈ s.workers then none else some w
    | _ => none
  | _ => none

/-- A worker is inserted. -/
def Move.inserts : Move → Bool
  | .lock (.put _) | .makePush => true
  | _ => false

/-- No down message is ignored while its source is being inserted, and nothing is inserted
after the pool has quit. -/
def inOrder (s : ActorPool) (m : Move) : Prop :=
  (∀ w ∈ s.ignored m, s.inserting w = 0) ∧
    (m.inserts = true → s.plannedReason = ExitReason.notExited)

instance (s : ActorPool) (m : Move) : Decidable (inOrder s m) :=
  inferInstanceAs (Decidable (_ ∧ _))

-- -------------------------
-- The invariant
-- -------------------------

variable {s s' : ActorPool} {w : ActorRef} {m : Move}

/-- Every entry, and every entry to come, has a monitor or a down message to come. -/
structure Covered (s : ActorPool) : Prop where
  cover : ∀ w, s.workers.count w + s.inserting w ≤ s.monitors w + s.outstanding w
  quit : s.plannedReason ≠ ExitReason.notExited → s.workers = []
  dead : ∀ w, s.exited w = true → s.monitors w = 0

/-- The monitors of a worker that terminates turn into down messages. -/
theorem Covered.terminate (h : Covered s) (v : ActorRef) : Covered (s.terminate v) := by
  refine ⟨fun w => ?_, h.quit, fun w hw => ?_⟩
  · have hc := h.cover w
    simp only [ActorPool.terminate, outstanding, inserting, List.count_append,
      List.count_replicate, Function.update_apply] at hc ⊢
    by_cases hv : v = w
    · subst hv
      simp only [beq_self_eq_true, if_true]
      omega
    · simp only [beq_eq_false_iff_ne.mpr hv, Ne.symm hv, if_false, Bool.false_eq_true]
      omega
  · simp only [ActorPool.terminate, Function.update_apply] at hw ⊢
    split
    · rfl
    · next hne =>
      rw [if_neg hne] at hw
      exact h.dead w hw

/-- How often an element is in a list that another one was put behind. -/
theorem count_concat {α : Type} [DecidableEq α] (l : List α) (a b : α) :
    (l ++ [a]).count b = l.count b + if a = b then 1 else 0 := by
  simp [List.count_singleton]

/-- Erasing an element that is there. -/
theorem count_erase_add {α : Type} [DecidableEq α] {l : List α} {a : α} (h : a ∈ l) (b : α) :
    (l.erase a).count b + (if a = b then 1 else 0) = l.count b := by
  rw [List.count_erase]
  by_cases hb : a = b
  · subst hb
    have := List.count_pos_iff.mpr h
    simp
    omega
  · simp [hb]

/-- A call enters that is neither for a down message nor for a new worker. -/
theorem Covered.filter (h : Covered s) {c : Call} (hd : ∀ v, c ≠ .down v) (hp : ∀ v, c ≠ .put v) :
    Covered (s.filter c) := by
  unfold ActorPool.filter
  split
  · exact h
  · refine ⟨fun w => ?_, h.quit, h.dead⟩
    have hc := h.cover w
    simp only [outstanding, inserting, count_concat, hd w, hp w, if_false] at hc ⊢
    exact hc

/-- A new worker is monitored before it is inserted, or its down message is on the way. -/
theorem Covered.put (h : Covered s) (v : ActorRef) : Covered (s.putWorker v) := by
  unfold ActorPool.putWorker
  split
  · exact h
  next hplan =>
  split
  · refine ⟨fun w => ?_, h.quit, h.dead⟩
    have hc := h.cover w
    simp only [outstanding, inserting, count_concat, reduceCtorEq, if_false] at hc ⊢
    omega
  · next hx =>
    unfold ActorPool.filter attach
    rw [if_neg hplan]
    refine ⟨fun w => ?_, h.quit, fun w hw => ?_⟩
    · -- the new monitor covers the entry that the waiting call will make
      have hc := h.cover w
      simp only [outstanding, inserting, count_concat, reduceCtorEq, if_false,
        Function.update_apply, Call.put.injEq] at hc ⊢
      by_cases hv : v = w
      · subst hv
        simp only [if_true]
        omega
      · simp only [hv, Ne.symm hv, if_false]
        omega
    · -- a monitor is attached to a worker that is alive
      simp only [Function.update_apply]
      split
      · next he =>
        subst he
        exact absurd hw (by simpa using hx)
      · exact h.dead w hw

/-- A down message leaves the mailbox and waits for the lock, where it still counts. -/
theorem Covered.deliver (h : Covered s) (hw : w ∈ s.downs) (hok : inOrder s (.deliver w)) :
    Covered ({ s with downs := s.downs.erase w }.filter (.down w)) := by
  have hcount := count_erase_add hw
  unfold ActorPool.filter
  split
  · next hplan =>
    -- the pool has quit, so there is no entry
    replace hplan : s.plannedReason ≠ ExitReason.notExited := hplan
    have hno : s.inserting w = 0 := hok.1 w (by simp [ignored, hplan])
    refine ⟨fun v => ?_, h.quit, h.dead⟩
    have hc := h.cover v
    have hv := hcount v
    by_cases he : w = v
    · subst he
      have hwork : s.workers.count w = 0 := by simp [h.quit hplan]
      show s.workers.count w + s.inserting w ≤ _
      omega
    · rw [if_neg he] at hv
      simp only [outstanding, inserting] at hc ⊢
      omega
  · -- otherwise the call waits, with the message
    refine ⟨fun v => ?_, h.quit, h.dead⟩
    have hc := h.cover v
    have hv := hcount v
    simp only [outstanding, inserting, count_concat, reduceCtorEq, if_false,
      Call.down.injEq] at hc ⊢
    omega

/-- The exclusive part of a call. What it does to the entries of a worker must be covered. -/
theorem Covered.locked (h : Covered s) (c : Call) (s' : ActorPool)
    (hwork : s'.workers = (s.locked c).workers)
    (hplan : s'.plannedReason = (s.locked c).plannedReason)
    (hmon : s'.monitors = s.monitors) (hx : s'.exited = s.exited)
    (hput : ∀ w, c = .put w → s.plannedReason = ExitReason.notExited)
    (hcover : ∀ w, (s.locked c).workers.count w + s'.inserting w ≤
      s.monitors w + s'.outstanding w) : Covered s' := by
  refine ⟨fun w => ?_, fun hq => ?_, fun w hw => ?_⟩
  · rw [hwork, hmon]
    exact hcover w
  · rw [hplan] at hq
    rw [hwork]
    cases c with
    | exit reason => rfl
    | down v =>
      simp only [ActorPool.locked] at hq ⊢
      split at hq
      · next he => exact List.isEmpty_iff.mp he
      · rw [h.quit hq]
        rfl
    | put v => exact absurd (hput v rfl) hq
  · rw [hmon]
    rw [hx] at hw
    exact h.dead w hw

-- -------------------------
-- With the exclusive lock
-- -------------------------

/-- What is being inserted depends on the calls that wait. -/
@[simp] theorem inserting_locked (s : ActorPool) (c : Call) (w : ActorRef) :
    (s.locked c).inserting w = s.inserting w := by
  cases c <;> rfl

/-- What is outstanding depends on mailbox and calls that wait. -/
@[simp] theorem outstanding_locked (s : ActorPool) (c : Call) (w : ActorRef) :
    (s.locked c).outstanding w = s.outstanding w := by
  cases c <;> rfl

/-- With the lock, an entry and the call that covered it come and go together. -/
theorem Covered.lock {c : Call} (h : Covered s) (hc : c ∈ s.waiting) (hok : inOrder s (.lock c)) :
    Covered ({ s with waiting := s.waiting.erase c }.locked c) := by
  refine h.locked c _ ?_ ?_ ?_ ?_ (fun w he => hok.2 (by rw [he]; rfl)) fun v => ?_
  · cases c <;> rfl
  · cases c <;> rfl
  · cases c <;> rfl
  · cases c <;> rfl
  rw [inserting_locked, outstanding_locked]
  have hcov := h.cover v
  have hput := count_erase_add hc (.put v)
  have hdown := count_erase_add hc (.down v)
  -- the call no longer waits
  have hins : { s with waiting := s.waiting.erase c }.inserting v +
      (if c = .put v then 1 else 0) = s.inserting v := by
    simp only [inserting]
    omega
  have hout : { s with waiting := s.waiting.erase c }.outstanding v +
      (if c = .down v then 1 else 0) = s.outstanding v := by
    simp only [outstanding]
    omega
  cases c with
  | exit reason =>
    simp only [reduceCtorEq, if_false, ActorPool.locked, List.count_nil] at hins hout ⊢
    omega
  -- the entry that was to come is there
  | put w =>
    simp only [reduceCtorEq, if_false, ActorPool.locked, Call.put.injEq,
      count_concat] at hins hout ⊢
    omega
  | down w =>
    simp only [reduceCtorEq, if_false, ActorPool.locked, Call.down.injEq] at hins hout ⊢
    by_cases hw : w ∈ s.workers
    · -- one entry less, and one message less
      have herase := count_erase_add hw v
      omega
    · rw [List.erase_of_not_mem hw]
      by_cases he : w = v
      · -- the message is ignored, so no entry is to come
        subst he
        have hno : s.inserting w = 0 := hok.1 w (by simp [ignored, hw])
        have hzero := List.count_eq_zero.mpr hw
        omega
      · rw [if_neg he] at hout
        omega

/-- `make` monitors a worker, or is called by the down message of one that has terminated. -/
theorem Covered.makeAttach {n : Nat} (h : Covered s) (hm : s.making = .loop (n + 1))
    (v : ActorRef) : Covered (if s.exited v then { s with making := .attaching n v false }
      else { s.attach v with making := .attached n v }) := by
  split
  · refine ⟨fun w => ?_, h.quit, h.dead⟩
    have hc := h.cover w
    simp only [outstanding, inserting, hm] at hc ⊢
    omega
  · next hx =>
    refine ⟨fun w => ?_, h.quit, fun w hw => ?_⟩
    · have hc := h.cover w
      -- the new monitor covers the entry that `make` will make
      simp only [attach, outstanding, inserting, hm, Function.update_apply] at hc ⊢
      by_cases hv : v = w
      · subst hv
        simp only [if_true]
        omega
      · simp only [hv, Ne.symm hv, if_false]
        omega
    · -- a monitor is attached to a worker that is alive
      simp only [attach, Function.update_apply]
      split
      · next he =>
        subst he
        exact absurd (show s.exited w = true from hw) (by simpa using hx)
      · exact h.dead w hw

/-- The call that `attach` makes in `make` must find an entry, since an insertion is in
progress. -/
theorem inserting_of_attaching {n : Nat} {locking : Bool}
    (hm : s.making = .attaching n w locking) : s.inserting w ≠ 0 := by
  simp [inserting, hm]

/-- A down message that is processed within `make` removes an entry of its worker. -/
theorem Covered.makeDown {n : Nat} {locking : Bool} (h : Covered s)
    (hm : s.making = .attaching n w locking) (hok : inOrder s .makeDown)
    (hs : s.makeStep .makeDown = some s') : Covered s' := by
  cases locking with
  | false =>
    simp only [makeStep, hm] at hs
    split at hs
    · -- the entry of this worker is still to come, so the message must not be ignored
      next hplan =>
      exact absurd (hok.1 w (by simp [ignored, hm, hplan])) (inserting_of_attaching hm)
    · cases hs
      refine ⟨fun v => ?_, h.quit, h.dead⟩
      have hc := h.cover v
      simp only [outstanding, inserting, hm] at hc ⊢
      exact hc
  | true =>
    simp only [makeStep, hm] at hs
    split at hs
    · cases hs
      -- for the same reason there is an entry to remove
      have hw : w ∈ s.workers := by
        by_contra hno
        exact inserting_of_attaching hm (hok.1 w (by simp [ignored, hm, hno]))
      refine h.locked (.down w) _ rfl rfl rfl rfl (fun _ he => nomatch he) fun v => ?_
      have hc := h.cover v
      have herase := count_erase_add hw v
      simp only [ActorPool.locked, outstanding, inserting, hm] at hc ⊢
      omega
    · cases hs

/-- The entry that `make` was about to make. -/
theorem Covered.makePush {n : Nat} (h : Covered s) (hm : s.making = .attached n w)
    (hok : inOrder s .makePush) : Covered { s.locked (.put w) with making := .loop n } := by
  refine h.locked (.put w) _ rfl rfl rfl rfl (fun _ _ => hok.2 rfl) fun v => ?_
  have hc := h.cover v
  simp only [ActorPool.locked, outstanding, inserting, hm, count_concat] at hc ⊢
  omega

/-- What others request is covered like what a pool does itself. -/
theorem Covered.request (h : Covered s) (r : Request) : Covered (s.request r) := by
  match r with
  | .exit reason => exact h.filter (fun _ he => nomatch he) fun _ he => nomatch he
  | .put none | .delete none => exact h
  | .put (some v) | .delete (some v) => exact h.put v

-- -------------------------
-- Runs
-- -------------------------

/-- Every step keeps entries covered. -/
theorem Covered.step (h : Covered s) (hok : inOrder s m) (hs : s.step m = some s') :
    Covered s' := by
  cases m with
  | terminate w =>
    cases hs
    exact h.terminate w
  | request r =>
    simp only [ActorPool.step] at hs
    split at hs
    · cases hs
      exact h.request r
    · cases hs
  | deliver w =>
    simp only [ActorPool.step] at hs
    split at hs
    · next hw =>
      cases hs
      exact h.deliver hw hok
    · cases hs
  | lock c =>
    simp only [ActorPool.step] at hs
    split at hs
    · next hc =>
      cases hs
      exact h.lock hc.1 hok
    · cases hs
  | makeAttach v =>
    simp only [ActorPool.step, makeStep] at hs
    split at hs
    · next n hm =>
      have hcov := h.makeAttach hm v
      split at hs
      · next hx =>
        cases hs
        rwa [if_pos hx] at hcov
      · next hx =>
        cases hs
        rwa [if_neg hx] at hcov
    · cases hs
  | makeDown =>
    cases hm : s.making with
    | attaching n w locking => exact h.makeDown hm hok hs
    | _ => simp [ActorPool.step, makeStep, hm] at hs
  | makePush =>
    simp only [ActorPool.step, makeStep] at hs
    split at hs
    · next n w hm =>
      cases hs
      exact h.makePush hm hok
    · cases hs
  | makeReturn =>
    simp only [ActorPool.step, makeStep] at hs
    split at hs
    · next hm =>
      cases hs
      refine ⟨fun w => ?_, h.quit, h.dead⟩
      have hc := h.cover w
      simp only [outstanding, inserting, hm] at hc ⊢
      exact hc
    · cases hs

/-- In runs in which down messages do not overtake their workers, entries are covered. -/
theorem entries_covered (h : Reachable inOrder s) : Covered s := by
  refine Reach.invariant (fun s hs => ?_) (fun _ _ _ hI hok hs => hI.step hok hs) h
  obtain ⟨hwork, hplan, hmake, hwait, -, hdowns, hmon⟩ := hs
  refine ⟨fun w => ?_, fun _ => hwork, fun w _ => by rw [hmon]⟩
  rcases hmake with hm | ⟨n, hm⟩
  · simp [inserting, hwork, hwait, hm]
  · simp [inserting, hwork, hwait, hm]

/-- In every run in which down messages do not overtake the insertion of their worker: when all
down messages have been processed, no worker has terminated, and no message is dispatched to an
actor that has. -/
theorem workers_alive (h : Reachable inOrder s) (hd : ∀ w, s.outstanding w = 0) :
    (∀ w ∈ s.workers, s.exited w = false) ∧
    ∀ policy : Policy, ∀ w ∈ policy.select s.workers, s.exited w = false := by
  have halive : ∀ w ∈ s.workers, s.exited w = false := by
    intro w hw
    by_contra hx
    have hc := (entries_covered h).cover w
    rw [(entries_covered h).dead w (by simpa using hx), hd] at hc
    have := List.count_pos_iff.mpr hw
    omega
  exact ⟨halive, fun policy w hw => halive w (Policy.mem_of_mem_select hw)⟩

/-- A pool before anything has happened. -/
def fresh (making : Making) : ActorPool where
  workers := []
  plannedReason := ExitReason.notExited
  making
  waiting := []
  stuck := 0
  downs := []
  exited _ := false
  monitors _ := 0

/-- No down message is anywhere. -/
theorem outstanding_eq_zero (hm : s.making = .done) (hw : s.waiting = []) (hd : s.downs = [])
    (w : ActorRef) : s.outstanding w = 0 := by
  simp [outstanding, hm, hw, hd]

/-- Two workers are added. One of them is to be deleted, which adds it once more, and then it
terminates. -/
theorem workers_alive_put : ∃ s, Reachable inOrder s ∧ s.exited 1 = true ∧ s.workers = [2] ∧
    s.exited 2 = false := by
  obtain ⟨s, hr, hs⟩ := exists_run
    (fun s m => if inOrder s m then step s m else none) (fresh .done)
    [.request (.put (some 1)), .lock (.put 1), .request (.put (some 2)),
      .request (.delete (some 1)), .lock (.put 1), .terminate 1, .lock (.put 2), .deliver 1,
      .lock (.down 1), .deliver 1, .lock (.down 1)]
    (fun s => decide (s.exited 1 = true ∧ s.workers = [2] ∧ s.making = .done ∧ s.waiting = [] ∧
      s.downs = [])) (by decide)
  have h : Reachable inOrder s :=
    reach_of_checked_run (.init ⟨rfl, rfl, .inl rfl, rfl, rfl, rfl, rfl⟩) hr
  obtain ⟨hx, hwork, hm, hw, hd⟩ := of_decide_eq_true hs
  refine ⟨s, h, hx, hwork, ?_⟩
  exact (workers_alive h (outstanding_eq_zero hm hw hd)).1 2 (by simp [hwork])

/-- A worker of `make` has terminated before the pool attaches its monitor: the down message is
processed at once, and then the worker is inserted. -/
theorem dead_worker_kept : ∃ s, Reachable anyStep s ∧ (∀ w, s.outstanding w = 0) ∧
    ¬ ∀ w ∈ s.workers, s.exited w = false := by
  obtain ⟨s, hr, hs⟩ := exists_run step (fresh (.loop 2))
    [.terminate 2, .makeAttach 1, .makePush, .makeAttach 2, .makeDown, .makeDown, .makePush,
      .makeReturn]
    (fun s => decide (s.exited 2 = true ∧ s.workers = [1, 2] ∧ s.making = .done ∧
      s.waiting = [] ∧ s.downs = [])) (by decide)
  have h : Reachable anyStep s :=
    reach_of_run (.init ⟨rfl, rfl, .inr ⟨2, rfl⟩, rfl, rfl, rfl, rfl⟩) hr
  obtain ⟨hx, hwork, hm, hw, hd⟩ := of_decide_eq_true hs
  refine ⟨s, h, outstanding_eq_zero hm hw hd, fun hall => ?_⟩
  rw [hall 2 (by simp [hwork])] at hx
  exact Bool.noConfusion hx

end ActorPool

end BoostActor
