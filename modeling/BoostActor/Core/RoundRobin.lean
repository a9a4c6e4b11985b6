import BoostActor.Core.PoolMessages
import BoostActor.Lib.RoundRobin

/-!
# Pools that take turns

The policy `actor_pool::round_robin` has a counter of its own, which outlives all changes
of the workers. A call increments it and selects the worker at the old value, modulo the
number of workers at that time.

* `roundRobin_fair` — as long as the workers stay the same and the counter does not wrap
  around, every worker gets its share, and consecutive messages go to different workers.
-/

namespace BoostActor

open Lib

/-- A pool with the policy `round_robin`. -/
structure RoundRobinPool where
  pool : PoolState
  /-- `pos_`, a `size_t` -/
  pos : UInt64
deriving DecidableEq, Repr

namespace RoundRobinPool

/-- What a call does to the counter, and the workers that get the message. -/
def call (s : UInt64 × List ActorRef) : PoolEffect → UInt64 × List ActorRef
  | .dispatch ws => (s.1 + 1, s.2 ++ (ActorPool.Policy.roundRobin s.1.toNat).select ws)
  | _ => s

/-- A message to the pool, and the workers that get it. -/
def enqueue (s : RoundRobinPool) (e : PoolElement) : RoundRobinPool × List ActorRef :=
  let (pool, effects) := s.pool.enqueue e
  let (pos, receivers) := effects.foldl call (s.pos, [])
  (⟨pool, pos⟩, receivers)

/-- One message after the other, and the workers that get them. -/
def run (s : RoundRobinPool) : List PoolElement → RoundRobinPool × List ActorRef
  | [] => (s, [])
  | e :: es => (((s.enqueue e).1.run es).1, (s.enqueue e).2 ++ ((s.enqueue e).1.run es).2)

/-- A message that does not change the workers. -/
def Keeps (s : PoolState) (e : PoolElement) : Prop := (s.enqueue e).1.workers = s.workers

instance (s : PoolState) (e : PoolElement) : Decidable (Keeps s e) :=
  inferInstanceAs (Decidable (_ = _))

-- -------------------------
-- Effects of a message
-- -------------------------

/-- The policy is only called with workers, once at most. -/
theorem effects_cases (s : PoolState) (e : PoolElement) :
    (∀ ws, .dispatch ws ∉ (s.enqueue e).2) ∨
      s.workers ≠ [] ∧ s.enqueue e = (s, [.dispatch s.workers]) := by
  by_cases hplan : s.plannedReason = ExitReason.notExited
  · by_cases hwork : e.content = .work ∧ s.workers ≠ []
    · refine .inr ⟨hwork.2, ?_⟩
      unfold PoolState.enqueue PoolState.filter
      rw [if_neg (not_not.mpr hplan), hwork.1]
      simp [hwork.2]
    · left
      intro ws
      rw [PoolState.effects_of_running e hplan]
      cases hcontent : e.content with
      | exit reason => simp
      | down source => simp
      | put worker => cases worker <;> simp
      | get =>
        dsimp only
        split_ifs <;> simp
      | work =>
        -- without workers there is nobody to dispatch to
        have hnil : s.workers = [] := by
          by_contra hne
          exact hwork ⟨hcontent, hne⟩
        dsimp only
        rw [if_pos hnil]
        split_ifs <;> simp
  · left
    intro ws
    rw [PoolState.enqueue_of_planned e hplan]
    unfold PoolState.bounce
    split_ifs <;> simp

/-- Effects without a dispatch call nobody. -/
theorem foldl_call {effects : List PoolEffect} (h : ∀ ws, .dispatch ws ∉ effects)
    (s : UInt64 × List ActorRef) : effects.foldl call s = s := by
  induction effects with
  | nil => rfl
  | cons effect effects ih =>
    have hcall : call s effect = s := by
      cases effect with
      | dispatch ws => exact absurd List.mem_cons_self (h ws)
      | _ => rfl
    rw [List.foldl_cons, hcall]
    exact ih fun ws hws => h ws (List.mem_cons_of_mem _ hws)

/-- A message goes to nobody, or to the one whose turn it is. -/
theorem enqueue_cases (s : RoundRobinPool) (e : PoolElement) :
    s.enqueue e = (⟨(s.pool.enqueue e).1, s.pos⟩, []) ∨
      s.pool.workers ≠ [] ∧ s.enqueue e =
        (⟨(s.pool.enqueue e).1, s.pos + 1⟩, (turn? s.pool.workers s.pos.toNat).toList) := by
  obtain hnone | ⟨hne, hone⟩ := effects_cases s.pool e
  · left
    unfold enqueue
    dsimp only
    rw [foldl_call hnone]
  · right
    refine ⟨hne, ?_⟩
    unfold enqueue
    rw [hone]
    rfl

-- -------------------------
-- Turns
-- -------------------------

/-- Without changes of the workers, they take turns. -/
theorem run_eq_turns {s : RoundRobinPool} {es : List PoolElement}
    (hkeeps : PoolState.EveryCall Keeps s.pool es)
    (hpos : s.pos.toNat + (s.run es).2.length ≤ 2 ^ 64) :
    (s.run es).2 = turns s.pool.workers s.pos.toNat (s.run es).2.length := by
  induction es generalizing s with
  | nil => rfl
  | cons e es ih =>
    obtain ⟨hkeep, hrest⟩ := hkeeps
    obtain hnone | ⟨hne, hone⟩ := s.enqueue_cases e
    · -- a message that is not dispatched leaves the counter
      have htail := ih (s := ⟨(s.pool.enqueue e).1, s.pos⟩) hrest
      rw [hkeep] at htail
      rw [run, hnone] at hpos ⊢
      exact htail hpos
    · -- a message that is dispatched goes to the worker whose turn it is
      have htail := ih (s := ⟨(s.pool.enqueue e).1, s.pos + 1⟩) hrest
      rw [hkeep] at htail
      obtain ⟨_, hturn⟩ := turn?_eq_some hne s.pos.toNat
      rw [run, hone, hturn] at hpos ⊢
      generalize (run ⟨(s.pool.enqueue e).1, s.pos + 1⟩ es).2 = receivers at *
      rw [Option.toList_some, List.length_append, List.length_singleton] at hpos
      rw [Option.toList_some, List.length_append, List.length_singleton, Nat.add_comm, turns,
        hturn]
      by_cases hnil : receivers = []
      · -- the last message may take the counter to its end
        rw [hnil]
        rfl
      · have hlength := List.length_pos_of_ne_nil hnil
        have hsucc : (s.pos + 1).toNat = s.pos.toNat + 1 := by
          rw [UInt64.toNat_add]
          exact Nat.mod_eq_of_lt (by show s.pos.toNat + 1 < 2 ^ 64; omega)
        rw [hsucc] at htail
        exact congrArg _ (htail (by omega))

/-- For every pool, every value of the counter and all messages before, whatever they do to
the workers: of the messages from then on, as long as the workers stay the same and the
counter does not wrap around, every worker gets its share, rounded down or up, for each of
its places. The workers of a set have one place each, and two consecutive messages go to
different ones of them. -/
theorem roundRobin_fair (start : RoundRobinPool) (before es : List PoolElement)
    (hkeeps : PoolState.EveryCall Keeps (start.run before).1.pool es)
    (hpos : (start.run before).1.pos.toNat + ((start.run before).1.run es).2.length ≤ 2 ^ 64) :
    let workers := (start.run before).1.pool.workers
    let receivers := ((start.run before).1.run es).2
    let n := workers.length
    let k := receivers.length
    (∀ w, workers.count w * (k / n) ≤ receivers.count w ∧
      receivers.count w ≤ workers.count w * ((k + n - 1) / n)) ∧
    (workers.Nodup →
      (∀ w ∈ workers, receivers.count w = k / n ∨ receivers.count w = (k + n - 1) / n) ∧
      (1 < n → receivers.IsChain (· ≠ ·))) := by
  intro workers receivers n k
  have hturns : receivers = turns workers (start.run before).1.pos.toNat k :=
    run_eq_turns hkeeps hpos
  have hshare : ∀ w, workers.count w * (k / n) ≤ receivers.count w ∧
      receivers.count w ≤ workers.count w * ((k + n - 1) / n) := by
    intro w
    rw [hturns]
    exact ⟨length_div_mul_count_le _ _ _ w, count_le_mul_length_div _ _ _ w⟩
  refine ⟨hshare, fun hnodup => ⟨fun w hw => ?_, fun hone => ?_⟩⟩
  · obtain ⟨hleast, hmost⟩ := hshare w
    have hn : 0 < n := List.length_pos_of_mem hw
    rw [List.count_eq_one_of_mem hnodup hw, Nat.one_mul] at hleast hmost
    -- rounding up adds one at most
    have hround : (k + n - 1) / n ≤ k / n + 1 := by
      rw [← Nat.add_div_right k hn]
      exact Nat.div_le_div_right (by omega)
    omega
  · rw [hturns]
    exact isChain_turns hnodup hone _ _

/-- Four workers after one has been added, and six messages. -/
theorem roundRobin_fair_four :
    let start : RoundRobinPool := ⟨.make [1, 2, 3], 2⟩
    let work : PoolElement := ⟨.invalid, 0, [.other]⟩
    ((start.run [work, ⟨.invalid, 0, (ActorPool.Request.put (some 4)).msg⟩]).1.run
        (List.replicate 6 work)).2 =
        [4, 1, 2, 3, 4, 1] ∧
      [4, 1, 2, 3, 4, 1].IsChain (· ≠ ·) :=
  ⟨by decide, ((roundRobin_fair ⟨.make [1, 2, 3], 2⟩
    [⟨.invalid, 0, [.other]⟩, ⟨.invalid, 0, (ActorPool.Request.put (some 4)).msg⟩]
    (List.replicate 6 ⟨.invalid, 0, [.other]⟩) ⟨by decide, by decide, by decide, by decide,
      by decide, by decide, trivial⟩ (by decide)).2 (by decide)).2 (by decide)⟩

end RoundRobinPool

end BoostActor
