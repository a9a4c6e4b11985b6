import BoostActor.Core.Binary
import BoostActor.Lib.Deque
import BoostActor.Lib.ListSegment
import BoostActor.Lib.Run
import BoostActor.Lib.UnorderedMap

/-!
# The double-ended queue

The job queue of the work-stealing scheduler (`double_ended_queue.hpp`) is a linked list with
a lock for each end. The first node is a dummy without value, which changes with every
`take_head`. `append` takes only the lock of the tail, and `take_head` only that of the head, so
that `take_head` may run between the two writes of `append`. All other operations exclude one
another.

The memory is explicit: a node that has been deleted must not be used any more, and its
address may be that of a new node.

* `Holds.link`, `Holds.prepend`, `Holds.takeHead`, `Holds.takeTail` — what the functions do
  to a queue that holds a list of jobs;
* `doubleEndedQueue_reach` — in every run the queue behaves as a list.
-/

namespace BoostActor

open Lib

-- -------------------------
-- The code
-- -------------------------

/-- `node`; a job is a pointer that is not null. -/
abbrev QueueNode (α : Type) := ListNode Nat (Option α)

/-- The nodes in memory. -/
abbrev QueueHeap (α : Type) := UMap Nat (QueueNode α)

structure DoubleEndedQueue (α : Type) where
  heap : QueueHeap α
  head : Nat
  tail : Nat

variable {α : Type}

-- -------------------------
-- Memory
-- -------------------------

/-- What a pointer points to. -/
def QueueHeap.deref (heap : QueueHeap α) (p : Nat) : Except Fault (QueueNode α) :=
  match heap.find? p with
  | some node => return node
  | none => throw (.undefined "invalid pointer")

namespace DoubleEndedQueue

/-- The constructor; `ptr` is the address of the dummy. -/
def new (ptr : Nat) : DoubleEndedQueue α := ⟨UMap.empty.set ptr ⟨none, none⟩, ptr, ptr⟩

/-- `append` up to the point where the new node `tmp` is linked. -/
def link (q : DoubleEndedQueue α) (tmp : Nat) (value : α) :
    Except Fault (DoubleEndedQueue α) := do
  let heap := q.heap.set tmp ⟨some value, none⟩
  let tail ← QueueHeap.deref heap q.tail
  return { q with heap := heap.set q.tail { tail with next := some tmp } }

/-- The last write of `append`. -/
def swing (q : DoubleEndedQueue α) (tmp : Nat) : DoubleEndedQueue α := { q with tail := tmp }

def prepend (q : DoubleEndedQueue α) (tmp : Nat) (value : α) :
    Except Fault (DoubleEndedQueue α) := do
  let heap := q.heap.set tmp ⟨some value, none⟩
  let first ← QueueHeap.deref heap q.head
  match first.next with
  | none =>
    -- queue is empty
    if q.head ≠ q.tail then throw (.undefined "assertion")
    return { q with heap := heap.set q.head { first with next := some tmp }, tail := tmp }
  | some next =>
    if q.head = q.tail then throw (.undefined "assertion")
    let heap := heap.set tmp ⟨some value, some next⟩
    return { q with heap := heap.set q.head { first with next := some tmp } }

def takeHead (q : DoubleEndedQueue α) : Except Fault (Option α × DoubleEndedQueue α) := do
  let first ← q.heap.deref q.head
  match first.next with
  | none => return (none, q)
  | some next =>
    -- take it out of the node & swing first forward
    let node ← q.heap.deref next
    let heap := q.heap.set next { node with value := none }
    return (node.value, { q with heap := heap.erase q.head, head := next })

/-- `find_predecessor`, which visits every node once at most. -/
def findPredecessor (heap : QueueHeap α) (what : Nat) : Nat → Option Nat → Except Fault (Option Nat)
  | 0, _ => throw (.undefined "endless loop")
  | _ + 1, none => return none
  | n + 1, some i => do
    let node ← heap.deref i
    if node.next = some what then return some i
    findPredecessor heap what n node.next

def takeTail (q : DoubleEndedQueue α) : Except Fault (Option α × DoubleEndedQueue α) := do
  if q.tail = q.head then return (none, q)
  let last ← q.heap.deref q.tail
  match ← findPredecessor q.heap q.tail (q.heap.entries.length + 1) (some q.head) with
  | none => throw (.undefined "assertion")
  | some tail =>
    let node ← q.heap.deref tail
    let heap := q.heap.set tail { node with next := none }
    return (last.value, { q with heap := heap.erase q.tail, tail })

/-- `empty` -/
def empty (q : DoubleEndedQueue α) : Bool := q.head = q.tail

end DoubleEndedQueue

-- -------------------------
-- Runs
-- -------------------------

/-- A queue, the new node of the `append` that holds the lock of the tail between its two
writes, and what has happened so far. -/
structure JobQueue (α : Type) where
  queue : DoubleEndedQueue α
  appending : Option Nat
  log : List (DequeEvent α)

/-- The next write of one of the threads; `tmp` is the address of a new node. -/
inductive JobQueueAction (α : Type) where
  | link (tmp : Nat) (value : α)
  | swing
  | prepend (tmp : Nat) (value : α)
  | takeHead
  | takeTail

namespace JobQueue

def isInitial (s : JobQueue α) : Prop := ∃ ptr, s = ⟨.new ptr, none, []⟩

/-- The locks are free and a new node has a new address. -/
def Enabled (s : JobQueue α) : JobQueueAction α → Prop
  | .link tmp _ => s.appending = none ∧ s.queue.heap.find? tmp = none
  | .swing => s.appending.isSome = true
  | .prepend tmp _ => s.appending = none ∧ s.queue.heap.find? tmp = none
  | .takeHead => True
  | .takeTail => s.appending = none

instance (s : JobQueue α) : (a : JobQueueAction α) → Decidable (s.Enabled a)
  | .link _ _ => inferInstanceAs (Decidable (_ ∧ _ = none))
  | .swing => inferInstanceAs (Decidable (_ = true))
  | .prepend _ _ => inferInstanceAs (Decidable (_ ∧ _ = none))
  | .takeHead => isTrue trivial
  | .takeTail => inferInstanceAs (Decidable (_ = none))

def exec (s : JobQueue α) : JobQueueAction α → Except Fault (JobQueue α)
  | .link tmp value => return ⟨← s.queue.link tmp value, some tmp, s.log ++ [.append value]⟩
  | .swing =>
    match s.appending with
    | some tmp => return ⟨s.queue.swing tmp, none, s.log⟩
    | none => return s
  | .prepend tmp value =>
    return ⟨← s.queue.prepend tmp value, s.appending, s.log ++ [.prepend value]⟩
  | .takeHead => do
    let (result, queue) ← s.queue.takeHead
    return ⟨queue, s.appending, s.log ++ [.takeHead result]⟩
  | .takeTail => do
    let (result, queue) ← s.queue.takeTail
    return ⟨queue, s.appending, s.log ++ [.takeTail result]⟩

def step (s : JobQueue α) (a : JobQueueAction α) : Option (JobQueue α) :=
  if s.Enabled a then (s.exec a).toOption else none

end JobQueue

-- -------------------------
-- What a queue holds
-- -------------------------

theorem QueueHeap.deref_eq {heap : QueueHeap α} {p : Nat} {node : QueueNode α}
    (h : heap.find? p = some node) : heap.deref p = .ok node := by
  unfold QueueHeap.deref
  rw [h]
  rfl

section

variable {heap : QueueHeap α} {p r : Option Nat} {a : Nat} {cs : List (Nat × Option α)}

/-- Writing to a node that is not part of a segment. -/
theorem Segment.set_of_not_mem (hs : Segment heap.find? p cs r) (ha : a ∉ cs.map Prod.fst)
    (node : QueueNode α) : Segment (heap.set a node).find? p cs r := by
  refine hs.congr fun b hb => UMap.find?_set_of_ne _ ?_
  rintro rfl
  exact ha hb

/-- Deleting a node that is not part of a segment. -/
theorem Segment.erase_of_not_mem (hs : Segment heap.find? p cs r) (ha : a ∉ cs.map Prod.fst) :
    Segment (heap.erase a).find? p cs r := by
  refine hs.congr fun b hb => UMap.find?_erase_of_ne ?_
  rintro rfl
  exact ha hb

end

namespace DoubleEndedQueue

-- -------------------------
-- The list that the queue stands for
-- -------------------------

/-- A dummy without value, and one node for each job. -/
def nodes (head : Nat) (cells : List (Nat × α)) : List (Nat × Option α) :=
  (head, none) :: cells.map fun c => (c.1, some c.2)

/-- The queue holds the jobs in `cells`, and its last node is `last`. -/
structure Holds (q : DoubleEndedQueue α) (last : Nat) (cells : List (Nat × α)) : Prop where
  linked : Segment q.heap.find? (some q.head) (nodes q.head cells) none
  nodup : ((nodes q.head cells).map Prod.fst).Nodup
  ends : ((nodes q.head cells).map Prod.fst).getLast? = some last

variable {q : DoubleEndedQueue α} {last tmp : Nat} {value : α} {cells : List (Nat × α)}

theorem nodes_concat (head : Nat) (cells : List (Nat × α)) (c : Nat × α) :
    nodes head (cells ++ [c]) = nodes head cells ++ [(c.1, some c.2)] := by
  unfold nodes
  rw [List.map_append, List.map_singleton, List.cons_append]

theorem exists_nodes_concat (head : Nat) (cells : List (Nat × α)) :
    ∃ before a v, nodes head cells = before ++ [(a, v)] := by
  rcases List.eq_nil_or_concat (nodes head cells) with hnil | ⟨before, ⟨a, v⟩, hconcat⟩
  · cases hnil
  · rw [List.concat_eq_append] at hconcat
    exact ⟨before, a, v, hconcat⟩

/-- The node that `last` is the address of. -/
theorem Holds.exists_last (h : Holds q last cells) :
    ∃ before v, nodes q.head cells = before ++ [(last, v)] ∧
      Segment q.heap.find? (some q.head) before (some last) ∧
      q.heap.find? last = some ⟨v, none⟩ ∧ last ∉ before.map Prod.fst := by
  obtain ⟨before, a, v, hnodes⟩ := exists_nodes_concat q.head cells
  obtain ⟨hlinked, hnodup, hends⟩ := h
  rw [hnodes, List.map_append, List.map_singleton] at hnodup hends
  rw [List.getLast?_concat, Option.some.injEq] at hends
  obtain rfl := hends
  rw [hnodes] at hlinked
  obtain ⟨hbefore, hload⟩ := Segment.concat.mp hlinked
  refine ⟨before, v, hnodes, hbefore, hload, fun hmem => ?_⟩
  exact List.disjoint_of_nodup_append hnodup hmem (List.mem_singleton_self _)

/-- The dummy. -/
theorem Holds.head (h : Holds q last cells) :
    ∃ next, q.heap.find? q.head = some ⟨none, next⟩ := by
  obtain ⟨-, next, hload, -⟩ := h.linked
  exact ⟨next, hload⟩

theorem Holds.reaches (h : Holds q last cells) :
    Relation.ReflTransGen (PointsTo q.heap.find?) q.head last := by
  obtain ⟨before, v, -, hbefore, -⟩ := h.exists_last
  exact hbefore.reaches

theorem Holds.new (ptr : Nat) : Holds (new ptr : DoubleEndedQueue α) ptr [] :=
  ⟨⟨rfl, none, UMap.find?_set_self _ _ _, rfl⟩, List.nodup_singleton _, rfl⟩

/-- The new node is at the end of the list, where `tail_` does not point yet. -/
theorem Holds.link (h : Holds q q.tail cells) (hnew : q.heap.find? tmp = none) (value : α) :
    ∃ q', q.link tmp value = .ok q' ∧ Holds q' tmp (cells ++ [(tmp, value)]) := by
  obtain ⟨before, v, hnodes, hbefore, hload, hlast⟩ := h.exists_last
  have hfresh := h.linked.not_mem hnew
  -- the new node is not the last one, which is in memory already
  have htail : tmp ≠ q.tail := by
    rintro rfl
    rw [hnew] at hload
    cases hload
  -- the memory after the two writes
  have hload₁ : (q.heap.set tmp ⟨some value, none⟩).find? q.tail = some ⟨v, none⟩ := by
    rw [UMap.find?_set_of_ne _ htail, hload]
  have hok : q.link tmp value = .ok ⟨(q.heap.set tmp ⟨some value, none⟩).set q.tail
      ⟨v, some tmp⟩, q.head, q.tail⟩ := by
    unfold DoubleEndedQueue.link
    dsimp only
    rw [QueueHeap.deref_eq hload₁]
    rfl
  have hnodes' : nodes q.head (cells ++ [(tmp, value)]) =
      before ++ [(q.tail, v)] ++ [(tmp, some value)] := by
    rw [nodes_concat, hnodes]
  refine ⟨_, hok, ?_, ?_, ?_⟩
  · rw [hnodes']
    have htmp := hbefore.not_mem hnew
    -- the nodes before the last one are not written to
    refine Segment.concat.mpr ⟨Segment.concat.mpr ⟨?_, UMap.find?_set_self _ _ _⟩, ?_⟩
    · exact Segment.set_of_not_mem (Segment.set_of_not_mem hbefore htmp _) hlast _
    · rw [UMap.find?_set_of_ne _ htail.symm, UMap.find?_set_self]
  · rw [nodes_concat, List.map_append, List.map_singleton, ← List.concat_eq_append]
    exact List.Nodup.concat hfresh h.nodup
  · rw [nodes_concat, List.map_append, List.map_singleton, List.getLast?_concat]

/-- The new node comes second. -/
theorem Holds.prepend (h : Holds q q.tail cells) (hnew : q.heap.find? tmp = none) (value : α) :
    ∃ q', q.prepend tmp value = .ok q' ∧ Holds q' q'.tail ((tmp, value) :: cells) := by
  have hfresh := h.linked.not_mem hnew
  obtain ⟨next, hload⟩ := h.head
  -- the new node is not the dummy
  have hhead : tmp ≠ q.head := by
    rintro rfl
    rw [hnew] at hload
    cases hload
  have hload₁ : (q.heap.set tmp ⟨some value, none⟩).find? q.head = some ⟨none, next⟩ := by
    rw [UMap.find?_set_of_ne _ hhead, hload]
  have hnodup : ((nodes q.head ((tmp, value) :: cells)).map Prod.fst).Nodup := by
    obtain ⟨hhead', hcells⟩ := List.nodup_cons.mp h.nodup
    refine List.nodup_cons.mpr ⟨?_, List.nodup_cons.mpr ⟨?_, hcells⟩⟩
    · rintro (_ | ⟨_, hmem⟩)
      · exact hhead rfl
      · exact hhead' hmem
    · exact fun hmem => hfresh (List.mem_cons_of_mem _ hmem)
  -- the dummy is written to, and then the new node becomes the first one
  unfold DoubleEndedQueue.prepend
  dsimp only
  rw [QueueHeap.deref_eq hload₁]
  cases cells with
  | nil =>
    -- the dummy is the only node
    obtain ⟨-, next', hload', hnext⟩ := h.linked
    have hends : q.head = q.tail := Option.some.inj h.ends
    rw [hload] at hload'
    cases hload'
    cases hnext
    refine ⟨⟨(q.heap.set tmp ⟨some value, none⟩).set q.head ⟨none, some tmp⟩, q.head, tmp⟩, ?_,
      ⟨rfl, some tmp, UMap.find?_set_self _ _ _, rfl, none, ?_, rfl⟩, hnodup, rfl⟩
    · exact if_neg (not_not.mpr hends)
    · rw [UMap.find?_set_of_ne _ hhead.symm, UMap.find?_set_self]
  -- the new node is put between the dummy and the first one
  | cons c rest =>
    obtain ⟨-, next', hload', hrest⟩ := h.linked
    rw [hload] at hload'
    cases hload'
    obtain ⟨hp, -⟩ := id hrest
    cases hp
    have hne : q.head ≠ q.tail := by
      intro heq
      obtain ⟨-, v, -, -, hlast, -⟩ := h.exists_last
      rw [← heq, hload] at hlast
      cases hlast
    refine ⟨⟨((q.heap.set tmp ⟨some value, none⟩).set tmp ⟨some value, some c.1⟩).set q.head
      ⟨none, some tmp⟩, q.head, q.tail⟩, ?_,
      ⟨rfl, some tmp, UMap.find?_set_self _ _ _, rfl, some c.1, ?_, ?_⟩, hnodup, ?_⟩
    · exact if_neg hne
    · rw [UMap.find?_set_of_ne _ hhead.symm, UMap.find?_set_self]
    · have htmp := hrest.not_mem hnew
      have hrest₁ := Segment.set_of_not_mem hrest htmp ⟨some value, none⟩
      have hrest₂ := Segment.set_of_not_mem hrest₁ htmp ⟨some value, some c.1⟩
      exact Segment.set_of_not_mem hrest₂ (List.nodup_cons.mp h.nodup).1 _
    · exact h.ends

/-- The first job is taken out of its node, which is the new dummy. -/
theorem Holds.takeHead (h : Holds q last cells) :
    ∃ q', q.takeHead = .ok ((cells.map Prod.snd).head?, q') ∧ q'.tail = q.tail ∧
      Holds q' last cells.tail := by
  obtain ⟨-, next, hload, hrest⟩ := h.linked
  unfold DoubleEndedQueue.takeHead
  rw [QueueHeap.deref_eq hload]
  cases cells with
  | nil =>
    cases hrest
    exact ⟨q, rfl, rfl, h⟩
  | cons c rest =>
    obtain ⟨rfl, next', hload', hrest'⟩ := hrest
    obtain ⟨hhead, hnodup⟩ := List.nodup_cons.mp h.nodup
    have hne : q.head ≠ c.1 := fun heq => hhead (heq ▸ List.mem_cons_self)
    refine ⟨⟨(q.heap.set c.1 ⟨none, next'⟩).erase q.head, c.1, q.tail⟩, ?_, rfl,
      ⟨rfl, next', ?_, ?_⟩, hnodup, ?_⟩
    · show (do let node ← q.heap.deref c.1; _) = _
      rw [QueueHeap.deref_eq hload']
      rfl
    · rw [UMap.find?_erase_of_ne hne, UMap.find?_set_self]
    · have hrest₁ := Segment.set_of_not_mem hrest' (List.nodup_cons.mp hnodup).1 ⟨none, next'⟩
      exact Segment.erase_of_not_mem hrest₁ fun hmem => hhead (List.mem_cons_of_mem _ hmem)
    · exact h.ends

/-- `find_predecessor` arrives at the last node of a segment that leads to `what`. -/
theorem findPredecessor_eq {heap : QueueHeap α} {what b : Nat} {w : Option α}
    {before : List (Nat × Option α)} {p : Option Nat} {n : Nat}
    (hs : Segment heap.find? p (before ++ [(b, w)]) (some what))
    (hwhat : what ∉ (before ++ [(b, w)]).map Prod.fst) (hn : before.length < n) :
    findPredecessor heap what n p = .ok (some b) := by
  induction before generalizing p n with
  | nil =>
    obtain ⟨rfl, _, hload, rfl⟩ := hs
    cases n with
    | zero => omega
    | succ n =>
      rw [findPredecessor, QueueHeap.deref_eq hload]
      exact if_pos rfl
  -- the node is further back, as pointers in the list are distinct
  | cons c before ih =>
    obtain ⟨rfl, r, hload, hs⟩ := hs
    have hnext : r ≠ some what := by
      rintro rfl
      cases before with
      | nil => exact hwhat (by rw [Option.some.inj hs.1]; simp)
      | cons d before => exact hwhat (by rw [Option.some.inj hs.1]; simp)
    cases n with
    | zero => omega
    | succ n =>
      rw [findPredecessor, QueueHeap.deref_eq hload]
      refine (if_neg hnext).trans (ih hs (fun hmem => hwhat (List.mem_cons_of_mem _ hmem)) ?_)
      rw [List.length_cons] at hn
      omega

/-- The last job is taken out together with its node. -/
theorem Holds.takeTail (h : Holds q q.tail cells) :
    ∃ q', q.takeTail = .ok ((cells.map Prod.snd).getLast?, q') ∧
      Holds q' q'.tail cells.dropLast := by
  rcases List.eq_nil_or_concat cells with rfl | ⟨rest, ⟨t, v⟩, rfl⟩
  · have hends : q.head = q.tail := Option.some.inj h.ends
    exact ⟨q, if_pos hends.symm, h⟩
  · rw [List.concat_eq_append] at h ⊢
    have hnodup := h.nodup
    rw [nodes_concat, List.map_append, List.map_singleton] at hnodup
    obtain ⟨hrest, -, hdisjoint⟩ := List.nodup_append.mp hnodup
    -- the last element is in the node that `tail_` points to
    have ht : t = q.tail := by
      have hends := h.ends
      rw [nodes_concat, List.map_append, List.map_singleton, List.getLast?_concat] at hends
      exact Option.some.inj hends
    rw [ht] at hdisjoint
    have hnot : q.tail ∉ (nodes q.head rest).map Prod.fst := fun hmem =>
      hdisjoint _ hmem _ (List.mem_singleton_self _) rfl
    have hne : q.tail ≠ q.head := fun heq => hnot (heq ▸ List.mem_cons_self)
    have hlinked := h.linked
    rw [nodes_concat, ht] at hlinked
    obtain ⟨hwhole, hload⟩ := Segment.concat.mp hlinked
    -- the node before the last one
    obtain ⟨before, b, w, hnodes⟩ := exists_nodes_concat q.head rest
    have hnodup' := hrest
    rw [hnodes] at hwhole hnot
    rw [hnodes, List.map_append, List.map_singleton] at hnodup'
    obtain ⟨hbefore, hloadb⟩ := Segment.concat.mp hwhole
    have hb : b ∉ before.map Prod.fst := fun hmem =>
      List.disjoint_of_nodup_append hnodup' hmem (List.mem_singleton_self _)
    have hlen : before.length < q.heap.entries.length + 1 := by
      have hle := UMap.length_le_of_nodup (List.nodup_append.mp hnodup').1
        fun a ha => hbefore.isSome_of_mem ha
      rw [List.length_map] at hle
      omega
    refine ⟨⟨(q.heap.set b ⟨w, none⟩).erase q.tail, q.head, b⟩, ?_, ?_, ?_, ?_⟩
    · unfold DoubleEndedQueue.takeTail
      rw [QueueHeap.deref_eq hload, findPredecessor_eq hwhole hnot hlen]
      refine (if_neg hne).trans ?_
      show (do let node ← q.heap.deref b; _) = _
      rw [QueueHeap.deref_eq hloadb, List.map_append, List.map_singleton, List.getLast?_concat]
      rfl
    · -- the last node is unlinked from the one before it
      rw [List.dropLast_concat, hnodes]
      refine Segment.concat.mpr ⟨?_, ?_⟩
      · refine Segment.erase_of_not_mem (Segment.set_of_not_mem hbefore hb _) fun hmem => ?_
        rw [List.map_append] at hnot
        exact hnot (List.mem_append_left _ hmem)
      · have hbt : q.tail ≠ b := by
          rintro rfl
          exact hnot (by simp)
        rw [UMap.find?_erase_of_ne hbt, UMap.find?_set_self]
    · rw [List.dropLast_concat]
      exact hrest
    · rw [List.dropLast_concat, hnodes, List.map_append, List.map_singleton, List.getLast?_concat]

/-- The queue is empty if it holds nothing. -/
theorem Holds.empty_iff (h : Holds q q.tail cells) : q.empty = true ↔ cells = [] := by
  unfold DoubleEndedQueue.empty
  rw [decide_eq_true_eq]
  obtain ⟨-, v, -, -, hlast, -⟩ := h.exists_last
  obtain ⟨-, next, hload, hrest⟩ := h.linked
  cases cells with
  | nil => exact iff_of_true (Option.some.inj h.ends) rfl
  | cons c rest =>
    -- the dummy points to another node
    refine iff_of_false (fun heq => ?_) (List.cons_ne_nil _ _)
    obtain ⟨rfl, -⟩ := hrest
    rw [heq, hlast] at hload
    cases hload

end DoubleEndedQueue

namespace JobQueue

variable {s : JobQueue α}

-- -------------------------
-- Steps
-- -------------------------

/-- What holds between two writes. -/
def Inv (s : JobQueue α) : Prop :=
  ∃ cells, DequeHistory s.log (cells.map Prod.snd) ∧
    s.queue.Holds (s.appending.getD s.queue.tail) cells

/-- Every write that the locks allow is defined and keeps the invariant. -/
theorem Inv.exec (h : Inv s) {a : JobQueueAction α} (henabled : s.Enabled a) :
    ∃ s', s.exec a = .ok s' ∧ Inv s' := by
  obtain ⟨cells, hhistory, hholds⟩ := h
  cases a with
  -- the new node is linked behind the last one, and `tail_` is not yet moved
  | link tmp value =>
    obtain ⟨happending, hnew⟩ := henabled
    rw [happending] at hholds
    obtain ⟨q', hlink, hholds'⟩ := hholds.link hnew value
    refine ⟨⟨q', some tmp, s.log ++ [.append value]⟩, ?_, cells ++ [(tmp, value)], ?_, hholds'⟩
    · simp only [JobQueue.exec, hlink]
      rfl
    · rw [List.map_append]
      exact hhistory.append value
  -- `tail_` is moved
  | swing =>
    obtain ⟨tmp, happending⟩ := Option.isSome_iff_exists.mp henabled
    rw [happending] at hholds
    refine ⟨⟨s.queue.swing tmp, none, s.log⟩, ?_, cells, hhistory, hholds.linked, hholds.nodup,
      hholds.ends⟩
    simp only [JobQueue.exec, happending]
    rfl
  | prepend tmp value =>
    obtain ⟨happending, hnew⟩ := henabled
    rw [happending] at hholds
    obtain ⟨q', hprepend, hholds'⟩ := hholds.prepend hnew value
    refine ⟨⟨q', s.appending, s.log ++ [.prepend value]⟩, ?_, (tmp, value) :: cells,
      hhistory.prepend value, ?_⟩
    · simp only [JobQueue.exec, hprepend]
      rfl
    · rw [happending]
      exact hholds'
  | takeHead =>
    obtain ⟨q', htake, htail, hholds'⟩ := hholds.takeHead
    refine ⟨⟨q', s.appending, s.log ++ [.takeHead (cells.map Prod.snd).head?]⟩, ?_, cells.tail,
      ?_, ?_⟩
    · simp only [JobQueue.exec, htake]
      rfl
    · rw [List.map_tail]
      exact hhistory.takeHead
    · rw [htail]
      exact hholds'
  -- no append is going on, which the lock of `tail_` excludes
  | takeTail =>
    change s.appending = none at henabled
    rw [henabled] at hholds
    obtain ⟨q', htake, hholds'⟩ := hholds.takeTail
    refine ⟨⟨q', s.appending, s.log ++ [.takeTail (cells.map Prod.snd).getLast?]⟩, ?_,
      cells.dropLast, ?_, ?_⟩
    · simp only [JobQueue.exec, htake]
      rfl
    · rw [List.map_dropLast]
      exact hhistory.takeTail
    · rw [henabled]
      exact hholds'

/-- The queue is a list of the jobs in `cells`. -/
structure IsDeque (s : JobQueue α) (cells : List (Nat × α)) : Prop where
  /-- all results so far are those of a list, which has these jobs now -/
  history : DequeHistory s.log (cells.map Prod.snd)
  /-- the jobs are in the nodes that `head_` leads to -/
  holds : s.queue.Holds (s.appending.getD s.queue.tail) cells
  /-- every job is returned once, or is still there -/
  once : (DequeEvent.puts s.log).Perm (DequeEvent.takes s.log ++ cells.map Prod.snd)
  dummy : ∃ next, s.queue.heap.find? s.queue.head = some ⟨none, next⟩
  reachable : s.appending = none →
    Relation.ReflTransGen (PointsTo s.queue.heap.find?) s.queue.head s.queue.tail
  noFault : ∀ a, s.Enabled a → ∃ s', s.exec a = .ok s'

/-- For every sequence of operations, with any calls of `take_head` between the two writes of an
`append`: the queue behaves as a list. -/
theorem doubleEndedQueue_reach (hreach : Reach isInitial step anyStep s) :
    ∃ cells, IsDeque s cells := by
  have hinv : Inv s := by
    refine hreach.invariant ?_ ?_
    · rintro s ⟨ptr, rfl⟩
      exact ⟨[], .nil, DoubleEndedQueue.Holds.new ptr⟩
    · intro s a s' h _ hstep
      unfold step at hstep
      split_ifs at hstep with henabled
      obtain ⟨s₁, hexec, hinv⟩ := h.exec henabled
      rw [hexec] at hstep
      cases hstep
      exact hinv
  obtain ⟨cells, hhistory, hholds⟩ := id hinv
  refine ⟨cells, hhistory, hholds, hhistory.perm, hholds.head, fun hnone => ?_, fun a ha => ?_⟩
  · rw [hnone] at hholds
    exact hholds.reaches
  · obtain ⟨s', hexec, -⟩ := hinv.exec ha
    exact ⟨s', hexec⟩

/-- A job is taken before the `append` that has linked it is complete, and the node that is
deleted there is used again. -/
theorem doubleEndedQueue_take_during_append : ∃ cells : List (Nat × Nat),
    DequeHistory [.append 1, .takeHead (some 1), .prepend 2, .append 3, .takeTail (some 3),
      .takeTail (some 2), .takeHead none] (cells.map Prod.snd) := by
  have hinit : Reach isInitial step anyStep (⟨.new 0, none, []⟩ : JobQueue Nat) := .init ⟨0, rfl⟩
  have hlast := reach_of_run hinit (rfl : runAll step _
    [.link 1 1, .takeHead, .swing, .prepend 0 2, .link 2 3, .swing, .takeTail, .takeTail,
      .takeHead] = some _)
  obtain ⟨cells, hdeque⟩ := doubleEndedQueue_reach hlast
  exact ⟨cells, hdeque.history⟩

end JobQueue

end BoostActor
