import BoostActor.Lib.DoublyLinked

/-!
# The cache of a mailbox

`intrusive_partitioned_list`: a doubly linked list with a sentinel at both ends and one in the
middle, which cuts it into two partitions. The elements are the objects that the pointers lead to;
elements that are equal are the same object.

* `PartitionedList.Holds` — the list has the given partitions;
* `Holds.insert`, `Holds.take` — adding and removing an element, in either partition;
* `Holds.count_eq` — counting.
-/

namespace BoostActor

open Lib

/-- What a pointer leads to. -/
inductive Node (α : Type) where
  | null
  | head
  | separator
  | tail
  | element (x : α)
deriving DecidableEq, Repr

/-- `intrusive_partitioned_list`: the links of all nodes. -/
abbrev PartitionedList (α : Type) := Links (Node α)

namespace PartitionedList

variable {α : Type}

-- -------------------------
-- Operations
-- -------------------------

section Operations

variable [DecidableEq α]

/-- The constructor: no element is linked. -/
def empty : PartitionedList α :=
  let l : PartitionedList α := ⟨fun _ => .null, fun _ => .null⟩
  let l := l.setNext .head .separator
  let l := l.setPrev .separator .head
  let l := l.setNext .separator .tail
  l.setPrev .tail .separator

def firstBegin (l : PartitionedList α) : Node α := l.next .head

def firstEnd (_ : PartitionedList α) : Node α := .separator

def secondBegin (l : PartitionedList α) : Node α := l.next .separator

def secondEnd (_ : PartitionedList α) : Node α := .tail

def firstEmpty (l : PartitionedList α) : Bool := l.firstBegin = l.firstEnd

def secondEmpty (l : PartitionedList α) : Bool := l.secondBegin = l.secondEnd

/-- `insert(next, val)`. -/
def insert (l : PartitionedList α) (next : Node α) (val : α) : PartitionedList α :=
  let prev := l.prev next
  let l := l.setPrev (.element val) prev
  let l := l.setNext (.element val) next
  let l := l.setNext prev (.element val)
  l.setPrev next (.element val)

/-- `take(pos)`, without its result. -/
def take (l : PartitionedList α) (pos : Node α) : PartitionedList α :=
  let next := l.next pos
  let prev := l.prev pos
  let l := l.setNext prev next
  l.setPrev next prev

/-- `push_second_back(val)`. -/
def pushSecondBack (l : PartitionedList α) (val : α) : PartitionedList α := l.insert l.secondEnd val

/-- `count(first, last, max_count)`. -/
def countRange (l : PartitionedList α) (first last : Node α) : Nat → Nat
  | 0 => 0
  | maxCount + 1 => if first = last then 0 else l.countRange (l.next first) last maxCount + 1

/-- `count(max_count)`. -/
def count (l : PartitionedList α) (maxCount : Nat) : Nat :=
  let r1 := l.countRange l.firstBegin l.firstEnd maxCount
  r1 + l.countRange l.secondBegin l.secondEnd (maxCount - r1)

end Operations

-- -------------------------
-- The elements of a list
-- -------------------------

/-- The nodes of a list with the given partitions. -/
def nodes (first second : List α) : List (Node α) :=
  .head :: first.map .element ++ .separator :: (second.map .element ++ [.tail])

/-- The list has these partitions: its nodes point at each other, and no element occurs twice. -/
structure Holds (l : PartitionedList α) (first second : List α) : Prop where
  row : l.Row (nodes first second)
  nodup : (first ++ second).Nodup

/-- The node at which some elements start that are followed by the node `e`. -/
def start (xs : List α) (e : Node α) : Node α := (xs.map Node.element).headD e

theorem element_injective : Function.Injective (Node.element (α := α)) := by
  intro x y h
  cases h
  rfl

variable {l : PartitionedList α} {first second xs ys : List α} {x : α}
variable {pre post : List (Node α)} {a b : Node α}

/-- No node stands twice in a list. -/
theorem nodup_nodes (h : (first ++ second).Nodup) : (nodes first second).Nodup := by
  have hmap := h.map (element_injective (α := α))
  rw [List.map_append] at hmap
  simp only [nodes, List.cons_append, List.nodup_cons, List.nodup_append, List.mem_append,
    List.mem_map, List.mem_cons, reduceCtorEq] at hmap ⊢
  grind

/-- Some elements and what follows them begin with `start`. -/
theorem exists_start (xs : List α) (e : Node α) (post : List (Node α)) :
    ∃ rest, xs.map .element ++ e :: post = start xs e :: rest := by
  cases xs with
  | nil => exact ⟨post, rfl⟩
  | cons y ys => exact ⟨ys.map .element ++ e :: post, rfl⟩

-- -------------------------
-- Ranges
-- -------------------------

/-- Elements in a row of nodes: after `pre`, and before the node `last`, which ends the range. -/
def around (pre : List (Node α)) (xs : List α) (last : Node α) (post : List (Node α)) :
    List (Node α) := pre ++ (xs.map .element ++ last :: post)

theorem around_append : around pre (xs ++ ys) b post =
    pre ++ xs.map .element ++ (ys.map .element ++ b :: post) := by
  simp [around]

theorem nodes_first : nodes first second =
    around [.head] first .separator (second.map .element ++ [.tail]) := by
  simp [nodes, around]

theorem nodes_second : nodes first second =
    around (.head :: first.map .element ++ [.separator]) second .tail [] := by
  simp [nodes, around]

namespace Holds

/-- The sentinel before the first partition and the node at which it starts. -/
theorem adjacent_first (h : l.Holds first second) :
    l.Adjacent .head (start first .separator) := by
  have hr := h.row
  obtain ⟨rest, hrest⟩ := exists_start first .separator (second.map .element ++ [.tail])
  rw [nodes, List.cons_append, hrest] at hr
  exact (Links.row_cons_cons.mp hr).1

/-- The separator comes before the second part. -/
theorem adjacent_second (h : l.Holds first second) :
    l.Adjacent .separator (start second .tail) := by
  have hr := h.row
  obtain ⟨rest, hrest⟩ := exists_start second .tail []
  rw [nodes, hrest] at hr
  exact hr.adjacent

theorem firstBegin_eq (h : l.Holds first second) : l.firstBegin = start first .separator :=
  h.adjacent_first.1

theorem secondBegin_eq (h : l.Holds first second) : l.secondBegin = start second .tail :=
  h.adjacent_second.1

end Holds

-- -------------------------
-- Changes
-- -------------------------

variable [DecidableEq α]

theorem empty_holds : (empty : PartitionedList α).Holds [] [] := by
  refine ⟨?_, List.nodup_nil⟩
  refine Links.row_cons_cons.mpr ⟨⟨rfl, rfl⟩, Links.row_cons_cons.mpr ⟨⟨rfl, rfl⟩, ?_⟩⟩
  exact Links.row_singleton

/-- `insert` links the new element with both neighbours. -/
theorem insert_eq (hp : l.prev b = a) (ha : a ≠ .element x) :
    l.insert b x = (l.link a (.element x)).link (.element x) b := by
  unfold insert
  rw [hp]
  simp only [Links.link, Links.setNext, Links.setPrev]
  rw [Function.update_comm ha]

/-- `take` links the neighbours of the element. -/
theorem take_eq (hn : l.next a = b) : l.take a = l.link (l.prev a) b := by
  unfold take
  rw [hn]
  rfl

/-- Adding an element to a range. -/
theorem row_insert (hne : pre ≠ []) (hr : l.Row (around pre (xs ++ ys) b post))
    (hd : (around pre (xs ++ x :: ys) b post).Nodup) :
    (l.insert (start ys b) x).Row (around pre (xs ++ x :: ys) b post) := by
  obtain ⟨rest, hrest⟩ := exists_start ys b post
  obtain ⟨pre', p, hpre⟩ : ∃ pre' p, pre ++ xs.map .element = pre' ++ [p] :=
    ⟨_, _, (List.dropLast_concat_getLast (by simp [hne])).symm⟩
  rw [around_append, hpre, hrest, List.append_assoc, List.singleton_append] at hr
  rw [around_append, hpre, List.map_cons, List.cons_append, hrest, List.append_assoc,
    List.singleton_append] at hd ⊢
  have hpx : p ≠ .element x := by
    rintro rfl
    simp [List.nodup_append] at hd
  rw [insert_eq hr.adjacent.2 hpx]
  exact hr.insert hd

/-- Removing an element from a range. -/
theorem row_take (hne : pre ≠ []) (hr : l.Row (around pre (xs ++ x :: ys) b post))
    (hd : (around pre (xs ++ x :: ys) b post).Nodup) :
    (l.take (.element x)).Row (around pre (xs ++ ys) b post) := by
  obtain ⟨rest, hrest⟩ := exists_start ys b post
  obtain ⟨pre', p, hpre⟩ : ∃ pre' p, pre ++ xs.map .element = pre' ++ [p] :=
    ⟨_, _, (List.dropLast_concat_getLast (by simp [hne])).symm⟩
  rw [around_append, hpre, List.map_cons, List.cons_append, hrest] at hr hd
  rw [around_append, hpre, hrest, List.append_assoc, List.singleton_append]
  have hnext : l.next (.element x) = start ys b := hr.adjacent.1
  rw [List.append_assoc, List.singleton_append] at hr hd
  rw [take_eq hnext, hr.adjacent.2]
  exact hr.unlink hd

namespace Holds

/-- Adding an element to the first partition. -/
theorem insert_first (h : l.Holds (xs ++ ys) second) (hx : x ∉ (xs ++ ys) ++ second) :
    (l.insert (start ys .separator) x).Holds (xs ++ x :: ys) second := by
  have hd : ((xs ++ x :: ys) ++ second).Nodup := by
    rw [List.append_assoc, List.cons_append, List.nodup_middle, List.nodup_cons,
      ← List.append_assoc]
    exact ⟨hx, h.nodup⟩
  have hr := h.row
  rw [nodes_first] at hr
  refine ⟨?_, hd⟩
  rw [nodes_first]
  exact row_insert (List.cons_ne_nil _ _) hr (nodes_first ▸ nodup_nodes hd)

/-- Adding an element to the second partition. -/
theorem insert_second (h : l.Holds first (xs ++ ys)) (hx : x ∉ first ++ (xs ++ ys)) :
    (l.insert (start ys .tail) x).Holds first (xs ++ x :: ys) := by
  have hd : (first ++ (xs ++ x :: ys)).Nodup := by
    rw [← List.append_assoc, List.nodup_middle, List.nodup_cons, List.append_assoc]
    exact ⟨hx, h.nodup⟩
  have hr := h.row
  rw [nodes_second] at hr
  refine ⟨?_, hd⟩
  rw [nodes_second]
  exact row_insert (List.cons_ne_nil _ _) hr (nodes_second ▸ nodup_nodes hd)

/-- Adding an element at the end of the second partition. -/
theorem insert_last (h : l.Holds first second) (hx : x ∉ first ++ second) :
    (l.insert .tail x).Holds first (second ++ [x]) := by
  rw [← List.append_nil second] at h hx
  exact h.insert_second hx

/-- Removing an element from the first partition. -/
theorem take_first (h : l.Holds (xs ++ x :: ys) second) :
    (l.take (.element x)).Holds (xs ++ ys) second := by
  have hr := h.row
  rw [nodes_first] at hr
  refine ⟨?_, h.nodup.sublist (List.Sublist.append_right
    (List.Sublist.append_left (List.sublist_cons_self x ys) xs) second)⟩
  rw [nodes_first]
  exact row_take (List.cons_ne_nil _ _) hr (nodes_first ▸ nodup_nodes h.nodup)

/-- Removing an element from the second partition. -/
theorem take_second (h : l.Holds first (xs ++ x :: ys)) :
    (l.take (.element x)).Holds first (xs ++ ys) := by
  have hr := h.row
  rw [nodes_second] at hr
  refine ⟨?_, h.nodup.sublist (List.Sublist.append_left
    (List.Sublist.append_left (List.sublist_cons_self x ys) xs) first)⟩
  rw [nodes_second]
  exact row_take (List.cons_ne_nil _ _) hr (nodes_second ▸ nodup_nodes h.nodup)

/-- Counting the elements of a range, up to a bound. -/
theorem countRange_eq (hr : l.Row (pre ++ (xs.map .element ++ b :: post)))
    (hb : ∀ x, b ≠ .element x) (maxCount : Nat) :
    l.countRange (start xs b) b maxCount = min maxCount xs.length := by
  -- the range shrinks with the maximum, one element at a time
  induction xs generalizing pre maxCount with
  | nil =>
    cases maxCount with
    | zero => simp [countRange]
    | succ n => simp [countRange, start]
  | cons x xs ih =>
    cases maxCount with
    | zero => simp [countRange]
    | succ n =>
      obtain ⟨rest, hrest⟩ := exists_start xs b post
      have hnext : l.next (.element x) = start xs b := by
        rw [List.map_cons, List.cons_append, hrest] at hr
        exact hr.adjacent.1
      have hr' : l.Row ((pre ++ [.element x]) ++ (xs.map .element ++ b :: post)) := by
        simpa using hr
      have hcount : l.countRange (start (x :: xs) b) b (n + 1) =
          l.countRange (start xs b) b n + 1 := by
        rw [← hnext]
        exact if_neg fun h => hb x h.symm
      rw [hcount, ih hr', List.length_cons]
      omega

/-- **`count` returns the number of elements in both partitions, up to its bound.** -/
theorem count_eq (h : l.Holds first second) (maxCount : Nat) :
    l.count maxCount = min maxCount (first.length + second.length) := by
  have h₁ : l.countRange l.firstBegin l.firstEnd maxCount = min maxCount first.length := by
    have hr := h.row
    rw [nodes_first] at hr
    rw [h.firstBegin_eq]
    exact countRange_eq hr (fun _ h => nomatch h) maxCount
  have h₂ : l.countRange l.secondBegin l.secondEnd (maxCount - min maxCount first.length) =
      min (maxCount - min maxCount first.length) second.length := by
    have hr := h.row
    rw [nodes_second] at hr
    rw [h.secondBegin_eq]
    exact countRange_eq hr (fun _ h => nomatch h) _
  unfold count
  dsimp only
  rw [h₁, h₂]
  omega

end Holds

end PartitionedList

end BoostActor
