import BoostActor.Lib.Run
import BoostActor.Core.CacheTraversal

/-!
# Processing a cache from within its own handlers

`intrusive_partitioned_list::invoke` unlinks an element before it calls `invoke_message`, since
this can process the same list again: a handler of a blocking actor that receives a message calls
`invoke` itself, adds messages that it skips, and takes others. Afterwards `invoke` goes on with
the neighbours that it had saved before the call.

* `ReentrantCache.step` — a list with the calls of `invoke` that have not returned;
* `Neighbours` — the saved neighbours of an element still are next to each other;
* `intact_of_neighbours` — no element is lost or consumed twice in runs in which this is the case
  whenever it matters.
-/

namespace BoostActor

open Lib

namespace PartitionedList

variable {α : Type} [DecidableEq α]

/-- The begin of a partition, which is the second one or not. -/
def beginOf (l : PartitionedList α) (second : Bool) : Node α :=
  if second then l.secondBegin else l.firstBegin

def endOf (second : Bool) : Node α := if second then .tail else .separator

/-- The elements that are reached from a node within some steps. -/
def reached (l : PartitionedList α) : Node α → Nat → List α
  | _, 0 => []
  | .element x, n + 1 => x :: l.reached (l.next (.element x)) n
  | .separator, n + 1 => l.reached (l.next .separator) n
  | _, _ + 1 => []

end PartitionedList

open PartitionedList

-- -------------------------
-- Steps
-- -------------------------

/-- A call of `invoke` that waits for `invoke_message`: its local variables, and the partition that
it processes. -/
structure InvokeFrame (α : Type) where
  cursor : Cursor α
  second : Bool
deriving DecidableEq, Repr

/-- The element that a call holds. -/
def InvokeFrame.held {α : Type} (f : InvokeFrame α) : List α :=
  match f.cursor.first with
  | .element x => [x]
  | _ => []

/-- A list, the calls of `invoke` that wait for `invoke_message`, the innermost one first, and the
elements that were consumed and all that were ever in the list. -/
structure ReentrantCache (α : Type) where
  list : PartitionedList α
  frames : List (InvokeFrame α)
  consumed : List α
  added : List α

namespace ReentrantCache

variable {α : Type} [DecidableEq α]

/-- The elements that calls of `invoke` hold. -/
def held (s : ReentrantCache α) : List α := s.frames.flatMap InvokeFrame.held

/-- The elements that are reached in the list. -/
def elements (s : ReentrantCache α) : List α :=
  s.list.reached s.list.firstBegin (s.added.length + 2)

/-- What user code and `invoke_message` do next. -/
inductive Input (α : Type) where
  /-- `invoke` is called for a partition -/
  | invoke (second : Bool)
  /-- the innermost call of `invoke_message` returns -/
  | ret (r : Returned)
  /-- a new element is inserted before a node -/
  | insert (next : Node α) (x : α)
  /-- an element is taken and consumed -/
  | take (x : α)
deriving DecidableEq, Repr

/-- The beginning of the loop of `invoke`, up to the call of `invoke_message`. -/
def enter (s : ReentrantCache α) (c : Cursor α) (second : Bool) : Option (ReentrantCache α) :=
  if c.first = endOf second then some s
  else match c.first with
    | .element _ => some { s with list := s.list.unlink c, frames := ⟨c, second⟩ :: s.frames }
    | _ => none

/-- The innermost call of `invoke_message` returns. An element that is not put back is consumed. -/
def ret (s : ReentrantCache α) (r : Returned) : Option (ReentrantCache α) :=
  match s.frames with
  | [] => none
  | f :: frames =>
    let consumed := if r.keeps then s.consumed else f.held ++ s.consumed
    match s.list.settle f.cursor r with
    | (list, none) => some { s with list, frames, consumed }
    | (list, some c) => { s with list, frames, consumed }.enter c f.second

/-- A node that an element can be inserted before. -/
def canInsert (s : ReentrantCache α) : Node α → Bool
  | .separator | .tail => true
  | .element x => x ∈ s.elements
  | _ => false

def step (s : ReentrantCache α) : Input α → Option (ReentrantCache α)
  | .invoke second => s.enter (s.list.cursor (s.list.beginOf second)) second
  | .ret r => s.ret r
  | .insert next x =>
    if s.canInsert next ∧ x ∉ s.added then
      some { s with list := s.list.insert next x, added := x :: s.added }
    else none
  | .take x =>
    if x ∈ s.elements then
      some { s with list := s.list.take (.element x), consumed := x :: s.consumed }
    else none

/-- A list that is not being processed. -/
def Initial (s : ReentrantCache α) : Prop :=
  ∃ first second, s.list.Holds first second ∧ s.frames = [] ∧ s.consumed = [] ∧
    s.added = first ++ second

/-- The list is well formed, and every element is in the list, held by a call of `invoke` or was
consumed, exactly once. -/
def Intact (s : ReentrantCache α) : Prop :=
  ∃ first second, s.list.Holds first second ∧ s.elements = first ++ second ∧
    (first ++ second ++ s.held ++ s.consumed).Perm s.added ∧ s.added.Nodup

/-- A node of the list that is followed by another one. -/
def hasNext (s : ReentrantCache α) : Node α → Bool
  | .head | .separator => true
  | .element x => x ∈ s.elements
  | _ => false

/-- The neighbours that a call of `invoke` has saved still are next to each other in the list. -/
def Neighbours (s : ReentrantCache α) (c : Cursor α) : Prop :=
  s.hasNext c.prev = true ∧ s.list.next c.prev = c.next

instance (s : ReentrantCache α) (c : Cursor α) : Decidable (s.Neighbours c) :=
  inferInstanceAs (Decidable (_ ∧ _))

/-- What has to be the case when `invoke_message` returns. -/
def Safe (s : ReentrantCache α) : Input α → Prop
  | .ret r => ∀ f ∈ s.frames.head?, r.result = .success ∨
      (r.keeps = false ∧ f.cursor.next = endOf f.second) ∨ s.Neighbours f.cursor
  | _ => True

instance (s : ReentrantCache α) : (i : Input α) → Decidable (s.Safe i)
  | .ret r => inferInstanceAs (Decidable (∀ f ∈ s.frames.head?, r.result = .success ∨
      (r.keeps = false ∧ f.cursor.next = endOf f.second) ∨ s.Neighbours f.cursor))
  | .invoke _ | .insert _ _ | .take _ => inferInstanceAs (Decidable True)

end ReentrantCache

-- -------------------------
-- Partitions
-- -------------------------

namespace PartitionedList

variable {α : Type} {l : PartitionedList α} {parts : Bool → List α} {second : Bool}
variable {xs ys : List α} {x y : α}

/-- The elements of both partitions. -/
def contents (parts : Bool → List α) : List α := parts false ++ parts true

/-- The list has these partitions. -/
def Has (l : PartitionedList α) (parts : Bool → List α) : Prop :=
  l.Holds (parts false) (parts true)

theorem mem_contents : x ∈ contents parts ↔ ∃ b, x ∈ parts b := by
  simp [contents]

/-- The rest of a partition, with the node before it. -/
theorem nodes_around (hp : parts second = xs ++ ys) : ∃ pre p post,
    nodes (parts false) (parts true) = around (pre ++ [p]) ys (endOf second) post := by
  -- a partition follows the head or the separator, so there always is a node before its rest
  have hrest : ∀ {pre post : List (Node α)} {last : Node α}, pre ≠ [] →
      ∃ pre' p, around pre (xs ++ ys) last post = around (pre' ++ [p]) ys last post := by
    intro pre post last hne
    have hne' : pre ++ xs.map Node.element ≠ [] := by simp [hne]
    refine ⟨(pre ++ xs.map Node.element).dropLast, (pre ++ xs.map Node.element).getLast hne', ?_⟩
    rw [List.dropLast_concat_getLast hne', around_append]
    rfl
  cases second with
  | false =>
    rw [nodes_first, hp]
    obtain ⟨pre, p, heq⟩ := hrest (List.cons_ne_nil _ _)
    exact ⟨pre, p, _, heq⟩
  | true =>
    rw [nodes_second, hp]
    obtain ⟨pre, p, heq⟩ := hrest (List.cons_ne_nil _ _)
    exact ⟨pre, p, _, heq⟩

/-- The nodes between the markers are those of the elements. -/
theorem element_mem_nodes :
    Node.element x ∈ nodes (parts false) (parts true) ↔ x ∈ contents parts := by
  simp [nodes, contents]

/-- A place in a partition: the nodes before and after it are in the list and point at each
other. -/
theorem Has.adjacent (h : l.Has parts) (hp : parts second = xs ++ ys) :
    ∃ p ∈ nodes (parts false) (parts true),
      start ys (endOf second) ∈ nodes (parts false) (parts true) ∧
        l.Adjacent p (start ys (endOf second)) := by
  obtain ⟨pre, p, post, hnodes⟩ := nodes_around hp
  obtain ⟨rest, hrest⟩ := exists_start ys (endOf second) post
  have hr := h.row
  rw [hnodes, around, hrest, List.append_assoc, List.singleton_append] at hr
  rw [hnodes, around, hrest]
  exact ⟨p, by simp, by simp, hr.adjacent⟩

/-- The elements with one inserted. -/
theorem contents_update : (contents (Function.update parts second (xs ++ x :: ys))).Perm
    (x :: contents (Function.update parts second (xs ++ ys))) := by
  cases second with
  | false => simp [contents]
  | true =>
    have hmiddle : ((parts false ++ xs) ++ x :: ys).Perm (x :: ((parts false ++ xs) ++ ys)) :=
      List.perm_middle
    simpa [contents] using hmiddle

/-- The elements with one taken out. -/
theorem update_subset (hp : parts second = xs ++ x :: ys) (b : Bool) :
    Function.update parts second (xs ++ ys) b ⊆ parts b := by
  by_cases hb : b = second
  · subst hb
    rw [Function.update_self, hp]
    intro z hz
    simp only [List.mem_append, List.mem_cons] at hz ⊢
    tauto
  · rw [Function.update_of_ne hb]
    exact List.Subset.refl _

/-- Walking over a range visits its elements. -/
theorem reached_range {pre post : List (Node α)} {last : Node α}
    (hr : l.Row (around pre xs last post)) {n : Nat} (hn : xs.length ≤ n) :
    l.reached (start xs last) n = xs ++ l.reached last (n - xs.length) := by
  induction xs generalizing pre n with
  | nil => rfl
  | cons x xs ih =>
    cases n with
    | zero => exact absurd hn (Nat.not_succ_le_zero _)
    | succ n =>
      obtain ⟨rest, hrest⟩ := exists_start xs last post
      have hcut : around pre (x :: xs) last post = around (pre ++ [.element x]) xs last post := by
        simp [around]
      have hnext : l.next (.element x) = start xs last := by
        have hr' := hr
        rw [around, List.map_cons, List.cons_append, hrest] at hr'
        exact hr'.adjacent.1
      show x :: l.reached (l.next (.element x)) n = _
      rw [hnext, ih (hcut ▸ hr) (Nat.le_of_succ_le_succ hn), List.length_cons,
        Nat.add_sub_add_right]
      rfl

/-- Walking through the list reaches the elements of both partitions. -/
theorem Has.reached_eq (h : l.Has parts) {n : Nat} (hn : (contents parts).length + 1 ≤ n) :
    l.reached l.firstBegin n = contents parts := by
  unfold contents at hn ⊢
  rw [List.length_append] at hn
  have hr := h.row
  have hr₁ := nodes_first ▸ hr
  have hr₂ := nodes_second ▸ hr
  obtain ⟨m, hm⟩ : ∃ m, n - (parts false).length = m + 1 :=
    ⟨n - (parts false).length - 1, by omega⟩
  have hend : ∀ k, l.reached .tail k = [] := fun k => by cases k <;> rfl
  rw [h.firstBegin_eq, reached_range hr₁ (by omega), hm]
  show parts false ++ l.reached (l.next .separator) m = _
  rw [h.adjacent_second.1, reached_range hr₂ (by omega), hend, List.append_nil]

theorem Has.beginOf_eq (h : l.Has parts) (second : Bool) :
    l.beginOf second = start (parts second) (endOf second) := by
  cases second with
  | false => exact h.firstBegin_eq
  | true => exact h.secondBegin_eq

variable [DecidableEq α]

/-- An element of a partition: the nodes before and after it. -/
theorem Has.neighbours (h : l.Has parts) (hp : parts second = xs ++ x :: ys) :
    l.prev (.element x) ∈ nodes (parts false) (parts true) ∧
      l.next (.element x) = start ys (endOf second) ∧ l.prev (.element x) ≠ .element x ∧
      l.next (.element x) ≠ .element x := by
  obtain ⟨pre, p, post, hnodes⟩ := nodes_around hp
  have hr := h.row
  have hd := nodup_nodes h.nodup
  rw [hnodes] at hr hd ⊢
  obtain ⟨hprev, hnext, -⟩ := row_cursor hr hd
  obtain ⟨rest, hrest⟩ := exists_start ys (endOf second) post
  rw [around, List.map_cons, List.cons_append, hrest, List.append_assoc, List.singleton_append,
    List.nodup_append, List.nodup_cons, List.nodup_cons] at hd
  obtain ⟨-, ⟨hpx, hxs, -⟩, -⟩ := hd
  rw [hprev]
  refine ⟨by simp [around], hnext, ?_, ?_⟩
  · rintro rfl
    exact hpx List.mem_cons_self
  · rw [hnext]
    intro heq
    exact hxs (heq ▸ List.mem_cons_self)

/-- Inserting before a place of a partition. -/
theorem Has.insert (h : l.Has parts) (hp : parts second = xs ++ ys) (hx : x ∉ contents parts) :
    (l.insert (start ys (endOf second)) x).Has
      (Function.update parts second (xs ++ x :: ys)) := by
  unfold Has at h ⊢
  unfold contents at hx
  cases second with
  | false =>
    rw [hp] at h hx
    simpa [endOf] using h.insert_first hx
  | true =>
    rw [hp] at h hx
    simpa [endOf] using h.insert_second hx

/-- Taking an element out of a partition. -/
theorem Has.take (h : l.Has parts) (hp : parts second = xs ++ x :: ys) :
    (l.take (.element x)).Has (Function.update parts second (xs ++ ys)) := by
  unfold Has at h ⊢
  cases second with
  | false =>
    rw [hp] at h
    simpa using h.take_first
  | true =>
    rw [hp] at h
    simpa using h.take_second

/-- Inserting an element only changes nodes of the list and the element itself. -/
theorem Has.insert_outside (h : l.Has parts) (hp : parts second = xs ++ ys)
    (hy : y ∉ contents parts)
    (hne : y ≠ x) :
    (l.insert (start ys (endOf second)) x).next (.element y) = l.next (.element y) ∧
      (l.insert (start ys (endOf second)) x).prev (.element y) = l.prev (.element y) := by
  obtain ⟨p, hpmem, hmem, hadj⟩ := h.adjacent hp
  have hnot : ∀ a ∈ nodes (parts false) (parts true), Node.element y ≠ a := by
    rintro a ha rfl
    exact hy (element_mem_nodes.mp ha)
  have hyx : Node.element y ≠ .element x := fun heq => hne (element_injective heq)
  unfold PartitionedList.insert
  rw [hadj.2]
  simp [Links.setNext, Links.setPrev, Function.update_of_ne, hnot _ hmem, hnot _ hpmem, hyx]

/-- Taking an element leaves the pointers of the others outside alone. -/
theorem Has.take_outside (h : l.Has parts) (hp : parts second = xs ++ x :: ys)
    (hy : y ∉ contents parts) :
    (l.take (.element x)).next (.element y) = l.next (.element y) ∧
      (l.take (.element x)).prev (.element y) = l.prev (.element y) := by
  obtain ⟨hprev, hnext, -⟩ := h.neighbours hp
  have hp' : parts second = (xs ++ [x]) ++ ys := by simp [hp]
  obtain ⟨-, -, hmem, -⟩ := h.adjacent hp'
  have hnot : ∀ a ∈ nodes (parts false) (parts true), Node.element y ≠ a := by
    rintro a ha rfl
    exact hy (element_mem_nodes.mp ha)
  unfold PartitionedList.take
  rw [hnext]
  simp [Links.setNext, Links.setPrev, Function.update_of_ne, hnot _ hmem, hnot _ hprev]

/-- The links of an element do not change when it is taken. -/
theorem Has.take_self (h : l.Has parts) (hp : parts second = xs ++ x :: ys) :
    (l.take (.element x)).next (.element x) = l.next (.element x) ∧
      (l.take (.element x)).prev (.element x) = l.prev (.element x) := by
  obtain ⟨-, -, hprev, hnext⟩ := h.neighbours hp
  unfold PartitionedList.take
  simp [Links.setNext, Links.setPrev, Function.update_of_ne, hprev.symm, hnext.symm]

/-- Putting an element back whose own links are as before inserts it. -/
theorem relink_eq_insert {c : Cursor α} (hfirst : c.first = .element x)
    (hnext : l.next (.element x) = c.next) (hprev : l.prev (.element x) = c.prev)
    (hadj : l.prev c.next = c.prev) : l.relink c = l.insert c.next x := by
  unfold relink PartitionedList.insert
  rw [hadj, hfirst]
  simp only [Links.setNext, Links.setPrev]
  rw [← hnext, Function.update_eq_self, ← hprev, Function.update_eq_self]

end PartitionedList

-- -------------------------
-- Runs
-- -------------------------

namespace ReentrantCache

variable {α : Type} {s s' : ReentrantCache α} {parts : Bool → List α}
variable {side : α → Bool} {f : InvokeFrame α} {frames : List (InvokeFrame α)}
variable {second : Bool} {xs ys : List α} {x y : α}

/-- A call that waits holds an element. The links of this element are those that the call has
saved, and what followed it belongs to the same partition. -/
def Waits (s : ReentrantCache α) (side : α → Bool) (f : InvokeFrame α) : Prop :=
  ∃ x ∈ s.added, f.cursor.first = .element x ∧ side x = f.second ∧
    s.list.next (.element x) = f.cursor.next ∧ s.list.prev (.element x) = f.cursor.prev ∧
    (f.cursor.next = endOf f.second ∨
      ∃ y ∈ s.added, f.cursor.next = .element y ∧ side y = f.second)

/-- Where the elements are. `side` is the partition that an element was inserted into. -/
structure Accounted (s : ReentrantCache α) (parts : Bool → List α) (side : α → Bool) : Prop where
  has : s.list.Has parts
  once : (contents parts ++ s.held ++ s.consumed).Perm s.added
  nodup : s.added.Nodup
  sides : ∀ b, ∀ x ∈ parts b, side x = b
  waits : ∀ f ∈ s.frames, s.Waits side f

namespace Accounted

theorem nodup_all (h : Accounted s parts side) :
    (contents parts ++ s.held ++ s.consumed).Nodup := h.once.nodup_iff.mpr h.nodup

/-- The walk over the cache visits the partitions. -/
theorem elements_eq (h : Accounted s parts side) : s.elements = contents parts := by
  refine h.has.reached_eq ?_
  have hlen := h.once.length_eq
  simp only [List.length_append] at hlen
  omega

/-- The element of a waiting call is not in the cache. -/
theorem held_notMem (h : Accounted s parts side) (hf : f ∈ s.frames)
    (hx : f.cursor.first = .element x) : x ∉ contents parts := by
  have hheld : x ∈ s.held := by
    refine List.mem_flatMap.mpr ⟨f, hf, ?_⟩
    simp [InvokeFrame.held, hx]
  have hd := (List.nodup_append.mp (List.nodup_append.mp h.nodup_all).1).2.2
  intro hmem
  exact hd x hmem x hheld rfl

theorem mem_added (h : Accounted s parts side) (hx : x ∈ contents parts) : x ∈ s.added := by
  refine h.once.subset ?_
  simp [hx]

end Accounted

/-- A call still waits in the same way after a change elsewhere. -/
theorem Waits.mono {side' : α → Bool} (h : s.Waits side f)
    (hlist : ∀ x, f.cursor.first = .element x → x ∈ s.added →
      s'.list.next (.element x) = s.list.next (.element x) ∧
        s'.list.prev (.element x) = s.list.prev (.element x))
    (hadded : s.added ⊆ s'.added) (hside : ∀ x ∈ s.added, side' x = side x) :
    s'.Waits side' f := by
  obtain ⟨x, hx, hfirst, hsx, hnext, hprev, hfollow⟩ := h
  obtain ⟨hn, hp⟩ := hlist x hfirst hx
  refine ⟨x, hadded hx, hfirst, (hside x hx).trans hsx, hn.trans hnext, hp.trans hprev, ?_⟩
  rcases hfollow with hend | ⟨y, hy, hnexty, hsy⟩
  · exact Or.inl hend
  · exact Or.inr ⟨y, hadded hy, hnexty, (hside y hy).trans hsy⟩

namespace Accounted

theorem intact (h : Accounted s parts side) : s.Intact :=
  ⟨parts false, parts true, h.has, h.elements_eq, h.once, h.nodup⟩

variable [DecidableEq α]

/-- What a call has saved is a place in its partition, if the neighbours still are next to each
other. -/
theorem place (h : Accounted s parts side) (hw : s.Waits side f) (hn : s.Neighbours f.cursor) :
    s.list.prev f.cursor.next = f.cursor.prev ∧
      ∃ xs ys, parts f.second = xs ++ ys ∧ f.cursor.next = start ys (endOf f.second) := by
  obtain ⟨hprev, hnext⟩ := hn
  -- a node with a successor is in the list, and is not its last one
  have hmem : f.cursor.prev ∈ (nodes (parts false) (parts true)).dropLast := by
    have hnodes : (nodes (parts false) (parts true)).dropLast =
        .head :: (parts false).map .element ++ .separator :: (parts true).map .element := by
      unfold nodes
      rw [← List.cons_append, ← List.append_assoc, List.dropLast_concat]
    rw [hnodes]
    -- the predecessor is the head, the separator or an element
    cases hp : f.cursor.prev with
    | head => exact List.mem_cons_self
    | separator => simp
    | element y =>
      rw [hp] at hprev
      have hy : y ∈ contents parts := by simpa [hasNext, h.elements_eq] using hprev
      simpa [contents] using hy
    | null | tail =>
      rw [hp] at hprev
      cases hprev
  obtain ⟨hadj, hin⟩ := h.has.row.next_of_mem hmem
  rw [hnext] at hadj hin
  refine ⟨hadj.2, ?_⟩
  obtain ⟨x, -, -, -, -, -, hend | ⟨y, -, hy, hsy⟩⟩ := hw
  · exact ⟨parts f.second, [], (List.append_nil _).symm, hend⟩
  · -- its successor is in the partition that the call walks through
    rw [hy] at hin
    obtain ⟨b, hb⟩ := mem_contents.mp (element_mem_nodes.mp (List.mem_of_mem_tail hin))
    obtain rfl := (h.sides b y hb).symm.trans hsy
    obtain ⟨xs, ys, hp⟩ := List.append_of_mem hb
    exact ⟨xs, y :: ys, hp, hy⟩

/-- What a call saves when it takes an element: the neighbours that the element had. -/
theorem waits_taken (h : Accounted s parts side) (hp : parts second = xs ++ x :: ys)
    (hcursor : f.cursor = ⟨.element x, s.list.prev (.element x), s.list.next (.element x)⟩)
    (hsecond : f.second = second) (consumed : List α) :
    ({ s with list := s.list.take (.element x), frames, consumed } : ReentrantCache α).Waits
      side f := by
  have hx : x ∈ contents parts := mem_contents.mpr ⟨second, by simp [hp]⟩
  obtain ⟨hnext, hprev⟩ := h.has.take_self hp
  refine ⟨x, h.mem_added hx, by rw [hcursor], ?_, ?_, ?_, ?_⟩
  · rw [hsecond]
    exact h.sides second x (by simp [hp])
  · rw [hcursor]
    exact hnext
  · rw [hcursor]
    exact hprev
  · rw [hcursor, hsecond]
    show s.list.next (.element x) = _ ∨ ∃ y ∈ s.added, s.list.next (.element x) = _ ∧ _
    rw [(h.has.neighbours hp).2.1]
    cases ys with
    | nil => exact Or.inl rfl
    | cons y ys =>
      have hy : y ∈ parts second := by simp [hp]
      exact Or.inr ⟨y, h.mem_added (mem_contents.mpr ⟨second, hy⟩), rfl, h.sides second y hy⟩

/-- An element is taken out of the list, and held or consumed afterwards. -/
theorem taken (h : Accounted s parts side) (hp : parts second = xs ++ x :: ys)
    {consumed : List α} (hframes : ∀ f ∈ frames, f ∈ s.frames ∨ f.cursor =
      ⟨.element x, s.list.prev (.element x), s.list.next (.element x)⟩ ∧ f.second = second)
    (honce : (frames.flatMap InvokeFrame.held ++ consumed).Perm (x :: (s.held ++ s.consumed))) :
    Accounted { s with list := s.list.take (.element x), frames, consumed }
      (Function.update parts second (xs ++ ys)) side := by
  have hsame : Function.update parts second (xs ++ x :: ys) = parts := by
    rw [← hp, Function.update_eq_self]
  refine ⟨h.has.take hp, ?_, h.nodup, fun b z hz => h.sides b z (update_subset hp b hz), ?_⟩
  · have hcontents : (contents (Function.update parts second (xs ++ x :: ys))).Perm
        (x :: contents (Function.update parts second (xs ++ ys))) := contents_update
    rw [hsame] at hcontents
    show (contents (Function.update parts second (xs ++ ys)) ++ frames.flatMap InvokeFrame.held ++
      consumed).Perm s.added
    refine List.Perm.trans ?_ h.once
    rw [List.append_assoc, List.append_assoc]
    exact (honce.append_left _).trans (List.perm_middle.trans (hcontents.symm.append_right _))
  · intro f hf
    rcases hframes f hf with hold | ⟨hcursor, hsecond⟩
    · refine (h.waits f hold).mono (fun z hz _ => ?_) (List.Subset.refl _) fun _ _ => rfl
      exact h.has.take_outside hp (h.held_notMem hold hz)
    · exact h.waits_taken hp hcursor hsecond consumed

/-- An element that is not in the list is inserted. -/
theorem inserted (h : Accounted s parts side) (hp : parts second = xs ++ ys)
    (hx : x ∉ contents parts) {added : List α} {side' : α → Bool}
    (hframes : ∀ f ∈ frames, f ∈ s.frames ∧ f.cursor.first ≠ .element x)
    (hadded : s.added ⊆ added) (hnodup : added.Nodup) (hside : ∀ y ∈ s.added, side' y = side y)
    (hsx : side' x = second)
    (honce : (x :: (contents parts ++ frames.flatMap InvokeFrame.held ++ s.consumed)).Perm added) :
    Accounted { s with list := s.list.insert (start ys (endOf second)) x, frames, added }
      (Function.update parts second (xs ++ x :: ys)) side' := by
  have hsame : Function.update parts second (xs ++ ys) = parts := by
    rw [← hp, Function.update_eq_self]
  refine ⟨h.has.insert hp hx, ?_, hnodup, ?_, ?_⟩
  · -- one more element, at the place
    have hcontents : (contents (Function.update parts second (xs ++ x :: ys))).Perm
        (x :: contents (Function.update parts second (xs ++ ys))) := contents_update
    rw [hsame] at hcontents
    show (contents (Function.update parts second (xs ++ x :: ys)) ++
      frames.flatMap InvokeFrame.held ++ s.consumed).Perm added
    exact ((hcontents.append_right _).append_right _).trans honce
  · intro b y hy
    have hold : ∀ y ∈ parts b, side' y = b := fun y hy =>
      (hside y (h.mem_added (mem_contents.mpr ⟨b, hy⟩))).trans (h.sides b y hy)
    by_cases hb : b = second
    · subst hb
      rw [Function.update_self] at hy
      rcases List.mem_append.mp hy with hy | hy
      · exact hold y (by simp [hp, hy])
      · rcases List.mem_cons.mp hy with rfl | hy
        · exact hsx
        · exact hold y (by simp [hp, hy])
    · rw [Function.update_of_ne hb] at hy
      exact hold y hy
  · -- the element that a waiting call holds is another one
    intro f hf
    obtain ⟨hmem, hne⟩ := hframes f hf
    refine (h.waits f hmem).mono (fun z hz _ => ?_) hadded hside
    refine h.has.insert_outside hp (h.held_notMem hmem hz) ?_
    rintro rfl
    exact hne hz

/-- The beginning of the loop of `invoke`, at a place in the partition or at its end. -/
theorem enter (h : Accounted s parts side) {c : Cursor α} (hc : c.first = endOf second ∨
    ∃ xs ys, parts second = xs ++ ys ∧ c = s.list.cursor (start ys (endOf second))) :
    ∃ s', s.enter c second = some s' ∧ ∃ parts', Accounted s' parts' side := by
  rcases hc with hend | ⟨xs, ys, hp, rfl⟩
  · exact ⟨s, if_pos hend, parts, h⟩
  · cases ys with
    | nil => exact ⟨s, if_pos rfl, parts, h⟩
    | cons y ys =>
      have hne : Node.element y ≠ endOf second := by cases second <;> exact fun heq => nomatch heq
      refine ⟨_, if_neg hne, _, h.taken hp ?_ (.refl _)⟩
      intro f hf
      rcases List.mem_cons.mp hf with rfl | hf
      · exact Or.inr ⟨rfl, rfl⟩
      · exact Or.inl hf

end Accounted

variable [DecidableEq α]

/-- The three ways in which the loop body goes on. -/
theorem settle_eq (l : PartitionedList α) (c : Cursor α) (r : Returned) : l.settle c r =
    if r.result = .success then (l, none)
    else if r.keeps then (l.relink c, some ((l.relink c).moveOn c true))
    else (l, some (l.moveOn c false)) := by
  obtain ⟨result, owned⟩ := r
  cases result with
  | success => rfl
  | dropped => rfl
  | skipped =>
    cases owned with
    | true => rfl
    | false => rfl

namespace Accounted

/-- The innermost call of `invoke_message` returns. -/
theorem ret (h : Accounted s parts side) {r : Returned} (hf : s.frames = f :: frames)
    (hsafe : s.Safe (.ret r)) :
    ∃ s', s.ret r = some s' ∧ ∃ parts', Accounted s' parts' side := by
  -- the innermost call returns; its element is consumed, moved past or put back
  have hmem : f ∈ s.frames := by rw [hf]; exact List.mem_cons_self
  have hw := h.waits f hmem
  have hcase := hsafe f (by rw [hf]; rfl)
  obtain ⟨x, hxadded, hfirst, hsx, hnext, hprev, -⟩ := id hw
  have hx := h.held_notMem hmem hfirst
  have hheld : s.held = x :: frames.flatMap InvokeFrame.held := by
    simp [held, hf, InvokeFrame.held, hfirst]
  have hfheld : f.held = [x] := by simp [InvokeFrame.held, hfirst]
  -- the element is consumed, and the list stays as it is
  have hconsumed : Accounted { s with frames, consumed := f.held ++ s.consumed } parts side := by
    refine ⟨h.has, ?_, h.nodup, h.sides, ?_⟩
    · refine List.Perm.trans ?_ h.once
      show (contents parts ++ frames.flatMap InvokeFrame.held ++ (f.held ++ s.consumed)).Perm _
      rw [hheld, hfheld, List.append_assoc, List.append_assoc]
      exact List.perm_middle.append_left _
    · intro g hg
      exact h.waits g (by rw [hf]; exact List.mem_cons_of_mem _ hg)
  unfold ReentrantCache.ret
  rw [hf]
  dsimp only
  rw [settle_eq]
  by_cases hsucc : r.result = .success
  · have hkeeps : r.keeps = false := by simp [Returned.keeps, hsucc]
    rw [if_pos hsucc, hkeeps]
    exact ⟨_, rfl, parts, hconsumed⟩
  · rw [if_neg hsucc]
    cases hkeeps : r.keeps with
    | false =>
      refine hconsumed.enter (c := s.list.moveOn f.cursor false) ?_
      rcases hcase with hbad | ⟨-, hend⟩ | hn
      · exact absurd hbad hsucc
      · exact Or.inl hend
      · obtain ⟨hadj, xs, ys, hp, hplace⟩ := h.place hw hn
        refine Or.inr ⟨xs, ys, hp, ?_⟩
        rw [← hplace, cursor, hadj]
        rfl
    | true =>
      have hn : s.Neighbours f.cursor := by
        rcases hcase with hbad | ⟨hbad, -⟩ | hn
        · exact absurd hbad hsucc
        · rw [hkeeps] at hbad
          cases hbad
        · exact hn
      obtain ⟨hadj, xs, ys, hp, hplace⟩ := h.place hw hn
      have hrelink : s.list.relink f.cursor = s.list.insert f.cursor.next x :=
        relink_eq_insert hfirst hnext hprev hadj
      -- the element is back in the list, and the next one follows it
      have hback : Accounted { s with list := s.list.relink f.cursor, frames }
          (Function.update parts f.second (xs ++ x :: ys)) side := by
        rw [hrelink, hplace]
        refine h.inserted hp hx ?_ (List.Subset.refl _) h.nodup (fun _ _ => rfl) hsx ?_
        · intro g hg
          refine ⟨by rw [hf]; exact List.mem_cons_of_mem _ hg, fun hgx => ?_⟩
          have hd := (List.nodup_append.mp (List.nodup_append.mp h.nodup_all).1).2.1
          rw [hheld, List.nodup_cons] at hd
          exact hd.1 (List.mem_flatMap.mpr ⟨g, hg, by simp [InvokeFrame.held, hgx]⟩)
        · refine List.Perm.trans ?_ h.once
          rw [hheld, List.append_assoc, List.append_assoc]
          exact List.perm_middle.symm
      refine hback.enter (c := (s.list.relink f.cursor).moveOn f.cursor true) (Or.inr ?_)
      refine ⟨xs ++ [x], ys, by simp, ?_⟩
      have hback' : (s.list.relink f.cursor).prev f.cursor.next = f.cursor.first :=
        Function.update_self ..
      show _ = (s.list.relink f.cursor).cursor _
      rw [← hplace, cursor, hback']
      rfl

theorem invoke (h : Accounted s parts side) (second : Bool) :
    ∃ s', s.step (.invoke second) = some s' ∧ ∃ parts', Accounted s' parts' side := by
  refine h.enter (c := s.list.cursor (s.list.beginOf second)) (Or.inr ⟨[], parts second, rfl, ?_⟩)
  rw [h.has.beginOf_eq]

/-- A new element is inserted. -/
theorem insert (h : Accounted s parts side) {next : Node α} (hc : s.canInsert next = true)
    (hx : x ∉ s.added) : ∃ parts' side',
      Accounted { s with list := s.list.insert next x, added := x :: s.added } parts' side' := by
  have hplace : ∃ b xs ys, parts b = xs ++ ys ∧ next = start ys (endOf b) := by
    cases next with
    | separator => exact ⟨false, parts false, [], (List.append_nil _).symm, rfl⟩
    | tail => exact ⟨true, parts true, [], (List.append_nil _).symm, rfl⟩
    | element y =>
      have hy : y ∈ contents parts := by simpa [canInsert, h.elements_eq] using hc
      obtain ⟨b, hb⟩ := mem_contents.mp hy
      obtain ⟨xs, ys, hp⟩ := List.append_of_mem hb
      exact ⟨b, xs, y :: ys, hp, rfl⟩
    | null | head => cases hc
  obtain ⟨b, xs, ys, hp, rfl⟩ := hplace
  -- the calls hold elements that were added before
  have hframes : ∀ f ∈ s.frames, f ∈ s.frames ∧ f.cursor.first ≠ .element x := by
    intro f hf
    refine ⟨hf, fun hfx => hx ?_⟩
    obtain ⟨z, hz, hzfirst, -⟩ := h.waits f hf
    cases hfx.symm.trans hzfirst
    exact hz
  refine ⟨_, Function.update side x b, h.inserted hp (fun hmem => hx (h.mem_added hmem)) hframes
    (List.subset_cons_self x _) (List.nodup_cons.mpr ⟨hx, h.nodup⟩) ?_ (Function.update_self ..)
    (h.once.cons x)⟩
  intro y hy
  exact Function.update_of_ne (fun heq : y = x => hx (heq ▸ hy)) ..

/-- An element is taken and consumed. -/
theorem take (h : Accounted s parts side) (hx : x ∈ s.elements) : ∃ parts', Accounted
    { s with list := s.list.take (.element x), consumed := x :: s.consumed } parts' side := by
  rw [h.elements_eq] at hx
  obtain ⟨b, hb⟩ := mem_contents.mp hx
  obtain ⟨xs, ys, hp⟩ := List.append_of_mem hb
  exact ⟨_, h.taken hp (fun _ hf => Or.inl hf) List.perm_middle⟩

/-- A step after which nothing is lost. -/
theorem step {i : Input α} (h : Accounted s parts side) (hsafe : s.Safe i)
    (hs : s.step i = some s') : ∃ parts' side', Accounted s' parts' side' := by
  -- a call, its return, or what a handler does in between
  cases i with
  | invoke second =>
    obtain ⟨s'', hs'', parts', h'⟩ := h.invoke second
    cases hs.symm.trans hs''
    exact ⟨parts', side, h'⟩
  | ret r =>
    replace hs : s.ret r = some s' := hs
    cases hf : s.frames with
    | nil => simp [ReentrantCache.ret, hf] at hs
    | cons f frames =>
      obtain ⟨s'', hs'', parts', h'⟩ := h.ret hf hsafe
      cases hs.symm.trans hs''
      exact ⟨parts', side, h'⟩
  | insert next x =>
    simp only [ReentrantCache.step, Option.ite_none_right_eq_some, Option.some.injEq] at hs
    obtain ⟨⟨hc, hx⟩, rfl⟩ := hs
    exact h.insert hc hx
  | take x =>
    simp only [ReentrantCache.step, Option.ite_none_right_eq_some, Option.some.injEq] at hs
    obtain ⟨hx, rfl⟩ := hs
    obtain ⟨parts', h'⟩ := h.take hx
    exact ⟨parts', side, h'⟩

end Accounted

/-- A new cache is accounted. -/
theorem Initial.accounted (h : Initial s) : ∃ parts side, Accounted s parts side := by
  obtain ⟨first, second, hlist, hframes, hconsumed, hadded⟩ := h
  refine ⟨fun b => if b then second else first, fun x => x ∈ second, hlist, ?_, ?_, ?_, ?_⟩
  · simp [contents, held, hframes, hconsumed, hadded]
  · rw [hadded]
    exact hlist.nodup
  · intro b x hx
    cases b with
    | true => simpa using hx
    | false =>
      have hnot : x ∉ second := fun hmem => (List.nodup_append.mp hlist.nodup).2.2 x hx x hmem rfl
      simpa using hnot
  · intro f hf
    rw [hframes] at hf
    exact absurd hf List.not_mem_nil

/-- **No element is lost or consumed twice as long as neighbours stay together.** In every run in
which, whenever `invoke_message` returns without success, the saved neighbours of the element still
are next to each other in the list, or the element is not put back and was the last one of its
partition: the list is well formed, every element is in the list, held by a call of `invoke` or
consumed, exactly once, a consumed element is not reached, and every call can go on. -/
theorem intact_of_neighbours (h : Reach Initial step Safe s) :
    s.Intact ∧ (∀ x ∈ s.consumed, x ∉ s.elements) ∧
      ∀ r, s.frames ≠ [] → s.Safe (.ret r) → (s.step (.ret r)).isSome = true := by
  have hacc : ∃ parts side, Accounted s parts side := by
    refine h.invariant (I := fun s => ∃ parts side, Accounted s parts side) ?_ ?_
    · intro s hs
      exact hs.accounted
    · rintro s i s' ⟨parts, side, hacc⟩ hsafe hs
      exact hacc.step hsafe hs
  obtain ⟨parts, side, hacc⟩ := hacc
  refine ⟨hacc.intact, ?_, ?_⟩
  · intro x hx hmem
    rw [hacc.elements_eq] at hmem
    exact (List.nodup_append.mp hacc.nodup_all).2.2 x (List.mem_append_left _ hmem) x hx rfl
  · intro r hne hsafe
    cases hf : s.frames with
    | nil => exact absurd hf hne
    | cons f frames =>
      obtain ⟨s', hs', -⟩ := hacc.ret hf hsafe
      exact Option.isSome_of_eq_some hs'

/-- A list with these elements in its second partition. -/
def ofList (xs : List α) : ReentrantCache α where
  list := xs.foldl pushSecondBack .empty
  frames := []
  consumed := []
  added := xs

/-- Appending elements one by one. -/
theorem foldl_pushSecondBack {l : PartitionedList α} {second xs : List α} (hl : l.Holds [] second)
    (hd : (second ++ xs).Nodup) : (xs.foldl pushSecondBack l).Holds [] (second ++ xs) := by
  induction xs generalizing l second with
  | nil => rwa [List.append_nil]
  | cons x xs ih =>
    have hx : x ∉ second := by
      intro hmem
      exact (List.nodup_append.mp hd).2.2 x hmem x List.mem_cons_self rfl
    have hcut : second ++ x :: xs = (second ++ [x]) ++ xs := by simp
    rw [hcut] at hd ⊢
    exact ih (hl.insert_last hx) hd

theorem ofList_initial {xs : List α} (hd : xs.Nodup) : Initial (ofList xs) :=
  ⟨[], xs, foldl_pushSecondBack empty_holds hd, rfl, rfl, rfl⟩

/-- The handler of the first of three elements calls `invoke`, which skips the other two, and then
skips its own one: the neighbours of all are as they were, and all are put back. The outer call
goes on, skips the second one again and consumes the third. -/
theorem intact_of_neighbours_skip : ∃ s : ReentrantCache Nat,
    s.elements = [1, 2] ∧ s.consumed = [3] ∧ s.Intact := by
  obtain ⟨s, hs, hcheck⟩ := exists_run
    (fun (s : ReentrantCache Nat) i => if s.Safe i then s.step i else none) (ofList [1, 2, 3])
    ([.invoke true, .invoke true] ++ List.replicate 4 (.ret ⟨.skipped, true⟩) ++
      [.ret ⟨.success, false⟩])
    (fun s => s.elements = [1, 2] ∧ s.consumed = [3]) (by decide)
  simp only [decide_eq_true_eq] at hcheck
  have hreach := reach_of_checked_run (.init (ofList_initial (by decide))) hs
  exact ⟨s, hcheck.1, hcheck.2, (intact_of_neighbours hreach).1⟩

/-- A handler adds an element and skips its own one, which was the only one: the new element is
lost. A handler calls `invoke` again, which consumes the next element, and skips its own one: the
next element is processed again, and reached after it was consumed. -/
theorem nested_calls_break :
    (¬ ∀ s : ReentrantCache Nat, Reach Initial step anyStep s → s.Intact) ∧
      ¬ ∀ s : ReentrantCache Nat, Reach Initial step anyStep s →
        ∀ x ∈ s.consumed, x ∉ s.elements := by
  constructor
  · intro h
    obtain ⟨s, hs, hcheck⟩ := exists_run step (ofList [1])
      [.invoke true, .insert .tail 2, .ret ⟨.skipped, true⟩]
      (fun s => s.elements = [1] ∧ s.held = [] ∧ s.consumed = [] ∧ s.added = [2, 1]) (by decide)
    simp only [decide_eq_true_eq] at hcheck
    obtain ⟨helements, hheld, hconsumed, hadded⟩ := hcheck
    obtain ⟨first, second, -, heq, hperm, -⟩ :=
      h s (reach_of_run (.init (ofList_initial (by decide))) hs)
    rw [← heq, helements, hheld, hconsumed, hadded] at hperm
    exact absurd hperm.length_eq (by decide)
  · intro h
    obtain ⟨s, hs, hcheck⟩ := exists_run step (ofList [1, 2])
      [.invoke true, .invoke true, .ret ⟨.success, false⟩, .ret ⟨.skipped, true⟩,
        .ret ⟨.skipped, true⟩] (fun s => 2 ∈ s.consumed ∧ 2 ∈ s.elements) (by decide)
    simp only [decide_eq_true_eq] at hcheck
    exact h s (reach_of_run (.init (ofList_initial (by decide))) hs) 2 hcheck.1 hcheck.2

end ReentrantCache

end BoostActor
