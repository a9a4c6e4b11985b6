import BoostActor.Core.PartitionedList

/-!
# Processing a cache

`intrusive_partitioned_list::invoke` passes the elements of a range to the handler of an actor. It
unlinks each element before the call and puts it back if the handler skips it. As long as the
handler leaves the list alone, the loop is a traversal of a list of elements: `visit`.

* `relink_unlink` — putting an element back restores the list;
* `invokeLoop_spec` — the loop, for any range;
* `invoke_refines_visit` — the function, for both partitions.
-/

namespace BoostActor

open Lib

/-- `invoke_message_result`. -/
inductive InvokeMessageResult where
  | success
  | skipped
  | dropped
deriving DecidableEq, Repr

/-- What a call of `invoke_message(tmp, ...)` leaves: its result, and whether `tmp` still owns the
element. -/
structure Returned where
  result : InvokeMessageResult
  owned : Bool
deriving DecidableEq, Repr

/-- The element is put back into the list. -/
def Returned.keeps (r : Returned) : Bool := r.result = .skipped && r.owned

namespace PartitionedList

variable {α σ : Type}

/-- The local variables of `invoke`. -/
structure Cursor (α : Type) where
  first : Node α
  prev : Node α
  next : Node α
deriving DecidableEq, Repr

section Operations

variable [DecidableEq α]

/-- The cursor at the beginning of `invoke(first, last)`. -/
def cursor (l : PartitionedList α) (first : Node α) : Cursor α :=
  ⟨first, l.prev first, l.next first⟩

/-- `move_on(first_valid)`. -/
def moveOn (l : PartitionedList α) (c : Cursor α) (firstValid : Bool) : Cursor α where
  prev := if firstValid then c.first else c.prev
  first := c.next
  next := l.next c.next

/-- The current element is taken out of the list. -/
def unlink (l : PartitionedList α) (c : Cursor α) : PartitionedList α :=
  let l := l.setNext c.prev c.next
  l.setPrev c.next c.prev

/-- The current element is put back. -/
def relink (l : PartitionedList α) (c : Cursor α) : PartitionedList α :=
  let l := l.setNext c.prev c.first
  l.setPrev c.next c.first

/-- The rest of the loop body, after `invoke_message`: there is no next cursor if `invoke` returns
true. -/
def settle (l : PartitionedList α) (c : Cursor α) (r : Returned) :
    PartitionedList α × Option (Cursor α) :=
  match r.result with
  | .dropped => (l, some (l.moveOn c false))
  | .success => (l, none)
  | .skipped =>
    if r.owned then
      let l := l.relink c
      (l, some (l.moveOn c true))
    else (l, some (l.moveOn c false))

/-- The loop of `invoke`, for a handler with a state of its own that does not touch the list. -/
def invokeLoop (handler : σ → α → Returned × σ) (last : Node α) :
    Nat → PartitionedList α → Cursor α → σ → Option (Bool × PartitionedList α × σ)
  | 0, _, _, _ => none
  | fuel + 1, l, c, s =>
    if c.first = last then some (false, l, s)
    else match c.first with
      | .element x =>
        let l := l.unlink c
        let (r, s) := handler s x
        match l.settle c r with
        | (l, none) => some (true, l, s)
        | (l, some c) => invokeLoop handler last fuel l c s
      | _ => none

/-- `invoke(first, last)`. -/
def invoke (l : PartitionedList α) (handler : σ → α → Returned × σ) (first last : Node α) (s : σ)
    (fuel : Nat) : Option (Bool × PartitionedList α × σ) :=
  invokeLoop handler last fuel l (l.cursor first) s

end Operations

-- -------------------------
-- Traversing a list
-- -------------------------

/-- The elements of a list are visited in order up to the first one that is handled successfully:
the visited elements with what the handler returned, and its final state. -/
def visit (handler : σ → α → Returned × σ) : σ → List α → List (α × Returned) × σ
  | s, [] => ([], s)
  | s, x :: xs =>
    let (r, s) := handler s x
    if r.result = .success then ([(x, r)], s)
    else
      let (visited, s) := visit handler s xs
      ((x, r) :: visited, s)

/-- What is left of a list: the visited elements that are kept and those that were not visited. -/
def remaining (visited : List (α × Returned)) (xs : List α) : List α :=
  (visited.filter (·.2.keeps)).map (·.1) ++ xs.drop visited.length

variable {handler : σ → α → Returned × σ} {s : σ} {xs : List α}

/-- A traversal of a list: its elements are visited in order, a success ends it, and without one it
visits every element. -/
structure Traversal (visited : List (α × Returned)) (xs : List α) : Prop where
  order : visited.map (·.1) = xs.take visited.length
  stops : ∀ v ∈ visited.dropLast, v.2.result ≠ .success
  all : visited.any (·.2.result = .success) = false → visited.length = xs.length

/-- Elements are visited in their order. -/
theorem visit_order (s : σ) (xs : List α) :
    (visit handler s xs).1.map (·.1) = xs.take (visit handler s xs).1.length := by
  induction xs generalizing s with
  | nil => rfl
  | cons x xs ih =>
    unfold visit
    dsimp only
    split
    · rfl
    · simp [ih]

/-- Only the last element that is visited may end the traversal. -/
theorem visit_stops (s : σ) (xs : List α) :
    ∀ v ∈ (visit handler s xs).1.dropLast, v.2.result ≠ .success := by
  induction xs generalizing s with
  | nil => exact fun v hv => absurd hv List.not_mem_nil
  | cons x xs ih =>
    unfold visit
    dsimp only
    split
    · exact fun v hv => absurd hv List.not_mem_nil
    · next hne =>
      intro v hv
      cases hrest : (visit handler (handler s x).2 xs).1 with
      | nil => simp [hrest] at hv
      | cons w ws =>
        rw [hrest, List.dropLast_cons_cons] at hv
        rcases List.mem_cons.mp hv with rfl | hv
        · exact hne
        · exact ih _ v (by rw [hrest]; exact hv)

/-- All elements are visited unless one ends the traversal. -/
theorem visit_all (s : σ) (xs : List α)
    (h : (visit handler s xs).1.any (·.2.result = .success) = false) :
    (visit handler s xs).1.length = xs.length := by
  induction xs generalizing s with
  | nil => rfl
  | cons x xs ih =>
    unfold visit at h ⊢
    dsimp only at h ⊢
    split at h
    · next hsucc => simp [hsucc] at h
    · next hne =>
      rw [if_neg hne]
      simp only [List.any_cons, Bool.or_eq_false_iff] at h
      rw [List.length_cons, ih _ h.2, List.length_cons]

theorem visit_traversal (handler : σ → α → Returned × σ) (s : σ) (xs : List α) :
    Traversal (visit handler s xs).1 xs := ⟨visit_order s xs, visit_stops s xs, visit_all s xs⟩

theorem Traversal.remaining_sublist {visited : List (α × Returned)} (h : Traversal visited xs) :
    (remaining visited xs).Sublist xs := by
  have hkept : ((visited.filter (·.2.keeps)).map (·.1)).Sublist (xs.take visited.length) := by
    rw [← h.order]
    exact List.filter_sublist.map _
  have happend := hkept.append_right (xs.drop visited.length)
  rwa [List.take_append_drop] at happend

-- -------------------------
-- The loop
-- -------------------------

variable [DecidableEq α] {l : PartitionedList α} {c : Cursor α} {pre post : List (Node α)}
variable {p last : Node α} {x : α}

/-- Putting an element back restores the list. -/
theorem relink_unlink (hn : l.next c.prev = c.first) (hp : l.prev c.next = c.first) :
    (l.unlink c).relink c = l := by
  simp only [relink, unlink, Links.setNext, Links.setPrev, Function.update_idem]
  rw [← hn, Function.update_eq_self, hn, ← hp, Function.update_eq_self]

/-- An element in a range: its neighbours, and the range without it. -/
theorem row_cursor (hr : l.Row (around (pre ++ [p]) (x :: xs) last post))
    (hd : (around (pre ++ [p]) (x :: xs) last post).Nodup) :
    l.prev (.element x) = p ∧ l.next (.element x) = start xs last ∧ l.next p = .element x ∧
      l.prev (start xs last) = .element x ∧
      (l.link p (start xs last)).Row (around (pre ++ [p]) xs last post) := by
  obtain ⟨rest, hrest⟩ := exists_start xs last post
  unfold around at hr hd ⊢
  rw [List.map_cons, List.cons_append, hrest, List.append_assoc, List.singleton_append] at hr hd
  rw [hrest, List.append_assoc, List.singleton_append]
  have hleft := hr.adjacent
  have hright : l.Adjacent (.element x) (start xs last) := by
    have hcut : pre ++ p :: .element x :: start xs last :: rest =
        (pre ++ [p]) ++ .element x :: start xs last :: rest := by simp
    rw [hcut] at hr
    exact hr.adjacent
  exact ⟨hleft.2, hright.1, hleft.1, hright.2, hr.unlink hd⟩

/-- The loop visits the elements of the range. -/
theorem invokeLoop_spec (handler : σ → α → Returned × σ)
    (hr : l.Row (around (pre ++ [p]) xs last post))
    (hd : (around (pre ++ [p]) xs last post).Nodup) (s : σ) {fuel : Nat} (hf : xs.length < fuel) :
    ∃ l', invokeLoop handler last fuel l ⟨start xs last, p, l.next (start xs last)⟩ s =
        some ((visit handler s xs).1.any (·.2.result = .success), l', (visit handler s xs).2) ∧
      l'.Row (around (pre ++ [p]) (remaining (visit handler s xs).1 xs) last post) := by
  induction xs generalizing l pre p s fuel with
  | nil =>
    obtain ⟨fuel, rfl⟩ := Nat.exists_eq_add_of_lt hf
    exact ⟨l, by simp [invokeLoop, start, visit], hr⟩
  | cons x xs ih =>
    cases fuel with
    | zero => exact absurd hf (Nat.not_lt_zero _)
    | succ fuel =>
      obtain ⟨hprev, hnext, hpn, hpp, hrow⟩ := row_cursor hr hd
      -- the nodes stay distinct without the element
      have hdr : (around (pre ++ [p]) xs last post).Nodup := by
        refine hd.sublist ?_
        exact List.Sublist.append_left (List.sublist_cons_self _ _) _
      have hne : Node.element x ≠ last := by
        rintro rfl
        simp [around, List.nodup_append] at hd
      have hf : xs.length < fuel := Nat.lt_of_succ_lt_succ hf
      -- the loop body up to the call, and what follows it
      let c : Cursor α := ⟨.element x, p, start xs last⟩
      have hbody : invokeLoop handler last (fuel + 1) l ⟨.element x, p, start xs last⟩ s =
          match (l.unlink c).settle c (handler s x).1 with
          | (l, none) => some (true, l, (handler s x).2)
          | (l, some c) => invokeLoop handler last fuel l c (handler s x).2 := by
        rw [invokeLoop]
        exact if_neg hne
      have hunlink : l.unlink c = l.link p (start xs last) := rfl
      show ∃ l', invokeLoop handler last (fuel + 1) l ⟨.element x, p, l.next (.element x)⟩ s = _ ∧ _
      rw [hnext, hbody]
      unfold visit settle
      cases hres : (handler s x).1.result with
      | success =>
        refine ⟨l.unlink c, by simp [hres], ?_⟩
        simpa [remaining, Returned.keeps, hres, hunlink] using hrow
      | dropped =>
        obtain ⟨l', hl', hrow'⟩ := ih hrow hdr (handler s x).2 hf
        refine ⟨l', ?_, ?_⟩
        · simpa [hres, moveOn, hunlink] using hl'
        · simpa [remaining, Returned.keeps, hres] using hrow'
      | skipped =>
        cases hown : (handler s x).1.owned with
        | false =>
          obtain ⟨l', hl', hrow'⟩ := ih hrow hdr (handler s x).2 hf
          refine ⟨l', ?_, ?_⟩
          · simpa [hres, hown, moveOn, hunlink] using hl'
          · simpa [remaining, Returned.keeps, hres, hown] using hrow'
        | true =>
          -- the list is what it was before; the element belongs to what precedes the range
          have hback : (l.unlink c).relink c = l := relink_unlink hpn hpp
          have hcut : around (pre ++ [p]) (x :: xs) last post =
              around ((pre ++ [p]) ++ [.element x]) xs last post := by simp [around]
          obtain ⟨l', hl', hrow'⟩ := ih (hcut ▸ hr) (hcut ▸ hd) (handler s x).2 hf
          refine ⟨l', ?_, ?_⟩
          · simpa [hres, hown, moveOn, hback] using hl'
          · simpa [remaining, Returned.keeps, hres, hown, around] using hrow'

/-- **Processing a partition is a traversal of its elements.** For a handler that does not touch the
list, `invoke` visits the elements of the partition in order up to the first one that is handled
successfully, and returns whether there was one; skipped elements and those that were not visited
stay in their order, all others are removed, and the other partition stays as it is. -/
theorem invoke_refines_visit {first second : List α} (h : l.Holds first second)
    (handler : σ → α → Returned × σ) (s : σ) :
    (∀ fuel, second.length < fuel → ∃ l',
      l.invoke handler l.secondBegin l.secondEnd s fuel = some
        ((visit handler s second).1.any (·.2.result = .success), l', (visit handler s second).2) ∧
      l'.Holds first (remaining (visit handler s second).1 second) ∧
      Traversal (visit handler s second).1 second) ∧
    ∀ fuel, first.length < fuel → ∃ l',
      l.invoke handler l.firstBegin l.firstEnd s fuel = some
        ((visit handler s first).1.any (·.2.result = .success), l', (visit handler s first).2) ∧
      l'.Holds (remaining (visit handler s first).1 first) second ∧
      Traversal (visit handler s first).1 first := by
  have hd := nodup_nodes h.nodup
  have hr := h.row
  constructor
  · -- the second partition is the part between separator and tail
    intro fuel hf
    rw [nodes_second] at hr hd
    obtain ⟨l', hl', hrow⟩ := invokeLoop_spec handler hr hd s hf
    have hvisit := visit_traversal handler s second
    refine ⟨l', ?_, ⟨?_, ?_⟩, hvisit⟩
    · rw [invoke, cursor, h.secondBegin_eq, h.adjacent_second.2]
      exact hl'
    · rw [nodes_second]
      exact hrow
    · exact h.nodup.sublist (hvisit.remaining_sublist.append_left first)
  · -- the first one is the part between head and separator
    intro fuel hf
    rw [nodes_first] at hr hd
    have hr' : l.Row (around ([] ++ [.head]) first .separator _) := hr
    obtain ⟨l', hl', hrow⟩ := invokeLoop_spec handler hr' hd s hf
    have hvisit := visit_traversal handler s first
    refine ⟨l', ?_, ⟨?_, ?_⟩, hvisit⟩
    · rw [invoke, cursor, h.firstBegin_eq, h.adjacent_first.2]
      exact hl'
    · rw [nodes_first]
      exact hrow
    · exact h.nodup.sublist (hvisit.remaining_sublist.append_right second)

/-- Two elements in the second partition: the first one is skipped, the other one is handled. -/
theorem invoke_refines_visit_skipping :
    let l : PartitionedList Nat := (empty.insert .tail 1).insert .tail 2
    let handler : Nat → Nat → Returned × Nat :=
      fun s x => (⟨if x = 1 then .skipped else .success, true⟩, s + 1)
    ∃ l', l.invoke handler l.secondBegin l.secondEnd 0 3 = some (true, l', 2) ∧
      l'.Holds [] [1] := by
  intro l handler
  have hone : ((empty : PartitionedList Nat).insert .tail 1).Holds [] [1] :=
    empty_holds.insert_last List.not_mem_nil
  have htwo : l.Holds [] [1, 2] := by
    refine hone.insert_last ?_
    decide
  obtain ⟨l', hl', hholds, -⟩ := (invoke_refines_visit htwo handler 0).1 3 (by decide)
  exact ⟨l', hl', hholds⟩

end PartitionedList

end BoostActor
