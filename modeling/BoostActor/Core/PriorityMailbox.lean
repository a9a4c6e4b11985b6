import Mathlib.Data.List.Perm.Subperm
import BoostActor.Core.ActorFlags
import BoostActor.Core.PartitionedList
import BoostActor.Core.Scheduling

/-!
# Reading a mailbox by priority

`local_actor::next_message` of an actor that is aware of priorities reads its whole mailbox into
the first partition of the cache, and `push_to_cache` puts messages that were skipped into the
second one. Other actors can enqueue messages at any time, also while the mailbox is read.

* `partitionPoint_eq` — the binary search of `push_to_cache`;
* `Holds.insertRead`, `Holds.pushToCache` — both functions insert a message as
  `Schedule.insertFirst` does;
* `priority_scheduling` — the order of messages in every run.
-/

namespace BoostActor

open Lib

-- -------------------------
-- Operations
-- -------------------------

namespace PartitionedList

variable {α : Type} [DecidableEq α]

/-- `take_first_front()`: the element that it returns. -/
def firstFront (l : PartitionedList α) : Option α :=
  match l.firstBegin with
  | .element x => some x
  | _ => none

/-- `std::distance(first, last)`. -/
def distance (l : PartitionedList α) (first last : Node α) : Nat → Option Nat
  | 0 => none
  | fuel + 1 =>
    if first = last then some 0 else (l.distance (l.next first) last fuel).map (· + 1)

/-- The loop of `std::partition_point`. -/
def partitionPointLoop (l : PartitionedList α) (pred : Node α → Bool) :
    Nat → Node α → Nat → Node α
  | 0, first, _ => first
  | fuel + 1, first, len =>
    if len = 0 then first
    else
      let half := len / 2
      let middle := l.next^[half] first
      if pred middle then l.partitionPointLoop pred fuel (l.next middle) (len - half - 1)
      else l.partitionPointLoop pred fuel first half

/-- `std::partition_point(first, last, pred)`. -/
def partitionPoint (l : PartitionedList α) (first last : Node α) (pred : Node α → Bool)
    (fuel : Nat) : Option (Node α) :=
  (l.distance first last fuel).map fun len => l.partitionPointLoop pred len first len

end PartitionedList

/-- `is_high_priority()`. The id of a sentinel is zero. -/
def Node.isHighPriority {α : Type} (high : α → Bool) : Node α → Bool
  | .element x => high x
  | _ => false

/-- Where a call of `next_message` is. -/
inductive NextMessage (α : Type) where
  | idle
  /-- it reads the whole mailbox; the insert point for high priority -/
  | readAll (hpPos : Node α)
  /-- it is about to take the first element of the cache -/
  | takeFirst
deriving DecidableEq, Repr

/-- A local actor with its mailbox, and the messages that were enqueued, those that `next_message`
has returned, and those that `push_to_cache` has put into the cache and that are still there.
`hand` are the messages that were returned and not put into the cache, `before` those that were
enqueued before the last call of `next_message`. -/
structure PriorityActor (α : Type) where
  flags : FlaggedActor
  mailbox : Mailbox α
  cache : PartitionedList α
  call : NextMessage α
  enqueued : List α
  returned : List α
  skipped : List α
  hand : List α
  before : List α

namespace PriorityActor

variable {α : Type} [DecidableEq α] (high : α → Bool)

/-- `next_message` has returned a message, or null. -/
def give (s : PriorityActor α) (result : Option α) : PriorityActor α :=
  { s with
    call := .idle
    returned := s.returned ++ result.toList
    hand := s.hand ++ result.toList }

/-- The body of the loop of `next_message`, and the insert point afterwards. -/
def insertRead (cache : PartitionedList α) (hpPos : Node α) (tmp : α) :
    PartitionedList α × Node α :=
  let e := cache.firstEnd
  let cache := cache.insert (if high tmp then hpPos else e) tmp
  (cache, if hpPos = e && !high tmp then cache.prev hpPos else hpPos)

/-- The next step of `next_message`. -/
def nextMessage (s : PriorityActor α) : PriorityActor α :=
  match s.call with
  | .idle =>
    let s := { s with before := s.enqueued }
    if !s.flags.isPriorityAware then
      let (result, mailbox) := s.mailbox.tryPop
      { s with mailbox }.give result
    else
      let i := s.cache.firstBegin
      let e := s.cache.firstEnd
      { s with call := if i = e || !i.isHighPriority high then .readAll i else .takeFirst }
  | .readAll hpPos =>
    match s.mailbox.tryPop with
    | (some tmp, mailbox) =>
      let (cache, hpPos) := insertRead high s.cache hpPos tmp
      { s with mailbox, cache, call := .readAll hpPos }
    | (none, mailbox) => { s with mailbox, call := .takeFirst }
  | .takeFirst =>
    if s.cache.firstEmpty then s.give none
    else { s with cache := s.cache.take s.cache.firstBegin }.give s.cache.firstFront

/-- `has_next_message()`. -/
def hasNextMessage (s : PriorityActor α) : Bool :=
  if !s.flags.isPriorityAware then s.mailbox.canFetchMore
  else !s.cache.firstEmpty || s.mailbox.canFetchMore

/-- `push_to_cache(ptr)`: the cache. -/
def pushToCache (flags : FlaggedActor) (cache : PartitionedList α) (ptr : α) (fuel : Nat) :
    Option (PartitionedList α) :=
  if !flags.isPriorityAware then some (cache.pushSecondBack ptr)
  else
    let e := cache.secondEnd
    let i := if high ptr then
        cache.partitionPoint cache.secondBegin e (Node.isHighPriority high) fuel
      else some e
    i.map fun i => cache.insert i ptr

/-- What can happen. -/
inductive Label (α : Type) where
  | enqueue (x : α)
  /-- the reader has no message and blocks -/
  | block
  /-- the next step of `next_message` -/
  | next
  | push (x : α)
  /-- a message in the cache is handled -/
  | handle (x : α)
deriving DecidableEq, Repr

/-- A step of an actor. Enqueued elements are new objects. -/
def step (s : PriorityActor α) : Label α → Option (PriorityActor α)
  | .enqueue x =>
    if x ∈ s.enqueued then none
    else
      let (result, mailbox) := s.mailbox.enqueue x
      some { s with
        mailbox
        enqueued := if result = .queueClosed then s.enqueued else s.enqueued ++ [x] }
  | .block =>
    if s.call = .idle ∧ s.hasNextMessage = false then
      some { s with mailbox := s.mailbox.tryBlock.2 }
    else none
  | .next => some (s.nextMessage high)
  | .push x =>
    if s.call = .idle ∧ x ∈ s.hand then
      (pushToCache high s.flags s.cache x (s.enqueued.length + 1)).map fun cache =>
        { s with cache, skipped := s.skipped ++ [x], hand := s.hand.erase x }
    else none
  | .handle x =>
    if s.call = .idle ∧ x ∈ s.skipped then
      some { s with cache := s.cache.take (.element x), skipped := s.skipped.erase x }
    else none

/-- A new actor that is aware of priorities. -/
structure Initial (s : PriorityActor α) : Prop where
  aware : s.flags.isPriorityAware = true
  mailbox : s.mailbox = .initial
  cache : s.cache = .empty
  call : s.call = .idle
  enqueued : s.enqueued = []
  returned : s.returned = []
  skipped : s.skipped = []
  hand : s.hand = []
  before : s.before = []

def Reachable : PriorityActor α → Prop := Reach Initial (step high) anyStep

end PriorityActor

-- -------------------------
-- Lists of messages
-- -------------------------

section Lists

variable {α : Type} (high : α → Bool)

/-- Messages of high priority, then messages of normal priority. -/
def HighFirst (xs : List α) : Prop :=
  ∃ hs ns, xs = hs ++ ns ∧ (∀ x ∈ hs, high x = true) ∧ ∀ x ∈ ns, high x = false

/-- The messages of one priority. -/
def ofPriority (b : Bool) (xs : List α) : List α := xs.filter fun x => high x = b

variable {high} {xs ys hs ns : List α} {x : α} {b : Bool}

@[simp] theorem ofPriority_append : ofPriority high b (xs ++ ys) =
    ofPriority high b xs ++ ofPriority high b ys := List.filter_append ..

/-- Lists with the same messages of each priority have the same messages. -/
theorem perm_of_priority (h : ∀ b, ofPriority high b xs = ofPriority high b ys) : xs.Perm ys := by
  have hsplit : ∀ zs : List α, (ofPriority high true zs ++ ofPriority high false zs).Perm zs := by
    intro zs
    have hperm := List.filter_append_perm (fun x => decide (high x = true)) zs
    have hnot : zs.filter (fun x => !decide (high x = true)) = ofPriority high false zs :=
      List.filter_congr fun x _ => by cases high x <;> rfl
    rwa [hnot] at hperm
  have hxs := hsplit xs
  rw [h true, h false] at hxs
  exact hxs.symm.trans (hsplit ys)

/-- `insertFirst` inserts between the messages of high priority and the others, or at the end. -/
theorem insertFirst_append (hh : ∀ x ∈ hs, high x = true) (hn : ∀ x ∈ ns, high x = false) :
    Schedule.insertFirst high x (hs ++ ns) =
      if high x then hs ++ x :: ns else hs ++ ns ++ [x] := by
  have htake : (hs ++ ns).takeWhile high = hs := by
    rw [List.takeWhile_append_of_pos hh]
    cases ns with
    | nil => simp
    | cons y ns => simp [hn y List.mem_cons_self]
  have hdrop : (hs ++ ns).dropWhile high = ns := by
    rw [List.dropWhile_append_of_pos hh]
    cases ns with
    | nil => rfl
    | cons y ns => simp [hn y List.mem_cons_self]
  rw [Schedule.insertFirst, htake, hdrop]

theorem HighFirst.nil : HighFirst high [] := ⟨[], [], rfl, by simp, by simp⟩

/-- Inserting behind the messages of the same priority keeps the form. -/
theorem HighFirst.insertFirst (h : HighFirst high xs) (x : α) :
    HighFirst high (Schedule.insertFirst high x xs) := by
  obtain ⟨hs, ns, rfl, hh, hn⟩ := h
  rw [insertFirst_append hh hn]
  cases hx : high x with
  | true =>
    refine ⟨hs ++ [x], ns, by simp, ?_, hn⟩
    intro y hy
    rcases List.mem_append.mp hy with hy | hy
    · exact hh y hy
    · rw [List.mem_singleton.mp hy, hx]
  | false =>
    refine ⟨hs, ns ++ [x], by simp, hh, ?_⟩
    intro y hy
    rcases List.mem_append.mp hy with hy | hy
    · exact hn y hy
    · rw [List.mem_singleton.mp hy, hx]

/-- Each priority keeps its order. -/
theorem HighFirst.ofPriority_insertFirst (h : HighFirst high xs) (x : α) (b : Bool) :
    ofPriority high b (Schedule.insertFirst high x xs) = ofPriority high b (xs ++ [x]) := by
  obtain ⟨hs, ns, rfl, hh, hn⟩ := h
  rw [insertFirst_append hh hn]
  cases hx : high x with
  | false => rfl
  | true =>
    cases b with
    | true =>
      have hnone : ofPriority high true ns = [] := by
        refine List.filter_eq_nil_iff.mpr fun y hy => ?_
        simp [hn y hy]
      have hcons : ofPriority high true (x :: ns) = x :: ofPriority high true ns :=
        List.filter_cons_of_pos (by simp [hx])
      have hlast : ofPriority high true [x] = [x] := List.filter_cons_of_pos (by simp [hx])
      simp only [if_true, ofPriority_append, hcons, hlast, hnone, List.append_nil]
    | false => simp [ofPriority, hx]

theorem HighFirst.sublist (h : HighFirst high ys) (hsub : xs.Sublist ys) : HighFirst high xs := by
  obtain ⟨hs', ns', rfl, hh, hn⟩ := h
  obtain ⟨hs, ns, rfl, hsub, nsub⟩ := List.sublist_append_iff.mp hsub
  exact ⟨hs, ns, rfl, fun x hx => hh x (hsub.subset hx), fun x hx => hn x (nsub.subset hx)⟩

end Lists

-- -------------------------
-- The cache
-- -------------------------

namespace PartitionedList

variable {α : Type} {high : α → Bool} {l : PartitionedList α}
variable {first second xs hs ns : List α} {pre post : List (Node α)} {last : Node α} {x : α}

theorem start_drop {k : Nat} (hk : k < xs.length) :
    start (xs.drop k) last = .element (xs.get ⟨k, hk⟩) := by
  rw [start, List.drop_eq_getElem_cons hk]
  rfl

/-- Following the links through a range. -/
theorem next_start_drop (hr : l.Row (around pre xs last post)) {k : Nat} (hk : k < xs.length) :
    l.next (start (xs.drop k) last) = start (xs.drop (k + 1)) last := by
  obtain ⟨rest, hrest⟩ := exists_start (xs.drop (k + 1)) last post
  have hcut : xs = xs.take k ++ xs.get ⟨k, hk⟩ :: xs.drop (k + 1) := by
    have hdrop := List.take_append_drop k xs
    rw [List.drop_eq_getElem_cons hk] at hdrop
    exact hdrop.symm
  rw [hcut, around_append, List.map_cons, List.cons_append, hrest] at hr
  rw [start_drop hk]
  exact hr.adjacent.1

/-- Advancing through a range. -/
theorem iterate_next_drop (hr : l.Row (around pre xs last post)) (n : Nat) {k : Nat}
    (hk : k + n ≤ xs.length) :
    l.next^[n] (start (xs.drop k) last) = start (xs.drop (k + n)) last := by
  induction n with
  | zero => rfl
  | succ n ih =>
    rw [Function.iterate_succ_apply', ih (by omega), next_start_drop hr (by omega)]
    rfl

/-- The search interval always contains the partition point. -/
theorem partitionPointLoop_eq (hr : l.Row (around pre (hs ++ ns) last post))
    (hh : ∀ x ∈ hs, high x = true) (hn : ∀ x ∈ ns, high x = false) {fuel k len : Nat}
    (hf : len ≤ fuel) (hk : k ≤ hs.length) (hlen : hs.length ≤ k + len)
    (hend : k + len ≤ (hs ++ ns).length) :
    l.partitionPointLoop (Node.isHighPriority high) fuel (start ((hs ++ ns).drop k) last) len =
      start ns last := by
  have hfound : k = hs.length → start ((hs ++ ns).drop k) last = start ns last := by
    rintro rfl
    rw [List.drop_left]
  -- bisection: the range of length `len` at `k` still contains the partition point
  induction fuel generalizing k len with
  | zero => exact hfound (by omega)
  | succ fuel ih =>
    rw [partitionPointLoop]
    by_cases hzero : len = 0
    · rw [if_pos hzero]
      exact hfound (by omega)
    · -- the element in the middle is before the partition point exactly when its priority is high
      have hmid : k + len / 2 < (hs ++ ns).length := by omega
      have hpred : (start ((hs ++ ns).drop (k + len / 2)) last).isHighPriority high =
          decide (k + len / 2 < hs.length) := by
        rw [start_drop hmid]
        show high ((hs ++ ns)[k + len / 2]) = _
        rw [List.getElem_append]
        split
        · next hlt => rw [hh _ (List.getElem_mem _), decide_eq_true hlt]
        · next hge => rw [hn _ (List.getElem_mem _), decide_eq_false hge]
      rw [if_neg hzero]
      dsimp only
      rw [iterate_next_drop hr _ (by omega), hpred]
      by_cases hlt : k + len / 2 < hs.length
      · rw [if_pos (decide_eq_true hlt), next_start_drop hr hmid]
        refine ih (by omega) (by omega) (by omega) (by omega) fun heq => ?_
        rw [heq, List.drop_left]
      · rw [decide_eq_false hlt, if_neg Bool.false_ne_true]
        exact ih (by omega) (by omega) (by omega) (by omega) hfound

variable [DecidableEq α]

/-- `distance` counts the elements up to the end of the range. -/
theorem distance_eq (hr : l.Row (around pre xs last post)) (hl : ∀ x, last ≠ .element x)
    {k fuel : Nat} (hk : k ≤ xs.length) (hf : xs.length - k < fuel) :
    l.distance (start (xs.drop k) last) last fuel = some (xs.length - k) := by
  induction fuel generalizing k with
  | zero => exact absurd hf (Nat.not_lt_zero _)
  | succ fuel ih =>
    by_cases hend : k = xs.length
    · subst hend
      simp [distance, start]
    · have hlt : k < xs.length := by omega
      have hne : start (xs.drop k) last ≠ last := by
        rw [start_drop hlt]
        exact fun h => hl _ h.symm
      rw [distance, if_neg hne, next_start_drop hr hlt, ih (by omega) (by omega)]
      rw [Option.map_some]
      exact congrArg some (by omega)

/-- `std::partition_point` finds the first message of normal priority. -/
theorem partitionPoint_eq (hr : l.Row (around pre (hs ++ ns) last post))
    (hl : ∀ x, last ≠ .element x) (hh : ∀ x ∈ hs, high x = true) (hn : ∀ x ∈ ns, high x = false)
    {fuel : Nat} (hf : (hs ++ ns).length < fuel) :
    l.partitionPoint (start (hs ++ ns) last) last (Node.isHighPriority high) fuel =
      some (start ns last) := by
  have hdist : l.distance (start (hs ++ ns) last) last fuel = some (hs ++ ns).length :=
    distance_eq hr hl (Nat.zero_le _) hf
  rw [partitionPoint, hdist, Option.map_some]
  refine congrArg some (partitionPointLoop_eq (k := 0) hr hh hn le_rfl (Nat.zero_le _) ?_ ?_)
  · simp
  · simp

namespace Holds

/-- `push_to_cache` inserts a message into the second partition. -/
theorem pushToCache (h : l.Holds first second) (hform : HighFirst high second)
    (hx : x ∉ first ++ second) {flags : FlaggedActor} (ha : flags.isPriorityAware = true)
    {fuel : Nat} (hf : second.length < fuel) :
    ∃ l', PriorityActor.pushToCache high flags l x fuel = some l' ∧
      l'.Holds first (Schedule.insertFirst high x second) := by
  obtain ⟨hs, ns, rfl, hh, hn⟩ := hform
  rw [insertFirst_append hh hn]
  unfold PriorityActor.pushToCache
  rw [ha]
  cases hhigh : high x with
  | false =>
    exact ⟨_, rfl, h.insert_last hx⟩
  | true =>
    have hr := h.row
    rw [nodes_second] at hr
    have hpoint := partitionPoint_eq hr (fun _ h => nomatch h) hh hn hf
    refine ⟨_, ?_, h.insert_second hx⟩
    simp only [Bool.not_true, Bool.false_eq_true, if_false, if_true]
    rw [h.secondBegin_eq, secondEnd, hpoint]
    rfl

/-- One message of the mailbox is inserted into the first partition, and the insert point for high
priority still is the first message of normal priority. -/
theorem insertRead (h : l.Holds (hs ++ ns) second) (hh : ∀ x ∈ hs, high x = true)
    (hn : ∀ x ∈ ns, high x = false) (hx : x ∉ (hs ++ ns) ++ second) :
    ∃ hs' ns', Schedule.insertFirst high x (hs ++ ns) = hs' ++ ns' ∧
      (∀ y ∈ hs', high y = true) ∧ (∀ y ∈ ns', high y = false) ∧
      (PriorityActor.insertRead high l (start ns .separator) x).1.Holds (hs' ++ ns') second ∧
      (PriorityActor.insertRead high l (start ns .separator) x).2 = start ns' .separator := by
  rw [insertFirst_append hh hn]
  -- a message of high priority goes before the insert point, others to the end
  cases hhigh : high x with
  | true =>
    refine ⟨hs ++ [x], ns, by simp, ?_, hn, ?_, ?_⟩
    · intro y hy
      rcases List.mem_append.mp hy with hy | hy
      · exact hh y hy
      · rw [List.mem_singleton.mp hy, hhigh]
    · simpa [PriorityActor.insertRead, hhigh] using h.insert_first hx
    · simp [PriorityActor.insertRead, hhigh]
  | false =>
    have h' : l.Holds ((hs ++ ns) ++ []) second := by rwa [List.append_nil]
    have hend := h'.insert_first (x := x) (by simpa using hx)
    refine ⟨hs, ns ++ [x], by simp, hh, ?_, ?_, ?_⟩
    · intro y hy
      rcases List.mem_append.mp hy with hy | hy
      · exact hn y hy
      · rw [List.mem_singleton.mp hy, hhigh]
    · simpa [PriorityActor.insertRead, hhigh, firstEnd, start] using hend
    · cases ns with
      | cons y ns => simp [PriorityActor.insertRead, hhigh, firstEnd, start]
      | nil =>
        -- the insert point was the separator; it moves to the new message
        have hprev : (l.insert .separator x).prev .separator = .element x := by
          simp [insert, Links.setPrev]
        simpa [PriorityActor.insertRead, hhigh, firstEnd, start] using hprev

end Holds

end PartitionedList

-- -------------------------
-- Runs
-- -------------------------

namespace PriorityActor

open PartitionedList

variable {α : Type} {high : α → Bool} {s s' : PriorityActor α} {first second : List α} {x : α}

/-- What holds while `next_message` is running: the insert point is the first message of normal
priority; the first message has high priority, or all messages enqueued before are in the cache. -/
def CallState (high : α → Bool) (s : PriorityActor α) (first : List α) : Prop :=
  match s.call with
  | .idle => True
  | .readAll hpPos => ∃ hs ns, first = hs ++ ns ∧ (∀ x ∈ hs, high x = true) ∧
      (∀ x ∈ ns, high x = false) ∧ hpPos = start ns .separator
  | .takeFirst => (∃ x ∈ first.head?, high x = true) ∨ s.before ⊆ s.returned ++ first

/-- The messages of an actor, with the two partitions of its cache. -/
structure Ordered (high : α → Bool) (s : PriorityActor α) (first second : List α) : Prop where
  aware : s.flags.isPriorityAware = true
  holds : s.cache.Holds first second
  fresh : s.enqueued.Nodup
  order : ∀ b, ofPriority high b (s.returned ++ first ++ s.mailbox.unread) =
    ofPriority high b s.enqueued
  firstForm : HighFirst high first
  secondForm : HighFirst high second
  skippedOrder : ∀ b, ofPriority high b second = ofPriority high b s.skipped
  once : (s.hand ++ second).Nodup
  read : ∀ x ∈ s.hand ++ second, x ∈ s.returned
  before : s.before ⊆ s.enqueued
  call : s.CallState high first

namespace Ordered

/-- Every message is in one place. -/
theorem perm (h : Ordered high s first second) :
    (s.returned ++ first ++ s.mailbox.unread).Perm s.enqueued := perm_of_priority h.order

theorem nodup (h : Ordered high s first second) :
    (s.returned ++ first ++ s.mailbox.unread).Nodup := h.perm.nodup_iff.mpr h.fresh

/-- An unread message is not in the cache. -/
theorem notMem_of_unread (h : Ordered high s first second) (hx : x ∈ s.mailbox.unread) :
    x ∉ first ++ second := by
  have hd := (List.nodup_append.mp h.nodup).2.2
  intro hmem
  rcases List.mem_append.mp hmem with hmem | hmem
  · exact hd x (List.mem_append_right _ hmem) x hx rfl
  · have hret := h.read x (List.mem_append_right _ hmem)
    exact hd x (List.mem_append_left _ hret) x hx rfl

/-- A message of the first partition is neither in the hand nor skipped. -/
theorem notMem_of_first (h : Ordered high s first second) (hx : x ∈ first) :
    x ∉ s.hand ++ second := by
  intro hmem
  have hd := (List.nodup_append.mp (List.nodup_append.mp h.nodup).1).2.2
  exact hd x (h.read x hmem) x hx rfl

/-- A message in the hand is not in the cache. -/
theorem notMem_of_hand (h : Ordered high s first second) (hx : x ∈ s.hand) :
    x ∉ first ++ second := by
  intro hmem
  rcases List.mem_append.mp hmem with hmem | hmem
  · exact h.notMem_of_first hmem (List.mem_append_left _ hx)
  · exact (List.nodup_append.mp h.once).2.2 x hx x hmem rfl

/-- The second partition is not longer than the list of all messages. -/
theorem second_length (h : Ordered high s first second) :
    second.length ≤ s.enqueued.length := by
  have hsub : second ⊆ s.enqueued := by
    intro x hx
    have hret := h.read x (List.mem_append_right _ hx)
    exact h.perm.subset (List.mem_append_left _ (List.mem_append_left _ hret))
  exact (List.subperm_of_subset (List.nodup_append.mp h.once).2.1 hsub).length_le

/-- A new message comes last. -/
theorem enqueue (h : Ordered high s first second) (hx : x ∉ s.enqueued) :
    Ordered high { s with
      mailbox := (s.mailbox.enqueue x).2
      enqueued := if (s.mailbox.enqueue x).1 = .queueClosed then s.enqueued
        else s.enqueued ++ [x] } first second := by
  by_cases hclosed : (s.mailbox.enqueue x).1 = .queueClosed
  · rw [if_pos hclosed, Mailbox.enqueue_closed hclosed]
    exact h
  · rw [if_neg hclosed]
    have hunread := Mailbox.unread_enqueue hclosed
    refine { h with fresh := ?_, order := ?_, before := ?_ }
    · exact List.nodup_append.mpr ⟨h.fresh, List.nodup_singleton x, by grind⟩
    · intro b
      show ofPriority high b (_ ++ (s.mailbox.enqueue x).2.unread) = _
      rw [hunread, ← List.append_assoc, ofPriority_append, h.order b, ofPriority_append]
    · intro y hy
      exact List.mem_append_left _ (h.before hy)

theorem block (h : Ordered high s first second) :
    Ordered high { s with mailbox := s.mailbox.tryBlock.2 } first second := by
  refine { h with order := ?_ }
  intro b
  show ofPriority high b (_ ++ s.mailbox.tryBlock.2.unread) = _
  rw [Mailbox.unread_tryBlock]
  exact h.order b

variable [DecidableEq α]

/-- The beginning of `next_message`. -/
theorem begin (h : Ordered high s first second) (hc : s.call = .idle) :
    Ordered high (s.nextMessage high) first second := by
  unfold nextMessage
  rw [hc]
  dsimp only
  rw [h.aware]
  simp only [Bool.not_true, Bool.false_eq_true, if_false]
  refine { h with before := fun _ hy => hy, call := ?_ }
  obtain ⟨hs, ns, rfl, hh, hn⟩ := h.firstForm
  rw [h.holds.firstBegin_eq]
  -- the call returns at once if the cache starts with a message of high priority
  cases hs with
  | nil =>
    -- there is no message of high priority in the first partition
    have hcond : start ns .separator = s.cache.firstEnd ∨
        ((start ns .separator).isHighPriority high) = false := by
      cases ns with
      | nil => exact Or.inl rfl
      | cons y ns => exact Or.inr (hn y List.mem_cons_self)
    unfold CallState
    dsimp only
    rw [if_pos (by simpa using hcond)]
    exact ⟨[], ns, rfl, hh, hn, rfl⟩
  | cons y hs =>
    have hy := hh y List.mem_cons_self
    have hcond : ¬ ((start (y :: hs ++ ns) .separator = s.cache.firstEnd) ∨
        ((start (y :: hs ++ ns) .separator).isHighPriority high) = false) := by
      simp [start, firstEnd, Node.isHighPriority, hy]
    unfold CallState
    dsimp only
    rw [if_neg (by simpa using hcond)]
    exact Or.inl ⟨y, rfl, hy⟩

/-- A message of the mailbox is read. -/
theorem read_some (h : Ordered high s first second) {hpPos : Node α} {mailbox : Mailbox α}
    (hc : s.call = .readAll hpPos) (hpop : s.mailbox.tryPop = (some x, mailbox)) :
    Ordered high (s.nextMessage high) (Schedule.insertFirst high x first) second := by
  have hunread := Mailbox.unread_tryPop_some hpop
  have hx : x ∉ first ++ second := h.notMem_of_unread (by rw [hunread]; exact List.mem_cons_self)
  have hcall := h.call
  unfold CallState at hcall
  rw [hc] at hcall
  obtain ⟨hs, ns, rfl, hh, hn, rfl⟩ := hcall
  obtain ⟨hs', ns', hins, hh', hn', hholds, hpos⟩ := h.holds.insertRead hh hn hx
  unfold nextMessage
  rw [hc]
  dsimp only
  rw [hpop]
  refine { h with holds := ?_, order := ?_, firstForm := h.firstForm.insertFirst x, call := ?_ }
  · rw [hins]
    exact hholds
  · -- the message takes its place behind those of its own priority
    intro b
    show ofPriority high b (s.returned ++ Schedule.insertFirst high x (hs ++ ns) ++
      mailbox.unread) = _
    have hcons : x :: mailbox.unread = [x] ++ mailbox.unread := rfl
    rw [← h.order b, hunread, hcons, ofPriority_append, ofPriority_append,
      h.firstForm.ofPriority_insertFirst]
    simp only [ofPriority_append, List.append_assoc]
  · exact ⟨hs', ns', hins, hh', hn', hpos⟩

/-- The mailbox has been read. -/
theorem read_none (h : Ordered high s first second) {hpPos : Node α} {mailbox : Mailbox α}
    (hc : s.call = .readAll hpPos) (hpop : s.mailbox.tryPop = (none, mailbox)) :
    Ordered high (s.nextMessage high) first second := by
  unfold nextMessage
  rw [hc]
  dsimp only
  rw [hpop]
  have hempty := Mailbox.unread_of_tryPop_none hpop
  refine { h with order := ?_, call := Or.inr ?_ }
  · intro b
    show ofPriority high b (_ ++ mailbox.unread) = _
    rw [Mailbox.unread_tryPop_none hpop]
    exact h.order b
  · intro y hy
    have hmem := h.perm.symm.subset (h.before hy)
    rwa [hempty, List.append_nil] at hmem

/-- The end of `next_message`. -/
theorem takeFirst (h : Ordered high s first second) (hc : s.call = .takeFirst) :
    Ordered high (s.nextMessage high) first.tail second ∧
      (s.nextMessage high).returned = s.returned ++ first.head?.toList := by
  unfold nextMessage firstEmpty firstFront
  rw [hc]
  dsimp only
  rw [h.holds.firstBegin_eq]
  cases first with
  | nil =>
    -- both the mailbox and the first partition are empty
    refine ⟨?_, rfl⟩
    show Ordered high (s.give none) [] second
    unfold give
    refine { h with order := ?_, once := ?_, read := ?_, call := trivial }
    · simpa using h.order
    · simpa using h.once
    · simpa using h.read
  | cons x first =>
    -- the first message is in the hand of the caller from now on
    refine ⟨?_, rfl⟩
    show Ordered high ({ s with cache := s.cache.take (.element x) }.give (some x)) first second
    have hx := h.notMem_of_first List.mem_cons_self
    have hnew : s.hand ++ [x] ++ second = s.hand ++ x :: second := by simp
    have hholds : s.cache.Holds ([] ++ x :: first) second := h.holds
    unfold give
    refine { h with
      holds := hholds.take_first
      order := ?_
      firstForm := h.firstForm.sublist (List.sublist_cons_self x first)
      once := ?_
      read := ?_
      call := trivial }
    · intro b
      show ofPriority high b (s.returned ++ [x] ++ first ++ s.mailbox.unread) = _
      rw [← h.order b]
      simp
    · show (s.hand ++ [x] ++ second).Nodup
      rw [hnew, List.nodup_middle, List.nodup_cons]
      exact ⟨hx, h.once⟩
    · intro y hy
      replace hy : y ∈ s.hand ++ [x] ++ second := hy
      rw [hnew, List.mem_append, List.mem_cons] at hy
      show y ∈ s.returned ++ [x]
      rcases hy with hy | rfl | hy
      · exact List.mem_append_left _ (h.read y (List.mem_append_left _ hy))
      · exact List.mem_append_right _ (List.mem_singleton_self y)
      · exact List.mem_append_left _ (h.read y (List.mem_append_right _ hy))

/-- Nothing is returned before the end of `next_message`. -/
theorem returned_of_next (h : Ordered high s first second) (hc : s.call ≠ .takeFirst) :
    (s.nextMessage high).returned = s.returned := by
  unfold nextMessage
  cases hcall : s.call with
  | idle =>
    dsimp only
    rw [h.aware]
    rfl
  | takeFirst => exact absurd hcall hc
  | readAll hpPos =>
    dsimp only
    split
    · rfl
    · rfl

/-- When a message of normal priority is returned, the messages of high priority that were
enqueued before the call have been returned. -/
theorem returned_high (h : Ordered high s first second)
    (hret : (s.nextMessage high).returned = s.returned ++ [x]) (hx : high x = false) {y : α}
    (hy : y ∈ (s.nextMessage high).before) (hhigh : high y = true) : y ∈ s.returned := by
  by_cases hc : s.call = .takeFirst
  · have hbefore : (s.nextMessage high).before = s.before := by
      unfold nextMessage
      rw [hc]
      dsimp only
      split
      · rfl
      · rfl
    rw [hbefore] at hy
    rw [(h.takeFirst hc).2, List.append_cancel_left_eq] at hret
    have hhead : first.head? = some x := by
      cases hf : first.head? with
      | none => simp [hf] at hret
      | some z => simpa [hf] using hret
    have hcall := h.call
    unfold CallState at hcall
    rw [hc] at hcall
    rcases hcall with ⟨z, hz, hzhigh⟩ | hall
    · -- the call has not read the mailbox, because this message has high priority
      rw [hhead] at hz
      cases hz
      rw [hx] at hzhigh
      cases hzhigh
    · rcases List.mem_append.mp (hall hy) with hmem | hmem
      · exact hmem
      · -- the first message has normal priority, and so have all that follow it
        obtain ⟨hs, ns, rfl, hh, hn⟩ := h.firstForm
        cases hs with
        | nil => exact absurd hhigh (by rw [hn y hmem]; decide)
        | cons z hs =>
          cases hhead
          exact absurd (hh x List.mem_cons_self) (by rw [hx]; decide)
  · rw [h.returned_of_next hc] at hret
    exact absurd hret (by simp)

/-- A message is put into the cache. -/
theorem push (h : Ordered high s first second) (hx : x ∈ s.hand) :
    ∃ cache, pushToCache high s.flags s.cache x (s.enqueued.length + 1) = some cache ∧
      Ordered high { s with
        cache
        skipped := s.skipped ++ [x]
        hand := s.hand.erase x } first (Schedule.insertFirst high x second) := by
  have hlen : second.length < s.enqueued.length + 1 := Nat.lt_succ_of_le h.second_length
  obtain ⟨cache, hcache, hholds⟩ :=
    h.holds.pushToCache h.secondForm (h.notMem_of_hand hx) h.aware hlen
  have hperm : (Schedule.insertFirst high x second).Perm (second ++ [x]) :=
    perm_of_priority (h.secondForm.ofPriority_insertFirst x)
  -- the message changes from the hand to the second partition
  have hboth : (s.hand.erase x ++ Schedule.insertFirst high x second).Perm (s.hand ++ second) := by
    calc List.Perm (s.hand.erase x ++ Schedule.insertFirst high x second)
          (s.hand.erase x ++ (second ++ [x])) := hperm.append_left _
      List.Perm _ (s.hand.erase x ++ ([x] ++ second)) := List.perm_append_comm.append_left _
      List.Perm _ (x :: s.hand.erase x ++ second) := List.perm_middle
      List.Perm _ (s.hand ++ second) := (List.perm_cons_erase hx).symm.append_right _
  refine ⟨cache, hcache, { h with
    holds := hholds
    secondForm := h.secondForm.insertFirst x
    skippedOrder := ?_
    once := hboth.nodup_iff.mpr h.once
    read := fun y hy => h.read y (hboth.subset hy) }⟩
  intro b
  rw [h.secondForm.ofPriority_insertFirst, ofPriority_append, h.skippedOrder b, ofPriority_append]

/-- A message in the cache is handled. -/
theorem handle (h : Ordered high s first second) (hx : x ∈ s.skipped) :
    Ordered high { s with
      cache := s.cache.take (.element x)
      skipped := s.skipped.erase x } first (second.erase x) := by
  have hperm : second.Perm s.skipped := perm_of_priority h.skippedOrder
  have hd : second.Nodup := (List.nodup_append.mp h.once).2.1
  have hmem : x ∈ second := hperm.symm.subset hx
  have hsub : (second.erase x).Sublist second := List.erase_sublist
  refine { h with
    holds := ?_
    secondForm := h.secondForm.sublist hsub
    skippedOrder := ?_
    once := h.once.sublist (hsub.append_left _)
    read := ?_ }
  · obtain ⟨pre, post, rfl⟩ := List.append_of_mem hmem
    have hpre : x ∉ pre := fun hin => (List.nodup_append.mp hd).2.2 x hin x List.mem_cons_self rfl
    rw [List.erase_append_right _ hpre, List.erase_cons_head]
    exact h.holds.take_second
  · intro b
    rw [hd.erase_eq_filter, (hperm.nodup_iff.mp hd).erase_eq_filter]
    unfold ofPriority
    rw [List.filter_comm, List.filter_comm _ _ s.skipped]
    exact congrArg _ (h.skippedOrder b)
  · intro y hy
    rcases List.mem_append.mp hy with hy | hy
    · exact h.read y (List.mem_append_left _ hy)
    · exact h.read y (List.mem_append_right _ (hsub.subset hy))

/-- A step keeps the messages in order. -/
theorem step {l : Label α} (h : Ordered high s first second) (hs : s.step high l = some s') :
    ∃ first' second', Ordered high s' first' second' := by
  -- one case for each label, and the call itself by what it does next
  cases l with
  | enqueue x =>
    simp only [PriorityActor.step, Option.ite_none_left_eq_some, Option.some.injEq] at hs
    obtain ⟨hx, rfl⟩ := hs
    exact ⟨first, second, h.enqueue hx⟩
  | block =>
    simp only [PriorityActor.step, Option.ite_none_right_eq_some, Option.some.injEq] at hs
    obtain ⟨-, rfl⟩ := hs
    exact ⟨first, second, h.block⟩
  | next =>
    cases hs
    cases hc : s.call with
    | idle => exact ⟨first, second, h.begin hc⟩
    | takeFirst => exact ⟨first.tail, second, (h.takeFirst hc).1⟩
    | readAll hpPos =>
      cases hpop : s.mailbox.tryPop with
      | mk result mailbox =>
        cases result with
        | none => exact ⟨first, second, h.read_none hc hpop⟩
        | some x => exact ⟨Schedule.insertFirst high x first, second, h.read_some hc hpop⟩
  | push x =>
    simp only [PriorityActor.step, Option.ite_none_right_eq_some] at hs
    obtain ⟨⟨-, hx⟩, hs⟩ := hs
    obtain ⟨cache, hcache, h'⟩ := h.push hx
    rw [hcache] at hs
    cases hs
    exact ⟨first, _, h'⟩
  | handle x =>
    simp only [PriorityActor.step, Option.ite_none_right_eq_some, Option.some.injEq] at hs
    obtain ⟨⟨-, hx⟩, rfl⟩ := hs
    exact ⟨first, second.erase x, h.handle hx⟩

end Ordered

variable [DecidableEq α]

/-- A new actor is ordered. -/
theorem Initial.ordered (h : Initial s) : Ordered high s [] [] where
  aware := h.aware
  holds := by rw [h.cache]; exact empty_holds
  fresh := by rw [h.enqueued]; exact List.nodup_nil
  order := by
    intro b
    rw [h.returned, h.mailbox, h.enqueued]
    rfl
  firstForm := HighFirst.nil
  secondForm := HighFirst.nil
  skippedOrder := by
    intro b
    rw [h.skipped]
  once := by rw [h.hand]; exact List.nodup_nil
  read := by
    intro x hx
    rw [h.hand] at hx
    exact absurd hx List.not_mem_nil
  before := by
    rw [h.before]
    exact List.nil_subset _
  call := by
    unfold CallState
    rw [h.call]
    trivial

/-- Every reachable actor is ordered. -/
theorem Reachable.ordered (h : Reachable high s) :
    ∃ first second, Ordered high s first second := by
  refine Reach.invariant (I := fun s => ∃ first second, Ordered high s first second) ?_ ?_ h
  · intro s h
    exact ⟨[], [], h.ordered⟩
  · rintro s l s' ⟨first, second, h⟩ - hs
    exact h.step hs

/-- **Messages of high priority come first.** Both partitions of the cache hold messages of high
priority, followed by messages of normal priority. The messages of each priority are returned in
the order in which they were enqueued, and those that were skipped stay in the order in which they
were skipped. A message of normal priority is returned only if every message of high priority that
was enqueued before the call has been returned. Skipping a message is always possible. -/
theorem priority_scheduling (h : Reachable high s) :
    ∃ first second, s.cache.Holds first second ∧ HighFirst high first ∧ HighFirst high second ∧
      (∀ b, ofPriority high b (s.returned ++ first ++ s.mailbox.unread) =
        ofPriority high b s.enqueued) ∧
      (∀ b, ofPriority high b second = ofPriority high b s.skipped) ∧
      (∀ s' x, s.step high .next = some s' → s'.returned = s.returned ++ [x] → high x = false →
        ∀ y ∈ s'.before, high y = true → y ∈ s.returned) ∧
      (s.call = .idle → ∀ x ∈ s.hand, (s.step high (.push x)).isSome = true) := by
  obtain ⟨first, second, hord⟩ := h.ordered
  refine ⟨first, second, hord.holds, hord.firstForm, hord.secondForm, hord.order,
    hord.skippedOrder, ?_, ?_⟩
  · intro s' x hs hret hx y hy hhigh
    cases hs
    exact hord.returned_high hret hx hy hhigh
  · intro hc x hx
    obtain ⟨cache, hcache, -⟩ := hord.push hx
    rw [step, if_pos ⟨hc, hx⟩, hcache]
    rfl

/-- A message of normal priority and one of high priority are enqueued; the second one is returned
first, and both are skipped. -/
theorem priority_scheduling_two : ∃ (s : PriorityActor Nat) (first second : List Nat),
    s.returned = [2, 1] ∧ s.cache.Holds first second ∧ HighFirst (fun x => x % 2 = 0) second ∧
      ofPriority (fun x => x % 2 = 0) true second = [2] := by
  let s : PriorityActor Nat := {
    flags := ⟨isPriorityAwareFlag, 0⟩
    mailbox := .initial
    cache := .empty
    call := .idle
    enqueued := []
    returned := []
    skipped := []
    hand := []
    before := [] }
  have hinit : Initial s := ⟨by decide, rfl, rfl, rfl, rfl, rfl, rfl, rfl, rfl⟩
  obtain ⟨s', hs', hcheck⟩ := exists_run (step fun x => x % 2 = 0) s
    (([.block, .enqueue 1, .enqueue 2] : List (Label Nat)) ++ List.replicate 8 Label.next ++
      ([.push 1, .push 2] : List (Label Nat)))
    (fun s => s.returned = [2, 1] ∧ s.skipped = [1, 2])
    (by decide)
  simp only [decide_eq_true_eq] at hcheck
  obtain ⟨first, second, hholds, -, hform, -, hskipped, -⟩ :=
    priority_scheduling (reach_of_run (.init hinit) hs')
  refine ⟨s', first, second, hcheck.1, hholds, hform, ?_⟩
  rw [hskipped, hcheck.2]
  rfl

end PriorityActor

end BoostActor
