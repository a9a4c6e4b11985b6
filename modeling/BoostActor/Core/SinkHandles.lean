import BoostActor.Core.Binary
import Mathlib.Data.List.Nodup
import Mathlib.Data.List.Perm.Basic

/-!
# Handles to output files

The printer keeps its output files in a cache, a map from file names to a use count and a
sink, and its handles point into it (`abstract_coordinator.cpp`). The last handle to an
entry erases it, which invalidates every iterator to it. Using such an iterator is
undefined.

* `Owned.clear`, `Owned.assign`, `Owned.getSinkHandle` — what the functions do when every
  entry has as many handles as its use count says;
* `sinkHandles_counted` — so it is in every program that creates, copies, assigns and
  destroys handles.
-/

namespace BoostActor

-- -------------------------
-- The cache
-- -------------------------

/-- What a `string_sink` writes to. -/
inductive Sink where
  /-- the members of a local group get the name and the text -/
  | group (fileName : Bytes)
  | file (fileName : Bytes) (append : Bool)
deriving DecidableEq, Repr

/-- `make_sink`; `opened` says whether the file could be opened. -/
def makeSink (fn : Bytes) (flags : Int) (opened : Bool) : Option Sink :=
  match fn with
  | [] => none
  | 58 :: _ => some (.group fn)
  | _ => if opened then some (.file fn (flags % 2 = 1)) else none

/-- An entry of a `sink_cache`, with the address that iterators to it have. -/
structure SinkEntry where
  node : Nat
  fileName : Bytes
  useCount : Nat
  sink : Sink
deriving DecidableEq, Repr

abbrev SinkCache := List SinkEntry

namespace SinkCache

def find? (fc : SinkCache) (fn : Bytes) : Option SinkEntry :=
  List.find? (fun e => e.fileName = fn) fc

/-- The entry that an iterator points to. -/
def deref (fc : SinkCache) (iter : Option Nat) : Except Fault SinkEntry :=
  match List.find? (fun e => some e.node = iter) fc with
  | some e => return e
  | none => throw (.undefined "invalid iterator")

def setCount (fc : SinkCache) (node count : Nat) : SinkCache :=
  fc.map fun e => if e.node = node then { e with useCount := count } else e

def erase (fc : SinkCache) (node : Nat) : SinkCache := fc.filter fun e => e.node ≠ node

/-- `++iter->second.first`. -/
def acquire (fc : SinkCache) (iter : Option Nat) : Except Fault SinkCache := do
  let e ← fc.deref iter
  return fc.setCount e.node (e.useCount + 1)

/-- Memory for new entries: an address that no entry has. It may have been used before. -/
structure Allocator where
  alloc : SinkCache → Nat
  fresh : ∀ fc, ∀ e ∈ fc, e.node ≠ alloc fc

end SinkCache

-- -------------------------
-- Handles
-- -------------------------

/-- `sink_handle`, for the cache of the printer: whether `cache_` points to it, and `iter_`
unless it has not been initialized. -/
structure SinkHandle where
  cache : Bool
  iter : Option Nat
deriving DecidableEq, Repr

namespace SinkHandle

/-- `sink_handle()`. -/
def empty : SinkHandle := ⟨false, none⟩

/-- `sink_handle(fc, iter)`. -/
def make (fc : SinkCache) (iter : Nat) : Except Fault (SinkCache × SinkHandle) := do
  return (← fc.acquire (some iter), ⟨true, some iter⟩)

/-- `clear`. -/
def clear (fc : SinkCache) (h : SinkHandle) : Except Fault (SinkCache × SinkHandle) :=
  if h.cache then do
    let e ← fc.deref h.iter
    if e.useCount = 1 then return (fc.erase e.node, { h with cache := false })
    else return (fc.setCount e.node (e.useCount - 1), h)
  else return (fc, h)

/-- `operator=`. -/
def assign (fc : SinkCache) (h other : SinkHandle) : Except Fault (SinkCache × SinkHandle) :=
  if h.cache ≠ other.cache ∨ h.iter ≠ other.iter then do
    let (fc, h) ← h.clear fc
    if other.cache then return (← fc.acquire other.iter, other)
    else return (fc, { h with cache := false })
  else return (fc, h)

/-- `sink_handle(other)`. -/
def copy (fc : SinkCache) (other : SinkHandle) : Except Fault (SinkCache × SinkHandle) :=
  empty.assign fc other

/-- `~sink_handle()`. -/
def destroy (fc : SinkCache) (h : SinkHandle) : Except Fault SinkCache := do
  return (← h.clear fc).1

/-- A handle that refers to an entry. -/
def pointsTo (h : SinkHandle) (node : Nat) : Bool := h.cache && h.iter = some node

end SinkHandle

open SinkHandle

/-- `get_sink_handle`, with what `make_sink` returns for a file that is not in the cache. -/
def getSinkHandle (fc : SinkCache) (fn : Bytes) (fs : Option Sink) (m : SinkCache.Allocator) :
    Except Fault (SinkCache × SinkHandle) :=
  match fc.find? fn with
  | some e => make fc e.node
  | none =>
    match fs with
    | some sink => make (fc ++ [⟨m.alloc fc, fn, 0, sink⟩]) (m.alloc fc)
    | none => return (fc, empty)

-- -------------------------
-- Use counts
-- -------------------------

/-- The use counts are the numbers of handles. -/
structure Counts (fc : SinkCache) (hs : List SinkHandle) : Prop where
  nodes : (fc.map SinkEntry.node).Nodup
  names : (fc.map SinkEntry.fileName).Nodup
  count : ∀ e ∈ fc, e.useCount = hs.countP (·.pointsTo e.node)
  valid : ∀ h ∈ hs, h.cache = true → ∃ e ∈ fc, h.iter = some e.node

/-- And there is no entry without a handle. -/
structure Owned (fc : SinkCache) (hs : List SinkHandle) : Prop extends Counts fc hs where
  used : ∀ e ∈ fc, ∃ h ∈ hs, h.pointsTo e.node = true

variable {fc : SinkCache} {hs : List SinkHandle} {h : SinkHandle} {e : SinkEntry} {node k : Nat}

-- -------------------------
-- Entries and handles
-- -------------------------

/-- A handle points to a node if it has a cache and the iterator says so. -/
theorem pointsTo_iff : h.pointsTo node = true ↔ h.cache = true ∧ h.iter = some node := by
  rw [pointsTo, Bool.and_eq_true, decide_eq_true_eq]

theorem pointsTo_of_null (hnull : h.cache = false) : h.pointsTo node = false := by
  rw [pointsTo, hnull, Bool.false_and]

/-- A handle refers to one entry at most. -/
theorem pointsTo_other (hpoints : h.pointsTo node = true) {node' : Nat} (hne : node' ≠ node) :
    h.pointsTo node' = false := by
  rw [← Bool.not_eq_true, pointsTo_iff]
  rintro ⟨-, hiter⟩
  rw [(pointsTo_iff.mp hpoints).2] at hiter
  exact hne (Option.some.inj hiter).symm

namespace SinkCache

/-- The entries after a count was set. -/
theorem mem_setCount {e' : SinkEntry} : e' ∈ fc.setCount node k ↔
    ∃ e ∈ fc, e' = if e.node = node then { e with useCount := k } else e := by
  unfold setCount
  rw [List.mem_map]
  constructor
  · rintro ⟨e, he, rfl⟩
    exact ⟨e, he, rfl⟩
  · rintro ⟨e, he, rfl⟩
    exact ⟨e, he, rfl⟩

/-- Setting a count changes no other field. -/
theorem map_setCount {α : Type} (f : SinkEntry → α) (hf : ∀ e, f { e with useCount := k } = f e) :
    (fc.setCount node k).map f = fc.map f := by
  unfold setCount
  rw [List.map_map]
  refine List.map_congr_left fun e _ => ?_
  rw [Function.comp_apply]
  split_ifs
  · exact hf e
  · rfl

/-- No two entries have the same address. -/
theorem eq_of_node (hnodes : (fc.map SinkEntry.node).Nodup) {e' : SinkEntry} (he : e ∈ fc)
    (he' : e' ∈ fc) (hnode : e.node = e'.node) : e = e' :=
  List.inj_on_of_nodup_map hnodes he he' hnode

/-- The iterator of an entry is valid. -/
theorem deref_eq (hnodes : (fc.map SinkEntry.node).Nodup) (he : e ∈ fc) :
    fc.deref (some e.node) = .ok e := by
  unfold deref
  cases hfind : List.find? (fun e' => some e'.node = some e.node) fc with
  | none =>
    have hnone := List.find?_eq_none.mp hfind e he
    exact absurd (decide_eq_true rfl) hnone
  | some e' =>
    have hnode := List.find?_some hfind
    rw [decide_eq_true_eq] at hnode
    rw [eq_of_node hnodes (List.mem_of_find?_eq_some hfind) he (Option.some.inj hnode)]
    rfl

end SinkCache

namespace Counts

-- -------------------------
-- Counting
-- -------------------------

/-- The order of the handles does not matter to the counts. -/
theorem perm {hs' : List SinkHandle} (h : Counts fc hs) (hperm : hs.Perm hs') : Counts fc hs' where
  nodes := h.nodes
  names := h.names
  count := fun e he => (h.count e he).trans (hperm.countP_eq _)
  valid := fun h' hh' => h.valid h' (hperm.mem_iff.mpr hh')

/-- One handle more to an entry. -/
theorem acquire (h : Counts fc hs) (he : e ∈ fc) :
    fc.acquire (some e.node) = .ok (fc.setCount e.node (e.useCount + 1)) ∧
      Counts (fc.setCount e.node (e.useCount + 1)) (⟨true, some e.node⟩ :: hs) := by
  refine ⟨?_, ?_, ?_, ?_, ?_⟩
  · unfold SinkCache.acquire
    rw [SinkCache.deref_eq h.nodes he]
    rfl
  · rw [SinkCache.map_setCount _ fun _ => rfl]
    exact h.nodes
  · rw [SinkCache.map_setCount _ fun _ => rfl]
    exact h.names
  · intro e₁ he₁
    obtain ⟨e₂, he₂, rfl⟩ := SinkCache.mem_setCount.mp he₁
    rw [List.countP_cons]
    -- the entry of the new handle gets one more, the others keep their count
    by_cases hnode : e₂.node = e.node
    · obtain rfl := SinkCache.eq_of_node h.nodes he₂ he hnode
      rw [if_pos rfl, if_pos (pointsTo_iff.mpr ⟨rfl, rfl⟩)]
      exact congrArg (· + 1) (h.count e₂ he₂)
    · rw [if_neg hnode, pointsTo_other (pointsTo_iff.mpr ⟨rfl, rfl⟩) hnode]
      exact h.count e₂ he₂
  · intro h' hh' hcache
    obtain ⟨e', he', hiter⟩ : ∃ e' ∈ fc, h'.iter = some e'.node := by
      rcases List.mem_cons.mp hh' with rfl | hh'
      · exact ⟨e, he, rfl⟩
      · exact h.valid h' hh' hcache
    refine ⟨_, SinkCache.mem_setCount.mpr ⟨e', he', rfl⟩, ?_⟩
    rw [hiter]
    split_ifs <;> rfl

end Counts

namespace Owned

-- -------------------------
-- Owning
-- -------------------------

theorem perm {hs' : List SinkHandle} (h : Owned fc hs) (hperm : hs.Perm hs') : Owned fc hs' where
  toCounts := h.toCounts.perm hperm
  used := fun e he => by
    obtain ⟨h', hh', hpoints⟩ := h.used e he
    exact ⟨h', hperm.mem_iff.mp hh', hpoints⟩

/-- A handle without an entry does not count. -/
theorem cons_null (h : Owned fc hs) {h' : SinkHandle} (hnull : h'.cache = false) :
    Owned fc (h' :: hs) where
  nodes := h.nodes
  names := h.names
  count := fun e he => by
    rw [List.countP_cons, pointsTo_of_null hnull]
    exact h.count e he
  valid := fun h₁ hh₁ hcache => by
    rcases List.mem_cons.mp hh₁ with rfl | hh₁
    · rw [hnull] at hcache
      cases hcache
    · exact h.valid h₁ hh₁ hcache
  used := fun e he => by
    obtain ⟨h₁, hh₁, hpoints⟩ := h.used e he
    exact ⟨h₁, List.mem_cons_of_mem _ hh₁, hpoints⟩

/-- A handle that points nowhere owns nothing. -/
theorem of_cons_null {h' : SinkHandle} (h : Owned fc (h' :: hs)) (hnull : h'.cache = false) :
    Owned fc hs where
  nodes := h.nodes
  names := h.names
  count := fun e he => by
    have hcount := h.count e he
    rw [List.countP_cons, pointsTo_of_null hnull] at hcount
    exact hcount
  valid := fun h₁ hh₁ => h.valid h₁ (List.mem_cons_of_mem _ hh₁)
  used := fun e he => by
    obtain ⟨h₁, hh₁, hpoints⟩ := h.used e he
    rcases List.mem_cons.mp hh₁ with rfl | hh₁
    · rw [pointsTo_of_null hnull] at hpoints
      cases hpoints
    · exact ⟨h₁, hh₁, hpoints⟩

/-- The last handle takes the entry with it. -/
theorem erase (ho : Owned fc (h :: hs)) (he : e ∈ fc) (hpoints : h.pointsTo e.node = true)
    (hone : e.useCount = 1) : Owned (fc.erase e.node) hs := by
  -- the last handle of the entry is the one that goes
  have hcount := ho.count e he
  rw [List.countP_cons, if_pos hpoints, hone] at hcount
  have hnone : ∀ h' ∈ hs, ¬ h'.pointsTo e.node = true := List.countP_eq_zero.mp (by omega)
  have hmem : ∀ e', e' ∈ fc.erase e.node ↔ e' ∈ fc ∧ e'.node ≠ e.node := by
    intro e'
    unfold SinkCache.erase
    rw [List.mem_filter, decide_eq_true_eq]
  have hsub : (fc.erase e.node).Sublist fc := List.filter_sublist
  refine ⟨⟨ho.nodes.sublist (hsub.map _), ho.names.sublist (hsub.map _), ?_, ?_⟩, ?_⟩
  · intro e' he'
    obtain ⟨he', hne⟩ := (hmem e').mp he'
    have hcount' := ho.count e' he'
    rw [List.countP_cons, pointsTo_other hpoints hne] at hcount'
    exact hcount'
  · intro h' hh' hcache
    obtain ⟨e', he', hiter⟩ := ho.valid h' (List.mem_cons_of_mem _ hh') hcache
    refine ⟨e', (hmem e').mpr ⟨he', fun hnode => ?_⟩, hiter⟩
    rw [hnode] at hiter
    exact hnone h' hh' (pointsTo_iff.mpr ⟨hcache, hiter⟩)
  · intro e' he'
    obtain ⟨he', hne⟩ := (hmem e').mp he'
    obtain ⟨h', hh', hp⟩ := ho.used e' he'
    rcases List.mem_cons.mp hh' with rfl | hh'
    · rw [pointsTo_other hpoints hne] at hp
      cases hp
    · exact ⟨h', hh', hp⟩

/-- Any other one leaves it with a handle less. -/
theorem release (ho : Owned fc (h :: hs)) (he : e ∈ fc) (hpoints : h.pointsTo e.node = true)
    (hone : e.useCount ≠ 1) : Owned (fc.setCount e.node (e.useCount - 1)) hs := by
  have hcount := ho.count e he
  rw [List.countP_cons, if_pos hpoints] at hcount
  refine ⟨⟨?_, ?_, ?_, ?_⟩, ?_⟩
  · -- the handle was one of several
    rw [SinkCache.map_setCount _ fun _ => rfl]
    exact ho.nodes
  · rw [SinkCache.map_setCount _ fun _ => rfl]
    exact ho.names
  · intro e₁ he₁
    obtain ⟨e₂, he₂, rfl⟩ := SinkCache.mem_setCount.mp he₁
    by_cases hnode : e₂.node = e.node
    · obtain rfl := SinkCache.eq_of_node ho.nodes he₂ he hnode
      rw [if_pos rfl]
      show e₂.useCount - 1 = hs.countP (·.pointsTo e₂.node)
      omega
    · have hcount' := ho.count e₂ he₂
      rw [List.countP_cons, pointsTo_other hpoints hnode] at hcount'
      rw [if_neg hnode]
      exact hcount'
  · intro h' hh' hcache
    obtain ⟨e', he', hiter⟩ := ho.valid h' (List.mem_cons_of_mem _ hh') hcache
    refine ⟨_, SinkCache.mem_setCount.mpr ⟨e', he', rfl⟩, ?_⟩
    rw [hiter]
    split_ifs <;> rfl
  · intro e₁ he₁
    obtain ⟨e₂, he₂, rfl⟩ := SinkCache.mem_setCount.mp he₁
    by_cases hnode : e₂.node = e.node
    · obtain rfl := SinkCache.eq_of_node ho.nodes he₂ he hnode
      rw [if_pos rfl]
      exact List.countP_pos_iff.mp (by omega : 0 < hs.countP (·.pointsTo e₂.node))
    · obtain ⟨h', hh', hp⟩ := ho.used e₂ he₂
      rw [if_neg hnode]
      rcases List.mem_cons.mp hh' with rfl | hh'
      · rw [pointsTo_other hpoints hnode] at hp
        cases hp
      · exact ⟨h', hh', hp⟩

-- -------------------------
-- The functions
-- -------------------------

/-- `clear` gives up what a handle refers to. -/
theorem clear (ho : Owned fc (h :: hs)) :
    ∃ fc' h', h.clear fc = .ok (fc', h') ∧ Owned fc' hs := by
  unfold SinkHandle.clear
  by_cases hcache : h.cache = true
  · obtain ⟨e, he, hiter⟩ := ho.valid h List.mem_cons_self hcache
    have hpoints := pointsTo_iff.mpr ⟨hcache, hiter⟩
    rw [if_pos hcache, hiter, SinkCache.deref_eq ho.nodes he]
    by_cases hone : e.useCount = 1
    · refine ⟨_, _, if_pos hone, ho.erase he hpoints hone⟩
    · refine ⟨_, _, if_neg hone, ho.release he hpoints hone⟩
  · rw [Bool.not_eq_true] at hcache
    rw [hcache]
    exact ⟨fc, h, rfl, ho.of_cons_null hcache⟩

/-- Destroying a handle gives its entry up. -/
theorem destroy (ho : Owned fc (h :: hs)) : ∃ fc', h.destroy fc = .ok fc' ∧ Owned fc' hs := by
  obtain ⟨fc', h', hclear, ho'⟩ := ho.clear
  refine ⟨fc', ?_, ho'⟩
  unfold SinkHandle.destroy
  rw [hclear]
  rfl

/-- One handle more to an entry that has one. -/
theorem acquire (ho : Owned fc hs) (he : e ∈ fc) :
    ∃ fc', fc.acquire (some e.node) = .ok fc' ∧ Owned fc' (⟨true, some e.node⟩ :: hs) := by
  obtain ⟨hok, hcounts⟩ := ho.toCounts.acquire he
  refine ⟨_, hok, hcounts, fun e₁ he₁ => ?_⟩
  obtain ⟨e₂, he₂, rfl⟩ := SinkCache.mem_setCount.mp he₁
  obtain ⟨h', hh', hp⟩ := ho.used e₂ he₂
  refine ⟨h', List.mem_cons_of_mem _ hh', ?_⟩
  split_ifs
  · exact hp
  · exact hp

/-- `operator=`: the handle refers to what the other one refers to, which may be the handle
itself or any other. -/
theorem assign {other : SinkHandle} (ho : Owned fc (h :: hs)) (hother : other ∈ h :: hs) :
    ∃ fc' h', h.assign fc other = .ok (fc', h') ∧ Owned fc' (h' :: hs) ∧
      ∀ node, h'.pointsTo node = other.pointsTo node := by
  unfold SinkHandle.assign
  -- assigning a handle that points to the same entry does nothing
  by_cases hdiff : h.cache ≠ other.cache ∨ h.iter ≠ other.iter
  · rw [if_pos hdiff]
    have hmem : other ∈ hs := by
      rcases List.mem_cons.mp hother with rfl | hmem
      · exact absurd hdiff (by rintro (hne | hne) <;> exact hne rfl)
      · exact hmem
    obtain ⟨fc₁, h₁, hclear, ho₁⟩ := ho.clear
    rw [hclear]
    by_cases hcache : other.cache = true
    · -- the entry of the other one is still there
      obtain ⟨e, he, hiter⟩ := ho₁.valid other hmem hcache
      obtain ⟨fc₂, hacquire, ho₂⟩ := ho₁.acquire he
      have heq : other = ⟨true, some e.node⟩ := by rw [← hcache, ← hiter]
      refine ⟨fc₂, other, ?_, heq ▸ ho₂, fun _ => rfl⟩
      show (if other.cache = true then _ else _) = _
      rw [if_pos hcache, hiter, hacquire]
      rfl
    · rw [Bool.not_eq_true] at hcache
      refine ⟨fc₁, { h₁ with cache := false }, ?_, ho₁.cons_null rfl, fun node => ?_⟩
      · show (if other.cache = true then _ else _) = _
        rw [hcache]
        rfl
      · rw [pointsTo_of_null hcache, pointsTo_of_null rfl]
  · rw [if_neg hdiff]
    obtain ⟨hcache, hiter⟩ := not_or.mp hdiff
    refine ⟨fc, h, rfl, ho, fun node => ?_⟩
    unfold pointsTo
    rw [not_not.mp hcache, not_not.mp hiter]

theorem copy {other : SinkHandle} (ho : Owned fc hs) (hother : other ∈ hs) :
    ∃ fc' h', other.copy fc = .ok (fc', h') ∧ Owned fc' (h' :: hs) ∧
      ∀ node, h'.pointsTo node = other.pointsTo node :=
  (ho.cons_null (rfl : SinkHandle.empty.cache = false)).assign (List.mem_cons_of_mem _ hother)

/-- `get_sink_handle` returns a handle to the entry of the file, or an empty one. -/
theorem getSinkHandle (ho : Owned fc hs) (fn : Bytes) (fs : Option Sink)
    (m : SinkCache.Allocator) :
    ∃ fc' h', BoostActor.getSinkHandle fc fn fs m = .ok (fc', h') ∧ Owned fc' (h' :: hs) := by
  unfold BoostActor.getSinkHandle
  -- an entry that is in the cache gets one more handle
  cases hfind : fc.find? fn with
  | some e =>
    obtain ⟨fc', hacquire, ho'⟩ := ho.acquire (List.mem_of_find?_eq_some hfind)
    refine ⟨fc', _, ?_, ho'⟩
    dsimp only
    unfold make
    rw [hacquire]
    rfl
  | none =>
    cases fs with
    | none => exact ⟨fc, SinkHandle.empty, rfl, ho.cons_null rfl⟩
    | some sink =>
      -- the new entry has its first handle as soon as the function returns
      have hname : ∀ e ∈ fc, e.fileName ≠ fn := fun e he heq =>
        List.find?_eq_none.mp hfind e he (decide_eq_true heq)
      have hnew : Counts (fc ++ [⟨m.alloc fc, fn, 0, sink⟩]) hs := by
        refine ⟨?_, ?_, ?_, ?_⟩
        · rw [List.map_append, List.map_singleton, List.nodup_append_comm, List.singleton_append,
            List.nodup_cons]
          refine ⟨fun hmem => ?_, ho.nodes⟩
          obtain ⟨e, he, hnode⟩ := List.mem_map.mp hmem
          exact m.fresh fc e he hnode
        · rw [List.map_append, List.map_singleton, List.nodup_append_comm, List.singleton_append,
            List.nodup_cons]
          refine ⟨fun hmem => ?_, ho.names⟩
          obtain ⟨e, he, heq⟩ := List.mem_map.mp hmem
          exact hname e he heq
        · intro e he
          rcases List.mem_append.mp he with he | he
          · exact ho.count e he
          · obtain rfl := List.mem_singleton.mp he
            refine (List.countP_eq_zero.mpr fun h' hh' hp => ?_).symm
            obtain ⟨hcache, hiter⟩ := pointsTo_iff.mp hp
            obtain ⟨e', he', hiter'⟩ := ho.valid h' hh' hcache
            exact m.fresh fc e' he' (Option.some.inj (hiter'.symm.trans hiter))
        · intro h' hh' hcache
          obtain ⟨e, he, hiter⟩ := ho.valid h' hh' hcache
          exact ⟨e, List.mem_append_left _ he, hiter⟩
      obtain ⟨hok, hcounts⟩ := hnew.acquire
        (List.mem_append_right fc (List.mem_singleton_self _))
      refine ⟨_, ⟨true, some (m.alloc fc)⟩, ?_, hcounts, fun e₁ he₁ => ?_⟩
      · dsimp only
        unfold make
        rw [hok]
        rfl
      · obtain ⟨e₂, he₂, rfl⟩ := SinkCache.mem_setCount.mp he₁
        rcases List.mem_append.mp he₂ with he₂ | he₂
        · obtain ⟨h', hh', hp⟩ := ho.used e₂ he₂
          refine ⟨h', List.mem_cons_of_mem _ hh', ?_⟩
          split_ifs
          · exact hp
          · exact hp
        · obtain rfl := List.mem_singleton.mp he₂
          rw [if_pos rfl]
          exact ⟨_, List.mem_cons_self, pointsTo_iff.mpr ⟨rfl, rfl⟩⟩

end Owned

-- -------------------------
-- Programs
-- -------------------------

/-- The cache and all handles that live. -/
structure SinkSystem where
  cache : SinkCache
  handles : List SinkHandle
deriving DecidableEq, Repr

/-- What a program does with handles; a number stands for the handle at this place. -/
inductive SinkOp where
  | construct
  | get (fn : Bytes) (flags : Int) (opened : Bool) (m : SinkCache.Allocator)
  | copy (i : Nat)
  | assign (i j : Nat)
  | destroy (i : Nat)

namespace SinkSystem

/-- An operation on a handle that does not exist is left out. -/
def step (s : SinkSystem) : SinkOp → Except Fault SinkSystem
  | .construct => return { s with handles := s.handles ++ [.empty] }
  | .get fn flags opened m => do
    let (cache, h) ← getSinkHandle s.cache fn (makeSink fn flags opened) m
    return ⟨cache, s.handles ++ [h]⟩
  | .copy i =>
    match s.handles[i]? with
    | some other => do
      let (cache, h) ← other.copy s.cache
      return ⟨cache, s.handles ++ [h]⟩
    | none => return s
  | .assign i j =>
    match s.handles[i]?, s.handles[j]? with
    | some h, some other => do
      let (cache, h) ← h.assign s.cache other
      return ⟨cache, s.handles.set i h⟩
    | _, _ => return s
  | .destroy i =>
    match s.handles[i]? with
    | some h => return ⟨← h.destroy s.cache, s.handles.eraseIdx i⟩
    | none => return s

/-- No entries and no handles. -/
def initial : SinkSystem := ⟨[], []⟩

/-- The use count stored for a file name. -/
def useCount? (s : SinkSystem) (fn : Bytes) : Option Nat :=
  (s.cache.find? fn).map SinkEntry.useCount

/-- The file name a handle refers to. -/
def target (s : SinkSystem) (h : SinkHandle) : Option Bytes :=
  if h.cache then (List.find? (fun e => some e.node = h.iter) s.cache).map SinkEntry.fileName
  else none

/-- The number of handles that refer to a file name. -/
def uses (s : SinkSystem) (fn : Bytes) : Nat := s.handles.countP fun h => s.target h = some fn

/-- Use counts, entries and handles agree. -/
structure Counted (s : SinkSystem) : Prop where
  count : ∀ fn, s.useCount? fn = if s.uses fn = 0 then none else some (s.uses fn)
  valid : ∀ h ∈ s.handles, h.cache = true → ∃ e ∈ s.cache, h.iter = some e.node

variable {s : SinkSystem}

/-- A handle writes to a file if it points to its entry. -/
theorem target_eq_iff (ho : Owned s.cache s.handles) {h : SinkHandle} {e : SinkEntry}
    (hh : h ∈ s.handles) (he : e ∈ s.cache) :
    s.target h = some e.fileName ↔ h.pointsTo e.node = true := by
  rw [pointsTo_iff]
  unfold target
  by_cases hcache : h.cache = true
  · obtain ⟨e', he', hiter⟩ := ho.valid h hh hcache
    have hfind : List.find? (fun e => some e.node = h.iter) s.cache = some e' := by
      have hderef := SinkCache.deref_eq ho.nodes he'
      rw [← hiter] at hderef
      unfold SinkCache.deref at hderef
      cases hfind : List.find? (fun e => some e.node = h.iter) s.cache with
      | none =>
        rw [hfind] at hderef
        cases hderef
      | some e₁ =>
        rw [hfind] at hderef
        cases hderef
        rfl
    rw [if_pos hcache, hfind, hiter, Option.map_some, Option.some.injEq, Option.some.injEq]
    constructor
    · intro hname
      exact ⟨hcache, congrArg _ (List.inj_on_of_nodup_map ho.names he' he hname)⟩
    · rintro ⟨-, hnode⟩
      rw [SinkCache.eq_of_node ho.nodes he' he hnode]
  · rw [if_neg hcache]
    exact ⟨fun hnone => (nomatch hnone), fun hpoints => absurd hpoints.1 hcache⟩

/-- The file that a handle writes to is in the cache. -/
theorem exists_of_target {h : SinkHandle} {fn : Bytes} (htarget : s.target h = some fn) :
    ∃ e ∈ s.cache, e.fileName = fn := by
  unfold target at htarget
  split_ifs at htarget
  obtain ⟨e, hfind, hname⟩ := Option.map_eq_some_iff.mp htarget
  exact ⟨e, List.mem_of_find?_eq_some hfind, hname⟩

/-- The counts are those of the handles. -/
theorem counted_of_owned (ho : Owned s.cache s.handles) : Counted s := by
  refine ⟨fun fn => ?_, ho.valid⟩
  unfold useCount?
  -- the handles that write to the file are those that point to the entry
  cases hfind : s.cache.find? fn with
  | some e =>
    have he := List.mem_of_find?_eq_some hfind
    have hname := List.find?_some hfind
    rw [decide_eq_true_eq] at hname
    have huses : s.uses fn = e.useCount := by
      rw [ho.count e he]
      refine List.countP_congr fun h hh => ?_
      rw [decide_eq_true_eq, ← hname]
      exact target_eq_iff ho hh he
    have hpos : 0 < e.useCount := by
      rw [ho.count e he]
      exact List.countP_pos_iff.mpr (ho.used e he)
    rw [huses, if_neg (by omega)]
    rfl
  | none =>
    have hzero : s.uses fn = 0 := by
      refine List.countP_eq_zero.mpr fun h _ htarget => ?_
      obtain ⟨e, he, hname⟩ := exists_of_target (of_decide_eq_true htarget)
      exact List.find?_eq_none.mp hfind e he (decide_eq_true hname)
    rw [hzero]
    rfl

/-- Every operation keeps the use counts and uses no invalid iterator. -/
theorem step_owned (ho : Owned s.cache s.handles) (op : SinkOp) :
    ∃ s', s.step op = .ok s' ∧ Owned s'.cache s'.handles := by
  have happend : ∀ h : SinkHandle, (h :: s.handles).Perm (s.handles ++ [h]) := fun h =>
    (List.perm_append_singleton h s.handles).symm
  -- one case for each operation, on the handle at that position if there is one
  cases op with
  | construct =>
    exact ⟨_, rfl, (ho.cons_null (rfl : SinkHandle.empty.cache = false)).perm (happend _)⟩
  | get fn flags opened m =>
    obtain ⟨fc', h', hget, ho'⟩ := ho.getSinkHandle fn (makeSink fn flags opened) m
    refine ⟨⟨fc', s.handles ++ [h']⟩, ?_, ho'.perm (happend _)⟩
    simp only [step, hget]
    rfl
  | copy i =>
    cases hi : s.handles[i]? with
    | none => exact ⟨s, by simp only [step, hi]; rfl, ho⟩
    | some other =>
      obtain ⟨fc', h', hcopy, ho', -⟩ := ho.copy (List.mem_of_getElem? hi)
      refine ⟨⟨fc', s.handles ++ [h']⟩, ?_, ho'.perm (happend _)⟩
      simp only [step, hi, hcopy]
      rfl
  | assign i j =>
    cases hi : s.handles[i]? with
    | none => exact ⟨s, by simp only [step, hi]; rfl, ho⟩
    | some h =>
      cases hj : s.handles[j]? with
      | none => exact ⟨s, by simp only [step, hi, hj]; rfl, ho⟩
      | some other =>
        obtain ⟨hlt, rfl⟩ := List.getElem?_eq_some_iff.mp hi
        have hperm := List.getElem_cons_eraseIdx_perm hlt
        have hmem := hperm.mem_iff.mpr (List.mem_of_getElem? hj)
        obtain ⟨fc', h', hassign, ho', -⟩ := (ho.perm hperm.symm).assign hmem
        refine ⟨⟨fc', s.handles.set i h'⟩, ?_, ho'.perm (List.set_perm_cons_eraseIdx hlt h').symm⟩
        simp only [step, hi, hj, hassign]
        rfl
  | destroy i =>
    cases hi : s.handles[i]? with
    | none => exact ⟨s, by simp only [step, hi]; rfl, ho⟩
    | some h =>
      obtain ⟨hlt, rfl⟩ := List.getElem?_eq_some_iff.mp hi
      obtain ⟨fc', hdestroy, ho'⟩ :=
        (ho.perm (List.getElem_cons_eraseIdx_perm hlt).symm).destroy
      refine ⟨⟨fc', s.handles.eraseIdx i⟩, ?_, ho'⟩
      simp only [step, hi, hdestroy]
      rfl

/-- Every sequence of operations keeps the counts. -/
theorem run_owned (ho : Owned s.cache s.handles) (ops : List SinkOp) :
    ∃ s', ops.foldlM step s = .ok s' ∧ Owned s'.cache s'.handles := by
  induction ops generalizing s with
  | nil => exact ⟨s, rfl, ho⟩
  | cons op ops ih =>
    obtain ⟨s₁, hstep, ho₁⟩ := step_owned ho op
    obtain ⟨s₂, hrun, ho₂⟩ := ih ho₁
    refine ⟨s₂, ?_, ho₂⟩
    rw [List.foldlM_cons, hstep]
    exact hrun

/-- For every sequence of operations: no invalid iterator is used, the use count of a file name
is the number of handles that refer to it, there is an entry if and only if there is such a
handle, and every handle with a cache refers to an entry. -/
theorem sinkHandles_counted (ops : List SinkOp) :
    ∃ s, ops.foldlM step initial = .ok s ∧ Counted s := by
  have ho : Owned initial.cache initial.handles := by
    refine ⟨⟨List.nodup_nil, List.nodup_nil, ?_, ?_⟩, ?_⟩
    · exact fun e he => absurd he List.not_mem_nil
    · exact fun h hh => absurd hh List.not_mem_nil
    · exact fun e he => absurd he List.not_mem_nil
  obtain ⟨s, hrun, ho'⟩ := run_owned ho ops
  exact ⟨s, hrun, counted_of_owned ho'⟩

end SinkSystem

end BoostActor
