import BoostActor.Core.Binary
import BoostActor.Lib.Run
import BoostActor.Lib.Threads

/-!
# Memory caches

Mailbox elements do not come from the heap one by one (`memory.hpp`, `embedded.hpp`). Every thread
has a cache with a storage of some slots, which it hands out one after the other. A slot is never
used again: the objects in a storage keep it alive, together with the cache as long as there are
slots left, and whoever deletes the last object deletes the storage.

Objects may be deleted by any thread, and threads may end before their objects do. Copying and
releasing a reference to a storage is one step here.

* `dsize_bounds` — the number of slots;
* `Inv.step` — what the threads do with their storages;
* `memoryCache_reach` — no slot is used twice or outside of its storage, and a storage is there
  exactly as long as it is needed.
-/

namespace BoostActor

open Lib

-- -------------------------
-- The code
-- -------------------------

/-- The number of slots in a storage for objects of some size. -/
def dsize (size : Nat) : Nat :=
  let ne := 1024 * 1024 / size
  let ms := if ne < 5 then 5 else ne
  if ms > 20 then 20 else ms

theorem dsize_bounds (size : Nat) : 5 ≤ dsize size ∧ dsize size ≤ 20 := by
  unfold dsize
  dsimp only
  split_ifs <;> omega

/-- `basic_memory_cache::storage`, with the objects in its slots. -/
structure MemoryStorage where
  rc : Nat
  pos : Nat
  objects : List Bool
  deleted : Bool
deriving DecidableEq, Repr

/-- All storages for one type, and the caches of the threads. -/
structure MemoryCaches where
  storages : List MemoryStorage
  caches : List (Option Nat)
deriving DecidableEq, Repr

/-- What happens next. -/
inductive MemoryAction where
  /-- thread `t` creates an object -/
  | create (t : Nat)
  /-- some thread deletes the object in a slot of a storage -/
  | requestDeletion (storage slot : Nat)
  /-- thread `t` ends -/
  | exit (t : Nat)
deriving DecidableEq, Repr

namespace MemoryStorage

/-- A new storage, with the reference of its cache. -/
def initial (size : Nat) : MemoryStorage := ⟨1, 0, List.replicate (dsize size) false, false⟩

/-- `deref`. -/
def deref (st : MemoryStorage) : Except Fault MemoryStorage :=
  if st.deleted then .error (.undefined "use after free")
  else if st.rc = 1 then .ok { st with deleted := true }
  else .ok { st with rc := st.rc - 1 }

/-- `next` and the construction of an object; the slot must be one of the storage, and free. -/
def next (st : MemoryStorage) : Except Fault MemoryStorage :=
  if st.deleted then .error (.undefined "use after free")
  else match st.objects[st.pos]? with
    | some false => .ok { st with pos := st.pos + 1, objects := st.objects.set st.pos true }
    | _ => .error (.undefined "invalid slot")

/-- `has_next`. -/
def hasNext (size : Nat) (st : MemoryStorage) : Bool := st.pos < dsize size

end MemoryStorage

namespace MemoryCaches

/-- No thread has created anything yet. -/
def isInitial (s : MemoryCaches) : Prop := s.storages = [] ∧ ∀ cache ∈ s.caches, cache = none

/-- `new_embedded_storage` with a storage that is there, and the construction of the object. -/
def newEmbeddedStorage (size : Nat) (s : MemoryCaches) (t id : Nat) :
    Option (Except Fault MemoryCaches) :=
  (s.storages[id]?).map fun st => st.next.map fun st =>
    if st.hasNext size then
      { s with storages := s.storages.set id { st with rc := st.rc + 1 } }
    -- the object gets the reference of the cache
    else { storages := s.storages.set id st, caches := s.caches.set t none }

/-- The allocation of a storage on the fly. -/
def allocate (size : Nat) (s : MemoryCaches) (t : Nat) : MemoryCaches :=
  { storages := s.storages ++ [.initial size], caches := s.caches.set t (some s.storages.length) }

/-- Releases a reference to a storage. -/
def release (s : MemoryCaches) (id : Nat) (st : MemoryStorage) : Except Fault MemoryCaches :=
  st.deref.map fun st => { s with storages := s.storages.set id st }

/-- What an action does; an action is impossible when there is no such thread or object. -/
def exec (size : Nat) (s : MemoryCaches) : MemoryAction → Option (Except Fault MemoryCaches)
  | .create t =>
    match s.caches[t]? with
    | some (some id) => s.newEmbeddedStorage size t id
    | some none => (s.allocate size t).newEmbeddedStorage size t s.storages.length
    | none => none
  | .requestDeletion id slot =>
    match s.storages[id]? with
    | some st =>
      if st.objects[slot]? = some true then
        some (s.release id { st with objects := st.objects.set slot false })
      else none
    | none => none
  | .exit t =>
    match s.caches[t]? with
    | some (some id) => (s.storages[id]?).map fun st =>
        release { s with caches := s.caches.set t none } id st
    | some none => some (.ok s)
    | none => none

def step (size : Nat) (s : MemoryCaches) (a : MemoryAction) : Option MemoryCaches :=
  (s.exec size a).bind Except.toOption

end MemoryCaches

-- -------------------------
-- One storage
-- -------------------------

namespace MemoryStorage

variable {size n slot : Nat} {st : MemoryStorage}

/-- How many objects there are. -/
def users (st : MemoryStorage) : Nat := st.objects.countP id

/-- A storage with references from its objects and `n` others. -/
structure Counted (size n : Nat) (st : MemoryStorage) : Prop where
  length : st.objects.length = dsize size
  /-- slots that have not been handed out are free -/
  free : ∀ k, st.pos ≤ k → st.objects[k]? ≠ some true
  counter : st.deleted = false → st.rc = st.users + n
  alive : st.deleted = false ↔ 0 < st.users + n

theorem users_set {b : Bool} (hslot : st.objects[slot]? = some b) (b' : Bool) :
    (st.objects.set slot b').countP id + b.toNat = st.users + b'.toNat := by
  have h := countP_set_add hslot b' id
  cases b <;> cases b' <;> exact h

/-- A new storage has one user, the cache. -/
theorem counted_initial (size : Nat) : Counted size 1 (initial size) := by
  have husers : (initial size).users = 0 := by
    rw [users, initial, List.countP_replicate]
    rfl
  refine ⟨List.length_replicate, fun k _ hk => ?_, fun _ => ?_, ?_⟩
  · have hmem := List.eq_of_mem_replicate (List.mem_of_getElem? hk)
    cases hmem
  · rw [husers]
    rfl
  · rw [husers]
    exact iff_of_true rfl (by omega)

theorem Counted.notDeleted (h : Counted size (n + 1) st) : st.deleted = false :=
  h.alive.mpr (by omega)

/-- Another reference to a storage that is there. -/
theorem Counted.ref (h : Counted size n st) (hdeleted : st.deleted = false) :
    Counted size (n + 1) { st with rc := st.rc + 1 } := by
  have hcounter := h.counter hdeleted
  refine ⟨h.length, h.free, fun _ => ?_, iff_of_true hdeleted (Nat.succ_pos _)⟩
  show st.rc + 1 = st.users + (n + 1)
  omega

/-- A reference is released; the last one takes the storage with it. -/
theorem Counted.deref (h : Counted size (n + 1) st) :
    ∃ st', st.deref = .ok st' ∧ Counted size n st' ∧ st'.pos = st.pos := by
  have hdeleted := h.notDeleted
  have hcounter := h.counter hdeleted
  rw [MemoryStorage.deref, if_neg (by rw [hdeleted]; exact Bool.false_ne_true)]
  split_ifs with hone
  · refine ⟨_, rfl, ⟨h.length, h.free, fun hd => ?_, ?_⟩, rfl⟩
    · cases hd
    · show true = false ↔ 0 < st.users + n
      exact iff_of_false Bool.noConfusion (by omega)
  · refine ⟨_, rfl, ⟨h.length, h.free, fun _ => ?_, ?_⟩, rfl⟩
    · show st.rc - 1 = st.users + n
      omega
    · show st.deleted = false ↔ 0 < st.users + n
      exact iff_of_true hdeleted (by omega)

/-- An object is gone, its reference is still there. -/
theorem Counted.clear (h : Counted size n st) (hslot : st.objects[slot]? = some true) :
    Counted size (n + 1) { st with objects := st.objects.set slot false } := by
  have husers := users_set hslot false
  replace husers : (st.objects.set slot false).countP id + 1 = st.users := husers
  have hcounter := h.counter
  have halive := h.alive
  refine ⟨by rw [← h.length]; exact List.length_set .., fun k hk => ?_, fun hd => ?_, ?_⟩
  · show (st.objects.set slot false)[k]? ≠ some true
    rw [List.getElem?_set]
    split_ifs
    · intro hc
      cases hc
    · intro hc
      cases hc
    · exact h.free k hk
  · show st.rc = (st.objects.set slot false).countP id + (n + 1)
    have hrc := hcounter hd
    omega
  · show st.deleted = false ↔ 0 < (st.objects.set slot false).countP id + (n + 1)
    rw [halive]
    constructor <;> intro _ <;> omega

/-- The next object takes over a reference. -/
theorem Counted.next (h : Counted size (n + 1) st) (hpos : st.pos < dsize size) :
    ∃ st', st.next = .ok st' ∧ Counted size n st' ∧ st'.pos = st.pos + 1 ∧
      st'.deleted = false := by
  have hdeleted := h.notDeleted
  have hslot : st.objects[st.pos]? = some false := by
    have hlt : st.pos < st.objects.length := by rw [h.length]; exact hpos
    have hfree := h.free st.pos le_rfl
    rw [List.getElem?_eq_getElem hlt] at hfree ⊢
    cases hb : st.objects[st.pos] with
    | false => rfl
    | true => exact absurd (congrArg some hb) hfree
  have husers := users_set hslot true
  replace husers : (st.objects.set st.pos true).countP id = st.users + 1 := husers
  rw [MemoryStorage.next, if_neg (by rw [hdeleted]; exact Bool.false_ne_true), hslot]
  refine ⟨_, rfl, ⟨by rw [← h.length]; exact List.length_set .., fun k hk => ?_, fun hd => ?_, ?_⟩,
    rfl, hdeleted⟩
  · replace hk : st.pos + 1 ≤ k := hk
    show (st.objects.set st.pos true)[k]? ≠ some true
    rw [List.getElem?_set_ne (by omega)]
    exact h.free k (by omega)
  · -- one object more uses the storage
    have hcounter := h.counter hd
    show st.rc = (st.objects.set st.pos true).countP id + n
    omega
  · show st.deleted = false ↔ 0 < (st.objects.set st.pos true).countP id + n
    exact iff_of_true hdeleted (by omega)

end MemoryStorage

-- -------------------------
-- What every step preserves
-- -------------------------

namespace MemoryCaches

variable {size t id : Nat} {s s' : MemoryCaches} {st : MemoryStorage}

/-- How many threads have a storage in their cache. -/
def cached (s : MemoryCaches) (id : Nat) : Nat := s.caches.countP (· = some id)

structure Inv (size : Nat) (s : MemoryCaches) : Prop where
  counted : ∀ id st, s.storages[id]? = some st → MemoryStorage.Counted size (s.cached id) st
  /-- the storage in a cache has a free slot -/
  room : ∀ id st, s.storages[id]? = some st → 0 < s.cached id → st.pos < dsize size
  /-- no two threads have the same one -/
  single : ∀ id, s.cached id ≤ 1
  valid : ∀ id, 0 < s.cached id → id < s.storages.length

/-- A storage in a cache, and what the cache is replaced by. -/
theorem cached_set {c : Option Nat} (ht : s.caches[t]? = some c) (c' : Option Nat) (id : Nat) :
    (s.caches.set t c').countP (· = some id) + (if c = some id then 1 else 0) =
      s.cached id + if c' = some id then 1 else 0 := by
  simpa [cached] using countP_set_add ht c' fun c => decide (c = some id)

/-- The cache of a thread has one storage. -/
theorem Inv.cached_eq (h : Inv size s) (ht : s.caches[t]? = some (some id)) :
    s.cached id = 1 := by
  have hpos : 0 < s.cached id := countP_pos ht (decide_eq_true rfl)
  have hle := h.single id
  omega

/-- One storage changes, and the caches only as to this one. -/
theorem Inv.update (h : Inv size s) (hid : s.storages[id]? = some st) {st' : MemoryStorage}
    {caches' : List (Option Nat)}
    (hsame : ∀ j, j ≠ id → caches'.countP (· = some j) = s.cached j)
    (hcounted : st'.Counted size (caches'.countP (· = some id)))
    (hsingle : caches'.countP (· = some id) ≤ 1)
    (hroom : 0 < caches'.countP (· = some id) → st'.pos < dsize size) :
    Inv size ⟨s.storages.set id st', caches'⟩ := by
  have hlt : id < s.storages.length := (List.getElem?_eq_some_iff.mp hid).1
  -- only one storage has changed
  have hstorage {j : Nat} {x : MemoryStorage} (hj : (s.storages.set id st')[j]? = some x) :
      j = id ∧ x = st' ∨ j ≠ id ∧ s.storages[j]? = some x := by
    by_cases hji : j = id
    · rw [hji, List.getElem?_set_self hlt] at hj
      exact .inl ⟨hji, (Option.some.inj hj).symm⟩
    · rw [List.getElem?_set_ne (fun heq => hji heq.symm)] at hj
      exact .inr ⟨hji, hj⟩
  refine ⟨fun j x hj => ?_, fun j x hj hpos => ?_, fun j => ?_, fun j hpos => ?_⟩
  · obtain ⟨rfl, rfl⟩ | ⟨hji, hj⟩ := hstorage hj
    · exact hcounted
    · show x.Counted size (caches'.countP (· = some j))
      rw [hsame j hji]
      exact h.counted j x hj
  · replace hpos : 0 < caches'.countP (· = some j) := hpos
    obtain ⟨rfl, rfl⟩ | ⟨hji, hj⟩ := hstorage hj
    · exact hroom hpos
    · rw [hsame j hji] at hpos
      exact h.room j x hj hpos
  · show caches'.countP (· = some j) ≤ 1
    by_cases hji : j = id
    · rw [hji]
      exact hsingle
    · rw [hsame j hji]
      exact h.single j
  · replace hpos : 0 < caches'.countP (· = some j) := hpos
    show j < (s.storages.set id st').length
    rw [List.length_set]
    by_cases hji : j = id
    · rw [hji]
      exact hlt
    · rw [hsame j hji] at hpos
      exact h.valid j hpos

/-- A thread without a cache gets one. -/
theorem Inv.allocate (h : Inv size s) (ht : s.caches[t]? = some none) :
    Inv size (s.allocate size t) := by
  -- the new storage is in this cache only
  have hcached (j : Nat) : (s.allocate size t).cached j =
      s.cached j + if s.storages.length = j then 1 else 0 := by
    have hset := cached_set ht (some s.storages.length) j
    rw [if_neg (by simp)] at hset
    simp only [Option.some.injEq] at hset
    exact hset
  have hnew : s.cached s.storages.length = 0 := by
    by_contra hne
    have hlt := h.valid _ (Nat.pos_of_ne_zero hne)
    omega
  have hstorage {j : Nat} {x : MemoryStorage} (hj : (s.allocate size t).storages[j]? = some x) :
      j < s.storages.length ∧ s.storages[j]? = some x ∨
        j = s.storages.length ∧ x = .initial size := by
    have hlt := (List.getElem?_eq_some_iff.mp hj).1
    replace hlt : j < (s.storages ++ [MemoryStorage.initial size]).length := hlt
    replace hj : (s.storages ++ [MemoryStorage.initial size])[j]? = some x := hj
    rw [List.length_append, List.length_singleton] at hlt
    by_cases hold : j < s.storages.length
    · rw [List.getElem?_append_left hold] at hj
      exact .inl ⟨hold, hj⟩
    · obtain rfl : j = s.storages.length := by omega
      rw [List.getElem?_concat_length] at hj
      exact .inr ⟨rfl, (Option.some.inj hj).symm⟩
  refine ⟨fun j x hj => ?_, fun j x hj hpos => ?_, fun j => ?_, fun j hpos => ?_⟩
  · rw [hcached]
    obtain ⟨hlt, hj⟩ | ⟨rfl, rfl⟩ := hstorage hj
    · rw [if_neg (by omega)]
      exact h.counted j x hj
    · rw [hnew, if_pos rfl]
      exact MemoryStorage.counted_initial size
  · -- it has room for an object
    rw [hcached] at hpos
    obtain ⟨hlt, hj⟩ | ⟨rfl, rfl⟩ := hstorage hj
    · rw [if_neg (by omega)] at hpos
      exact h.room j x hj hpos
    · show 0 < dsize size
      have hbounds := dsize_bounds size
      omega
  · rw [hcached]
    split_ifs with hj
    · rw [← hj, hnew]
    · exact h.single j
  · show j < (s.storages ++ [MemoryStorage.initial size]).length
    rw [List.length_append, List.length_singleton]
    rw [hcached] at hpos
    split_ifs at hpos with hj
    · omega
    · have hlt := h.valid j hpos
      omega

/-- A thread creates an object in the storage it has. -/
theorem Inv.newEmbeddedStorage (h : Inv size s) (ht : s.caches[t]? = some (some id)) :
    ∃ s', s.newEmbeddedStorage size t id = some (.ok s') ∧ Inv size s' := by
  have hone := h.cached_eq ht
  obtain ⟨st, hid⟩ : ∃ st, s.storages[id]? = some st :=
    ⟨_, List.getElem?_eq_getElem (h.valid id (by omega))⟩
  have hcounted := h.counted id st hid
  rw [hone] at hcounted
  obtain ⟨st₁, hnext, hcounted₁, hpos₁, hdeleted₁⟩ := hcounted.next (h.room id st hid (by omega))
  rw [MemoryCaches.newEmbeddedStorage, hid, Option.map_some, hnext]
  refine ⟨_, rfl, ?_⟩
  dsimp only
  -- the storage still has room, so that the cache keeps it
  split_ifs with hmore
  · refine h.update hid (fun _ _ => rfl) ?_ (by exact le_of_eq hone) fun _ => ?_
    · show MemoryStorage.Counted size (s.cached id) _
      rw [hone]
      exact hcounted₁.ref hdeleted₁
    · exact of_decide_eq_true hmore
  · -- it is full, and the cache lets go of it
    have hnone (j : Nat) := cached_set ht none j
    have hzero : (s.caches.set t none).countP (· = some id) = 0 := by
      have hset := hnone id
      rw [if_pos rfl, if_neg (by simp)] at hset
      omega
    refine h.update hid (fun j hj => ?_) ?_ ?_ fun hpos => ?_
    · have hset := hnone j
      rw [if_neg (by simpa using fun heq => hj heq.symm), if_neg (by simp)] at hset
      exact hset
    · rw [hzero]
      exact hcounted₁
    · rw [hzero]
      exact Nat.zero_le _
    · rw [hzero] at hpos
      exact absurd hpos (lt_irrefl 0)

/-- What an action does. -/
theorem Inv.exec (h : Inv size s) {a : MemoryAction} {out : Except Fault MemoryCaches}
    (hexec : s.exec size a = some out) : ∃ s', out = .ok s' ∧ Inv size s' := by
  cases a with
  | create t =>
    rw [MemoryCaches.exec] at hexec
    split at hexec
    · -- there is a storage in the cache
      next id ht =>
      obtain ⟨s₁, hnew, hinv⟩ := h.newEmbeddedStorage ht
      rw [hnew] at hexec
      exact ⟨s₁, (Option.some.inj hexec).symm, hinv⟩
    · -- a new one is allocated first
      next ht =>
      have hlt : t < s.caches.length := (List.getElem?_eq_some_iff.mp ht).1
      have hcache : (s.allocate size t).caches[t]? = some (some s.storages.length) :=
        List.getElem?_set_self hlt
      obtain ⟨s₁, hnew, hinv⟩ := (h.allocate ht).newEmbeddedStorage hcache
      rw [hnew] at hexec
      exact ⟨s₁, (Option.some.inj hexec).symm, hinv⟩
    · cases hexec
  | requestDeletion id slot =>
    rw [MemoryCaches.exec] at hexec
    split at hexec
    · next st hid =>
      split_ifs at hexec with hslot
      obtain ⟨st₁, hderef, hcounted, hpos⟩ := ((h.counted id st hid).clear hslot).deref
      rw [release, hderef] at hexec
      cases hexec
      exact ⟨_, rfl, h.update hid (fun _ _ => rfl) hcounted (h.single id) fun hcached => by
        rw [hpos]
        exact h.room id st hid hcached⟩
    · cases hexec
  | exit t =>
    rw [MemoryCaches.exec] at hexec
    split at hexec
    · -- the thread gives its storage up
      next id ht =>
      have hone := h.cached_eq ht
      obtain ⟨st, hid, hout⟩ := Option.map_eq_some_iff.mp hexec
      have hcounted := h.counted id st hid
      rw [hone] at hcounted
      obtain ⟨st₁, hderef, hcounted₁, -⟩ := hcounted.deref
      rw [release, hderef] at hout
      have hnone (j : Nat) := cached_set ht none j
      have hzero : (s.caches.set t none).countP (· = some id) = 0 := by
        have hset := hnone id
        rw [if_pos rfl, if_neg (by simp)] at hset
        omega
      refine ⟨_, hout.symm, h.update hid (fun j hj => ?_) ?_ ?_ fun hpos => ?_⟩
      · have hset := hnone j
        rw [if_neg (by simpa using fun heq => hj heq.symm),
          if_neg (by simp)] at hset
        exact hset
      · rw [hzero]
        exact hcounted₁
      · rw [hzero]
        exact Nat.zero_le _
      · rw [hzero] at hpos
        exact absurd hpos (lt_irrefl 0)
    · cases hexec
      exact ⟨s, rfl, h⟩
    · cases hexec

/-- Every step keeps the invariant. -/
theorem Inv.step (h : Inv size s) {a : MemoryAction} (hs : s.step size a = some s') :
    Inv size s' := by
  obtain ⟨out, hexec, hout⟩ := Option.bind_eq_some_iff.mp hs
  obtain ⟨s₁, rfl, hinv⟩ := h.exec hexec
  cases hout
  exact hinv

-- -------------------------
-- Runs
-- -------------------------

/-- What threads and objects can rely on. -/
structure Sound (size : Nat) (s : MemoryCaches) : Prop where
  /-- a storage is there as long as a cache or an object needs it, and no longer -/
  needed : ∀ id st, s.storages[id]? = some st →
    (st.deleted = false ↔ some id ∈ s.caches ∨ true ∈ st.objects)
  /-- no two threads take their objects from the same storage -/
  exclusive : ∀ t t' id : Nat,
    s.caches[t]? = some (some id) → s.caches[t']? = some (some id) → t = t'
  /-- a thread always finds a place for an object, and nobody uses a storage that is gone -/
  faultless : ∀ a f, s.exec size a ≠ some (.error f)
  /-- objects are only in slots that have been handed out, and the next one is not among them -/
  fresh : ∀ (id : Nat) st (slot : Nat),
    s.storages[id]? = some st → st.objects[slot]? = some true → slot < st.pos
  /-- everything has been deleted when the threads and their objects are gone -/
  noLeak : (∀ cache ∈ s.caches, cache = none) →
    (∀ st ∈ s.storages, ∀ object ∈ st.objects, object = false) → ∀ st ∈ s.storages, st.deleted

/-- A storage exists as long as it is needed. -/
theorem Inv.needed (h : Inv size s) (hid : s.storages[id]? = some st) :
    st.deleted = false ↔ some id ∈ s.caches ∨ true ∈ st.objects := by
  rw [(h.counted id st hid).alive]
  have husers : 0 < st.users ↔ true ∈ st.objects := by
    rw [MemoryStorage.users, List.countP_pos_iff]
    simp
  have hcached : 0 < s.cached id ↔ some id ∈ s.caches := by
    rw [cached, List.countP_pos_iff]
    simp
  rw [← husers, ← hcached]
  constructor <;> intro _ <;> omega

/-- What the invariant says about storages. -/
theorem Inv.sound (h : Inv size s) : Sound size s := by
  refine ⟨fun _ _ => h.needed, fun t t' id ht ht' => ?_, fun a f hexec => ?_,
    fun id st slot hid hslot => ?_, fun hcaches hobjects st hst => ?_⟩
  · by_contra hne
    have htwo := two_le_countP (p := (· = some id)) hne ht ht' (decide_eq_true rfl)
      (decide_eq_true rfl)
    have hle : s.caches.countP (· = some id) ≤ 1 := h.single id
    omega
  · obtain ⟨s', hok, -⟩ := h.exec hexec
    cases hok
  · by_contra hlt
    exact (h.counted id st hid).free slot (by omega) hslot
  · obtain ⟨id, hid⟩ := List.mem_iff_getElem?.mp hst
    have hneeded := h.needed hid
    cases hd : st.deleted with
    | true => rfl
    | false =>
      -- somebody would need it
      obtain hmem | hmem := hneeded.mp hd
      · cases hcaches _ hmem
      · cases hobjects st hst _ hmem

/-- The invariant holds in the beginning. -/
theorem Inv.init (hinit : s.isInitial) : Inv size s := by
  have hcached (id : Nat) : s.cached id = 0 :=
    countP_eq_zero_of_forall fun cache hc => by
      rw [hinit.2 cache hc]
      rfl
  refine ⟨fun id st hid => ?_, fun id st hid => ?_, fun id => ?_, fun id hpos => ?_⟩
  · rw [hinit.1] at hid
    cases hid
  · rw [hinit.1] at hid
    cases hid
  · rw [hcached]
    exact Nat.zero_le 1
  · rw [hcached] at hpos
    exact absurd hpos (lt_irrefl 0)

/-- For any number of threads that create objects, any threads that delete them, and threads that
end in between. -/
theorem memoryCache_reach
    (hreach : Reach isInitial (step size) anyStep s) : Sound size s :=
  (hreach.invariant (I := Inv size) (fun _ => .init) fun _ _ _ h _ hs => h.step hs).sound

/-- A thread fills a storage and begins another one, whose object outlives the thread. -/
theorem memoryCache_fills : ∃ s : MemoryCaches, s.storages.map (·.deleted) = [true, false] ∧
    s.caches = [none, none] ∧ Sound 1000000 s :=
  ⟨_, rfl, rfl, memoryCache_reach (reach_of_run
    (.init (s := ⟨[], [none, none]⟩) ⟨rfl, by decide⟩)
    (rfl : runAll (step 1000000) _ [.create 0, .create 0, .requestDeletion 0 1, .create 0,
      .create 0, .create 0, .create 0, .requestDeletion 0 0, .requestDeletion 0 2, .exit 0,
      .requestDeletion 0 4, .requestDeletion 0 3] = some _))⟩

end MemoryCaches

end BoostActor
