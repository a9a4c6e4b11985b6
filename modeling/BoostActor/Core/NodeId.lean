import BoostActor.Lib.LittleEndian

/-!
# Node ids

A node id (`node_id.hpp`, `node_id.cpp`) is either invalid or a 20-byte host id
together with a process id. Two ids are compared with `strncmp` over the host
ids, so the bytes after a zero byte do not count: the source's `operator==`,
here `equals`, is coarser than equality. The hash does look at bytes after a zero
byte. An unordered container takes two ids for the same key only when the hashes
agree as well; `==` on node ids stands for this key equality.

* `NodeId.equals_iff` — two ids compare equal iff they have the same `key`: the
  host id up to its first zero byte, and the process id;
* `NodeId.beq_iff` — they are the same key of a container iff moreover their
  hashes agree;
* the `EquivBEq` instance — `==` is an equivalence, which is all that the
  containers rely on.
-/

namespace BoostActor

open Lib

/-- `node_id::host_id_size`. -/
def hostIdSize : Nat := 20

/-- `node_id::host_id_type`: a 160 bit hash. -/
structure HostId where
  bytes : List UInt8
  size_eq : bytes.length = hostIdSize
deriving DecidableEq, Repr

/-- `node_id::data`. -/
structure NodeId.Data where
  pid : UInt32
  host : HostId
deriving DecidableEq, Repr

/-- A node id holds no data when it is invalid. -/
structure NodeId where
  data : Option NodeId.Data
deriving DecidableEq, Repr

/-- `strncmp` over byte strings of the same size: stops at the first difference
or after a common zero byte. -/
def strncmp : List UInt8 → List UInt8 → Int
  | a :: as, b :: bs =>
    if a = b then if a = 0 then 0 else strncmp as bs else (a.toNat : Int) - b.toNat
  | _, _ => 0

namespace NodeId

/-- `invalid_node_id`. -/
def invalid : NodeId := ⟨none⟩

/-- `node_id(process_id, host_id)`. -/
def make (pid : UInt32) (host : HostId) : NodeId := ⟨some ⟨pid, host⟩⟩

/-- `compare(invalid_node_id) != 0`. -/
def valid (n : NodeId) : Bool := n.data.isSome

/-- The host id of an invalid node id. -/
def invalidHostId : HostId := ⟨List.replicate hostIdSize 0, by simp⟩

/-- `node_id::process_id`. -/
def processId (n : NodeId) : UInt32 :=
  match n.data with
  | some d => d.pid
  | none => 0

/-- `node_id::host_id`. -/
def hostId (n : NodeId) : HostId :=
  match n.data with
  | some d => d.host
  | none => invalidHostId

/-- `node_id::compare`. -/
def compare (a b : NodeId) : Int :=
  match a.data, b.data with
  | none, none => 0
  | some _, none => 1
  | none, some _ => -1
  | some x, some y =>
    let tmp := strncmp x.host.bytes y.host.bytes
    if tmp ≠ 0 then tmp
    else if x.pid < y.pid then -1 else if x.pid = y.pid then 0 else 1

/-- `operator==`. -/
def equals (a b : NodeId) : Bool := a.compare b = 0

/-- `std::hash<node_id>` where `size_t` has 64 bits and the least significant
byte comes first. -/
def hash (n : NodeId) : UInt64 :=
  if n.valid then
    n.processId.toUInt64 ^^^ UInt64.ofNat (ofBytesLE (n.hostId.bytes.take 8))
  else 0

/-- Two ids are the same key of an `unordered_map` or an `unordered_set`: the
container looks for a node with the same hash that compares equal. -/
instance : BEq NodeId := ⟨fun a b => a.hash == b.hash && a.equals b⟩

/-- Process id and host id are all zero: on the wire, such an id is invalid. -/
def allZero (n : NodeId) : Bool :=
  n.processId = 0 ∧ n.hostId.bytes.all (· = 0)

end NodeId

-- -------------------------
-- Both are equivalences
-- -------------------------

/-- The part of a host id that `strncmp` looks at. -/
def cstr (bs : List UInt8) : List UInt8 := bs.takeWhile (· ≠ 0)

/-- `strncmp` compares the bytes before the first zero byte. -/
theorem strncmp_eq_zero_iff : ∀ {as bs : List UInt8}, as.length = bs.length →
    (strncmp as bs = 0 ↔ cstr as = cstr bs)
  | [], [], _ => by simp [strncmp]
  | a :: as, b :: bs, h => by
    have ih := strncmp_eq_zero_iff (by simpa using h : as.length = bs.length)
    rw [strncmp]
    by_cases hab : a = b
    · -- equal bytes: the comparison goes on unless they end the strings
      subst hab
      by_cases ha : a = 0
      · simp [cstr, ha]
      · rw [if_pos rfl, if_neg ha, ih]
        simp [cstr, ha]
    · -- the difference shows before any zero byte
      have hne : (a.toNat : Int) - b.toNat ≠ 0 := by
        intro hz
        exact hab (UInt8.toNat_inj.mp (by omega))
      rw [if_neg hab]
      refine ⟨fun hz => absurd hz hne, fun hc => ?_⟩
      by_cases ha : a = 0
      · by_cases hb : b = 0
        · exact absurd (ha.trans hb.symm) hab
        · simp [cstr, ha, hb] at hc
      · by_cases hb : b = 0
        · simp [cstr, ha, hb] at hc
        · simp [cstr, ha, hb] at hc
          exact absurd hc.1 hab

namespace NodeId

-- -------------------------
-- Equality of node ids
-- -------------------------

/-- What `operator==` sees of a node id. -/
def key (n : NodeId) : Option (List UInt8 × UInt32) :=
  n.data.map fun d => (cstr d.host.bytes, d.pid)

/-- Equal ids have the same bytes before the first zero byte and the same process id. -/
theorem equals_iff {a b : NodeId} : a.equals b = true ↔ a.key = b.key := by
  rw [equals, decide_eq_true_iff, compare, key, key]
  obtain ⟨_ | x⟩ := a <;> obtain ⟨_ | y⟩ := b
  · simp
  · simp
  · simp
  · have hlen : x.host.bytes.length = y.host.bytes.length := by
      rw [x.host.size_eq, y.host.size_eq]
    have hs := strncmp_eq_zero_iff hlen
    by_cases hz : strncmp x.host.bytes y.host.bytes = 0
    · by_cases hlt : x.pid < y.pid
      · have hne : x.pid ≠ y.pid := by
          intro he
          rw [he] at hlt
          exact absurd hlt (by simp)
        simp [hz, hlt, hs.mp hz, hne]
      · simp [hz, hlt, hs.mp hz]
    · simp only [hz, ne_eq, not_false_iff, if_true, Option.map_some, Option.some.injEq,
        Prod.mk.injEq, false_iff, not_and]
      intro hc
      exact absurd (hs.mpr hc) hz

@[simp] theorem equals_refl (a : NodeId) : a.equals a = true := equals_iff.mpr rfl

theorem equals_comm (a b : NodeId) : a.equals b = b.equals a := by
  rw [Bool.eq_iff_iff, equals_iff, equals_iff, eq_comm]

theorem equals_congr {a b : NodeId} (h : a.equals b = true) (c : NodeId) :
    a.equals c = b.equals c := by
  rw [Bool.eq_iff_iff, equals_iff, equals_iff, equals_iff.mp h]

theorem equals_congr_right {a b : NodeId} (h : a.equals b = true) (c : NodeId) :
    c.equals a = c.equals b := by
  rw [equals_comm c, equals_comm c, equals_congr h]

/-- The same key of a container. -/
theorem beq_iff {a b : NodeId} : (a == b) = true ↔ a.hash = b.hash ∧ a.equals b = true := by
  show (a.hash == b.hash && a.equals b) = true ↔ _
  rw [Bool.and_eq_true, beq_iff_eq]

/-- The same key compares equal. -/
theorem equals_of_beq {a b : NodeId} (h : (a == b) = true) : a.equals b = true :=
  (beq_iff.mp h).2

/-- Of two ids that compare differently to a third one, neither is the other. -/
theorem ne_key_of_equals {a b c : NodeId} (ha : a.equals c = false) (hb : b.equals c = true) :
    ¬ (a == b) = true := by
  intro hab
  rw [equals_congr (equals_of_beq hab), hb] at ha
  cases ha

instance : EquivBEq NodeId where
  rfl := beq_iff.mpr ⟨rfl, equals_refl _⟩
  symm h := by
    obtain ⟨hh, he⟩ := beq_iff.mp h
    exact beq_iff.mpr ⟨hh.symm, by rw [equals_comm, he]⟩
  trans h h' := by
    obtain ⟨hh, he⟩ := beq_iff.mp h
    obtain ⟨hh', he'⟩ := beq_iff.mp h'
    exact beq_iff.mpr ⟨hh.trans hh', by rw [equals_congr he, he']⟩

/-- Validity is a matter of `operator==`. -/
theorem valid_of_equals {a b : NodeId} (h : a.equals b = true) : a.valid = b.valid := by
  have hk := congrArg Option.isSome (equals_iff.mp h)
  simpa [key, valid] using hk

/-- Keys that are equal are both valid or both invalid. -/
theorem valid_congr {a b : NodeId} (h : (a == b) = true) : a.valid = b.valid :=
  valid_of_equals (equals_of_beq h)

/-- Only the invalid node id compares equal to it. -/
theorem valid_iff {a : NodeId} : a.valid = true ↔ a.equals invalid = false := by
  obtain ⟨_ | x⟩ := a
  · decide
  · show true = true ↔ decide ((1 : Int) = 0) = false
    decide

theorem not_valid_iff {a : NodeId} : a.valid = false ↔ a = invalid := by
  obtain ⟨_ | x⟩ := a <;> simp [valid, invalid]

@[simp] theorem valid_invalid : invalid.valid = false := rfl

end NodeId

end BoostActor
