import BoostActor.Core.NodeId

/-!
# The order and the hash of node ids

`node_id::compare` (`node_id.cpp`) orders by the host id first and by the process
id second, and `std::hash<node_id>` (`node_id.hpp`) mixes the process id with the
first bytes of the host id. The order is a strict weak order whatever the ids
are; it tells all nodes apart only where no two host ids differ behind a zero
byte, since `strncmp` does not look further than that.

* `compare_neg_iff` — the sign of `compare` is a lexicographic order on what
  `strncmp` sees of the host id and on the process id;
* `orderedByValue_iff` — two ids are ordered and hashed by their full value iff
  they are not `Confusable`.
-/

namespace BoostActor

-- -------------------------
-- `strncmp`
-- -------------------------

/-- Swapping the strings negates the result. -/
theorem strncmp_swap : ∀ as bs : List UInt8, strncmp bs as = -strncmp as bs
  | [], [] => by simp [strncmp]
  | [], _ :: _ => by simp [strncmp]
  | _ :: _, [] => by simp [strncmp]
  | a :: as, b :: bs => by
    have ih := strncmp_swap as bs
    rw [strncmp, strncmp]
    by_cases hab : a = b
    · subst hab
      rw [if_pos rfl, if_pos rfl, ih]
      split <;> simp
    · rw [if_neg hab, if_neg (Ne.symm hab)]
      omega

/-- `strncmp` orders byte strings by what precedes the first zero byte. -/
theorem strncmp_neg_iff : ∀ {as bs : List UInt8}, as.length = bs.length →
    (strncmp as bs < 0 ↔ cstr as < cstr bs)
  | [], [], _ => by simp [strncmp]
  | a :: as, b :: bs, h => by
    have ih := strncmp_neg_iff (by simpa using h : as.length = bs.length)
    rw [strncmp]
    by_cases hab : a = b
    · subst hab
      by_cases ha : a = 0
      · simp [cstr, ha]
      · rw [if_pos rfl, if_neg ha, ih]
        simp [cstr, ha]
    · rw [if_neg hab]
      have hlt : (a.toNat : Int) - b.toNat < 0 ↔ a < b := by
        rw [UInt8.lt_iff_toNat_lt]
        omega
      rw [hlt]
      -- a zero byte ends the first string, the second is longer
      by_cases ha : a = 0
      · have hb : b ≠ 0 := fun hb => hab (ha.trans hb.symm)
        have hpos : (0 : UInt8) < b := by
          rw [UInt8.lt_iff_toNat_lt]
          have := UInt8.toNat_inj.not.mpr hb
          simp at this ⊢
          omega
        simp [cstr, ha, hb, hpos]
      · by_cases hb : b = 0
        · simp [cstr, ha, hb]
        · simp [cstr, ha, hb, List.cons_lt_cons_iff, hab]

/-- Two byte strings that agree up to a zero byte, and differ behind it. -/
def DifferAfterZero (as bs : List UInt8) : Prop :=
  as ≠ bs ∧ ∃ pre u v, as = pre ++ 0 :: u ∧ bs = pre ++ 0 :: v

/-- A common prefix ends in both strings, or at a zero byte of both. -/
theorem cstr_eq_iff : ∀ {as bs : List UInt8}, as.length = bs.length →
    (cstr as = cstr bs ↔ as = bs ∨ DifferAfterZero as bs)
  | [], [], _ => by simp
  | a :: as, b :: bs, h => by
    have ih := cstr_eq_iff (by simpa using h : as.length = bs.length)
    -- the strings are cut at the same byte, so what differs lies behind it
    constructor
    · intro hc
      by_cases hsame : a :: as = b :: bs
      · exact .inl hsame
      · refine .inr ⟨hsame, ?_⟩
        by_cases ha : a = 0
        · have hb : b = 0 := by
            by_contra hb
            simp [cstr, ha, hb] at hc
          exact ⟨[], as, bs, by rw [ha]; rfl, by rw [hb]; rfl⟩
        · have hb : b ≠ 0 := by
            intro hb
            simp [cstr, ha, hb] at hc
          obtain ⟨hab, hrest⟩ : a = b ∧ cstr as = cstr bs := by
            simpa [cstr, ha, hb] using hc
          rcases ih.mp hrest with htail | ⟨-, pre, u, v, hu, hv⟩
          · exact absurd (by rw [hab, htail]) hsame
          · exact ⟨a :: pre, u, v, by rw [hu]; rfl, by rw [hv, hab]; rfl⟩
    · rintro (hsame | ⟨-, pre, u, v, hu, hv⟩)
      · rw [hsame]
      · rw [hu, hv]
        simp [cstr, List.takeWhile_append]

namespace NodeId

-- -------------------------
-- The order
-- -------------------------

/-- Strict lexicographic order on host id and process id, as far as `strncmp`
sees the host id. -/
def Data.Precedes (x y : Data) : Prop :=
  cstr x.host.bytes < cstr y.host.bytes ∨
    cstr x.host.bytes = cstr y.host.bytes ∧ x.pid < y.pid

/-- `compare(a, b) < 0`. -/
def Precedes (a b : NodeId) : Prop :=
  match a.data, b.data with
  | none, some _ => True
  | some x, some y => x.Precedes y
  | _, none => False

/-- Swapping the ids negates the result. -/
theorem compare_swap (a b : NodeId) : b.compare a = -a.compare b := by
  obtain ⟨_ | x⟩ := a <;> obtain ⟨_ | y⟩ := b
  · rfl
  · rfl
  · rfl
  · have hs := strncmp_swap x.host.bytes y.host.bytes
    simp only [compare, hs]
    by_cases hz : strncmp x.host.bytes y.host.bytes = 0
    · rcases lt_trichotomy x.pid.toNat y.pid.toNat with h | h | h
      · have hne : ¬ y.pid.toNat = x.pid.toNat := by omega
        simp [hz, UInt32.lt_iff_toNat_lt, ← UInt32.toNat_inj, h, hne, Nat.lt_asymm h]
      · simp [hz, UInt32.lt_iff_toNat_lt, ← UInt32.toNat_inj, h]
      · have hne : ¬ x.pid.toNat = y.pid.toNat := by omega
        simp [hz, UInt32.lt_iff_toNat_lt, ← UInt32.toNat_inj, h, hne, Nat.lt_asymm h]
    · simp [hz]

theorem compare_neg_swap {a b : NodeId} : a.compare b < 0 ↔ 0 < b.compare a := by
  rw [compare_swap a b]
  omega

/-- `compare` is the lexicographic order of host id and process id. -/
theorem compare_neg_iff {a b : NodeId} : a.compare b < 0 ↔ a.Precedes b := by
  obtain ⟨_ | x⟩ := a <;> obtain ⟨_ | y⟩ := b
  · simp [compare, Precedes]
  · simp [compare, Precedes]
  · simp [compare, Precedes]
  · have hlen : x.host.bytes.length = y.host.bytes.length := by
      rw [x.host.size_eq, y.host.size_eq]
    have hneg := strncmp_neg_iff hlen
    have hzero := strncmp_eq_zero_iff hlen
    simp only [compare, Precedes, Data.Precedes]
    rw [← hneg, ← hzero]
    by_cases hz : strncmp x.host.bytes y.host.bytes = 0
    · by_cases hlt : x.pid < y.pid
      · simp [hz, hlt]
      · by_cases he : x.pid = y.pid <;> simp [hz, hlt, he]
    · simp [hz]

/-- The order of the data is transitive. -/
theorem Data.Precedes.trans {x y z : Data} (hxy : x.Precedes y) (hyz : y.Precedes z) :
    x.Precedes z := by
  rcases hxy with hxy | ⟨hxy, hp⟩
  · rcases hyz with hyz | ⟨hyz, -⟩
    · exact .inl (List.lt_trans hxy hyz)
    · exact .inl (hyz ▸ hxy)
  · rcases hyz with hyz | ⟨hyz, hq⟩
    · exact .inl (hxy ▸ hyz)
    · exact .inr ⟨hxy.trans hyz, UInt32.lt_trans hp hq⟩

/-- So is `compare`. -/
theorem compare_trans {a b c : NodeId} (hab : a.compare b < 0) (hbc : b.compare c < 0) :
    a.compare c < 0 := by
  rw [compare_neg_iff] at *
  obtain ⟨_ | x⟩ := a <;> obtain ⟨_ | y⟩ := b <;> obtain ⟨_ | z⟩ := c
  all_goals first
    | exact Data.Precedes.trans hab hbc
    | exact hab.elim
    | exact hbc.elim
    | trivial

theorem compare_invalid {n : NodeId} (h : n.valid = true) : invalid.compare n < 0 := by
  obtain ⟨_ | x⟩ := n
  · exact absurd h (by decide)
  · exact compare_neg_iff.mpr trivial

-- -------------------------
-- Ordered and hashed by the full value
-- -------------------------

/-- Both are invalid, or host id and process id are the same. -/
def SameNode (a b : NodeId) : Prop :=
  a.valid = false ∧ b.valid = false ∨
    a.valid = true ∧ b.valid = true ∧ a.hostId.bytes = b.hostId.bytes ∧
      a.processId = b.processId

theorem sameNode_iff {a b : NodeId} : SameNode a b ↔ a = b := by
  obtain ⟨_ | ⟨p, h, hh⟩⟩ := a <;> obtain ⟨_ | ⟨q, k, hk⟩⟩ := b <;>
    simp [SameNode, valid, hostId, processId, and_comm]

/-- Two node ids are told apart by all of their bytes, and ordered and hashed
accordingly. -/
structure OrderedByValue (a b : NodeId) : Prop where
  exact : a.compare b = 0 ↔ SameNode a b
  antisymm : a.compare b < 0 ↔ 0 < b.compare a
  trans : ∀ c, (a.compare b < 0 → b.compare c < 0 → a.compare c < 0) ∧
    (b.compare a < 0 → a.compare c < 0 → b.compare c < 0)
  invalidSmallest : (a.valid = true → invalid.compare a < 0) ∧
    (b.valid = true → invalid.compare b < 0)
  hash_eq : a.equals b = true → a.hash = b.hash

/-- Two nodes with the same process id whose host ids differ behind a zero byte
only. -/
def Confusable (a b : NodeId) : Prop :=
  a.valid = true ∧ b.valid = true ∧ a.processId = b.processId ∧
    DifferAfterZero a.hostId.bytes b.hostId.bytes

/-- Ids that compare equal are the same or differ after a zero byte only. -/
theorem compare_eq_zero_iff {a b : NodeId} : a.compare b = 0 ↔ a = b ∨ Confusable a b := by
  have hkey : a.compare b = 0 ↔ a.key = b.key := by
    rw [← equals_iff, equals, decide_eq_true_iff]
  rw [hkey]
  obtain ⟨_ | ⟨p, h, hh⟩⟩ := a <;> obtain ⟨_ | ⟨q, k, hk⟩⟩ := b
  · simp
  · simp [key, Confusable, valid]
  · simp [key, Confusable, valid]
  · have hc := cstr_eq_iff (hh.trans hk.symm)
    simp only [key, Option.map_some, Option.some.injEq, Prod.mk.injEq, hc, Confusable, valid,
      Option.isSome_some, processId, hostId, true_and, NodeId.mk.injEq, Data.mk.injEq,
      HostId.mk.injEq]
    constructor
    · rintro ⟨hsame | hdiff, hpid⟩
      · exact .inl ⟨hpid, hsame⟩
      · exact .inr ⟨hpid, hdiff⟩
    · rintro (⟨hpid, hsame⟩ | ⟨hpid, hdiff⟩)
      · exact ⟨.inl hsame, hpid⟩
      · exact ⟨.inr hdiff, hpid⟩

/-- Two node ids are ordered and hashed by their full value iff `strncmp` does
not take them for the same. -/
theorem orderedByValue_iff (a b : NodeId) : OrderedByValue a b ↔ ¬ Confusable a b := by
  constructor
  · -- the two differ and compare equal
    intro ho hc
    have hsame := sameNode_iff.mp (ho.exact.mp (compare_eq_zero_iff.mpr (.inr hc)))
    exact hc.2.2.2.1 (by rw [hsame])
  · intro hc
    have hexact : a.compare b = 0 ↔ a = b := by
      rw [compare_eq_zero_iff]
      exact or_iff_left hc
    have hhash : a.equals b = true → a.hash = b.hash := by
      intro he
      rw [hexact.mp (of_decide_eq_true he)]
    exact ⟨hexact.trans sameNode_iff.symm, compare_neg_swap,
      fun c => ⟨compare_trans, compare_trans⟩, ⟨compare_invalid, compare_invalid⟩, hhash⟩

/-- A host id that starts with a zero byte, its last byte given. -/
def zeroLed (b : UInt8) : HostId := ⟨List.replicate 19 0 ++ [b], by simp [hostIdSize]⟩

/-- Two nodes that compare equal and have different host ids. -/
theorem zeroLed_merged :
    (make 7 (zeroLed 1)).compare (make 7 (zeroLed 2)) = 0 ∧
      ¬ SameNode (make 7 (zeroLed 1)) (make 7 (zeroLed 2)) := by
  constructor
  · decide
  · rw [sameNode_iff]
    decide

end NodeId

end BoostActor
