import BoostActor.Core.StringSerialization
import Mathlib.Data.List.Induction

/-!
# Atoms as text

An atom has up to ten characters of six bits each behind a leading 0xF. Its text has
the characters that the table has for them.

* `AtomValue.atomVal_text` — the text of an atom is that of the same atom;
* `atomText_roundTrips` — a legal text is that of its atom, so that no two of them have
  the same atom.
-/

namespace BoostActor

/-- A value of `atom("...")`. -/
structure AtomValue where
  val : UInt64
  literal : ∃ cs : Bytes, cs.length ≤ 10 ∧ val = atomVal cs 0xF

/-- The atom of a string literal. -/
def AtomValue.of (cs : Bytes) (h : cs.length ≤ 10) : AtomValue := ⟨atomVal cs 0xF, cs, h, rfl⟩

-- -------------------------
-- The groups of six bits
-- -------------------------

/-- The number that codes behind a leading 0xF make up. -/
def codesValue (ks : List Nat) : Nat := ks.foldl (fun n k => 64 * n + k) 15

theorem codesValue_append (ks : List Nat) (k : Nat) :
    codesValue (ks ++ [k]) = 64 * codesValue ks + k := by
  unfold codesValue
  rw [List.foldl_append]
  rfl

/-- The value has its leading bits and the codes behind them. -/
theorem codesValue_bounds {ks : List Nat} (h : ∀ k ∈ ks, k < 64) :
    15 * 64 ^ ks.length ≤ codesValue ks ∧ codesValue ks < 16 * 64 ^ ks.length := by
  induction ks using List.reverseRecOn with
  | nil => decide
  | append_singleton ks k ih =>
    obtain ⟨hlo, hhi⟩ := ih fun j hj => h j (List.mem_append_left _ hj)
    have hk := h k (List.mem_append_right _ (List.mem_singleton_self k))
    rw [codesValue_append, List.length_append, List.length_singleton, Nat.pow_succ]
    omega

-- -------------------------
-- Groups of six bits
-- -------------------------

/-- The last groups of a number, from the left to the right. -/
def groups (m n : Nat) : List Nat := (List.range m).reverse.map fun i => n / 64 ^ i % 64

/-- The last group of a number. -/
theorem groups_succ (m n k : Nat) (hk : k < 64) :
    groups (m + 1) (64 * n + k) = groups m n ++ [k] := by
  unfold groups
  rw [List.range_succ_eq_map, List.reverse_cons, List.map_append, ← List.map_reverse,
    List.map_map]
  congr 1
  · refine List.map_congr_left fun i _ => ?_
    show (64 * n + k) / 64 ^ (i + 1) % 64 = n / 64 ^ i % 64
    have hdiv : (64 * n + k) / 64 = n := by omega
    rw [Nat.pow_succ', ← Nat.div_div_eq_div_mul, hdiv]
  · show [(64 * n + k) / 64 ^ 0 % 64] = [k]
    rw [Nat.pow_zero, Nat.div_one, Nat.mul_add_mod, Nat.mod_eq_of_lt hk]

/-- The groups of a value are its codes. -/
theorem groups_codesValue {ks : List Nat} (m : Nat) (h : ∀ k ∈ ks, k < 64) :
    groups (m + ks.length) (codesValue ks) = groups m 15 ++ ks := by
  induction ks using List.reverseRecOn with
  | nil => exact (List.append_nil _).symm
  | append_singleton ks k ih =>
    have hk := h k (List.mem_append_right _ (List.mem_singleton_self k))
    rw [codesValue_append, List.length_append, List.length_singleton, ← Nat.add_assoc,
      groups_succ _ _ _ hk, ih fun j hj => h j (List.mem_append_left _ hj), List.append_assoc]

/-- The leading 0xF is a group of its own unless there are ten characters. -/
theorem groups_leading (m : Nat) : groups (m + 1) 15 = List.replicate m 0 ++ [15] := by
  have hzero : groups m 0 = List.replicate m 0 := by
    refine List.eq_replicate_iff.mpr ⟨?_, fun g hg => ?_⟩
    · unfold groups
      rw [List.length_map, List.length_reverse, List.length_range]
    · obtain ⟨i, -, rfl⟩ := List.mem_map.mp hg
      rw [Nat.zero_div, Nat.zero_mod]
  rw [← hzero]
  exact groups_succ m 0 15 (by decide)

-- -------------------------
-- Writing
-- -------------------------

/-- One step of the loop of `to_string` on a group. -/
def groupStep (s : Bool × Bytes) (g : Nat) : Bool × Bytes :=
  if s.1 then (true, s.2 ++ [decodingTable.getD g 0]) else (g == 0xF, s.2)

/-- `to_string` goes through the groups. -/
theorem atomToString_eq (x : UInt64) :
    atomToString x = ((groups 10 x.toNat).foldl groupStep (x >>> 60 == 0xF, [])).2 := by
  unfold atomToString groups
  rw [List.foldl_map]
  rfl

/-- Behind the leading bits every group is a character. -/
theorem foldl_groupStep_read (ks : List Nat) (acc : Bytes) :
    ks.foldl groupStep (true, acc) = (true, acc ++ ks.map fun k => decodingTable.getD k 0) := by
  induction ks generalizing acc with
  | nil => exact congrArg (Prod.mk true) (List.append_nil acc).symm
  | cons k ks ih =>
    have hstep : groupStep (true, acc) k = (true, acc ++ [decodingTable.getD k 0]) := rfl
    rw [List.foldl_cons, hstep, ih, List.append_assoc]
    rfl

/-- Zeros and the leading bits are skipped. -/
theorem foldl_groupStep_leading (m : Nat) :
    (groups (m + 1) 15).foldl groupStep (false, []) = (true, []) := by
  rw [groups_leading, List.foldl_append]
  have hzero : (List.replicate m 0).foldl groupStep (false, []) = (false, []) := by
    induction m with
    | zero => rfl
    | succ m ih => exact ih
  rw [hzero]
  rfl

/-- The codes of an atom with at most ten characters are written one by one. -/
theorem atomToString_codes {x : UInt64} {ks : List Nat} (hx : x.toNat = codesValue ks)
    (hlen : ks.length ≤ 10) (h : ∀ k ∈ ks, k < 64) :
    atomToString x = ks.map fun k => decodingTable.getD k 0 := by
  obtain ⟨hlo, hhi⟩ := codesValue_bounds h
  -- whether ten characters fill all bits is seen from the first four
  have htop : (x >>> 60 == 0xF) = decide (x.toNat / 2 ^ 60 = 15) := by
    rw [Bool.eq_iff_iff, beq_iff_eq, decide_eq_true_eq, ← UInt64.toNat_inj]
    rw [UInt64.toNat_shiftRight]
    show x.toNat >>> 60 = 15 ↔ _
    rw [Nat.shiftRight_eq_div_pow]
  obtain ⟨m, hm⟩ := Nat.exists_eq_add_of_le' hlen
  have hgroups : groups 10 x.toNat = groups m 15 ++ ks := by
    rw [hx, hm, groups_codesValue m h]
  rw [atomToString_eq, hgroups, List.foldl_append, htop, hx]
  cases m with
  | zero =>
    -- ten characters: the first four bits are set
    rw [show ks.length = 10 by omega] at hlo hhi
    have hset : codesValue ks / 2 ^ 60 = 15 := by omega
    rw [decide_eq_true hset]
    show (ks.foldl groupStep (true, [])).2 = _
    rw [foldl_groupStep_read]
    rfl
  -- fewer than ten: the leading bits are in a group of their own
  | succ m =>
    have hpow : 64 ^ ks.length ≤ 64 ^ 9 := Nat.pow_le_pow_right (by decide) (by omega)
    have hunset : ¬ codesValue ks / 2 ^ 60 = 15 := by omega
    rw [decide_eq_false hunset, foldl_groupStep_leading, foldl_groupStep_read]
    rfl

-- -------------------------
-- Literals
-- -------------------------

theorem atomCode_lt (c : UInt8) : (atomCode c).toNat < 64 := by
  have htable : ∀ n < 256, (atomCode (UInt8.ofNat n)).toNat < 64 := by decide +kernel
  have hc := htable c.toNat c.toNat_lt
  rwa [UInt8.ofNat_toNat] at hc

/-- The table has the character of each code. -/
theorem decodingTable_codes : ∀ k < 64, (atomCode (decodingTable.getD k 0)).toNat = k ∧
    decodingTable.getD k 0 ≠ 0 ∧ decodingTable.getD k 0 ≠ 39 ∧ decodingTable.getD k 0 ≠ 92 := by
  decide +kernel

/-- A step of `atom_val` appends six bits, as long as there is room. -/
theorem toNat_next {interim : UInt64} (c : UInt8) (h : interim.toNat < 2 ^ 58) :
    ((interim <<< 6) ||| atomCode c).toNat = 64 * interim.toNat + (atomCode c).toNat := by
  have hcode := atomCode_lt c
  rw [UInt64.toNat_or, UInt64.toNat_shiftLeft]
  show interim.toNat <<< 6 % 2 ^ 64 ||| (atomCode c).toNat = _
  have hshift : interim.toNat <<< 6 = 64 * interim.toNat := by
    rw [Nat.shiftLeft_eq]
    omega
  rw [Nat.mod_eq_of_lt (by rw [hshift]; omega),
    ← Nat.shiftLeft_add_eq_or_of_lt (by omega : (atomCode c).toNat < 2 ^ 6), hshift]

/-- An atom has the codes of its characters, without overflow. -/
theorem toNat_atomVal {cs : Bytes} (h : cs.length ≤ 10) :
    (atomVal cs 0xF).toNat = codesValue (cs.map fun c => (atomCode c).toNat) := by
  induction cs using List.reverseRecOn with
  | nil => rfl
  | append_singleton cs c ih =>
    rw [List.length_append, List.length_singleton] at h
    have hcodes : ∀ k ∈ cs.map (fun c => (atomCode c).toNat), k < 64 := by
      intro k hk
      obtain ⟨d, -, rfl⟩ := List.mem_map.mp hk
      exact atomCode_lt d
    have hbound := (codesValue_bounds hcodes).2
    rw [List.length_map] at hbound
    have hpow : 64 ^ cs.length ≤ 64 ^ 9 := Nat.pow_le_pow_right (by decide) (by omega)
    have hstep : atomVal (cs ++ [c]) 0xF = ((atomVal cs 0xF) <<< 6) ||| atomCode c := by
      unfold atomVal
      rw [List.foldl_append]
      rfl
    have hih := ih (by omega)
    rw [hstep, toNat_next c (by rw [hih]; omega), hih, List.map_append, List.map_singleton,
      codesValue_append]

namespace AtomValue

/-- The text of an atom has the characters of the table. -/
theorem text_eq (a : AtomValue) : ∃ cs : Bytes, cs.length ≤ 10 ∧ a.val = atomVal cs 0xF ∧
    atomToString a.val = cs.map fun c => decodingTable.getD (atomCode c).toNat 0 := by
  obtain ⟨cs, hlen, hval⟩ := a.literal
  refine ⟨cs, hlen, hval, ?_⟩
  have hcodes : ∀ k ∈ cs.map (fun c => (atomCode c).toNat), k < 64 := by
    intro k hk
    obtain ⟨d, -, rfl⟩ := List.mem_map.mp hk
    exact atomCode_lt d
  rw [hval, atomToString_codes (toNat_atomVal hlen) (by rwa [List.length_map]) hcodes,
    List.map_map]
  rfl

/-- There is no quote, backslash or null character in the text of an atom. -/
theorem mem_text (a : AtomValue) : ∀ c ∈ atomToString a.val, c ≠ 0 ∧ c ≠ 39 ∧ c ≠ 92 := by
  obtain ⟨cs, -, -, htext⟩ := a.text_eq
  intro c hc
  rw [htext] at hc
  obtain ⟨d, -, rfl⟩ := List.mem_map.mp hc
  exact (decodingTable_codes _ (atomCode_lt d)).2

/-- The text of an atom is that of the same atom. -/
theorem atomVal_text (a : AtomValue) : atomVal (atomToString a.val) 0xF = a.val := by
  obtain ⟨cs, -, hval, htext⟩ := a.text_eq
  have hcode : ∀ c, atomCode (decodingTable.getD (atomCode c).toNat 0) = atomCode c := fun c =>
    UInt64.toNat_inj.mp (decodingTable_codes _ (atomCode_lt c)).1
  rw [htext, hval]
  unfold atomVal
  rw [List.foldl_map]
  simp only [hcode]

end AtomValue

-- -------------------------
-- Legal texts
-- -------------------------

/-- The characters that have a code of their own, and the space. -/
def isAtomChar (c : UInt8) : Bool :=
  c = 32 || Lib.isDigit c || (65 ≤ c && c ≤ 90) || c = 95 || (97 ≤ c && c ≤ 122)

/-- A text that an atom can keep. -/
structure AtomText where
  chars : Bytes
  short : chars.length ≤ 10
  legal : ∀ c ∈ chars, isAtomChar c = true

/-- `atom`. -/
def AtomText.atom (s : AtomText) : AtomValue := AtomValue.of s.chars s.short

/-- The tables are inverse to each other on legal characters. -/
theorem decodingTable_atomCode {c : UInt8} (hc : isAtomChar c = true) :
    decodingTable.getD (atomCode c).toNat 0 = c := by
  have htable : ∀ n < 256, isAtomChar (UInt8.ofNat n) = true →
      decodingTable.getD (atomCode (UInt8.ofNat n)).toNat 0 = UInt8.ofNat n := by
    decide +kernel
  have hn := htable c.toNat c.toNat_lt
  rw [UInt8.ofNat_toNat] at hn
  exact hn hc

/-- `to_string(atom(s)) = s`. -/
theorem AtomText.atomToString_atom (s : AtomText) : atomToString s.atom.val = s.chars := by
  have hcodes : ∀ k ∈ s.chars.map (fun c => (atomCode c).toNat), k < 64 := by
    intro k hk
    obtain ⟨d, -, rfl⟩ := List.mem_map.mp hk
    exact atomCode_lt d
  have htext := atomToString_codes (x := s.atom.val) (toNat_atomVal s.short)
    (by rw [List.length_map]; exact s.short) hcodes
  rw [htext, List.map_map]
  conv_rhs => rw [← List.map_id s.chars]
  exact List.map_congr_left fun c hc => decodingTable_atomCode (s.legal c hc)

/-- A legal text is read back from its atom, different texts have different atoms, and the
decoder for the text of an atom returns the atom. -/
theorem atomText_roundTrips (code : TextCode) :
    (∀ s : AtomText, atomToString s.atom.val = s.chars) ∧
    Function.Injective AtomText.atom ∧
    ∀ a : AtomValue, fromStringReader code .atomValue (atomToString a.val) = .ok a.val := by
  refine ⟨AtomText.atomToString_atom, ?_, ?_⟩
  · intro s t h
    have hchars : s.chars = t.chars := by
      rw [← s.atomToString_atom, ← t.atomToString_atom, h]
    cases s
    cases t
    cases hchars
    rfl
  · intro a
    -- the text has no null character, so that `c_str` has all of it
    have hcString : cString (atomToString a.val) = atomToString a.val := by
      unfold cString
      rw [List.takeWhile_eq_self_iff]
      exact fun c hc => decide_eq_true (a.mem_text c hc).1
    show Except.ok (atomVal (cString (atomToString a.val)) 0xF) = Except.ok a.val
    rw [hcString, a.atomVal_text]

end BoostActor
