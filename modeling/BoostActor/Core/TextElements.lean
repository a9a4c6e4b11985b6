import BoostActor.Core.AtomText
import BoostActor.Core.TextReading
import BoostActor.Core.TextWriting

/-!
# Values in the middle of a text

A value is written between a blank and a blank. `Restored` says for which values
reading such a text yields the value and leaves the text behind it.

* `restored_string`, `restored_atom` — quoted values;
* `restored_int32` and the like — numbers of more than eight bits, and bytes;
* `restored_int8`, `restored_bool` — values that are written in another way than they
  are read.
-/

namespace BoostActor

open Lib TextReader

variable {code : TextCode} {s s' : TextSource}

-- -------------------------
-- Texts between blanks
-- -------------------------

/-- The text starts with a space or a comma. -/
def StartsBlank (text : Bytes) : Prop := ∃ c cs, text = c :: cs ∧ isBlank c = true

/-- The first text consists of the texts, each with blanks before it and a blank behind
it, and the second one follows. -/
inductive Spells : List Bytes → Bytes → Bytes → Prop
  | nil (tail : Bytes) : Spells [] tail tail
  | cons {before text rest tail : Bytes} {texts : List Bytes}
    (hbefore : ∀ c ∈ before, isBlank c = true) (hrest : StartsBlank rest)
    (h : Spells texts rest tail) : Spells (text :: texts) (before ++ (text ++ rest)) tail

theorem isBlank_space : ∀ c ∈ ascii " ", isBlank c = true := List.all_eq_true.mp rfl

theorem isBlank_comma : ∀ c ∈ ascii ", ", isBlank c = true := List.all_eq_true.mp rfl

namespace Spells

/-- Two lists of texts are spelled one after the other. -/
theorem append {texts texts' : List Bytes} {all tail : Bytes}
    (h : Spells (texts ++ texts') all tail) :
    ∃ mid, Spells texts all mid ∧ Spells texts' mid tail := by
  induction texts generalizing all with
  | nil => exact ⟨all, .nil all, h⟩
  | cons text texts ih =>
    cases h with
    | cons hbefore hrest h =>
      obtain ⟨mid, htexts, htexts'⟩ := ih h
      exact ⟨mid, .cons hbefore hrest htexts, htexts'⟩

/-- The first of the texts, and the others. -/
theorem head {text all tail : Bytes} {texts : List Bytes} (h : Spells (text :: texts) all tail) :
    ∃ mid, Spells [text] all mid ∧ Spells texts mid tail := by
  have hsplit : Spells ([text] ++ texts) all tail := h
  exact hsplit.append

/-- The text behind each comma. -/
theorem flatMap {tail : Bytes} (htail : StartsBlank tail) (texts : List Bytes) :
    StartsBlank (texts.flatMap (fun text => ascii ", " ++ text) ++ tail) ∧
      Spells texts (texts.flatMap (fun text => ascii ", " ++ text) ++ tail) tail := by
  induction texts with
  | nil => exact ⟨htail, .nil tail⟩
  | cons text texts ih =>
    have hsplit : (text :: texts).flatMap (fun text => ascii ", " ++ text) ++ tail =
        ascii ", " ++ (text ++ (texts.flatMap (fun text => ascii ", " ++ text) ++ tail)) := by
      rw [List.flatMap_cons, List.append_assoc, List.append_assoc]
    rw [hsplit]
    exact ⟨⟨44, _, rfl, by decide⟩, .cons isBlank_comma ih.1 ih.2⟩

/-- Texts joined by commas are spelled. -/
theorem joined {before tail : Bytes} {texts : List Bytes} (hne : texts ≠ [])
    (hbefore : ∀ c ∈ before, isBlank c = true) (htail : StartsBlank tail) :
    Spells texts (before ++ (joined texts ++ tail)) tail := by
  cases texts with
  | nil => exact absurd rfl hne
  | cons text texts =>
    obtain ⟨hstart, hspells⟩ := flatMap htail texts
    rw [joined_cons, List.append_assoc]
    exact .cons hbefore hstart hspells

/-- The blanks before a text are skipped. -/
theorem dropWhile_isBlank {text all rest : Bytes} (h : Spells [text] all rest)
    (htext : ∃ c cs, text = c :: cs ∧ isBlank c = false) :
    all.dropWhile isBlank = text ++ rest ∧ StartsBlank rest := by
  obtain ⟨c, cs, rfl, hc⟩ := htext
  cases h with
  | cons hbefore hrest h =>
    cases h
    exact ⟨dropWhile_append_of_all hbefore fun d hd => Option.some.inj hd ▸ hc, hrest⟩

end Spells

-- -------------------------
-- Values
-- -------------------------

/-- Reading the text of a value yields it if and only if the value is `safe`. -/
structure Restored (code : TextCode) (safe : Prop) (x : PlainValue) : Prop where
  embedded : x.type.Embedded
  reads : safe → ∀ {s : TextSource} {rest}, s.Open → Spells [x.text code] s.rest rest →
    x.type.readText code s = (.ok x, { s with rest := rest })
  safe_of : ∀ {s s' : TextSource} {rest}, s.Open → Spells [x.text code] s.rest rest →
    x.type.readText code s = (.ok x, s') → safe

/-- Primitive values are read by `read_value`. -/
theorem restored_primitive {safe : Prop} {t : PrimitiveType} {v : t.Val}
    (embedded : (PlainType.primitive t).Embedded)
    (reads : safe → ∀ {s : TextSource} {rest}, s.Open → Spells [ptWrite code t v] s.rest rest →
      readValue code t s = (.ok v, { s with rest := rest }))
    (safe_of : ∀ {s s' : TextSource} {rest}, s.Open → Spells [ptWrite code t v] s.rest rest →
      readValue code t s = (.ok v, s') → safe) :
    Restored code safe (.primitive t v) where
  embedded := embedded
  reads hsafe s rest hopen hs := textReader_bind (reads hsafe hopen hs)
  safe_of {s s' rest} hopen hs hread := by
    obtain ⟨w, s₁, hw, heq⟩ := textReader_bind_ok hread
    cases Except.ok.inj (congrArg Prod.fst heq)
    exact safe_of hopen hs hw

namespace TextReader

theorem valueText_quoted {t : PrimitiveType} {needle : UInt8} (h : needle? t = some needle) :
    valueText t = quoted needle := by
  unfold valueText
  rw [h]

theorem valueText_unquoted {t : PrimitiveType} (h : needle? t = none) :
    valueText t = unquoted := by
  unfold valueText
  rw [h]

theorem endsValue_of_isBlank {c : UInt8} (h : isBlank c = true) : endsValue c = true := by
  unfold endsValue
  rw [h, Bool.or_true]

/-- What does not end a value is no blank. -/
theorem isBlank_of_endsValue {c : UInt8} (h : endsValue c = false) : isBlank c = false := by
  cases hc : isBlank c with
  | false => rfl
  | true =>
    rw [endsValue_of_isBlank hc] at h
    cases h

/-- A value without quotes, in characters that end no value. -/
theorem readValue_unquoted {t : PrimitiveType} {v : t.Val} {text rest : Bytes}
    (ht : needle? t = none) (hne : text ≠ []) (htext : ∀ c ∈ text, endsValue c = false)
    (hv : fromStringReader code t text = .ok v) (hopen : s.Open)
    (hs : Spells [text] s.rest rest) :
    readValue code t s = (.ok v, { s with rest := rest }) := by
  obtain ⟨c, cs, rfl⟩ := List.exists_cons_of_ne_nil hne
  have hblank := isBlank_of_endsValue (htext c List.mem_cons_self)
  obtain ⟨hdrop, d, ds, hrest, hd⟩ := hs.dropWhile_isBlank ⟨c, cs, rfl, hblank⟩
  have hstr : valueText t { s with rest := s.rest.dropWhile isBlank } =
      (.ok (c :: cs), { s with rest := rest }) := by
    rw [valueText_unquoted ht]
    exact unquoted_eq hdrop htext ⟨d, ds, hrest, endsValue_of_isBlank hd⟩
  exact readValue_eq hopen hstr hv

end TextReader

-- -------------------------
-- Quoted values
-- -------------------------

/-- Strings are read as they were written unless they end in a backslash. -/
theorem restored_string (str : Bytes) :
    Restored code (¬ EndsWithBackslash str) (.primitive .string str) := by
  refine restored_primitive (by decide) (fun hsafe s rest hopen hs => ?_)
    fun hopen _ hread => readValue_string_ok hopen hread
  obtain ⟨hdrop, -⟩ := hs.dropWhile_isBlank ⟨34, escape str ++ [34], rfl, by decide⟩
  exact readValue_string hopen hdrop hsafe

/-- An atom has none of the characters that the reader looks for. -/
theorem restored_atom (a : AtomValue) : Restored code True (.primitive .atomValue a.val) := by
  refine restored_primitive (by decide) (fun _ s rest hopen hs => ?_) fun _ _ _ => trivial
  obtain ⟨hdrop, -⟩ := hs.dropWhile_isBlank ⟨39, atomToString a.val ++ [39], rfl, by decide⟩
  have hsplit : s.rest.dropWhile isBlank = 39 :: (atomToString a.val ++ 39 :: rest) := by
    rw [hdrop]
    show [39] ++ atomToString a.val ++ [39] ++ rest = _
    rw [List.append_assoc, List.append_assoc]
    rfl
  have hquote : 39 ∉ atomToString a.val := fun h => (a.mem_text _ h).2.1 rfl
  have hlast : ((39 : UInt8) :: atomToString a.val).getLast? ≠ some 92 := by
    intro h
    rcases List.mem_cons.mp (List.mem_of_getLast? h) with h | h
    · exact absurd h (by decide)
    · exact (a.mem_text _ h).2.2 rfl
  have hzero : cString (atomToString a.val) = atomToString a.val :=
    cString_of_not_mem fun h => (a.mem_text _ h).1 rfl
  refine readValue_eq hopen (quoted_eq hsplit (untilQuote_plain rest hquote hlast)) ?_
  rw [unescape_plain hquote]
  show Except.ok (atomVal (cString (atomToString a.val)) 0xF) = _
  rw [hzero, a.atomVal_text]

-- -------------------------
-- Numbers
-- -------------------------

/-- No character of a number ends a value. -/
theorem endsValue_of_isDigit {c : UInt8} (h : isDigit c = true) : endsValue c = false := by
  rw [isDigit_iff] at h
  have hne : ∀ d : UInt8, ¬ (48 ≤ d.toNat ∧ d.toNat ≤ 57) → decide (c = d) = false :=
    fun d hd => decide_eq_false fun heq => hd (heq ▸ h)
  unfold endsValue isBlank
  rw [hne 41 (by decide), hne 125 (by decide), hne 64 (by decide), hne 32 (by decide),
    hne 44 (by decide)]
  rfl

theorem endsValue_decimal (n : Nat) : ∀ c ∈ decimal n, endsValue c = false :=
  fun _ hc => endsValue_of_isDigit (isDigit_of_mem_decimal hc)

/-- Neither does a sign. -/
theorem endsValue_decimalInt (n : Int) : ∀ c ∈ decimalInt n, endsValue c = false := by
  intro c hc
  unfold decimalInt at hc
  split_ifs at hc
  · rcases List.mem_cons.mp hc with rfl | hc
    · decide
    · exact endsValue_decimal _ c hc
  · exact endsValue_decimal _ c hc

/-- A number has at least one digit. -/
theorem decimalInt_ne_nil (n : Int) : decimalInt n ≠ [] := by
  unfold decimalInt
  split_ifs
  · exact List.cons_ne_nil _ _
  · exact decimal_ne_nil _

/-- A number is read back if its digits are those of a value of the type. -/
theorem restored_number {t : PrimitiveType} {v : t.Val}
    (embedded : (PlainType.primitive t).Embedded) (ht : needle? t = none)
    (hne : ptWrite code t v ≠ []) (htext : ∀ c ∈ ptWrite code t v, endsValue c = false)
    (hv : fromStringReader code t (ptWrite code t v) = .ok v) :
    Restored code True (.primitive t v) :=
  restored_primitive embedded
    (fun _ _ _ hopen hs => readValue_unquoted ht hne htext hv hopen hs) fun _ _ _ => trivial

theorem restored_int16 (v : Int16) : Restored code True (.primitive .int16 v) := by
  refine restored_number (by decide) rfl (decimalInt_ne_nil _) (endsValue_decimalInt _) ?_
  have hle := v.toInt_lt
  show Except.ok (Int16.ofInt (extractInt _ _ (decimalInt v.toInt))) = _
  rw [extractInt_decimalInt v.le_toInt (by omega), Int16.ofInt_toInt]

theorem restored_int32 (v : Int32) : Restored code True (.primitive .int32 v) := by
  refine restored_number (by decide) rfl (decimalInt_ne_nil _) (endsValue_decimalInt _) ?_
  have hle := v.toInt_lt
  show Except.ok (Int32.ofInt (extractInt _ _ (decimalInt v.toInt))) = _
  rw [extractInt_decimalInt v.le_toInt (by omega), Int32.ofInt_toInt]

theorem restored_int64 (v : Int64) : Restored code True (.primitive .int64 v) := by
  refine restored_number (by decide) rfl (decimalInt_ne_nil _) (endsValue_decimalInt _) ?_
  have hle := v.toInt_lt
  show Except.ok (Int64.ofInt (extractInt _ _ (decimalInt v.toInt))) = _
  rw [extractInt_decimalInt v.le_toInt (by omega), Int64.ofInt_toInt]

theorem restored_uint8 (v : UInt8) : Restored code True (.primitive .uint8 v) := by
  refine restored_number (by decide) rfl (decimal_ne_nil _) (endsValue_decimal _) ?_
  have hlt := v.toNat_lt
  show Except.ok (UInt8.ofNat (extractNat _ (decimal v.toNat))) = _
  rw [extractNat_decimal (by omega), UInt8.ofNat_toNat]

theorem restored_uint16 (v : UInt16) : Restored code True (.primitive .uint16 v) := by
  refine restored_number (by decide) rfl (decimal_ne_nil _) (endsValue_decimal _) ?_
  have hlt := v.toNat_lt
  show Except.ok (UInt16.ofNat (extractNat _ (decimal v.toNat))) = _
  rw [extractNat_decimal (by omega), UInt16.ofNat_toNat]

theorem restored_uint32 (v : UInt32) : Restored code True (.primitive .uint32 v) := by
  refine restored_number (by decide) rfl (decimal_ne_nil _) (endsValue_decimal _) ?_
  have hlt := v.toNat_lt
  show Except.ok (UInt32.ofNat (extractNat _ (decimal v.toNat))) = _
  rw [extractNat_decimal (by omega), UInt32.ofNat_toNat]

theorem restored_uint64 (v : UInt64) : Restored code True (.primitive .uint64 v) := by
  refine restored_number (by decide) rfl (decimal_ne_nil _) (endsValue_decimal _) ?_
  have hlt := v.toNat_lt
  show Except.ok (UInt64.ofNat (extractNat _ (decimal v.toNat))) = _
  rw [extractNat_decimal (by omega), UInt64.ofNat_toNat]

-- -------------------------
-- Bytes and truth values
-- -------------------------

/-- A byte that is written as a character is not skipped and does not end the value. -/
def Legible (v : Int8) : Prop := isSpace v.toUInt8 = false ∧ endsValue v.toUInt8 = false

instance (v : Int8) : Decidable (Legible v) := inferInstanceAs (Decidable (_ ∧ _))

/-- Extracting a character skips white space, and gives zero if nothing is left. -/
theorem mem_extractChar (text : Bytes) :
    extractChar text = 0 ∨ extractChar text ∈ text ∧ isSpace (extractChar text) = false := by
  unfold extractChar
  cases h : text.dropWhile isSpace with
  | nil => exact .inl rfl
  | cons c cs =>
    have hmem : c ∈ text.dropWhile isSpace := h ▸ List.mem_cons_self
    have hc : isSpace c = false := by
      have hhead := List.head?_dropWhile_not isSpace text
      rw [h] at hhead
      exact hhead
    exact .inr ⟨List.dropWhile_subset isSpace hmem, hc⟩

/-- An `int8_t` is written as a character, and read as one. -/
theorem restored_int8 (v : Int8) : Restored code (Legible v) (.primitive .int8 v) := by
  refine restored_primitive (by decide) (fun hsafe s rest hopen hs => ?_)
    fun {s s' rest} hopen hs hread => ?_
  · -- written is the character itself
    refine readValue_unquoted rfl (List.cons_ne_nil _ _) (fun c hc => ?_) ?_ hopen hs
    · obtain rfl := List.mem_singleton.mp hc
      exact hsafe.2
    · show Except.ok (Int8.ofUInt8 (extractChar [v.toUInt8])) = _
      unfold extractChar
      rw [dropWhile_of_head hsafe.1]
      rfl
  · -- what is read is zero or a character that is neither
    obtain ⟨str, hstr, hconv⟩ := readValue_ok hopen hread
    rw [valueText_unquoted rfl] at hstr
    have hchar : extractChar str = v.toUInt8 :=
      congrArg Int8.toUInt8 (Except.ok.inj hconv)
    rcases mem_extractChar str with hzero | ⟨hmem, hspace⟩
    · unfold Legible
      rw [← hchar, hzero]
      decide
    · rw [hchar] at hmem hspace
      rw [unquoted_ok hstr] at hmem
      exact ⟨hspace, not_of_mem_takeWhile hmem⟩

/-- Both truth values are written as words and read as the number 0. -/
theorem restored_bool (v : Bool) : Restored code (v = false) (.primitive .bool v) := by
  have hreads : ∀ {s : TextSource} {rest : Bytes}, s.Open →
      Spells [ptWrite code .bool v] s.rest rest →
      readValue code .bool s = (.ok false, { s with rest := rest }) := by
    intro s rest hopen hs
    have htext : (ptWrite code .bool v).all (fun c => !endsValue c) = true := by
      cases v <;> rfl
    have hchars : ∀ c ∈ ptWrite code .bool v, endsValue c = false := fun c hc =>
      (Bool.not_eq_true' _).mp (List.all_eq_true.mp htext c hc)
    cases v with
    | false => exact readValue_unquoted rfl (List.cons_ne_nil _ _) hchars rfl hopen hs
    | true => exact readValue_unquoted rfl (List.cons_ne_nil _ _) hchars rfl hopen hs
  refine restored_primitive (by decide) (fun hsafe s rest hopen hs => ?_)
    fun {s s' rest} hopen hs hread => ?_
  · rw [hreads hopen hs, hsafe]
  · rw [hreads hopen hs] at hread
    exact (Except.ok.inj (congrArg Prod.fst hread)).symm

end BoostActor
