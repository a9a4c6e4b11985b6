import BoostActor.Core.TextRoundTrip

/-!
# Integers from text

`from_string` for an integer type, and the functions of `cli_arg` that use it. The
first attempt never finds an integer in a number, since there is no parenthesis; the
second one always finds one, whatever the text is.

* `fromString_integer_ne_none` — there is no text without a value;
* `parsesExactly_iff` — the value is that of the text if and only if the text is a
  literal of a number in range.
-/

namespace BoostActor

open Lib TextReader

-- -------------------------
-- The functions of `cli_arg`
-- -------------------------

section

variable {α : Type} (code : TextCode) (b : Builtin)

/-- The function of a `cli_arg`; `store` is what it does with the value. -/
def cliArgFunc (store : Value → α → α) (str : Bytes) (arg : α) (types : TypeMap) :
    Except Fault (Bool × α) × TypeMap :=
  match fromString code b str types with
  | (.error e, types) => (.error e, types)
  | (.ok none, types) => (.ok (false, arg), types)
  | (.ok (some res), types) => (.ok (true, store res arg), types)

/-- `cli_arg` with a reference to a value. -/
def cliArg : Bytes → Value → TypeMap → Except Fault (Bool × Value) × TypeMap :=
  cliArgFunc code b fun res _ => res

/-- `cli_arg` with a reference to a vector. -/
def cliArgVector : Bytes → List Value → TypeMap → Except Fault (Bool × List Value) × TypeMap :=
  cliArgFunc code b fun res arg => arg ++ [res]

end

-- -------------------------
-- Integers
-- -------------------------

/-- The integer types of 16, 32 and 64 bits. -/
inductive IntegerType where
  | i16
  | i32
  | i64
  | u16
  | u32
  | u64
deriving DecidableEq, Repr

namespace IntegerType

def primitive : IntegerType → PrimitiveType
  | i16 => .int16
  | i32 => .int32
  | i64 => .int64
  | u16 => .uint16
  | u32 => .uint32
  | u64 => .uint64

def builtin (T : IntegerType) : Builtin := .plain (.primitive T.primitive)

/-- The smallest number of the type. -/
def lo : IntegerType → Int
  | i16 => -2 ^ 15
  | i32 => -2 ^ 31
  | i64 => -2 ^ 63
  | _ => 0

/-- The largest number of the type. -/
def hi : IntegerType → Int
  | i16 => 2 ^ 15 - 1
  | i32 => 2 ^ 31 - 1
  | i64 => 2 ^ 63 - 1
  | u16 => 2 ^ 16 - 1
  | u32 => 2 ^ 32 - 1
  | u64 => 2 ^ 64 - 1

/-- A number as an integer of the type. -/
def ofInt : (T : IntegerType) → Int → T.primitive.Val
  | i16, n => Int16.ofInt n
  | i32, n => Int32.ofInt n
  | i64, n => Int64.ofInt n
  | u16, n => UInt16.ofNat n.toNat
  | u32, n => UInt32.ofNat n.toNat
  | u64, n => UInt64.ofNat n.toNat

/-- The text is a literal of a number of the type. -/
def Denotes (T : IntegerType) (s : Bytes) : Prop :=
  ∃ n, literal? s = some n ∧ T.lo ≤ n ∧ n ≤ T.hi

/-- The value of a text that is a literal of a number of the type; no other text has one. -/
def denoted (T : IntegerType) (s : Bytes) : Option Value :=
  (literal? s).bind fun n =>
    if T.lo ≤ n ∧ n ≤ T.hi then some (.plain (.primitive T.primitive (T.ofInt n))) else none

/-- What a literal within the bounds stands for. -/
theorem denoted_of_denotes {T : IntegerType} {s : Bytes} {n : Int} (h : literal? s = some n)
    (hlo : T.lo ≤ n) (hhi : n ≤ T.hi) :
    T.denoted s = some (.plain (.primitive T.primitive (T.ofInt n))) := by
  unfold denoted
  rw [h]
  exact if_pos ⟨hlo, hhi⟩

/-- A text that stands for no number of the type. -/
theorem denoted_of_not_denotes {T : IntegerType} {s : Bytes} (h : ¬ T.Denotes s) :
    T.denoted s = none := by
  unfold denoted
  cases hn : literal? s with
  | none => rfl
  | some n => exact if_neg fun hrange => h ⟨n, hn, hrange⟩

end IntegerType

section

variable (code : TextCode) (types : TypeMap) (T : IntegerType) (s : Bytes)

/-- `from_string` yields the value of the text, or none if it has none; so do the
functions of `cli_arg`, which leave the argument alone then and return false. -/
structure ParsesExactly : Prop where
  parsed : (fromString code T.builtin s types).1 = .ok (T.denoted s)
  arg : ∀ arg, (cliArg code T.builtin s arg types).1 =
    .ok ((T.denoted s).isSome, (T.denoted s).getD arg)
  argVector : ∀ arg, (cliArgVector code T.builtin s arg types).1 =
    .ok ((T.denoted s).isSome, arg ++ (T.denoted s).toList)

end

variable {code : TextCode} {T : IntegerType} {s : Bytes}

-- -------------------------
-- Parsing
-- -------------------------

/-- The functions of `cli_arg` do what `from_string` says. -/
theorem parsesExactly_of_parsed {types : TypeMap}
    (h : (fromString code T.builtin s types).1 = .ok (T.denoted s)) :
    ParsesExactly code types T s := by
  have hcli : ∀ {α : Type} (store : Value → α → α) (arg : α),
      (cliArgFunc code T.builtin store s arg types).1 =
        .ok ((T.denoted s).isSome, (T.denoted s).elim arg fun res => store res arg) := by
    intro α store arg
    unfold cliArgFunc
    cases hread : fromString code T.builtin s types with
    | mk result types' =>
      rw [hread] at h
      obtain rfl : result = .ok (T.denoted s) := h
      cases T.denoted s with
      | none => rfl
      | some res => rfl
  refine ⟨h, fun arg => (hcli _ arg).trans ?_, fun arg => (hcli _ arg).trans ?_⟩
  · cases T.denoted s <;> rfl
  · cases T.denoted s with
    | none => exact congrArg (fun xs => Except.ok (false, xs)) (List.append_nil arg).symm
    | some res => rfl

-- -------------------------
-- The second attempt
-- -------------------------

theorem IntegerType.reads (code : TextCode) (T : IntegerType) (text : Bytes) :
    ∃ v, fromStringReader code T.primitive text = .ok v := by
  cases T <;> exact ⟨_, rfl⟩

theorem IntegerType.unquoted (T : IntegerType) : needle? T.primitive = none := by
  cases T <;> rfl

/-- An integer is written without the name of its type. -/
theorem IntegerType.embedded (T : IntegerType) : (PlainType.primitive T.primitive).Embedded := by
  cases T <;> decide

/-- A text with a delimiter in it is read up to that. -/
theorem unquoted_total {s : TextSource} (h : ∃ c ∈ s.rest, endsValue c = true) :
    ∃ text s', unquoted s = (.ok text, s') := by
  obtain ⟨c, hmem, hc⟩ := h
  have hne : ¬ (s.rest.dropWhile fun c => !endsValue c).isEmpty = true := by
    rw [List.isEmpty_iff, List.dropWhile_eq_nil_iff]
    intro hall
    have hnot := hall c hmem
    rw [hc] at hnot
    cases hnot
  unfold unquoted
  rw [textReader_bind get_eq]
  dsimp only
  rw [if_neg hne]
  exact ⟨_, _, rfl⟩

/-- Inside the parentheses there is always an integer. -/
theorem fromStringImpl_inside (code : TextCode) (types : TypeMap) (T : IntegerType) (s : Bytes) :
    ∃ v types', fromStringImpl code (T.builtin.name ++ ascii " ( " ++ s ++ ascii " )") types =
      (.ok (some (.builtin T.builtin, .plain (.primitive T.primitive v))), types') := by
  have hclose : 41 ∈ (ascii " " ++ (s ++ ascii " )")).dropWhile isBlank := by
    have hmem : 41 ∈ ascii " " ++ (s ++ ascii " )") :=
      List.mem_append_right _ (List.mem_append_right _ (by decide))
    exact mem_dropWhile hmem (by decide)
  obtain ⟨text, s', htext⟩ := unquoted_total (s := ⟨types, _, [(T.builtin.name, true)]⟩)
    ⟨41, hclose, by decide⟩
  obtain ⟨v, hv⟩ := T.reads code text
  rw [← valueText_unquoted T.unquoted] at htext
  have hread := readValue_eq (s := ⟨types, ascii " " ++ (s ++ ascii " )"), _⟩)
    (open_builtin T.embedded types _) htext hv
  exact ⟨v, _, fromStringImpl_builtin (b := T.builtin) (textReader_bind (textReader_bind hread))⟩

/-- There is no text without a value. -/
theorem fromString_integer_ne_none (code : TextCode) (types : TypeMap) (T : IntegerType)
    (s : Bytes) : (fromString code T.builtin s types).1 ≠ .ok none := by
  cases hfirst : fromStringImpl code s types with
  | mk result types₁ =>
    cases result with
    | error e =>
      rw [fromString_error hfirst]
      exact fun h => by cases h
    | ok uv =>
      cases hx : ofType T.builtin uv with
      | some x =>
        rw [fromString_first hfirst hx]
        exact fun h => by cases h
      | none =>
        rw [ne_eq, fromString_second hfirst hx]
        rintro ⟨uv', types', hsecond, hnone⟩
        obtain ⟨v, types₂, hinside⟩ := fromStringImpl_inside code types₁ T s
        rw [hinside] at hsecond
        cases hsecond
        rw [show ofType T.builtin (some (.builtin T.builtin, Value.plain (.primitive _ v))) =
          some (.plain (.primitive _ v)) from if_pos rfl] at hnone
        cases hnone

-- -------------------------
-- Literals
-- -------------------------

/-- The characters of a literal. -/
theorem isNumeric_chars {c : UInt8} (h : IsNumeric c) :
    isDelimiter c = false ∧ endsValue c = false ∧ c ≠ 34 ∧ c ≠ 39 := by
  have htable : ∀ n < 256, IsNumeric (UInt8.ofNat n) → isDelimiter (UInt8.ofNat n) = false ∧
      endsValue (UInt8.ofNat n) = false ∧ UInt8.ofNat n ≠ 34 ∧ UInt8.ofNat n ≠ 39 := by
    unfold IsNumeric
    decide +kernel
  have hc := htable c.toNat c.toNat_lt
  rw [UInt8.ofNat_toNat] at hc
  exact hc h

/-- A literal is read as its number. -/
theorem fromStringReader_literal (code : TextCode) {n : Int} (h : literal? s = some n)
    (hlo : T.lo ≤ n) (hhi : n ≤ T.hi) :
    fromStringReader code T.primitive (trimSpaces s) = .ok (T.ofInt n) := by
  cases T with
  | i16 =>
    have hn : extractInt (-2 ^ 15) (2 ^ 15 - 1) (trimSpaces s) = n := extractInt_literal h hlo hhi
    exact congrArg (fun n => Except.ok (Int16.ofInt n)) hn
  | i32 =>
    have hn : extractInt (-2 ^ 31) (2 ^ 31 - 1) (trimSpaces s) = n := extractInt_literal h hlo hhi
    exact congrArg (fun n => Except.ok (Int32.ofInt n)) hn
  | i64 =>
    have hn : extractInt (-2 ^ 63) (2 ^ 63 - 1) (trimSpaces s) = n := extractInt_literal h hlo hhi
    exact congrArg (fun n => Except.ok (Int64.ofInt n)) hn
  | u16 =>
    have hn : extractNat (2 ^ 16 - 1) (trimSpaces s) = n.toNat := extractNat_literal h hlo hhi
    exact congrArg (fun n => Except.ok (UInt16.ofNat n)) hn
  | u32 =>
    have hn : extractNat (2 ^ 32 - 1) (trimSpaces s) = n.toNat := extractNat_literal h hlo hhi
    exact congrArg (fun n => Except.ok (UInt32.ofNat n)) hn
  | u64 =>
    have hn : extractNat (2 ^ 64 - 1) (trimSpaces s) = n.toNat := extractNat_literal h hlo hhi
    exact congrArg (fun n => Except.ok (UInt64.ofNat n)) hn

/-- The number between the spaces of a text. -/
theorem spells_trimSpaces (s : Bytes) :
    ∃ rest, Spells [trimSpaces s] (ascii " " ++ (s ++ ascii " )")) rest := by
  obtain ⟨before, behind, hs, hbefore, hbehind⟩ := trimSpaces_eq s
  have hblank : ∀ c ∈ ascii " " ++ before, isBlank c = true := by
    intro c hc
    rcases List.mem_append.mp hc with hc | hc
    · rw [List.mem_singleton.mp hc]
      decide
    · rw [hbefore c hc]
      decide
  have hrest : StartsBlank (behind ++ ascii " )") := by
    cases behind with
    | nil => exact ⟨32, _, rfl, by decide⟩
    | cons c cs => exact ⟨c, _, rfl, hbehind c List.mem_cons_self ▸ by decide⟩
  have hsplit : ascii " " ++ (s ++ ascii " )") =
      (ascii " " ++ before) ++ (trimSpaces s ++ (behind ++ ascii " )")) := by
    conv_lhs => rw [hs]
    simp only [List.append_assoc]
  rw [hsplit]
  exact ⟨_, .cons hblank hrest (.nil _)⟩

/-- In the parentheses of the second attempt, a literal is read. -/
theorem fromStringImpl_literal (code : TextCode) (types : TypeMap) {n : Int}
    (h : literal? s = some n) (hlo : T.lo ≤ n) (hhi : n ≤ T.hi) :
    ∃ types', fromStringImpl code (T.builtin.name ++ ascii " ( " ++ s ++ ascii " )") types =
      (.ok (some (.builtin T.builtin, .plain (.primitive T.primitive (T.ofInt n)))), types') := by
  obtain ⟨hne, hchars, -⟩ := literal?_eq_some h
  obtain ⟨rest, hspells⟩ := spells_trimSpaces s
  have hread := readValue_unquoted T.unquoted hne (fun c hc => (isNumeric_chars (hchars c hc)).2.1)
    (fromStringReader_literal code h hlo hhi)
    (s := ⟨types, ascii " " ++ (s ++ ascii " )"), _⟩) (open_builtin T.embedded types _) hspells
  exact ⟨_, fromStringImpl_builtin (b := T.builtin) (textReader_bind (textReader_bind hread))⟩

-- -------------------------
-- The first attempt
-- -------------------------

/-- What is left of a literal without the spaces before it. -/
theorem dropWhile_literal {n : Int} (h : literal? s = some n) : ∃ c cs behind,
    trimSpaces s = c :: cs ∧ IsNumeric c ∧ isBlank c = false ∧
      s.dropWhile isBlank = trimSpaces s ++ behind ∧ ∀ c ∈ behind, c = 32 := by
  obtain ⟨hne, hchars, -⟩ := literal?_eq_some h
  obtain ⟨before, behind, hs, hbefore, hbehind⟩ := trimSpaces_eq s
  obtain ⟨c, cs, htrim⟩ := List.exists_cons_of_ne_nil hne
  have hc := hchars c (htrim ▸ List.mem_cons_self)
  have hblank := isBlank_of_endsValue (isNumeric_chars hc).2.1
  refine ⟨c, cs, behind, htrim, hc, hblank, ?_, hbehind⟩
  have hall : ∀ d ∈ before, isBlank d = true := fun d hd => hbefore d hd ▸ by decide
  conv_lhs => rw [hs]
  rw [htrim]
  exact dropWhile_append_of_all hall fun d hd => Option.some.inj hd ▸ hblank

-- -------------------------
-- The readers
-- -------------------------

/-- A number without a sign is taken for an `int32_t`, but there is no parenthesis. -/
theorem readObject_digits (code : TextCode) (types : TypeMap) (depth : Nat) {c : UInt8}
    {rest : Bytes} (hs : s.dropWhile isBlank = c :: rest) (hc : isDigit c = true) :
    ∃ text s', readObject code depth ⟨types, s, []⟩ = (.error (.runtimeError text), s') ∧
      s'.types = types := by
  -- the digit is no name, so that the type is taken from it
  have hchar := isNumeric_chars (.inr (.inr hc))
  have hname : TextReader.typeName ⟨types, s.dropWhile isBlank, []⟩ =
      (.ok (ascii "@i32"), ⟨types, c :: rest, []⟩) := by
    rw [hs]
    exact typeName_digit hc rfl
  have hparen : tryConsume 40 ⟨types, c :: rest, []⟩ = (.ok false, ⟨types, c :: rest, []⟩) := by
    have hblank : (c :: rest).dropWhile isBlank = c :: rest :=
      dropWhile_of_head (isBlank_of_endsValue hchar.2.1)
    have hne : c ≠ 40 := fun heq => absurd (heq ▸ hchar.1) (by decide)
    have hfalse := tryConsume_false (s := ⟨types, c :: rest, []⟩) (c := 40) (by rwa [hblank])
    rwa [hblank] at hfalse
  have htype : types.byUniformName (ascii "@i32") =
      (some (.builtin IntegerType.i32.builtin), types) :=
    TypeMap.lookup_name _ IntegerType.i32.builtin
  have hbegin := beginObject_name (s := ⟨types, s, []⟩) hname hparen htype
  -- without parentheses, the object is still open when its value is read
  have hcheck : ∃ text, integrityCheck ⟨types, c :: rest, [(ascii "@i32", false)]⟩ =
    (.error (.runtimeError text), ⟨types, c :: rest, [(ascii "@i32", false)]⟩) := ⟨_, rfl⟩
  obtain ⟨text, hcheck⟩ := hcheck
  have hread : readValue code .int32 ⟨types, c :: rest, [(ascii "@i32", false)]⟩ =
    (.error (.runtimeError text), ⟨types, c :: rest, [(ascii "@i32", false)]⟩) :=
    textReader_bind_error hcheck
  exact ⟨text, _, readObject_eq hbegin rfl (textReader_bind_error (textReader_bind_error hread)),
    rfl⟩

/-- There is no type whose name starts with a sign. -/
theorem ProgramTypes.byUniformName_signed (types : ProgramTypes) {name : Bytes}
    (hname : ∃ c cs, name = c :: cs ∧ (c = 45 ∨ c = 43)) :
    types.byUniformName name = (none, types.toTypeMap) := by
  obtain ⟨c, cs, rfl, hsign⟩ := hname
  have hbuiltin : builtinTypes.find? (·.1 = c :: cs) = none := by
    have hheads : ∀ entry ∈ builtinTypes, entry.1.headD 0 ≠ 45 ∧ entry.1.headD 0 ≠ 43 := by
      decide +kernel
    refine List.find?_eq_none.mpr fun entry hentry heq => ?_
    have hhead := hheads entry hentry
    rw [of_decide_eq_true heq] at hhead
    exact hsign.elim hhead.1 hhead.2
  have huser : types.findName (c :: cs) = none := by
    have hnone : types.userTypes (c :: cs) = none :=
      types.unsigned _ (hsign.symm.imp (congrArg some) (congrArg some))
    unfold TypeMap.findName
    rw [hnone, ite_self]
  have hprefix : tuplePrefix.isPrefixOf (c :: cs) = false := by
    rcases hsign with rfl | rfl <;> rfl
  unfold TypeMap.byUniformName TypeMap.lookup
  rw [hbuiltin, huser, hprefix]
  rfl

/-- A number with a sign is taken for the name of a type, and there is none of that name. -/
theorem readObject_sign (code : TextCode) (types : ProgramTypes) (depth : Nat)
    {name behind : Bytes} (hs : s.dropWhile isBlank = name ++ behind)
    (hname : ∃ c cs, name = c :: cs ∧ (c = 45 ∨ c = 43)) (hchars : ∀ c ∈ name, IsNumeric c)
    (hbehind : ∀ c ∈ behind, c = 32) :
    ∃ text s', readObject code depth ⟨types.toTypeMap, s, []⟩ = (.error (.runtimeError text), s') ∧
      s'.types = types.toTypeMap := by
  obtain ⟨c, cs, hcons, hsign⟩ := hname
  have hnamed : Named name := by
    have hc := isNumeric_chars (hchars c (hcons ▸ List.mem_cons_self))
    refine ⟨fun d hd => (isNumeric_chars (hchars d hd)).1, c, cs, hcons, hc.2.2.1, hc.2.2.2, ?_⟩
    rcases hsign with rfl | rfl <;> decide
  have hparen : tryConsume 40 ⟨types.toTypeMap, behind, []⟩ =
      (.ok false, ⟨types.toTypeMap, [], []⟩) := by
    have hblank : behind.dropWhile isBlank = [] :=
      List.dropWhile_eq_nil_iff.mpr fun d hd => hbehind d hd ▸ by decide
    have hfalse := tryConsume_false (s := ⟨types.toTypeMap, behind, []⟩) (c := 40)
      (by rw [hblank]; decide)
    rwa [hblank] at hfalse
  have hrest : ∀ c ∈ behind.head?, isDelimiter c = true := by
    intro c hc
    rw [hbehind c (List.mem_of_head? hc)]
    decide
  have hbegin := beginObject_name (s := ⟨types.toTypeMap, s, []⟩)
    (typeName_eq hnamed hs hrest) hparen (types.byUniformName_signed ⟨c, cs, hcons, hsign⟩)
  exact ⟨_, _, textReader_bind_error hbegin, rfl⟩

/-- The first attempt at a literal yields nothing. -/
theorem fromStringImpl_none (code : TextCode) (types : ProgramTypes) {n : Int}
    (h : literal? s = some n) :
    fromStringImpl code s types.toTypeMap = (.ok none, types.toTypeMap) := by
  obtain ⟨c, cs, behind, htrim, hc, -, hs, hbehind⟩ := dropWhile_literal h
  obtain ⟨-, hchars, -⟩ := literal?_eq_some h
  have hobject : ∃ text s', readObject code (s.length + 1) ⟨types.toTypeMap, s, []⟩ =
      (.error (.runtimeError text), s') ∧ s'.types = types.toTypeMap := by
    rcases hc with hc | hc | hc
    · exact readObject_sign code types _ hs ⟨c, cs, htrim, .inl hc⟩ hchars hbehind
    · exact readObject_sign code types _ hs ⟨c, cs, htrim, .inr hc⟩ hchars hbehind
    · rw [htrim] at hs
      exact readObject_digits code types.toTypeMap _ hs hc
  obtain ⟨text, s', hobject, htypes⟩ := hobject
  rw [fromStringImpl_runtimeError hobject, htypes]

-- -------------------------
-- Both attempts
-- -------------------------

/-- The value is that of the text if and only if the text is a literal, with or without
spaces around it, of a number of the type. -/
theorem parsesExactly_iff (code : TextCode) (types : ProgramTypes) (T : IntegerType) (s : Bytes) :
    ParsesExactly code types.toTypeMap T s ↔ T.Denotes s := by
  constructor
  · intro h
    by_contra hnot
    have hparsed := h.parsed
    rw [IntegerType.denoted_of_not_denotes hnot] at hparsed
    exact fromString_integer_ne_none code types.toTypeMap T s hparsed
  · rintro ⟨n, hn, hlo, hhi⟩
    refine parsesExactly_of_parsed ?_
    rw [IntegerType.denoted_of_denotes hn hlo hhi,
      fromString_second (fromStringImpl_none code types hn) rfl]
    obtain ⟨types', hsecond⟩ := fromStringImpl_literal code types.toTypeMap hn hlo hhi
    exact ⟨_, types', hsecond, if_pos rfl⟩

/-- What is no number is taken for 0. -/
theorem garbage_parsed : ¬ ParsesExactly .empty TypeMap.empty .i32 (ascii "abc") := by
  intro h
  have hnone : IntegerType.i32.denoted (ascii "abc") = none := rfl
  exact fromString_integer_ne_none _ _ _ _ (h.parsed.trans (congrArg Except.ok hnone))

end BoostActor
