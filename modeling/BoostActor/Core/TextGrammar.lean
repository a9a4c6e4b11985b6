import BoostActor.Core.TextMessages

/-!
# The text format

What texts stand for, as relations between a text, what it denotes and the text behind it:
names of types, parentheses, values and sequences. The functions of `string_deserializer` accept
these texts and no others.

* `beginObject_iff`, `endObject_iff` — the beginning and the end of an object;
* `readValue_iff`, `sequence_iff` — values and sequences of values;
* `PlainType.readText_iff` — the values of the builtin types.
-/

namespace BoostActor

open Lib TextReader

variable {code : TextCode} {α β : Type} {s s' : TextSource}

-- -------------------------
-- Texts
-- -------------------------

/-- The name of a type at the beginning of a text. The names of strings, atoms and numbers are
left out. -/
inductive TypeNameText : Bytes → Bytes → Bytes → Prop where
  | string (cs : Bytes) : TypeNameText (34 :: cs) (ascii "@str") (34 :: cs)
  | atom (cs : Bytes) : TypeNameText (39 :: cs) (ascii "@atom") (39 :: cs)
  | integer {c : UInt8} (cs : Bytes) (hc : isDigit c = true) :
    TypeNameText (c :: cs) (ascii "@i32") (c :: cs)
  | name {name rest : Bytes} (hname : Named name)
    (hrest : ∀ c ∈ rest.head?, isDelimiter c = true) : TypeNameText (name ++ rest) name rest

/-- A left parenthesis, or none. -/
inductive LeftParenthesis (text : Bytes) : Bool → Bytes → Prop where
  | present {rest : Bytes} (h : text.dropWhile isBlank = 40 :: rest) :
    LeftParenthesis text true rest
  | absent (h : (text.dropWhile isBlank).head? ≠ some 40) :
    LeftParenthesis text false (text.dropWhile isBlank)

/-- A right parenthesis where there was a left one. -/
inductive RightParenthesis (text : Bytes) : Bool → Bytes → Prop where
  | present {rest : Bytes} (h : text.dropWhile isBlank = 41 :: rest) :
    RightParenthesis text true rest
  | absent : RightParenthesis text false text

/-- There is no quote in a text, but for those behind a backslash; `prev` is the character
before it. -/
def Enclosed (needle : UInt8) : UInt8 → Bytes → Prop
  | prev, [] => prev ≠ 92
  | prev, c :: cs => ¬ (prev ≠ 92 ∧ c = needle) ∧ Enclosed needle c cs

/-- A value in quotes, or one that ends with a delimiter. -/
inductive ValueText : Option UInt8 → Bytes → Bytes → Bytes → Prop where
  | quoted {needle : UInt8} {sub rest : Bytes} (h : Enclosed needle needle sub) :
    ValueText (some needle) (needle :: (sub ++ needle :: rest)) (unescape needle sub) rest
  | plain {str rest : Bytes} (hstr : ∀ c ∈ str, endsValue c = false)
    (hrest : ∃ c cs, rest = c :: cs ∧ endsValue c = true) : ValueText none (str ++ rest) str rest

-- -------------------------
-- Objects and values
-- -------------------------

/-- The beginning of an object: the name of a type, and a left parenthesis or none. -/
inductive Opening (s : TextSource) : TypeInfo → TextSource → Prop where
  | intro {name rest rest' : Bytes} {had : Bool} {t : TypeInfo} {types : TypeMap}
    (hname : TypeNameText (s.rest.dropWhile isBlank) name rest)
    (hparen : LeftParenthesis rest had rest')
    (htype : s.types.byUniformName name = (some t, types)) :
    Opening s t ⟨types, rest', (name, had) :: s.openObjects⟩

/-- The end of an object, with nothing behind that of the outermost one. -/
inductive Ending (s : TextSource) : TextSource → Prop where
  | inner {name rest : Bytes} {had : Bool} {outer : List (Bytes × Bool)}
    (hopen : s.openObjects = (name, had) :: outer) (houter : outer ≠ [])
    (hparen : RightParenthesis s.rest had rest) : Ending s ⟨s.types, rest, outer⟩
  | outermost {name rest : Bytes} {had : Bool} (hopen : s.openObjects = [(name, had)])
    (hparen : RightParenthesis s.rest had rest) (hrest : ∀ c ∈ rest, isBlank c = true) :
    Ending s ⟨s.types, [], []⟩

/-- Values are in parentheses, unless they are of a type that is written without its name. -/
def TextSource.Inside (s : TextSource) : Prop :=
  ∃ name had outer, s.openObjects = (name, had) :: outer ∧ (had = true ∨ isbuiltin name = true)

/-- The colon before the second part of a node. -/
def Colon (s : TextSource) (text rest : Bytes) : Prop :=
  if s.top = ascii "@node" then text.dropWhile isBlank = 58 :: rest else rest = text

/-- A value of a primitive type. -/
inductive ValueAt (code : TextCode) (t : PrimitiveType) (s : TextSource) (v : t.Val) :
    TextSource → Prop where
  | intro {text str rest : Bytes} (hinside : s.Inside)
    (hcolon : Colon s (s.rest.dropWhile isBlank) text)
    (htext : ValueText (needle? t) text str rest) (hv : fromStringReader code t str = .ok v) :
    ValueAt code t s v { s with rest := rest }

/-- Elements, one after the other. -/
inductive ElementsAt (elem : TextSource → α → TextSource → Prop) :
    TextSource → List α → TextSource → Prop where
  | nil (s : TextSource) : ElementsAt elem s [] s
  | cons {s s₁ s₂ : TextSource} {x : α} {xs : List α} (hx : elem s x s₁)
    (hxs : ElementsAt elem s₁ xs s₂) : ElementsAt elem s (x :: xs) s₂

/-- Elements in braces, one more than there are commas. -/
inductive SequenceAt (elem : TextSource → α → TextSource → Prop) (s : TextSource) (xs : List α) :
    TextSource → Prop where
  | intro {rest rest' : Bytes} {s' : TextSource} (hinside : s.Inside)
    (hbegin : s.rest.dropWhile isBlank = 123 :: rest)
    (helems : ElementsAt elem { s with rest := rest } xs s') (hlen : xs.length = commas rest + 1)
    (hinside' : s'.Inside) (hend : s'.rest.dropWhile isBlank = 125 :: rest') :
    SequenceAt elem s xs { s' with rest := rest' }

/-- A pair of strings. -/
def PairAt (code : TextCode) (s : TextSource) (x : Bytes × Bytes) (s' : TextSource) : Prop :=
  ∃ s₁, ValueAt code .string s x.1 s₁ ∧ ValueAt code .string s₁ x.2 s'

/-- A value of a builtin type. -/
def PlainAt (code : TextCode) (s : TextSource) (x : PlainValue) (s' : TextSource) :
    PlainType → Prop
  | .primitive t => ∃ v, ValueAt code t s v s' ∧ x = .primitive t v
  | .strvec => ∃ xs, SequenceAt (ValueAt code .string) s xs s' ∧ x = .strvec xs
  | .strset => ∃ xs, SequenceAt (ValueAt code .string) s xs s' ∧ x = .strset (.ofList xs)
  | .strmap => ∃ xs, SequenceAt (PairAt code) s xs s' ∧ x = .strmap (.ofList xs)
  -- read by code of its own
  | t => code.read (.builtin (.plain t)) s = (.ok (.plain x), s')

-- -------------------------
-- Readers that succeed
-- -------------------------

theorem textReader_bind_iff {x : TextReader α} {f : α → TextReader β} {b : β} {s'' : TextSource} :
    (x >>= f) s = (.ok b, s'') ↔ ∃ a s', x s = (.ok a, s') ∧ f a s' = (.ok b, s'') := by
  constructor
  · exact textReader_bind_ok
  · rintro ⟨a, s', hx, hf⟩
    exact (textReader_bind hx).trans hf

/-- A reader without effect. -/
theorem textReader_pure_iff {a b : α} :
    (pure a : TextReader α) s = (.ok b, s') ↔ b = a ∧ s' = s := by
  constructor
  · intro h
    cases h
    exact ⟨rfl, rfl⟩
  · rintro ⟨rfl, rfl⟩
    rfl

theorem textReader_throw {e : Fault} {b : α} :
    ¬ (throw e : TextReader α) s = (.ok b, s') := by
  intro h
  cases congrArg Prod.fst h

/-- A reader whose value is changed. -/
theorem textReader_map_iff {x : TextReader α} {g : α → β} {b : β} :
    (x >>= fun a => pure (g a)) s = (.ok b, s') ↔ ∃ a, x s = (.ok a, s') ∧ b = g a := by
  rw [textReader_bind_iff]
  constructor
  · rintro ⟨a, s₁, hx, h⟩
    obtain ⟨rfl, rfl⟩ := textReader_pure_iff.mp h
    exact ⟨a, hx, rfl⟩
  · rintro ⟨a, hx, rfl⟩
    exact ⟨a, s', hx, rfl⟩

namespace TextReader

/-- The null character is what is read at the end of a text. -/
theorem headD_zero_eq_iff {c : UInt8} (hc : c ≠ 0) {cs : Bytes} :
    cs.headD 0 = c ↔ ∃ rest, cs = c :: rest := by
  constructor
  · intro h
    cases cs with
    | nil => exact absurd h.symm hc
    | cons d rest => exact ⟨rest, congrArg (· :: rest) h⟩
  · rintro ⟨rest, rfl⟩
    rfl

/-- `consume` takes one character after blanks. -/
theorem consume_iff {c : UInt8} (hc : c ≠ 0) : consume c s = (.ok (), s') ↔
    ∃ rest, s.rest.dropWhile isBlank = c :: rest ∧ s' = { s with rest := rest } := by
  constructor
  · intro h
    obtain ⟨rest, hrest⟩ := (headD_zero_eq_iff hc).mp (consume_ok h)
    rw [consume_eq hrest] at h
    exact ⟨rest, hrest, (congrArg Prod.snd h).symm⟩
  · rintro ⟨rest, hrest, rfl⟩
    exact consume_eq hrest

/-- `try_consume` takes a parenthesis if there is one. -/
theorem tryConsume_iff {had : Bool} : tryConsume 40 s = (.ok had, s') ↔
    ∃ rest, LeftParenthesis s.rest had rest ∧ s' = { s with rest := rest } := by
  constructor
  · intro h
    by_cases hparen : (s.rest.dropWhile isBlank).head? = some 40
    · obtain ⟨rest, hrest⟩ := List.head?_eq_some_iff.mp hparen
      rw [tryConsume_eq hrest] at h
      cases h
      exact ⟨rest, .present hrest, rfl⟩
    · have hhead : (s.rest.dropWhile isBlank).headD 0 ≠ 40 := by
        intro heq
        obtain ⟨rest, hrest⟩ := (headD_zero_eq_iff (by decide)).mp heq
        exact hparen (congrArg List.head? hrest)
      rw [tryConsume_false hhead] at h
      cases h
      exact ⟨_, .absent hparen, rfl⟩
  · rintro ⟨rest, hparen, rfl⟩
    cases hparen with
    | present h => exact tryConsume_eq h
    | absent h =>
      refine tryConsume_false fun heq => ?_
      obtain ⟨rest, hrest⟩ := (headD_zero_eq_iff (by decide)).mp heq
      exact h (congrArg List.head? hrest)

/-- The type name is what the grammar says. -/
theorem typeName_iff {name : Bytes} : typeName s = (.ok name, s') ↔
    ∃ rest, TypeNameText s.rest name rest ∧ s' = { s with rest := rest } := by
  obtain ⟨types, text, objects⟩ := s
  constructor
  · intro h
    unfold typeName at h
    rw [textReader_bind get_eq] at h
    unfold TextSource.cur at h
    dsimp only at h ⊢
    -- the first character tells which name it is
    cases text with
    | nil => exact absurd h textReader_throw
    | cons c cs =>
      rw [List.headD_cons] at h
      by_cases hquote : c = 34
      · subst hquote
        cases h
        exact ⟨_, .string cs, rfl⟩
      rw [if_neg hquote] at h
      by_cases happ : c = 39
      · subst happ
        cases h
        exact ⟨_, .atom cs, rfl⟩
      rw [if_neg happ] at h
      by_cases hdigit : isDigit c = true
      · rw [if_pos hdigit] at h
        cases h
        exact ⟨_, .integer cs hdigit, rfl⟩
      rw [if_neg hdigit] at h
      cases hdelimiter : isDelimiter c with
      | true =>
        rw [List.takeWhile_cons, hdelimiter] at h
        exact absurd h textReader_throw
      | false =>
        rw [List.takeWhile_cons, List.dropWhile_cons, hdelimiter] at h
        cases h
        have hname : Named (c :: cs.takeWhile fun c => !isDelimiter c) := by
          refine ⟨fun d hd => ?_, c, _, rfl, hquote, happ, Bool.eq_false_iff.mpr hdigit⟩
          rcases List.mem_cons.mp hd with rfl | hd
          · exact hdelimiter
          · exact not_of_mem_takeWhile hd
        have hrest : ∀ d ∈ (cs.dropWhile fun c => !isDelimiter c).head?, isDelimiter d = true :=
          fun d hd => head_dropWhile_not hd
        refine ⟨_, ?_, rfl⟩
        have htext := TypeNameText.name hname hrest
        rwa [List.cons_append, List.takeWhile_append_dropWhile] at htext
  · rintro ⟨rest, hname, rfl⟩
    dsimp only at hname
    cases hname with
    | string cs => rfl
    | atom cs => rfl
    | integer cs hc => exact typeName_digit hc rfl
    | name hname hrest => exact typeName_eq hname rfl hrest

/-- `integrity_check` asks for an open object. -/
theorem integrityCheck_iff : integrityCheck s = (.ok (), s') ↔ s.Inside ∧ s' = s := by
  unfold integrityCheck TextSource.Inside
  rw [textReader_bind get_eq]
  cases hopen : s.openObjects with
  | nil =>
    refine iff_of_false textReader_throw ?_
    rintro ⟨⟨name, had, outer, heq, -⟩, -⟩
    cases heq
  | cons object outer =>
    obtain ⟨name, had⟩ := object
    dsimp only
    by_cases hinside : (had || isbuiltin name) = true
    · rw [if_pos hinside, textReader_pure_iff]
      rw [Bool.or_eq_true] at hinside
      exact ⟨fun h => ⟨⟨name, had, outer, rfl, hinside⟩, h.2⟩, fun h => ⟨rfl, h.2⟩⟩
    · rw [if_neg hinside]
      refine iff_of_false textReader_throw ?_
      rintro ⟨⟨name', had', outer', heq, h⟩, -⟩
      cases heq
      rw [← Bool.or_eq_true] at h
      exact hinside h

/-- The name is looked up in the type map. -/
theorem byUniformName_iff {name : Bytes} {t : Option TypeInfo} :
    byUniformName name s = (.ok t, s') ↔
      ∃ types, s.types.byUniformName name = (t, types) ∧ s' = { s with types := types } := by
  constructor
  · intro h
    cases h
    exact ⟨_, rfl, rfl⟩
  · rintro ⟨types, htype, rfl⟩
    show (Except.ok (s.types.byUniformName name).1, _) = _
    rw [htype]

/-- An object starts with its name and an optional parenthesis. -/
theorem beginObject_iff {t : TypeInfo} : beginObject s = (.ok t, s') ↔ Opening s t s' := by
  constructor
  · intro h
    unfold beginObject at h
    rw [textReader_bind skip_eq] at h
    obtain ⟨name, s₁, hreadName, h₁⟩ := textReader_bind_ok h
    obtain ⟨rest, hname, rfl⟩ := typeName_iff.mp hreadName
    obtain ⟨had, s₂, hreadParen, h₂⟩ := textReader_bind_ok h₁
    obtain ⟨rest', hparen, rfl⟩ := tryConsume_iff.mp hreadParen
    obtain ⟨_, s₃, hpush, h₃⟩ := textReader_bind_ok h₂
    cases hpush
    obtain ⟨found, s₄, hfind, h₄⟩ := textReader_bind_ok h₃
    obtain ⟨types, htype, rfl⟩ := byUniformName_iff.mp hfind
    cases found with
    | none => exact absurd h₄ textReader_throw
    | some t' =>
      obtain ⟨rfl, rfl⟩ := textReader_pure_iff.mp h₄
      exact .intro hname hparen htype
  · rintro ⟨hname, hparen, htype⟩
    exact beginObject_name (typeName_iff.mpr ⟨_, hname, rfl⟩)
      (tryConsume_iff.mpr ⟨_, hparen, rfl⟩) htype

/-- There is one way to close a parenthesis. -/
theorem rightParenthesis_unique {text rest rest' : Bytes} {had : Bool}
    (h : RightParenthesis text had rest) (h' : RightParenthesis text had rest') : rest = rest' := by
  cases h with
  | absent =>
    cases h'
    rfl
  | present hrest =>
    cases h' with
    | present hrest' =>
      rw [hrest] at hrest'
      exact (List.cons.inj hrest').2

/-- The end of the innermost object. -/
theorem ending_iff {name : Bytes} {had : Bool} {outer : List (Bytes × Bool)}
    (hopen : s.openObjects = (name, had) :: outer) : Ending s s' ↔
      ∃ rest, RightParenthesis s.rest had rest ∧
        (outer = [] ∧ (∀ c ∈ rest, isBlank c = true) ∧ s' = ⟨s.types, [], []⟩ ∨
          outer ≠ [] ∧ s' = ⟨s.types, rest, outer⟩) := by
  constructor
  · intro h
    cases h with
    | inner hinner houter hparen =>
      rw [hopen] at hinner
      cases hinner
      exact ⟨_, hparen, .inr ⟨houter, rfl⟩⟩
    | outermost houtermost hparen hrest =>
      rw [hopen] at houtermost
      cases houtermost
      exact ⟨_, hparen, .inl ⟨rfl, hrest, rfl⟩⟩
  · rintro ⟨rest, hparen, ⟨rfl, hrest, rfl⟩ | ⟨houter, rfl⟩⟩
    · exact .outermost hopen hparen hrest
    · exact .inner hopen houter hparen

/-- Nothing but blanks is left. -/
theorem atEnd_iff : (do
      skipSpaceAndComma
      let s ← get
      if !s.rest.isEmpty then
        throw (malformed (ascii "expected end of of string, found: " ++ [s.cur])) :
      TextReader Unit) s = (.ok (), s') ↔
    (∀ c ∈ s.rest, isBlank c = true) ∧ s' = { s with rest := [] } := by
  rw [textReader_bind skip_eq, textReader_bind get_eq, ← List.dropWhile_eq_nil_iff]
  cases hrest : s.rest.dropWhile isBlank with
  | nil =>
    constructor
    · intro h
      cases h
      exact ⟨rfl, rfl⟩
    · rintro ⟨-, rfl⟩
      rfl
  | cons c rest =>
    refine iff_of_false textReader_throw ?_
    rintro ⟨hnil, -⟩
    cases hnil

/-- An object ends with its parenthesis, and the outermost one with the text. -/
theorem endObject_iff : endObject s = (.ok (), s') ↔ Ending s s' := by
  unfold endObject
  rw [textReader_bind get_eq]
  -- without an open object the reader throws
  cases hopen : s.openObjects with
  | nil =>
    refine iff_of_false textReader_throw fun hending => ?_
    cases hending with
    | inner hinner =>
      rw [hopen] at hinner
      cases hinner
    | outermost houtermost =>
      rw [hopen] at houtermost
      cases houtermost
  | cons object outer =>
    obtain ⟨name, had⟩ := object
    rw [ending_iff hopen]
    -- what is left to do after the parenthesis
    have hfinish : ∀ rest, (do
          modify fun s => { s with openObjects := outer }
          if outer.isEmpty then
            skipSpaceAndComma
            let s ← get
            if !s.rest.isEmpty then
              throw (malformed (ascii "expected end of of string, found: " ++ [s.cur])) :
          TextReader Unit) { s with rest := rest } = (.ok (), s') ↔
        (outer = [] ∧ (∀ c ∈ rest, isBlank c = true) ∧ s' = ⟨s.types, [], []⟩ ∨
          outer ≠ [] ∧ s' = ⟨s.types, rest, outer⟩) := by
      intro rest
      cases outer with
      | nil =>
        refine (atEnd_iff (s := ⟨s.types, rest, []⟩)).trans ?_
        exact ⟨fun h => .inl ⟨rfl, h⟩, fun h => (h.resolve_right fun hne => hne.1 rfl).2⟩
      | cons object outer =>
        refine (textReader_pure_iff (s := ⟨s.types, rest, object :: outer⟩)).trans ?_
        simp
    dsimp only
    cases had with
    | false =>
      refine (hfinish s.rest).trans ⟨fun h => ⟨s.rest, .absent, h⟩, ?_⟩
      rintro ⟨rest, hparen, h⟩
      cases hparen
      exact h
    | true =>
      rw [if_pos rfl, textReader_bind_iff]
      constructor
      · rintro ⟨_, s₁, hconsume, h⟩
        obtain ⟨rest, hrest, rfl⟩ := (consume_iff (by decide)).mp hconsume
        exact ⟨rest, .present hrest, (hfinish rest).mp h⟩
      · rintro ⟨rest, hparen, h⟩
        cases hparen with
        | present hrest => exact ⟨(), _, consume_eq hrest, (hfinish rest).mpr h⟩

-- -------------------------
-- Texts of values
-- -------------------------

/-- The closing quote is the first one without a backslash before it. -/
theorem untilQuote_iff {needle prev : UInt8} {cs sub rest : Bytes} :
    untilQuote needle prev cs = some (sub, rest) ↔
      ∃ behind, rest = needle :: behind ∧ cs = sub ++ rest ∧ Enclosed needle prev sub := by
  induction cs generalizing prev sub with
  | nil =>
    refine iff_of_false nofun ?_
    rintro ⟨behind, rfl, hcs, -⟩
    cases sub <;> cases hcs
  | cons c cs ih =>
    -- the quote closes the text unless the character before is a backslash
    rw [untilQuote]
    by_cases hclose : prev ≠ 92 ∧ c = needle
    · obtain ⟨hprev, rfl⟩ := id hclose
      rw [if_pos hclose]
      constructor
      · intro h
        cases h
        exact ⟨cs, rfl, rfl, hprev⟩
      · rintro ⟨behind, rfl, hcs, henclosed⟩
        cases sub with
        | nil =>
          cases hcs
          rfl
        | cons d sub =>
          obtain ⟨rfl, -⟩ := List.cons.inj hcs
          exact absurd hclose henclosed.1
    · rw [if_neg hclose, Option.map_eq_some_iff]
      constructor
      · rintro ⟨⟨sub', rest'⟩, hfound, heq⟩
        cases heq
        obtain ⟨behind, rfl, rfl, henclosed⟩ := ih.mp hfound
        exact ⟨behind, rfl, rfl, hclose, henclosed⟩
      · rintro ⟨behind, rfl, hcs, henclosed⟩
        cases sub with
        | nil =>
          obtain ⟨rfl, -⟩ := List.cons.inj hcs
          exact absurd ⟨henclosed, rfl⟩ hclose
        | cons d sub =>
          obtain ⟨rfl, rfl⟩ := List.cons.inj hcs
          exact ⟨(sub, needle :: behind), ih.mpr ⟨behind, rfl, rfl, henclosed.2⟩, rfl⟩

/-- A quoted text runs to the first quote that is not escaped. -/
theorem quoted_iff {needle : UInt8} (hneedle : needle ≠ 0) {str : Bytes} :
    quoted needle s = (.ok str, s') ↔
      ∃ rest, ValueText (some needle) s.rest str rest ∧ s' = { s with rest := rest } := by
  constructor
  · intro h
    unfold quoted at h
    rw [textReader_bind get_eq] at h
    split_ifs at h with hquote
    · exact absurd h textReader_throw
    · have hcur : s.cur = needle := not_not.mp hquote
      unfold TextSource.cur at hcur
      cases hrest : s.rest with
      | nil =>
        rw [hrest] at hcur
        exact absurd hcur.symm hneedle
      | cons c cs =>
        rw [hrest] at hcur h
        obtain rfl : c = needle := hcur
        cases hsub : untilQuote c c (c :: cs).tail with
        | none =>
          rw [hsub] at h
          exact absurd h textReader_throw
        | some found =>
          rw [hsub] at h
          cases h
          obtain ⟨behind, hbehind, hcs, henclosed⟩ := untilQuote_iff.mp hsub
          obtain rfl : cs = found.1 ++ found.2 := hcs
          rw [hbehind]
          exact ⟨behind, .quoted henclosed, rfl⟩
  · rintro ⟨rest, htext, rfl⟩
    generalize hs : s.rest = text at htext
    cases htext with
    | quoted henclosed => exact quoted_eq hs (untilQuote_iff.mpr ⟨_, rfl, rfl, henclosed⟩)

/-- An unquoted text runs to the next character that ends a value. -/
theorem unquoted_iff {str : Bytes} : unquoted s = (.ok str, s') ↔
    ∃ rest, ValueText none s.rest str rest ∧ s' = { s with rest := rest } := by
  constructor
  · intro h
    unfold unquoted at h
    rw [textReader_bind get_eq] at h
    dsimp only at h
    have hsplit := List.takeWhile_append_dropWhile (p := fun c => !endsValue c) (l := s.rest)
    have hstr : ∀ c ∈ s.rest.takeWhile fun c => !endsValue c, endsValue c = false :=
      fun c hc => not_of_mem_takeWhile hc
    -- the reader throws if the text ends with the value
    cases hrest : s.rest.dropWhile fun c => !endsValue c with
    | nil =>
      rw [hrest] at h
      exact absurd h textReader_throw
    | cons c cs =>
      have hmem : c ∈ (s.rest.dropWhile fun c => !endsValue c).head? := by
        rw [hrest]
        rfl
      rw [hrest] at h hsplit
      cases h
      refine ⟨c :: cs, ?_, rfl⟩
      have htext := ValueText.plain hstr ⟨c, cs, rfl, head_dropWhile_not hmem⟩
      rwa [hsplit] at htext
  · rintro ⟨rest, htext, rfl⟩
    generalize hs : s.rest = text at htext
    cases htext with
    | plain hstr hrest => exact unquoted_eq hs hstr hrest

theorem needle_ne_zero {t : PrimitiveType} {needle : UInt8} (h : needle? t = some needle) :
    needle ≠ 0 := by
  cases t <;> cases h <;> decide

/-- The text of a value depends on its type. -/
theorem valueText_iff {t : PrimitiveType} {str : Bytes} : valueText t s = (.ok str, s') ↔
    ∃ rest, ValueText (needle? t) s.rest str rest ∧ s' = { s with rest := rest } := by
  unfold valueText
  cases hneedle : needle? t with
  | none => exact unquoted_iff
  | some needle => exact quoted_iff (needle_ne_zero hneedle)

/-- A colon is skipped if there is no parenthesis. -/
theorem skipColon_iff : skipColon s = (.ok (), s') ↔
    ∃ rest, Colon s s.rest rest ∧ s' = { s with rest := rest } := by
  unfold skipColon Colon
  rw [textReader_bind get_eq]
  split_ifs
  · exact consume_iff (by decide)
  · rw [textReader_pure_iff]
    constructor
    · rintro ⟨-, rfl⟩
      exact ⟨_, rfl, rfl⟩
    · rintro ⟨_, rfl, rfl⟩
      exact ⟨rfl, rfl⟩

/-- A value is its text, converted. -/
theorem readValue_iff {t : PrimitiveType} {v : t.Val} :
    readValue code t s = (.ok v, s') ↔ ValueAt code t s v s' := by
  unfold readValue
  constructor
  · intro h
    obtain ⟨_, s₁, hcheck, h₁⟩ := textReader_bind_ok h
    obtain ⟨hinside, rfl⟩ := integrityCheck_iff.mp hcheck
    rw [textReader_bind skip_eq] at h₁
    obtain ⟨_, s₂, hskip, h₂⟩ := textReader_bind_ok h₁
    obtain ⟨text, hcolon, rfl⟩ := skipColon_iff.mp hskip
    obtain ⟨str, s₃, hread, h₃⟩ := textReader_bind_ok h₂
    obtain ⟨rest, htext, rfl⟩ := valueText_iff.mp hread
    cases hv : fromStringReader code t str with
    | error e =>
      rw [hv] at h₃
      exact absurd h₃ textReader_throw
    | ok w =>
      rw [hv] at h₃
      obtain ⟨rfl, rfl⟩ := textReader_pure_iff.mp h₃
      exact .intro hinside hcolon htext hv
  · rintro ⟨hinside, hcolon, htext, hv⟩
    rw [textReader_bind (integrityCheck_iff.mpr ⟨hinside, rfl⟩), textReader_bind skip_eq,
      textReader_bind (skipColon_iff.mpr ⟨_, hcolon, rfl⟩),
      textReader_bind (valueText_iff.mpr ⟨_, htext, rfl⟩), hv]
    rfl

-- -------------------------
-- Sequences
-- -------------------------

variable {read : TextReader α} {elem : TextSource → α → TextSource → Prop}

/-- Reading a number of elements. -/
theorem readMany_iff (hread : ∀ {s s' : TextSource} {x : α}, read s = (.ok x, s') ↔ elem s x s')
    {n : Nat} {xs : List α} :
    readMany read n s = (.ok xs, s') ↔ ElementsAt elem s xs s' ∧ xs.length = n := by
  induction n generalizing s xs with
  | zero =>
    refine textReader_pure_iff.trans ?_
    constructor
    · rintro ⟨rfl, rfl⟩
      exact ⟨.nil _, rfl⟩
    · rintro ⟨helems, hlen⟩
      obtain rfl := List.length_eq_zero_iff.mp hlen
      cases helems
      exact ⟨rfl, rfl⟩
  | succ n ih =>
    rw [readMany, textReader_bind_iff]
    constructor
    · rintro ⟨x, s₁, hx, h⟩
      obtain ⟨ys, hys, rfl⟩ := textReader_map_iff.mp h
      obtain ⟨helems, hlen⟩ := ih.mp hys
      exact ⟨.cons (hread.mp hx) helems, congrArg Nat.succ hlen⟩
    · rintro ⟨helems, hlen⟩
      cases helems with
      | nil => cases hlen
      | cons hx hxs =>
        exact ⟨_, _, hread.mpr hx,
          textReader_map_iff.mpr ⟨_, ih.mpr ⟨hxs, Nat.succ.inj hlen⟩, rfl⟩⟩

/-- A sequence starts with a brace, and its commas are counted. -/
theorem beginSequence_iff {n : Nat} : beginSequence s = (.ok n, s') ↔
    s.Inside ∧ ∃ rest, s.rest.dropWhile isBlank = 123 :: rest ∧ n = commas rest + 1 ∧
      s' = { s with rest := rest } := by
  unfold beginSequence
  constructor
  · intro h
    obtain ⟨_, s₁, hcheck, h₁⟩ := textReader_bind_ok h
    obtain ⟨hinside, rfl⟩ := integrityCheck_iff.mp hcheck
    obtain ⟨_, s₂, hconsume, h₂⟩ := textReader_bind_ok h₁
    obtain ⟨rest, hrest, rfl⟩ := (consume_iff (by decide)).mp hconsume
    rw [textReader_bind get_eq] at h₂
    obtain ⟨rfl, rfl⟩ := textReader_pure_iff.mp h₂
    exact ⟨hinside, rest, hrest, rfl, rfl⟩
  · rintro ⟨hinside, rest, hrest, rfl, rfl⟩
    rw [textReader_bind (integrityCheck_iff.mpr ⟨hinside, rfl⟩), textReader_bind (consume_eq hrest),
      textReader_bind get_eq]
    rfl

/-- A sequence ends with a brace. -/
theorem endSequence_iff : endSequence s = (.ok (), s') ↔
    s.Inside ∧ ∃ rest, s.rest.dropWhile isBlank = 125 :: rest ∧ s' = { s with rest := rest } := by
  unfold endSequence
  rw [textReader_bind_iff]
  constructor
  · rintro ⟨_, s₁, hcheck, h⟩
    obtain ⟨hinside, rfl⟩ := integrityCheck_iff.mp hcheck
    exact ⟨hinside, (consume_iff (by decide)).mp h⟩
  · rintro ⟨hinside, h⟩
    exact ⟨(), s, integrityCheck_iff.mpr ⟨hinside, rfl⟩, (consume_iff (by decide)).mpr h⟩

/-- A sequence is its elements between braces. -/
theorem sequence_iff (hread : ∀ {s s' : TextSource} {x : α}, read s = (.ok x, s') ↔ elem s x s')
    {xs : List α} : sequence read s = (.ok xs, s') ↔ SequenceAt elem s xs s' := by
  unfold TextReader.sequence
  constructor
  · intro h
    obtain ⟨size, s₁, hbegin, h₁⟩ := textReader_bind_ok h
    obtain ⟨hinside, rest, hrest, rfl, rfl⟩ := beginSequence_iff.mp hbegin
    obtain ⟨ys, s₂, hys, h₂⟩ := textReader_bind_ok h₁
    obtain ⟨helems, hlen⟩ := (readMany_iff hread).mp hys
    obtain ⟨_, s₃, hend, h₃⟩ := textReader_bind_ok h₂
    obtain ⟨hinside', rest', hrest', rfl⟩ := endSequence_iff.mp hend
    obtain ⟨rfl, rfl⟩ := textReader_pure_iff.mp h₃
    exact .intro hinside hrest helems hlen hinside' hrest'
  · rintro ⟨hinside, hbegin, helems, hlen, hinside', hend⟩
    rw [textReader_bind (beginSequence_iff.mpr ⟨hinside, _, hbegin, rfl, rfl⟩),
      textReader_bind ((readMany_iff hread).mpr ⟨helems, hlen⟩),
      textReader_bind (endSequence_iff.mpr ⟨hinside', _, hend, rfl⟩)]
    rfl

/-- A pair is two values. -/
theorem stringPair_iff {x : Bytes × Bytes} :
    stringPair code s = (.ok x, s') ↔ PairAt code s x s' := by
  unfold stringPair PairAt
  rw [textReader_bind_iff]
  constructor
  · rintro ⟨first, s₁, hfirst, h⟩
    obtain ⟨second, hsecond, rfl⟩ := textReader_map_iff.mp h
    exact ⟨s₁, readValue_iff.mp hfirst, readValue_iff.mp hsecond⟩
  · rintro ⟨s₁, hfirst, hsecond⟩
    exact ⟨x.1, s₁, readValue_iff.mpr hfirst,
      textReader_map_iff.mpr ⟨x.2, readValue_iff.mpr hsecond, rfl⟩⟩

end TextReader

/-- A type that is read by code of its own. -/
theorem readText_external {t : PlainType} {x : PlainValue} : (do
      match ← code.read (.builtin (.plain t)) with
      | .plain x => return x
      | _ => throw (.undefined "value of another type") : TextReader PlainValue) s = (.ok x, s') ↔
    code.read (.builtin (.plain t)) s = (.ok (.plain x), s') := by
  rw [textReader_bind_iff]
  constructor
  · rintro ⟨value, s₁, hvalue, h⟩
    cases value with
    | plain y =>
      obtain ⟨rfl, rfl⟩ := textReader_pure_iff.mp h
      exact hvalue
    | _ => exact absurd h textReader_throw
  · intro h
    exact ⟨_, _, h, rfl⟩

/-- A plain value is what the grammar says. -/
theorem PlainType.readText_iff {t : PlainType} {x : PlainValue} :
    t.readText code s = (.ok x, s') ↔ PlainAt code s x s' t := by
  cases t with
  | primitive t =>
    refine textReader_map_iff.trans (exists_congr fun v => and_congr_left fun _ => ?_)
    exact readValue_iff
  | strvec =>
    refine textReader_map_iff.trans (exists_congr fun v => and_congr_left fun _ => ?_)
    exact sequence_iff readValue_iff
  | strset =>
    refine textReader_map_iff.trans (exists_congr fun v => and_congr_left fun _ => ?_)
    exact sequence_iff readValue_iff
  | strmap =>
    refine textReader_map_iff.trans (exists_congr fun v => and_congr_left fun _ => ?_)
    exact sequence_iff stringPair_iff
  | _ => exact readText_external

end BoostActor
