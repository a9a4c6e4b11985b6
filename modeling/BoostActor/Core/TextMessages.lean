import BoostActor.Core.TextSequences

/-!
# Messages in a text

`from_string<message>` reads the text of a message twice: the first time for the type
it finds there, which is the tuple type of the elements, and then for a message around
it.

* `fromString_message_iff` — the text of a message is that of the same message if and
  only if all its elements are safe;
* `fromString_sequence_iff` — the same for a sequence of its own.
-/

namespace BoostActor

open Lib TextReader

variable {code : TextCode} {s s' : TextSource}

-- -------------------------
-- Type names
-- -------------------------

/-- A name that `begin_object` reads up to the next delimiter. -/
def Named (name : Bytes) : Prop :=
  (∀ c ∈ name, isDelimiter c = false) ∧
    ∃ c cs, name = c :: cs ∧ c ≠ 34 ∧ c ≠ 39 ∧ isDigit c = false

/-- The names of built-in types can be told from other texts. -/
theorem builtinTypes_text : ∀ entry ∈ builtinTypes, (∀ c ∈ entry.1, isDelimiter c = false) ∧
    entry.1.headD 34 ≠ 34 ∧ entry.1.headD 39 ≠ 39 ∧ isDigit (entry.1.headD 48) = false := by
  have hall : (builtinTypes.all fun entry => entry.1.all (!isDelimiter ·) &&
      entry.1.headD 34 != 34 && entry.1.headD 39 != 39 && !isDigit (entry.1.headD 48)) = true :=
    rfl
  intro entry hentry
  have htext := List.all_eq_true.mp hall entry hentry
  simp only [Bool.and_eq_true, List.all_eq_true, Bool.not_eq_true', bne_iff_ne] at htext
  obtain ⟨⟨⟨hchars, hquote⟩, happ⟩, hdigit⟩ := htext
  exact ⟨hchars, hquote, happ, hdigit⟩

/-- The name of a built-in type is a type name. -/
theorem named_builtin (b : Builtin) : Named b.name := by
  obtain ⟨hchars, hquote, happ, hdigit⟩ := builtinTypes_text _ b.name_mem
  cases hname : b.name with
  | nil =>
    rw [hname] at hquote
    exact absurd rfl hquote
  | cons c cs =>
    rw [hname] at hchars hquote happ hdigit
    exact ⟨hchars, c, cs, rfl, hquote, happ, hdigit⟩

/-- So is the name of a tuple. -/
theorem named_tupleName (bs : List Builtin) : Named (tupleName bs) := by
  refine ⟨fun c hc => ?_, 64, _, rfl, by decide⟩
  rcases List.mem_append.mp hc with hc | hc
  · have hprefix : tuplePrefix.all (fun c => !isDelimiter c) = true := rfl
    exact (Bool.not_eq_true' _).mp (List.all_eq_true.mp hprefix c hc)
  · obtain ⟨b, -, hb⟩ := List.mem_flatMap.mp hc
    rcases List.mem_cons.mp hb with rfl | hb
    · decide
    · exact (named_builtin b).1 c hb

theorem isDelimiter_of_isBlank {c : UInt8} (h : isBlank c = true) : isDelimiter c = true := by
  unfold isDelimiter
  rw [h, Bool.or_true]

/-- A name starts with neither a delimiter nor a blank. -/
theorem Named.start {name : Bytes} (h : Named name) :
    ∃ c cs, name = c :: cs ∧ isDelimiter c = false ∧ isBlank c = false := by
  obtain ⟨hchars, c, cs, rfl, -⟩ := h
  have hc := hchars c List.mem_cons_self
  refine ⟨c, cs, rfl, hc, ?_⟩
  cases hblank : isBlank c with
  | false => rfl
  | true =>
    rw [isDelimiter_of_isBlank hblank] at hc
    cases hc

namespace TextReader

/-- A type name is read up to the next delimiter. -/
theorem typeName_eq {name rest : Bytes} (hname : Named name) (hs : s.rest = name ++ rest)
    (hrest : ∀ c ∈ rest.head?, isDelimiter c = true) :
    typeName s = (.ok name, { s with rest := rest }) := by
  obtain ⟨hchars, c, cs, rfl, hquote, happ, hdigit⟩ := hname
  have hcur : s.cur = c := by
    unfold TextSource.cur
    rw [hs]
    rfl
  have htake : s.rest.takeWhile (fun d => !isDelimiter d) = c :: cs := by
    rw [hs, takeWhile_until hchars hrest]
  have hdrop : s.rest.dropWhile (fun d => !isDelimiter d) = rest := by
    rw [hs, dropWhile_until hchars hrest]
  unfold typeName
  rw [textReader_bind get_eq, if_neg (hcur ▸ hquote), if_neg (hcur ▸ happ),
    if_neg (by rw [hcur, hdigit]; exact Bool.false_ne_true)]
  dsimp only
  rw [htake, hdrop]
  rfl

/-- A digit starts a number. -/
theorem typeName_digit {c : UInt8} {rest : Bytes} (hc : isDigit c = true)
    (hs : s.rest = c :: rest) : typeName s = (.ok (ascii "@i32"), s) := by
  have hcur : s.cur = c := by
    unfold TextSource.cur
    rw [hs]
    rfl
  have hquote : c ≠ 34 := fun heq => absurd (heq ▸ hc) (by decide)
  have happ : c ≠ 39 := fun heq => absurd (heq ▸ hc) (by decide)
  unfold typeName
  rw [textReader_bind get_eq, hcur, if_neg hquote, if_neg happ, if_pos hc]
  rfl

/-- The name, the left parenthesis if there is one, and the type of that name. -/
theorem beginObject_name {name rest rest' : Bytes} {had : Bool} {t : Option TypeInfo}
    {types' : TypeMap} (hname : typeName { s with rest := s.rest.dropWhile isBlank } =
      (.ok name, { s with rest := rest }))
    (hparen : tryConsume 40 { s with rest := rest } = (.ok had, { s with rest := rest' }))
    (htype : s.types.byUniformName name = (t, types')) :
    beginObject s = (t.elim (.error (.runtimeError (ascii "read type name \"" ++ name ++
        ascii "\" but no such type is known"))) .ok,
      ⟨types', rest', (name, had) :: s.openObjects⟩) := by
  have hpush : (modify (fun s => { s with openObjects := (name, had) :: s.openObjects }) :
      TextReader Unit) { s with rest := rest' } =
      (.ok (), ⟨s.types, rest', (name, had) :: s.openObjects⟩) := rfl
  have hfound : byUniformName name ⟨s.types, rest', (name, had) :: s.openObjects⟩ =
      (.ok t, ⟨types', rest', (name, had) :: s.openObjects⟩) := by
    show (Except.ok (s.types.byUniformName name).1, _) = _
    rw [htype]
  unfold beginObject
  rw [textReader_bind skip_eq, textReader_bind hname, textReader_bind hparen,
    textReader_bind hpush, textReader_bind hfound]
  cases t with
  | none => rfl
  | some t => rfl

/-- An object starts with the name of its type. -/
theorem beginObject_eq {name rest rest' : Bytes} {had : Bool} {t : TypeInfo} {types' : TypeMap}
    (hname : Named name) (hs : s.rest.dropWhile isBlank = name ++ rest)
    (hrest : ∀ c ∈ rest.head?, isDelimiter c = true)
    (hparen : tryConsume 40 { s with rest := rest } = (.ok had, { s with rest := rest' }))
    (htype : s.types.byUniformName name = (some t, types')) :
    beginObject s = (.ok t, ⟨types', rest', (name, had) :: s.openObjects⟩) :=
  beginObject_name (typeName_eq hname hs hrest) hparen htype

/-- Before a text and a closing parenthesis. -/
theorem beginObject_builtin {b : Builtin} {rest : Bytes}
    (hs : s.rest.dropWhile isBlank = b.name ++ (ascii " ( " ++ rest)) :
    beginObject s =
      (.ok (.builtin b), ⟨s.types, ascii " " ++ rest, (b.name, true) :: s.openObjects⟩) :=
  beginObject_eq (named_builtin b) hs (fun _ hc => Option.some.inj hc ▸ by decide)
    (tryConsume_eq rfl) (TypeMap.lookup_name _ b)

end TextReader

-- -------------------------
-- Elements
-- -------------------------

/-- Reading a value moves through the text and keeps the open objects. -/
theorem PlainType.readText_moves (code : TextCode) {t : PlainType} (h : t.Embedded) :
    OnlyMoves (t.readText code) := by
  have hstring : OnlyMoves (readValue code .string) := readValue_moves .string
  cases t with
  | primitive t => exact (readValue_moves t).bind fun _ => .pure _
  | strvec => exact (sequence_moves hstring).bind fun _ => .pure _
  | strset => exact (sequence_moves hstring).bind fun _ => .pure _
  | strmap => exact (sequence_moves stringElement_pair.moves).bind fun _ => .pure _
  | _ => exact h.elim

variable {nested : TextReader (List Value)} {xs : List PlainValue} {safe : PlainValue → Prop}

/-- So does reading all elements. -/
theorem readTextAll_moves (code : TextCode) (nested : TextReader (List Value))
    (hxs : ∀ x ∈ xs, x.type.Embedded) :
    OnlyMoves (readTextAll code nested (elementsOf (elementBuiltins xs))) := by
  induction xs with
  | nil => exact .pure []
  | cons x xs ih =>
    have hx := PlainType.readText_moves code (hxs x List.mem_cons_self)
    have hrest := ih fun y hy => hxs y (List.mem_cons_of_mem x hy)
    exact (hx.bind fun _ => .pure _).bind fun _ => hrest.bind fun _ => .pure _

/-- Safe elements are read from their texts. -/
theorem readTextAll_reads (hxs : ∀ x ∈ xs, Restored code (safe x) x) (hsafe : ∀ x ∈ xs, safe x)
    {tail : Bytes} (hopen : xs ≠ [] → s.Open)
    (hs : Spells (xs.map (PlainValue.text code)) s.rest tail) :
    readTextAll code nested (elementsOf (elementBuiltins xs)) s =
      (.ok (xs.map .plain), { s with rest := tail }) := by
  induction xs generalizing s with
  | nil =>
    cases hs
    rfl
  | cons x xs ih =>
    obtain ⟨mid, hx, hrest⟩ := hs.head
    have hopen := hopen (List.cons_ne_nil x xs)
    have hread : TypeInfo.readText code nested (.builtin (.plain x.type)) s =
        (.ok (.plain x), { s with rest := mid }) :=
      textReader_bind ((hxs x List.mem_cons_self).reads (hsafe x List.mem_cons_self) hopen hx)
    have hreads := ih (fun y hy => hxs y (List.mem_cons_of_mem x hy))
      (fun y hy => hsafe y (List.mem_cons_of_mem x hy)) (s := { s with rest := mid })
      (fun _ => hopen) hrest
    exact (textReader_bind hread).trans (textReader_bind hreads)

/-- If the elements are read from their texts, they are safe. -/
theorem readTextAll_safe (hxs : ∀ x ∈ xs, Restored code (safe x) x) {tail : Bytes}
    (hopen : xs ≠ [] → s.Open) (hs : Spells (xs.map (PlainValue.text code)) s.rest tail)
    (h : readTextAll code nested (elementsOf (elementBuiltins xs)) s = (.ok (xs.map .plain), s')) :
    ∀ x ∈ xs, safe x := by
  induction xs generalizing s s' with
  | nil =>
    intro x hx
    cases hx
  | cons x xs ih =>
    obtain ⟨mid, hx, hrest⟩ := hs.head
    have hopen := hopen (List.cons_ne_nil x xs)
    -- the first element has been read, the rest is the induction
    obtain ⟨y, s₁, hy, h⟩ := textReader_bind_ok
      (x := TypeInfo.readText code nested (.builtin (.plain x.type))) h
    obtain ⟨ys, s₂, hys, h⟩ := textReader_bind_ok h
    obtain ⟨rfl, rfl⟩ := List.cons.inj (Except.ok.inj (congrArg Prod.fst h))
    obtain ⟨x', s₃, hx', hy⟩ := textReader_bind_ok (x := x.type.readText code) hy
    obtain rfl : s₃ = s₁ := congrArg Prod.snd hy
    rw [Value.plain.inj (Except.ok.inj (congrArg Prod.fst hy))] at hx'
    have hrestored := hxs x List.mem_cons_self
    have hsafe := hrestored.safe_of hopen hx hx'
    rw [hrestored.reads hsafe hopen hx] at hx'
    cases hx'
    have hall := ih (fun z hz => hxs z (List.mem_cons_of_mem x hz)) (s := { s with rest := mid })
      (fun _ => hopen) hrest hys
    intro z hz
    rcases List.mem_cons.mp hz with rfl | hz
    · exact hsafe
    · exact hall z hz

-- -------------------------
-- The object of a message
-- -------------------------

/-- What follows the type name of a message: its elements, and the closing parenthesis.
There is an opening one if there are elements. -/
theorem beginObject_tuple {rest : Bytes} (hk : s.types.Knows (elementBuiltins xs))
    (hs : s.rest.dropWhile isBlank =
      tupleName (elementBuiltins xs) ++ (bodyText code xs ++ rest)) :
    ∃ name types text tail had, TextReader.beginObject s =
        (.ok (.tuple name (elementsOf (elementBuiltins xs))),
          ⟨types, text, (tupleName (elementBuiltins xs), had) :: s.openObjects⟩) ∧
      s.types.SameKnown types ∧ (xs ≠ [] → had = true) ∧
      Spells (xs.map (PlainValue.text code)) text tail ∧ tail.dropWhile isBlank = 41 :: rest := by
  obtain ⟨name, types, htype, hsame⟩ := TypeMap.byUniformName_of_knows hk
  have hnamed := named_tupleName (elementBuiltins xs)
  -- without elements the writer leaves out the parenthesis
  by_cases hxs : xs = []
  · have hbody : bodyText code xs = ascii " )" := by
      rw [hxs]
      rfl
    rw [hbody] at hs
    refine ⟨name, types, 41 :: rest, 41 :: rest, false, ?_, hsame, fun h => absurd hxs h, ?_, rfl⟩
    · have hparen : ((ascii " )" ++ rest).dropWhile isBlank).headD 0 ≠ 40 := by
        have hhead : ((ascii " )" ++ rest).dropWhile isBlank).headD 0 = 41 := rfl
        rw [hhead]
        decide
      exact beginObject_eq hnamed hs (fun _ hc => Option.some.inj hc ▸ by decide)
        (tryConsume_false hparen) htype
    · rw [hxs]
      exact .nil _
  · have hbody : bodyText code xs ++ rest = ascii " ( " ++
        (joined (xs.map (PlainValue.text code)) ++ (ascii " )" ++ rest)) := by
      unfold bodyText
      rw [if_neg (by rwa [List.isEmpty_iff]), List.append_assoc, List.append_assoc]
    rw [hbody] at hs
    refine ⟨name, types, ascii " " ++ (joined (xs.map (PlainValue.text code)) ++
      (ascii " )" ++ rest)), ascii " )" ++ rest, true, ?_, hsame, fun _ => rfl, ?_, rfl⟩
    · exact beginObject_eq hnamed hs (fun _ hc => Option.some.inj hc ▸ by decide)
        (tryConsume_eq rfl) htype
    · exact Spells.joined (fun h => hxs (List.map_eq_nil_iff.mp h))
        isBlank_space ⟨32, _, rfl, by decide⟩

/-- The object of a message is open for its elements. -/
theorem open_tuple (types : TypeMap) (text : Bytes) (outer : List (Bytes × Bool)) {had : Bool}
    (h : xs ≠ [] → had = true) :
    xs ≠ [] → TextSource.Open ⟨types, text, (tupleName (elementBuiltins xs), had) :: outer⟩ := by
  intro hxs
  refine ⟨_, outer, congrArg (fun had => (_, had) :: outer) (h hxs), fun heq => ?_⟩
  have hprefix := take_tupleName (elementBuiltins xs)
  rw [heq] at hprefix
  exact absurd hprefix (by decide)

/-- An object inside another one ends with its parenthesis. -/
theorem endObject_inner {name : Bytes} {had : Bool} {outer : List (Bytes × Bool)} {rest : Bytes}
    (hopen : s.openObjects = (name, had) :: outer) (houter : outer ≠ [])
    (hs : s.rest.dropWhile isBlank = 41 :: rest) : ∃ s', endObject s = (.ok (), s') := by
  have hempty : outer.isEmpty = false := by rwa [List.isEmpty_eq_false_iff]
  unfold TextReader.endObject
  rw [textReader_bind get_eq, hopen]
  dsimp only
  rw [hempty]
  cases had with
  | false => exact ⟨_, rfl⟩
  | true =>
    rw [if_pos rfl, textReader_bind (consume_eq hs)]
    exact ⟨_, rfl⟩

/-- A message inside another object. -/
theorem readTextMessage_reads {depth : Nat} {rest : Bytes}
    (hxs : ∀ x ∈ xs, Restored code (safe x) x) (hsafe : ∀ x ∈ xs, safe x)
    (hk : s.types.Knows (elementBuiltins xs))
    (hs : s.rest.dropWhile isBlank =
      tupleName (elementBuiltins xs) ++ (bodyText code xs ++ rest))
    (houter : s.openObjects ≠ []) :
    ∃ s', readTextMessage code (depth + 1) s = (.ok (xs.map .plain), s') := by
  obtain ⟨name, types, text, tail, had, hbegin, -, hhad, hspells, htail⟩ := beginObject_tuple hk hs
  have hcomplete : (TypeInfo.tuple name (elementsOf (elementBuiltins xs))).complete = true :=
    allComplete_elementsOf _
  have hopen := open_tuple types text s.openObjects hhad
  have helements : TypeInfo.readText code (readTextMessage code depth)
      (.tuple name (elementsOf (elementBuiltins xs)))
      ⟨types, text, (tupleName (elementBuiltins xs), had) :: s.openObjects⟩ =
      (.ok (.tuple name (xs.map .plain)),
        ⟨types, tail, (tupleName (elementBuiltins xs), had) :: s.openObjects⟩) :=
    textReader_bind (readTextAll_reads hxs hsafe hopen hspells)
  obtain ⟨s', hend⟩ := endObject_inner
    (s := ⟨types, tail, (tupleName (elementBuiltins xs), had) :: s.openObjects⟩) rfl houter htail
  refine ⟨s', ?_⟩
  unfold readTextMessage
  rw [textReader_bind hbegin, if_pos hcomplete, textReader_bind helements, textReader_bind hend]
  rfl

/-- If a message is read back, its elements can be. -/
theorem readTextMessage_safe {depth : Nat} {rest : Bytes}
    (hxs : ∀ x ∈ xs, Restored code (safe x) x) (hk : s.types.Knows (elementBuiltins xs))
    (hs : s.rest.dropWhile isBlank =
      tupleName (elementBuiltins xs) ++ (bodyText code xs ++ rest))
    (h : readTextMessage code (depth + 1) s = (.ok (xs.map .plain), s')) : ∀ x ∈ xs, safe x := by
  obtain ⟨name, types, text, tail, had, hbegin, -, hhad, hspells, htail⟩ := beginObject_tuple hk hs
  have hcomplete : (TypeInfo.tuple name (elementsOf (elementBuiltins xs))).complete = true :=
    allComplete_elementsOf _
  unfold readTextMessage at h
  rw [textReader_bind hbegin, if_pos hcomplete] at h
  obtain ⟨value, s₁, hvalue, h⟩ := textReader_bind_ok h
  obtain ⟨ys, s₂, hys, hvalue⟩ := textReader_bind_ok
    (x := readTextAll code (readTextMessage code depth) (elementsOf (elementBuiltins xs))) hvalue
  obtain rfl : Value.tuple name ys = value := Except.ok.inj (congrArg Prod.fst hvalue)
  obtain ⟨_, s₃, -, h⟩ := textReader_bind_ok h
  obtain rfl : ys = xs.map .plain := Except.ok.inj (congrArg Prod.fst h)
  exact readTextAll_safe hxs (open_tuple types text s.openObjects hhad) hspells hys

-- -------------------------
-- Attempts
-- -------------------------

section

variable {types : TypeMap} {what : Bytes}

/-- An object that is read to its end. -/
theorem fromStringImpl_ok {uv : TypeInfo × Value}
    (h : readObject code (what.length + 1) ⟨types, what, []⟩ = (.ok uv, s)) :
    fromStringImpl code what types = (.ok (some uv), s.types) := by
  unfold fromStringImpl
  rw [h]

/-- There is no value after an exception. -/
theorem fromStringImpl_error {e : Fault}
    (h : readObject code (what.length + 1) ⟨types, what, []⟩ = (.error e, s)) :
    ∃ result, fromStringImpl code what types = (result, s.types) ∧
      ∀ uv, result = .ok uv → uv = none := by
  unfold fromStringImpl
  rw [h]
  cases e with
  | runtimeError what => exact ⟨.ok none, rfl, fun _ huv => (Except.ok.inj huv).symm⟩
  | outOfRange what => exact ⟨.error _, rfl, fun _ huv => nomatch huv⟩
  | invalidArgument what => exact ⟨.error _, rfl, fun _ huv => nomatch huv⟩
  | badGet => exact ⟨.error _, rfl, fun _ huv => nomatch huv⟩
  | undefined what => exact ⟨.error _, rfl, fun _ huv => nomatch huv⟩

/-- What the reader throws as a runtime error is caught. -/
theorem fromStringImpl_runtimeError {text : Bytes}
    (h : readObject code (what.length + 1) ⟨types, what, []⟩ = (.error (.runtimeError text), s)) :
    fromStringImpl code what types = (.ok none, s.types) := by
  unfold fromStringImpl
  rw [h]

theorem fromString_error {b : Builtin} {e : Fault} {types₁ : TypeMap}
    (h : fromStringImpl code what types = (.error e, types₁)) :
    (fromString code b what types).1 = .error e := by
  unfold fromString
  rw [h]

/-- The first attempt gives a value of the type. -/
theorem fromString_first {b : Builtin} {uv : Option (TypeInfo × Value)} {types₁ : TypeMap}
    {x : Value} (h : fromStringImpl code what types = (.ok uv, types₁))
    (hx : ofType b uv = some x) : (fromString code b what types).1 = .ok (some x) := by
  unfold fromString
  rw [h]
  dsimp only
  rw [hx]

/-- Where the first attempt finds no value of the type, the second one decides. -/
theorem fromString_second {b : Builtin} {uv : Option (TypeInfo × Value)} {types₁ : TypeMap}
    {x : Option Value} (h : fromStringImpl code what types = (.ok uv, types₁))
    (hnone : ofType b uv = none) :
    (fromString code b what types).1 = .ok x ↔ ∃ uv' types', fromStringImpl code
      (b.name ++ ascii " ( " ++ what ++ ascii " )") types₁ = (.ok uv', types') ∧
        ofType b uv' = x := by
  unfold fromString
  rw [h]
  dsimp only
  rw [hnone]
  dsimp only
  cases fromStringImpl code (b.name ++ ascii " ( " ++ what ++ ascii " )") types₁ with
  | mk result types' =>
    cases result with
    | error e =>
      constructor
      · intro heq
        cases heq
      · rintro ⟨uv', types₂, heq, -⟩
        cases heq
    | ok uv' =>
      constructor
      · intro heq
        exact ⟨uv', types', rfl, Except.ok.inj heq⟩
      · rintro ⟨uv₂, types₂, heq, hx⟩
        cases heq
        exact congrArg Except.ok hx

/-- What is read of the type that was found. -/
theorem readObject_eq {depth : Nat} {s₁ s₂ : TextSource} {t : TypeInfo}
    {result : Except Fault Value}
    (hbegin : TextReader.beginObject s = (.ok t, s₁)) (hcomplete : t.complete = true)
    (hread : t.readText code (readTextMessage code depth) s₁ = (result, s₂)) :
    readObject code depth s = (result.map fun x => (t, x), s₂) := by
  unfold readObject
  rw [textReader_bind hbegin, if_pos hcomplete]
  cases result with
  | error e => exact textReader_bind_error hread
  | ok x => exact textReader_bind hread

/-- The first attempt finds the tuple type, which is not the type of messages. -/
theorem fromStringImpl_tuple (hk : types.Knows (elementBuiltins xs))
    (hxs : ∀ x ∈ xs, Restored code (safe x) x) :
    ∃ result types₁, fromStringImpl code
        (tupleName (elementBuiltins xs) ++ bodyText code xs) types = (result, types₁) ∧
      types.SameKnown types₁ ∧ (∀ uv, result = .ok uv → ofType .message uv = none) ∧
      ((∀ x ∈ xs, safe x) → ∃ uv, result = .ok uv) := by
  have hstart : (tupleName (elementBuiltins xs) ++ bodyText code xs).dropWhile isBlank =
      tupleName (elementBuiltins xs) ++ (bodyText code xs ++ []) := by
    rw [List.append_nil]
    rfl
  obtain ⟨name, types₁, text, tail, had, hbegin, hsame, hhad, hspells, -⟩ :=
    beginObject_tuple (s := ⟨types, _, []⟩) hk hstart
  have hcomplete : (TypeInfo.tuple name (elementsOf (elementBuiltins xs))).complete = true :=
    allComplete_elementsOf _
  have hopen := open_tuple types₁ text [] hhad
  have hmoves := readTextAll_moves code (readTextMessage code
    ((tupleName (elementBuiltins xs) ++ bodyText code xs).length + 1))
    fun x hx => (hxs x hx).embedded
  cases hread : readTextAll code (readTextMessage code
      ((tupleName (elementBuiltins xs) ++ bodyText code xs).length + 1))
      (elementsOf (elementBuiltins xs))
      ⟨types₁, text, [(tupleName (elementBuiltins xs), had)]⟩ with
  | mk result s₁ =>
    obtain ⟨rest, rfl⟩ := hmoves.result hread
    cases result with
    -- an error leaves the first attempt without a value
    | error e =>
      obtain ⟨result, hresult, hnone⟩ := fromStringImpl_error
        (readObject_eq hbegin hcomplete (textReader_bind_error hread))
      refine ⟨result, types₁, hresult, hsame, fun uv huv => ?_, fun hsafe => ?_⟩
      · rw [hnone uv huv]
        rfl
      · rw [readTextAll_reads hxs hsafe hopen hspells] at hread
        cases congrArg Prod.fst hread
    | ok ys =>
      have hok := fromStringImpl_ok (readObject_eq hbegin hcomplete (textReader_bind hread))
      exact ⟨_, types₁, hok, hsame, fun uv huv => Except.ok.inj huv ▸ rfl, fun _ => ⟨_, rfl⟩⟩

/-- The name of a builtin type in front of a text in parentheses. -/
theorem readObject_builtin {b : Builtin} {depth : Nat} {result : Except Fault Value}
    (hread : TypeInfo.readText code (readTextMessage code depth) (.builtin b)
      ⟨types, ascii " " ++ (what ++ ascii " )"), [(b.name, true)]⟩ = (result, s)) :
    readObject code depth ⟨types, b.name ++ ascii " ( " ++ what ++ ascii " )", []⟩ =
      (result.map fun x => (.builtin b, x), s) := by
  have hstart : (b.name ++ ascii " ( " ++ what ++ ascii " )").dropWhile isBlank =
      b.name ++ (ascii " ( " ++ (what ++ ascii " )")) := by
    obtain ⟨c, cs, hname, -, hc⟩ := (named_builtin b).start
    rw [List.append_assoc, List.append_assoc, hname]
    exact dropWhile_of_head hc
  exact readObject_eq (beginObject_builtin (s := ⟨types, _, []⟩) hstart) rfl hread

/-- The value of a built-in type that is read to its end. -/
theorem fromStringImpl_builtin {b : Builtin} {x : Value}
    (hread : TypeInfo.readText code
      (readTextMessage code ((b.name ++ ascii " ( " ++ what ++ ascii " )").length + 1)) (.builtin b)
      ⟨types, ascii " " ++ (what ++ ascii " )"), [(b.name, true)]⟩ = (.ok x, s)) :
    fromStringImpl code (b.name ++ ascii " ( " ++ what ++ ascii " )") types =
      (.ok (some (.builtin b, x)), s.types) :=
  fromStringImpl_ok (readObject_builtin hread)

theorem fromStringImpl_builtin_error {b : Builtin} {e : Fault}
    (hread : TypeInfo.readText code
      (readTextMessage code ((b.name ++ ascii " ( " ++ what ++ ascii " )").length + 1)) (.builtin b)
      ⟨types, ascii " " ++ (what ++ ascii " )"), [(b.name, true)]⟩ = (.error e, s)) :
    ∃ result, fromStringImpl code (b.name ++ ascii " ( " ++ what ++ ascii " )") types =
      (result, s.types) ∧ ∀ uv, result = .ok uv → uv = none :=
  fromStringImpl_error (readObject_builtin hread)

/-- The second attempt reads a message. -/
theorem fromStringImpl_message {ys : List Value} :
    (∃ uv types', fromStringImpl code (Builtin.message.name ++ ascii " ( " ++ what ++ ascii " )")
        types = (.ok uv, types') ∧ ofType .message uv = some (.message ys)) ↔
      ∃ s', readTextMessage code
        ((Builtin.message.name ++ ascii " ( " ++ what ++ ascii " )").length + 1)
        ⟨types, ascii " " ++ (what ++ ascii " )"), [(Builtin.message.name, true)]⟩ =
          (.ok ys, s') := by
  cases hread : readTextMessage code
      ((Builtin.message.name ++ ascii " ( " ++ what ++ ascii " )").length + 1)
      ⟨types, ascii " " ++ (what ++ ascii " )"), [(Builtin.message.name, true)]⟩ with
  | mk result s₁ =>
    cases result with
    | error e =>
      obtain ⟨result, hresult, hnone⟩ := fromStringImpl_builtin_error (b := .message)
        (textReader_bind_error hread)
      constructor
      · rintro ⟨uv, types', hok, hvalue⟩
        rw [hresult] at hok
        obtain rfl := hnone uv (Prod.mk.inj hok).1
        cases hvalue
      · rintro ⟨s', h⟩
        cases congrArg Prod.fst h
    | ok zs =>
      have hok := fromStringImpl_builtin (b := .message) (textReader_bind hread)
      constructor
      · rintro ⟨uv, types', hok', hvalue⟩
        rw [hok] at hok'
        cases hok'
        cases hvalue
        exact ⟨s₁, rfl⟩
      · rintro ⟨s', h⟩
        cases h
        exact ⟨_, _, hok, rfl⟩

/-- A message comes back exactly if all of its elements are safe. -/
theorem fromString_message_iff (hk : types.Knows (elementBuiltins xs))
    (hxs : ∀ x ∈ xs, Restored code (safe x) x) :
    (fromString code .message (tupleName (elementBuiltins xs) ++ bodyText code xs) types).1 =
      .ok (some (.message (xs.map .plain))) ↔ ∀ x ∈ xs, safe x := by
  obtain ⟨result, types₁, hfirst, hsame, hother, hok⟩ := fromStringImpl_tuple hk hxs
  have hk₁ := (hsame (elementBuiltins xs)).mpr hk
  have hstart : (ascii " " ++ (tupleName (elementBuiltins xs) ++ bodyText code xs ++
      ascii " )")).dropWhile isBlank =
      tupleName (elementBuiltins xs) ++ (bodyText code xs ++ ascii " )") := by
    rw [List.append_assoc]
    rfl
  -- the second attempt reads the same text inside `@message`
  cases result with
  | error e =>
    rw [fromString_error hfirst]
    constructor
    · intro h
      cases h
    · intro hsafe
      obtain ⟨uv, huv⟩ := hok hsafe
      cases huv
  | ok uv =>
    rw [fromString_second hfirst (hother uv rfl), fromStringImpl_message]
    constructor
    · rintro ⟨s', hread⟩
      exact readTextMessage_safe hxs hk₁ hstart hread
    · intro hsafe
      exact readTextMessage_reads hxs hsafe hk₁ hstart (List.cons_ne_nil _ _)

-- -------------------------
-- Sequences of their own
-- -------------------------

/-- The object of a value that is written with its name. -/
theorem open_builtin {t : PlainType} (h : t.Embedded) (types : TypeMap) (text : Bytes) :
    TextSource.Open ⟨types, text, [((Builtin.plain t).name, true)]⟩ := by
  refine ⟨_, [], rfl, fun hname => ?_⟩
  have hnode : Builtin.plain t = .plain .node := Builtin.name_injective hname
  rw [Builtin.plain.inj hnode] at h
  exact h

/-- Around the text of a sequence, the name is found where a brace has to be. -/
theorem fromStringImpl_twice (code : TextCode) (types : TypeMap) (what : Bytes) {t : PlainType}
    (ht : t.isSequence = true) (h : t.Embedded) :
    ∃ result types', fromStringImpl code ((Builtin.plain t).name ++ ascii " ( " ++
        ((Builtin.plain t).name ++ ascii " ( " ++ what ++ ascii " )") ++ ascii " )") types =
        (result, types') ∧ ∀ uv, result = .ok uv → uv = none := by
  have hhead : ((ascii " " ++ (((Builtin.plain t).name ++ ascii " ( " ++ what ++ ascii " )") ++
      ascii " )")).dropWhile isBlank).headD 0 ≠ 123 := by
    obtain ⟨c, cs, hname, hdelimiter, hblank⟩ := (named_builtin (.plain t)).start
    rw [hname]
    show ((c :: _).dropWhile isBlank).headD 0 ≠ 123
    rw [dropWhile_of_head hblank]
    intro hbrace
    obtain rfl : c = 123 := hbrace
    exact absurd hdelimiter (by decide)
  cases hread : t.readText code ⟨types, ascii " " ++ (((Builtin.plain t).name ++ ascii " ( " ++
      what ++ ascii " )") ++ ascii " )"), [((Builtin.plain t).name, true)]⟩ with
  | mk result s₁ =>
    cases result with
    | ok y => exact absurd (PlainType.readText_starts ht (open_builtin h _ _) hread) hhead
    | error e =>
      obtain ⟨result, hresult, hnone⟩ := fromStringImpl_builtin_error (b := .plain t)
        (textReader_bind_error hread)
      exact ⟨result, _, hresult, hnone⟩

/-- A sequence is read from its own text, or not at all. -/
theorem fromString_sequence_iff (types : TypeMap) {x : PlainValue} {safe : Prop}
    (hx : Restored code safe x) (hsequence : x.type.isSequence = true) :
    (fromString code (.plain x.type) ((Builtin.plain x.type).name ++ ascii " ( " ++ x.text code ++
      ascii " )") types).1 = .ok (some (.plain x)) ↔ safe := by
  have hopen := open_builtin hx.embedded
  have hspells : Spells [x.text code] (ascii " " ++ (x.text code ++ ascii " )")) (ascii " )") :=
    .cons isBlank_space ⟨32, _, rfl, by decide⟩ (.nil _)
  cases hread : x.type.readText code ⟨types, ascii " " ++ (x.text code ++ ascii " )"),
      [((Builtin.plain x.type).name, true)]⟩ with
  | mk result s₁ =>
    cases result with
    -- the first attempt reads the value itself
    | ok y =>
      have hfirst := fromStringImpl_builtin (b := .plain x.type) (textReader_bind hread)
      rw [fromString_first hfirst (if_pos rfl)]
      constructor
      · intro heq
        obtain rfl : y = x := Value.plain.inj (Option.some.inj (Except.ok.inj heq))
        exact hx.safe_of (hopen _ _) hspells hread
      · intro hsafe
        rw [hx.reads hsafe (hopen _ _) hspells] at hread
        rw [Except.ok.inj (congrArg Prod.fst hread)]
    | error e =>
      have hunsafe : ¬ safe := by
        intro hsafe
        rw [hx.reads hsafe (hopen _ _) hspells] at hread
        cases congrArg Prod.fst hread
      refine iff_of_false (fun h => ?_) hunsafe
      obtain ⟨result, hresult, hnone⟩ := fromStringImpl_builtin_error (b := .plain x.type)
        (textReader_bind_error hread)
      cases result with
      | error e =>
        rw [fromString_error hresult] at h
        cases h
      | ok uv =>
        obtain rfl := hnone uv rfl
        -- the second attempt finds the name of the type where a brace has to be
        obtain ⟨uv', types', himpl, hvalue⟩ := (fromString_second hresult rfl).mp h
        obtain ⟨result, types₂, hresult₂, hnone₂⟩ := fromStringImpl_twice code s₁.types
          (x.text code) hsequence hx.embedded
        rw [hresult₂] at himpl
        obtain rfl := hnone₂ uv' (Prod.mk.inj himpl).1
        cases hvalue

end

end BoostActor
