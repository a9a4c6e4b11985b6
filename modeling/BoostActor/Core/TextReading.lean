import BoostActor.Core.StringSerialization
import BoostActor.Core.TypeNames

/-!
# Reading text piece by piece

What the functions of `string_deserializer` do on a text whose first piece is known,
and what follows from their success.

* `OnlyMoves` — what a reader does besides moving over the text: nothing;
* `readValue_string` — a string is read back from its quotes, with any text behind
  them, if it does not end with a backslash;
* `readValue_string_ok` — no string that is read ends with one.
-/

namespace BoostActor

open Lib

variable {code : TextCode} {α β : Type} {s s' s'' : TextSource}

-- -------------------------
-- Programs over the text
-- -------------------------

/-- A sequence of readers, after the first one. -/
theorem textReader_bind {x : TextReader α} {f : α → TextReader β} {a : α}
    (h : x s = (.ok a, s')) : (x >>= f) s = f a s' := by
  show (ExceptT.bind x f) s = _
  unfold ExceptT.bind ExceptT.mk
  show (StateT.bind x _) s = _
  unfold StateT.bind
  rw [h]
  rfl

/-- A sequence of readers fails with the first one. -/
theorem textReader_bind_error {x : TextReader α} {f : α → TextReader β} {e : Fault}
    (h : x s = (.error e, s')) : (x >>= f) s = (.error e, s') := by
  show (ExceptT.bind x f) s = _
  unfold ExceptT.bind ExceptT.mk
  show (StateT.bind x _) s = _
  unfold StateT.bind
  rw [h]
  rfl

/-- A program succeeds if both its parts do. -/
theorem textReader_bind_ok {x : TextReader α} {f : α → TextReader β} {b : β}
    (h : (x >>= f) s = (.ok b, s'')) : ∃ a s', x s = (.ok a, s') ∧ f a s' = (.ok b, s'') := by
  cases hx : x s with
  | mk result s' =>
    cases result with
    | ok a => exact ⟨a, s', rfl, (textReader_bind hx).symm.trans h⟩
    | error e =>
      rw [textReader_bind_error hx] at h
      cases congrArg Prod.fst h

/-- The reader moves over the text and changes nothing else, also when it throws. -/
def OnlyMoves (x : TextReader α) : Prop := ∀ s, ∃ rest, (x s).2 = { s with rest := rest }

namespace OnlyMoves

variable {x : TextReader α} {f : α → TextReader β}

/-- The result of a reader that only moves. -/
theorem result {result : Except Fault α} (h : OnlyMoves x) (hx : x s = (result, s')) :
    ∃ rest, s' = { s with rest := rest } := by
  obtain ⟨rest, hrest⟩ := h s
  rw [hx] at hrest
  exact ⟨rest, hrest⟩

theorem pure (a : α) : OnlyMoves (Pure.pure a : TextReader α) := fun s => ⟨s.rest, rfl⟩

theorem throw (e : Fault) : OnlyMoves (MonadExcept.throw e : TextReader α) :=
  fun s => ⟨s.rest, rfl⟩

/-- One reader after another. -/
theorem bind (hx : OnlyMoves x) (hf : ∀ a, OnlyMoves (f a)) : OnlyMoves (x >>= f) := by
  intro s
  cases hxs : x s with
  | mk result s₁ =>
    obtain ⟨rest, rfl⟩ := hx.result hxs
    cases result with
    | error e =>
      rw [textReader_bind_error hxs]
      exact ⟨rest, rfl⟩
    | ok a =>
      rw [textReader_bind hxs]
      exact hf a _

theorem get : OnlyMoves (MonadState.get : TextReader TextSource) := fun s => ⟨s.rest, rfl⟩

theorem ofExcept (e : Except Fault α) : OnlyMoves (MonadExcept.ofExcept e : TextReader α) := by
  cases e with
  | error e => exact throw e
  | ok a => exact pure a

end OnlyMoves

namespace TextReader

-- -------------------------
-- Characters
-- -------------------------

theorem skip_eq : skipSpaceAndComma s =
    (.ok (), { s with rest := s.rest.dropWhile isBlank }) := rfl

theorem get_eq : (get : TextReader TextSource) s = (.ok s, s) := rfl

/-- `consume` finds its character. -/
theorem consume_eq {c : UInt8} {rest : Bytes} (h : s.rest.dropWhile isBlank = c :: rest) :
    consume c s = (.ok (), { s with rest := rest }) := by
  unfold consume
  rw [textReader_bind skip_eq, textReader_bind get_eq]
  unfold TextSource.cur
  rw [h, List.headD_cons, if_pos rfl]
  rfl

theorem skip_moves : OnlyMoves skipSpaceAndComma := fun _ => ⟨_, rfl⟩

theorem consume_moves (c : UInt8) : OnlyMoves (consume c) := by
  refine skip_moves.bind fun _ => OnlyMoves.get.bind fun s => ?_
  by_cases hc : s.cur = c
  · rw [if_pos hc]
    exact fun _ => ⟨_, rfl⟩
  · rw [if_neg hc]
    exact .throw _

/-- `consume` fails on another character. -/
theorem consume_error {c : UInt8} (h : (s.rest.dropWhile isBlank).headD 0 ≠ c) :
    ∃ e s', consume c s = (.error e, s') := by
  unfold consume
  rw [textReader_bind skip_eq, textReader_bind get_eq]
  exact ⟨_, _, congrFun (if_neg h) _⟩

/-- What was consumed was there. -/
theorem consume_ok {c : UInt8} (h : consume c s = (.ok (), s')) :
    (s.rest.dropWhile isBlank).headD 0 = c := by
  by_contra hne
  obtain ⟨e, s₁, herror⟩ := consume_error hne
  rw [herror] at h
  cases congrArg Prod.fst h

/-- `try_consume` finds its character. -/
theorem tryConsume_eq {c : UInt8} {rest : Bytes} (h : s.rest.dropWhile isBlank = c :: rest) :
    tryConsume c s = (.ok true, { s with rest := rest }) := by
  unfold tryConsume
  rw [textReader_bind skip_eq, textReader_bind get_eq]
  unfold TextSource.cur
  rw [h, List.headD_cons, if_pos rfl]
  rfl

/-- `try_consume` leaves another character. -/
theorem tryConsume_false {c : UInt8} (h : (s.rest.dropWhile isBlank).headD 0 ≠ c) :
    tryConsume c s = (.ok false, { s with rest := s.rest.dropWhile isBlank }) := by
  unfold tryConsume
  rw [textReader_bind skip_eq, textReader_bind get_eq]
  exact congrFun (if_neg h) _

end TextReader

/-- The innermost object has a left parenthesis and is not a node. -/
def TextSource.Open (s : TextSource) : Prop :=
  ∃ name outer, s.openObjects = (name, true) :: outer ∧ name ≠ ascii "@node"

namespace TextReader

/-- With an open object the check passes. -/
theorem integrityCheck_eq (h : s.Open) : integrityCheck s = (.ok (), s) := by
  obtain ⟨name, outer, hopen, -⟩ := h
  unfold integrityCheck
  rw [textReader_bind get_eq, hopen]
  rfl

theorem integrityCheck_moves : OnlyMoves integrityCheck := by
  refine OnlyMoves.get.bind fun s => ?_
  split
  · exact .throw _
  · split_ifs
    · exact .pure ()
    · exact .throw _

end TextReader

-- -------------------------
-- Quotes
-- -------------------------

/-- The last character is a backslash. -/
def EndsWithBackslash (str : Bytes) : Prop := str.getLast? = some 92

instance (str : Bytes) : Decidable (EndsWithBackslash str) :=
  inferInstanceAs (Decidable (str.getLast? = some 92))

theorem escape_cons (c : UInt8) (str : Bytes) :
    escape (c :: str) = (if c = 34 then [92, 34] else [c]) ++ escape str :=
  List.flatMap_cons

/-- No escaped string starts with a quote. -/
theorem head?_escape (str : Bytes) : (escape str).head? ≠ some 34 := by
  cases str with
  | nil => exact (Option.some_ne_none _).symm
  | cons c str =>
    rw [escape_cons]
    by_cases hc : c = 34
    · rw [if_pos hc]
      exact fun h => absurd (Option.some.inj h) (by decide)
    · rw [if_neg hc]
      exact fun h => hc (Option.some.inj h)

/-- The closing quote is found unless a backslash comes before it. -/
theorem untilQuote_escape {prev : UInt8} {str : Bytes} (rest : Bytes)
    (h : (prev :: str).getLast? ≠ some 92) :
    untilQuote 34 prev (escape str ++ 34 :: rest) = some (escape str, 34 :: rest) := by
  induction str generalizing prev with
  | nil =>
    have hprev : prev ≠ 92 := fun heq => h (congrArg some heq)
    exact if_pos ⟨hprev, rfl⟩
  | cons c str ih =>
    rw [List.getLast?_cons_cons] at h
    rw [escape_cons]
    by_cases hc : c = 34
    · -- the quote of the string comes behind the backslash that was written for it
      rw [if_pos hc]
      subst hc
      show untilQuote 34 prev (92 :: 34 :: (escape str ++ 34 :: rest)) = _
      rw [untilQuote, if_neg (fun hq => absurd hq.2 (by decide)), untilQuote,
        if_neg (fun hq => hq.1 rfl), ih h]
      rfl
    · rw [if_neg hc]
      show untilQuote 34 prev (c :: (escape str ++ 34 :: rest)) = _
      rw [untilQuote, if_neg (fun hq => hc hq.2), ih h]
      rfl

/-- A character that is no escape is kept. -/
theorem unescape_cons {needle c : UInt8} {cs : Bytes} (h : c ≠ 92 ∨ cs.head? ≠ some needle) :
    unescape needle (c :: cs) = c :: unescape needle cs := by
  cases cs with
  | nil => rfl
  | cons d cs =>
    rw [unescape, if_neg]
    rintro ⟨hc, hd⟩
    rcases h with h | h
    · exact h hc
    · exact h (congrArg some hd)

/-- Unescaping undoes the escaping. -/
theorem unescape_escape (str : Bytes) : unescape 34 (escape str) = str := by
  induction str with
  | nil => rfl
  | cons c str ih =>
    rw [escape_cons]
    by_cases hc : c = 34
    · rw [if_pos hc]
      show unescape 34 (92 :: 34 :: escape str) = _
      rw [unescape, if_pos ⟨rfl, rfl⟩, ih, hc]
    · rw [if_neg hc]
      show unescape 34 (c :: escape str) = _
      rw [unescape_cons (.inr (head?_escape str)), ih]

/-- Text without the quote is found and kept. -/
theorem untilQuote_plain {needle prev : UInt8} {str : Bytes} (rest : Bytes)
    (hstr : needle ∉ str) (h : (prev :: str).getLast? ≠ some 92) :
    untilQuote needle prev (str ++ needle :: rest) = some (str, needle :: rest) := by
  induction str generalizing prev with
  | nil =>
    have hprev : prev ≠ 92 := fun heq => h (congrArg some heq)
    exact if_pos ⟨hprev, rfl⟩
  | cons c str ih =>
    obtain ⟨hc, hstr⟩ := not_or.mp (List.mem_cons.not.mp hstr)
    rw [List.getLast?_cons_cons] at h
    rw [List.cons_append, untilQuote, if_neg (fun hq => hc hq.2.symm), ih hstr h]
    rfl

/-- A text without the quote has nothing to unescape. -/
theorem unescape_plain {needle : UInt8} {str : Bytes} (hstr : needle ∉ str) :
    unescape needle str = str := by
  induction str with
  | nil => rfl
  | cons c str ih =>
    obtain ⟨-, hstr⟩ := not_or.mp (List.mem_cons.not.mp hstr)
    have hhead : str.head? ≠ some needle := fun h => hstr (List.mem_of_head? h)
    rw [unescape_cons (.inr hhead), ih hstr]

/-- What is found before a closing quote does not end with a backslash. -/
theorem untilQuote_last {needle prev : UInt8} {cs sub rest : Bytes}
    (h : untilQuote needle prev cs = some (sub, rest)) : (prev :: sub).getLast? ≠ some 92 := by
  induction cs generalizing prev sub with
  | nil => cases h
  | cons c cs ih =>
    rw [untilQuote] at h
    split_ifs at h with hclose
    · cases h
      exact fun heq => hclose.1 (Option.some.inj heq)
    · obtain ⟨⟨sub', rest'⟩, hsub, heq⟩ := Option.map_eq_some_iff.mp h
      cases heq
      rw [List.getLast?_cons_cons]
      exact ih hsub

/-- Unescaping keeps the last character. -/
theorem unescape_last {needle : UInt8} (hneedle : needle ≠ 92) {sub : Bytes}
    (h : ¬ EndsWithBackslash sub) : ¬ EndsWithBackslash (unescape needle sub) := by
  induction sub using unescape.induct needle with
  | case1 => exact h
  | case2 c => exact h
  -- an escape is taken together with the character behind it
  | case3 c d cs hpair ih =>
    rw [unescape, if_pos hpair]
    cases cs with
    | nil => exact fun heq => hneedle (Option.some.inj heq)
    | cons e cs =>
      have hlast := ih (by rwa [EndsWithBackslash, List.getLast?_cons_cons,
        List.getLast?_cons_cons] at h)
      cases hu : unescape needle (e :: cs) with
      | nil => exact fun heq => hneedle (Option.some.inj heq)
      | cons f fs =>
        rw [hu] at hlast
        rwa [EndsWithBackslash, List.getLast?_cons_cons]
  | case4 c d cs hpair ih =>
    rw [unescape, if_neg hpair]
    have hlast := ih (by rwa [EndsWithBackslash, List.getLast?_cons_cons] at h)
    cases hu : unescape needle (d :: cs) with
    | nil =>
      -- something is left of a text that is not empty
      rw [unescape.eq_def] at hu
      split at hu
      · rename_i heq
        cases heq
      · cases hu
      · split_ifs at hu
    | cons f fs =>
      rw [hu] at hlast
      rwa [EndsWithBackslash, List.getLast?_cons_cons]

-- -------------------------
-- Values
-- -------------------------

namespace TextReader

/-- Reading up to the closing quote. -/
theorem quoted_eq {needle : UInt8} {cs sub rest : Bytes} (h : s.rest = needle :: cs)
    (hsub : untilQuote needle needle cs = some (sub, needle :: rest)) :
    quoted needle s = (.ok (unescape needle sub), { s with rest := rest }) := by
  have hcur : s.cur = needle := by
    unfold TextSource.cur
    rw [h]
    rfl
  unfold quoted
  rw [textReader_bind get_eq, if_neg (not_not_intro hcur), h, List.tail_cons, hsub]
  rfl

/-- Quoted text that is read ends with no backslash. -/
theorem quoted_ok {needle : UInt8} (hneedle : needle ≠ 92) {str : Bytes}
    (h : quoted needle s = (.ok str, s')) : ¬ EndsWithBackslash str := by
  unfold quoted at h
  rw [textReader_bind get_eq] at h
  split_ifs at h
  · cases congrArg Prod.fst h
  · cases hsub : untilQuote needle needle s.rest.tail with
    | none =>
      rw [hsub] at h
      cases congrArg Prod.fst h
    | some found =>
      obtain ⟨sub, rest⟩ := found
      rw [hsub] at h
      have hstr : unescape needle sub = str := Except.ok.inj (congrArg Prod.fst h)
      rw [← hstr]
      refine unescape_last hneedle fun hlast => untilQuote_last hsub ?_
      cases sub with
      | nil => cases hlast
      | cons c cs => rwa [List.getLast?_cons_cons]

/-- Reading up to the end of the value. -/
theorem unquoted_eq {cs rest : Bytes} (h : s.rest = cs ++ rest)
    (hcs : ∀ c ∈ cs, endsValue c = false) (hrest : ∃ c cs', rest = c :: cs' ∧ endsValue c = true) :
    unquoted s = (.ok cs, { s with rest := rest }) := by
  obtain ⟨c, cs', rfl, hc⟩ := hrest
  have hstop : ∀ d ∈ (c :: cs').head?, endsValue d = true := fun d hd => Option.some.inj hd ▸ hc
  have hdrop : s.rest.dropWhile (fun c => !endsValue c) = c :: cs' := by
    rw [h, dropWhile_until hcs hstop]
  have htake : s.rest.takeWhile (fun c => !endsValue c) = cs := by
    rw [h, takeWhile_until hcs hstop]
  unfold unquoted
  rw [textReader_bind get_eq]
  dsimp only
  rw [hdrop, htake]
  rfl

/-- What is read without quotes has no delimiter in it. -/
theorem unquoted_ok {str : Bytes} (h : unquoted s = (.ok str, s')) :
    str = s.rest.takeWhile fun c => !endsValue c := by
  unfold unquoted at h
  rw [textReader_bind get_eq] at h
  dsimp only at h
  split_ifs at h
  · cases congrArg Prod.fst h
  · exact (Except.ok.inj (congrArg Prod.fst h)).symm

/-- Quoted texts only move. -/
theorem quoted_moves (needle : UInt8) : OnlyMoves (quoted needle) := by
  intro s
  unfold quoted
  rw [textReader_bind get_eq]
  split_ifs
  · exact ⟨s.rest, rfl⟩
  · cases untilQuote needle needle s.rest.tail with
    | none => exact ⟨s.rest, rfl⟩
    | some found => exact ⟨found.2.tail, rfl⟩

/-- Unquoted texts only move. -/
theorem unquoted_moves : OnlyMoves unquoted := by
  intro s
  unfold unquoted
  rw [textReader_bind get_eq]
  dsimp only
  split_ifs
  · exact ⟨s.rest, rfl⟩
  · exact ⟨_, rfl⟩

/-- With a parenthesis there is no colon. -/
theorem skipColon_eq (h : s.Open) : skipColon s = (.ok (), s) := by
  obtain ⟨name, outer, hopen, hname⟩ := h
  have htop : ¬ s.top = ascii "@node" := by
    unfold TextSource.top
    rw [hopen]
    exact hname
  unfold skipColon
  rw [textReader_bind get_eq, if_neg htop]
  rfl

/-- A value is its text, converted. -/
theorem readValue_eq {t : PrimitiveType} {str : Bytes} {v : t.Val} (h : s.Open)
    (hstr : valueText t { s with rest := s.rest.dropWhile isBlank } = (.ok str, s'))
    (hv : fromStringReader code t str = .ok v) : readValue code t s = (.ok v, s') := by
  have hopen : TextSource.Open { s with rest := s.rest.dropWhile isBlank } := h
  unfold readValue
  rw [textReader_bind (integrityCheck_eq h), textReader_bind skip_eq,
    textReader_bind (skipColon_eq hopen), textReader_bind hstr, hv]
  rfl

/-- Values only move. -/
theorem readValue_moves (t : PrimitiveType) : OnlyMoves (readValue code t) := by
  have hcolon : OnlyMoves skipColon := by
    refine OnlyMoves.get.bind fun s => ?_
    split_ifs
    · exact consume_moves 58
    · exact .pure ()
  have htext : OnlyMoves (valueText t) := by
    unfold valueText
    split
    · exact quoted_moves _
    · exact unquoted_moves
  exact integrityCheck_moves.bind fun _ => skip_moves.bind fun _ => hcolon.bind fun _ =>
    htext.bind fun _ => .ofExcept _

/-- A value that is read was converted from some text. -/
theorem readValue_ok {t : PrimitiveType} {v : t.Val} (h : s.Open)
    (hread : readValue code t s = (.ok v, s')) :
    ∃ str, valueText t { s with rest := s.rest.dropWhile isBlank } = (.ok str, s') ∧
      fromStringReader code t str = .ok v := by
  have hopen : TextSource.Open { s with rest := s.rest.dropWhile isBlank } := h
  unfold readValue at hread
  rw [textReader_bind (integrityCheck_eq h), textReader_bind skip_eq,
    textReader_bind (skipColon_eq hopen)] at hread
  obtain ⟨str, s₁, hstr, hconv⟩ := textReader_bind_ok hread
  cases hv : fromStringReader code t str with
  | error e =>
    rw [hv] at hconv
    cases congrArg Prod.fst hconv
  | ok w =>
    rw [hv] at hconv
    have hstate : s₁ = s' := congrArg Prod.snd hconv
    have hvalue : w = v := Except.ok.inj (congrArg Prod.fst hconv)
    exact ⟨str, hstate ▸ hstr, hvalue ▸ hv⟩

/-- A string is read back from its quotes. -/
theorem readValue_string {str rest : Bytes} (h : s.Open)
    (hrest : s.rest.dropWhile isBlank = [34] ++ escape str ++ [34] ++ rest)
    (hstr : ¬ EndsWithBackslash str) :
    readValue code .string s = (.ok str, { s with rest := rest }) := by
  have hlast : ((34 : UInt8) :: str).getLast? ≠ some 92 := by
    cases str with
    | nil => decide
    | cons c cs => rwa [List.getLast?_cons_cons]
  have hsplit : s.rest.dropWhile isBlank = 34 :: (escape str ++ 34 :: rest) := by
    rw [hrest, List.append_assoc, List.append_assoc]
    rfl
  refine readValue_eq h (quoted_eq hsplit (untilQuote_escape rest hlast)) ?_
  rw [unescape_escape]
  rfl

/-- No string that is read ends with a backslash. -/
theorem readValue_string_ok {str : Bytes} (h : s.Open)
    (hread : readValue code .string s = (.ok str, s')) : ¬ EndsWithBackslash str := by
  obtain ⟨str', hstr, hconv⟩ := readValue_ok h hread
  obtain rfl : str' = str := Except.ok.inj hconv
  exact quoted_ok (by decide) hstr

end TextReader

end BoostActor
