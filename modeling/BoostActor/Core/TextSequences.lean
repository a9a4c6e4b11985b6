import BoostActor.Core.TextElements

/-!
# Sequences in a text

The text of a sequence does not say how many elements there are. The reader counts
the commas up to the next closing brace, which may be in an element.

* `commas_sequence` — what the reader counts;
* `restored_strvec`, `restored_strset`, `restored_strmap` — a sequence is read back if
  and only if that is the number of its elements and no string ends with a backslash.
-/

namespace BoostActor

open Lib TextReader

variable {code : TextCode} {s s' : TextSource} {α : Type}

-- -------------------------
-- Counting
-- -------------------------

/-- The commas up to the next closing brace. -/
def commas (text : Bytes) : Nat := (text.takeWhile fun c => c ≠ 125).count 44

/-- The commas inside the strings, up to the first closing brace in one. -/
def innerCommas : List Bytes → Nat
  | [] => 0
  | str :: strs => if 125 ∈ str then commas str else str.count 44 + innerCommas strs

/-- The number of strings behind the first one with a closing brace. -/
def behindBrace : List Bytes → Nat
  | [] => 0
  | str :: strs => if 125 ∈ str then strs.length else behindBrace strs

/-- The reader finds the number of elements of a sequence of these strings. -/
def Counted (size : Nat) (strs : List Bytes) : Prop :=
  strs ≠ [] ∧ strs.length + innerCommas strs = size + behindBrace strs

instance (size : Nat) (strs : List Bytes) : Decidable (Counted size strs) :=
  inferInstanceAs (Decidable (_ ∧ _))

-- -------------------------
-- Counting commas
-- -------------------------

/-- The commas of a text without a brace. -/
theorem commas_of_not_mem {text : Bytes} (h : 125 ∉ text) (rest : Bytes) :
    commas (text ++ rest) = text.count 44 + commas rest := by
  have hall : ∀ c ∈ text, decide (c ≠ 125) = true := fun c hc =>
    decide_eq_true fun heq => h (heq ▸ hc)
  unfold commas
  rw [List.takeWhile_append_of_pos hall, List.count_append]

/-- The brace, or a character that counts if it is a comma. -/
theorem commas_cons (c : UInt8) (rest : Bytes) :
    commas (c :: rest) = if c = 125 then 0 else [c].count 44 + commas rest := by
  split_ifs with hc
  · rw [hc]
    rfl
  · exact commas_of_not_mem (fun h => hc (List.mem_singleton.mp h).symm) rest

/-- Escaping adds nothing that is counted. -/
theorem commas_escape (str rest : Bytes) : commas (escape str ++ rest) =
    if 125 ∈ str then commas str else str.count 44 + commas rest := by
  -- a brace inside a string ends the count early
  induction str with
  | nil => exact (Nat.zero_add _).symm
  | cons c cs ih =>
    have hchar : commas ((if c = 34 then [92, 34] else [c]) ++ (escape cs ++ rest)) =
        if c = 125 then 0 else [c].count 44 + commas (escape cs ++ rest) := by
      by_cases hq : c = 34
      · subst hq
        exact commas_of_not_mem (by decide) _
      · rw [if_neg hq]
        exact commas_cons c _
    have hcount : (c :: cs).count 44 = [c].count 44 + cs.count 44 := by
      rw [← List.count_append]
      rfl
    rw [escape_cons, List.append_assoc, hchar, commas_cons, hcount, ih]
    by_cases hc : c = 125
    · rw [if_pos hc, if_pos hc, hc, if_pos List.mem_cons_self]
    · have hmem : 125 ∈ c :: cs ↔ 125 ∈ cs := by
        rw [List.mem_cons, or_iff_right (Ne.symm hc)]
      rw [if_neg hc, if_neg hc]
      simp only [hmem]
      split_ifs
      · rfl
      · exact (Nat.add_assoc _ _ _).symm

/-- The commas of a string in quotes. -/
theorem commas_quote (str rest : Bytes) : commas (quote str ++ rest) =
    if 125 ∈ str then commas str else str.count 44 + commas rest := by
  have hsplit : quote str ++ rest = [34] ++ (escape str ++ ([34] ++ rest)) := by
    unfold quote
    rw [List.append_assoc, List.append_assoc]
  have hquote : ∀ text, commas ([34] ++ text) = commas text := fun text =>
    (commas_of_not_mem (by decide) text).trans (Nat.zero_add _)
  rw [hsplit, hquote, commas_escape, hquote]

/-- Each string has a comma before it, and the commas in it count as well. -/
theorem commas_flatMap (strs : List Bytes) (rest : Bytes) :
    commas (strs.flatMap (fun str => ascii ", " ++ quote str) ++ (ascii " \x7d" ++ rest)) +
      behindBrace strs = strs.length + innerCommas strs := by
  induction strs with
  | nil => rfl
  | cons str strs ih =>
    rw [List.flatMap_cons, List.append_assoc, List.append_assoc, commas_of_not_mem (by decide),
      commas_quote, List.length_cons, behindBrace, innerCommas]
    have hcomma : (ascii ", ").count 44 = 1 := by decide
    rw [hcomma]
    split_ifs
    · omega
    · omega

/-- What the reader counts between the braces of a sequence that is not empty. -/
theorem commas_sequence {strs : List Bytes} (hne : strs ≠ []) (rest : Bytes) :
    commas (joined (strs.map quote) ++ (ascii " \x7d" ++ rest)) + 1 + behindBrace strs =
      strs.length + innerCommas strs := by
  cases strs with
  | nil => exact absurd rfl hne
  | cons str strs =>
    have hbehind := commas_flatMap strs rest
    rw [List.map_cons, joined_cons, List.flatMap_map, List.append_assoc, commas_quote,
      List.length_cons, behindBrace, innerCommas]
    split_ifs
    · omega
    · omega

-- -------------------------
-- Elements
-- -------------------------

/-- Strings are read one after the other, or two at a time. -/
structure StringElement (code : TextCode) (elem : TextReader α) (strings : α → List Bytes) :
    Prop where
  some : ∀ a, strings a ≠ []
  moves : OnlyMoves elem
  starts : ∀ {s s' : TextSource} {a}, s.Open → elem s = (.ok a, s') →
    (s.rest.dropWhile isBlank).headD 0 = 34
  safe : ∀ {s s' : TextSource} {a}, s.Open → elem s = (.ok a, s') →
    ∀ str ∈ strings a, ¬ EndsWithBackslash str
  reads : ∀ {s : TextSource} {a tail}, s.Open → Spells ((strings a).map quote) s.rest tail →
    (∀ str ∈ strings a, ¬ EndsWithBackslash str) → elem s = (.ok a, { s with rest := tail })

/-- A spelled string starts with its quote. -/
theorem Spells.dropWhile_quote {str all tail : Bytes} {strs : List Bytes}
    (h : Spells (quote str :: strs) all tail) : (all.dropWhile isBlank).headD 0 = 34 := by
  obtain ⟨mid, hstr, -⟩ := h.head
  rw [(hstr.dropWhile_isBlank ⟨34, escape str ++ [34], rfl, by decide⟩).1]
  rfl

/-- A string that is read starts with a quote. -/
theorem readValue_string_starts {str : Bytes} (hopen : s.Open)
    (h : readValue code .string s = (.ok str, s')) :
    (s.rest.dropWhile isBlank).headD 0 = 34 := by
  obtain ⟨text, htext, -⟩ := readValue_ok hopen h
  rw [valueText_quoted rfl] at htext
  unfold quoted at htext
  rw [textReader_bind get_eq] at htext
  split_ifs at htext with hcur
  · cases congrArg Prod.fst htext
  · exact not_not.mp hcur

/-- Strings as elements. -/
theorem stringElement_string : StringElement code (readValue code .string) fun str => [str] where
  some _ := List.cons_ne_nil _ _
  moves := readValue_moves .string
  starts := readValue_string_starts
  safe hopen h str hstr := by
    rw [List.mem_singleton.mp hstr]
    exact readValue_string_ok hopen h
  reads {s str tail} hopen hs hsafe := by
    obtain ⟨hdrop, -⟩ := hs.dropWhile_isBlank ⟨34, escape str ++ [34], rfl, by decide⟩
    exact readValue_string hopen hdrop (hsafe str List.mem_cons_self)

/-- Pairs of strings as elements. -/
theorem stringElement_pair :
    StringElement code (stringPair code) fun kv => [kv.1, kv.2] where
  some _ := List.cons_ne_nil _ _
  moves := (readValue_moves .string).bind fun _ => (readValue_moves .string).bind fun _ => .pure _
  starts hopen h := by
    obtain ⟨first, s₁, hfirst, -⟩ := textReader_bind_ok h
    exact readValue_string_starts hopen hfirst
  safe {s s' kv} hopen h str hstr := by
    obtain ⟨first, s₁, hfirst, h⟩ := textReader_bind_ok h
    obtain ⟨rest, rfl⟩ := (readValue_moves .string).result hfirst
    obtain ⟨second, s₂, hsecond, h⟩ := textReader_bind_ok h
    obtain rfl : (first, second) = kv := Except.ok.inj (congrArg Prod.fst h)
    rcases List.mem_cons.mp hstr with rfl | hstr
    · exact readValue_string_ok hopen hfirst
    · rw [List.mem_singleton.mp hstr]
      exact readValue_string_ok (s := { s with rest := rest }) hopen hsecond
  reads {s kv tail} hopen hs hsafe := by
    obtain ⟨mid, hfirst, hsecond⟩ := hs.head
    have hread : StringElement code (readValue code .string) fun str => [str] :=
      stringElement_string
    have hsafe₁ := hsafe kv.1 List.mem_cons_self
    have hsafe₂ := hsafe kv.2 (List.mem_cons_of_mem _ List.mem_cons_self)
    unfold stringPair
    rw [textReader_bind (hread.reads (a := kv.1) hopen hfirst fun str hstr =>
        List.mem_singleton.mp hstr ▸ hsafe₁),
      textReader_bind (hread.reads (s := { s with rest := mid }) (a := kv.2) hopen hsecond
        fun str hstr => List.mem_singleton.mp hstr ▸ hsafe₂)]
    rfl

namespace TextReader

variable {elem : TextReader α} {strings : α → List Bytes}

theorem readMany_moves (he : OnlyMoves elem) (n : Nat) : OnlyMoves (readMany elem n) := by
  induction n with
  | zero => exact .pure []
  | succ n ih => exact he.bind fun _ => ih.bind fun _ => .pure _

/-- What is read as an element does not end in a backslash. -/
theorem readMany_safe (he : StringElement code elem strings) {n : Nat} {xs : List α}
    (hopen : s.Open) (h : readMany elem n s = (.ok xs, s')) :
    ∀ x ∈ xs, ∀ str ∈ strings x, ¬ EndsWithBackslash str := by
  induction n generalizing s s' xs with
  | zero =>
    obtain rfl : [] = xs := Except.ok.inj (congrArg Prod.fst h)
    intro x hx
    cases hx
  | succ n ih =>
    obtain ⟨x, s₁, hx, h⟩ := textReader_bind_ok h
    obtain ⟨rest, rfl⟩ := he.moves.result hx
    obtain ⟨xs', s₂, hxs, h⟩ := textReader_bind_ok h
    obtain rfl : x :: xs' = xs := Except.ok.inj (congrArg Prod.fst h)
    intro y hy
    rcases List.mem_cons.mp hy with rfl | hy
    · exact he.safe hopen hx
    · exact ih (s := { s with rest := rest }) hopen hxs y hy

/-- All elements are read from their text. -/
theorem readMany_reads (he : StringElement code elem strings) {xs : List α} {tail : Bytes}
    (hopen : s.Open) (hs : Spells ((xs.flatMap strings).map quote) s.rest tail)
    (hsafe : ∀ x ∈ xs, ∀ str ∈ strings x, ¬ EndsWithBackslash str) :
    readMany elem xs.length s = (.ok xs, { s with rest := tail }) := by
  induction xs generalizing s with
  | nil =>
    cases hs
    rfl
  | cons x xs ih =>
    rw [List.flatMap_cons, List.map_append] at hs
    obtain ⟨mid, hx, hxs⟩ := hs.append
    have hfirst := he.reads hopen hx (hsafe x List.mem_cons_self)
    rw [List.length_cons, readMany, textReader_bind hfirst,
      textReader_bind (ih (s := { s with rest := mid }) hopen hxs fun y hy =>
        hsafe y (List.mem_cons_of_mem x hy))]
    rfl

/-- As many elements as are read are read from the front of the text. -/
theorem readMany_prefix (he : StringElement code elem strings) {n : Nat} {xs ys : List α}
    {tail : Bytes} (hopen : s.Open) (hs : Spells ((xs.flatMap strings).map quote) s.rest tail)
    (hsafe : ∀ x ∈ xs, ∀ str ∈ strings x, ¬ EndsWithBackslash str)
    (htail : (tail.dropWhile isBlank).headD 0 ≠ 34)
    (h : readMany elem n s = (.ok ys, s')) :
    ∃ zs, xs = ys ++ zs ∧ ys.length = n ∧
      Spells ((zs.flatMap strings).map quote) s'.rest tail := by
  -- by induction on the number that `begin_sequence` counted
  induction n generalizing s xs ys with
  | zero =>
    obtain rfl : [] = ys := Except.ok.inj (congrArg Prod.fst h)
    obtain rfl : s = s' := congrArg Prod.snd h
    exact ⟨xs, rfl, rfl, hs⟩
  | succ n ih =>
    obtain ⟨y, s₁, hy, h⟩ := textReader_bind_ok h
    cases xs with
    | nil =>
      -- behind the last element comes no quote
      cases hs
      exact absurd (he.starts hopen hy) htail
    | cons x xs =>
      rw [List.flatMap_cons, List.map_append] at hs
      obtain ⟨mid, hx, hxs⟩ := hs.append
      rw [he.reads hopen hx (hsafe x List.mem_cons_self)] at hy
      cases hy
      obtain ⟨ys', s₂, hys, h⟩ := textReader_bind_ok h
      obtain rfl : y :: ys' = ys := Except.ok.inj (congrArg Prod.fst h)
      obtain rfl : s₂ = s' := congrArg Prod.snd h
      obtain ⟨zs, rfl, hlen, hzs⟩ := ih (s := { s with rest := mid }) hopen hxs
        (fun z hz => hsafe z (List.mem_cons_of_mem y hz)) hys
      exact ⟨zs, rfl, congrArg Nat.succ hlen, hzs⟩

-- -------------------------
-- Sequences
-- -------------------------

/-- The number of elements is one more than the commas up to the brace. -/
theorem beginSequence_eq {rest : Bytes} (hopen : s.Open)
    (h : s.rest.dropWhile isBlank = 123 :: rest) :
    beginSequence s = (.ok (commas rest + 1), { s with rest := rest }) := by
  unfold beginSequence
  rw [textReader_bind (integrityCheck_eq hopen), textReader_bind (consume_eq h),
    textReader_bind get_eq]
  rfl

theorem endSequence_eq {rest : Bytes} (hopen : s.Open)
    (h : s.rest.dropWhile isBlank = 125 :: rest) :
    endSequence s = (.ok (), { s with rest := rest }) :=
  (textReader_bind (integrityCheck_eq hopen)).trans (consume_eq h)

theorem endSequence_ok (hopen : s.Open) (h : endSequence s = (.ok (), s')) :
    (s.rest.dropWhile isBlank).headD 0 = 125 := by
  unfold endSequence at h
  rw [textReader_bind (integrityCheck_eq hopen)] at h
  exact consume_ok h

/-- Reading a sequence only moves. -/
theorem sequence_moves (he : OnlyMoves elem) : OnlyMoves (sequence elem) := by
  have hbegin : OnlyMoves beginSequence :=
    integrityCheck_moves.bind fun _ => (consume_moves 123).bind fun _ => OnlyMoves.get.bind
      fun _ => .pure _
  have hend : OnlyMoves endSequence := integrityCheck_moves.bind fun _ => consume_moves 125
  exact hbegin.bind fun size => (readMany_moves he size).bind fun xs => hend.bind fun _ => .pure xs

/-- A sequence that is read starts with a brace. -/
theorem sequence_starts {ys : List α} (hopen : s.Open) (h : sequence elem s = (.ok ys, s')) :
    (s.rest.dropWhile isBlank).headD 0 = 123 := by
  obtain ⟨size, s₁, hbegin, -⟩ := textReader_bind_ok h
  unfold beginSequence at hbegin
  rw [textReader_bind (integrityCheck_eq hopen)] at hbegin
  obtain ⟨_, s₂, hconsume, -⟩ := textReader_bind_ok hbegin
  exact consume_ok hconsume

/-- A closing brace is no quote. -/
theorem head_brace (rest : Bytes) : ((ascii " \x7d" ++ rest).dropWhile isBlank).headD 0 ≠ 34 := by
  have hhead : ((ascii " \x7d" ++ rest).dropWhile isBlank).headD 0 = 125 := rfl
  rw [hhead]
  decide

/-- A sequence that is not empty, from its opening brace on. -/
theorem sequenceText_some {strs : List Bytes} (hne : strs ≠ []) (rest : Bytes) :
    sequenceText strs ++ rest =
      123 :: (ascii " " ++ (joined (strs.map quote) ++ (ascii " \x7d" ++ rest))) := by
  have hempty : strs.isEmpty = false := by rwa [List.isEmpty_eq_false_iff]
  unfold sequenceText
  rw [hempty, List.append_assoc, List.append_assoc]
  rfl

theorem spells_sequence {strs : List Bytes} (hne : strs ≠ []) (rest : Bytes) :
    Spells (strs.map quote) (ascii " " ++ (joined (strs.map quote) ++ (ascii " \x7d" ++ rest)))
      (ascii " \x7d" ++ rest) :=
  .joined (fun h => hne (List.map_eq_nil_iff.mp h)) isBlank_space ⟨32, _, rfl, by decide⟩

/-- A sequence is read if its strings are safe and counted right. -/
theorem sequence_reads (he : StringElement code elem strings) {xs : List α} {rest : Bytes}
    (hopen : s.Open) (hs : Spells [sequenceText (xs.flatMap strings)] s.rest rest)
    (hsafe : ∀ x ∈ xs, ∀ str ∈ strings x, ¬ EndsWithBackslash str)
    (hcount : Counted xs.length (xs.flatMap strings)) :
    sequence elem s = (.ok xs, { s with rest := rest }) := by
  obtain ⟨hne, hcount⟩ := hcount
  obtain ⟨hdrop, -⟩ := hs.dropWhile_isBlank ⟨123, _, rfl, by decide⟩
  rw [sequenceText_some hne] at hdrop
  have hsize := commas_sequence hne rest
  have hcommas : commas (ascii " " ++ (joined ((xs.flatMap strings).map quote) ++
      (ascii " \x7d" ++ rest))) + 1 = xs.length := by
    rw [commas_of_not_mem (by decide)]
    have hspace : (ascii " ").count 44 = 0 := by decide
    omega
  have hbegin := beginSequence_eq hopen hdrop
  rw [hcommas] at hbegin
  have hmany : readMany elem xs.length { s with rest := ascii " " ++
      (joined ((xs.flatMap strings).map quote) ++ (ascii " \x7d" ++ rest)) } =
      (.ok xs, { s with rest := ascii " \x7d" ++ rest }) :=
    readMany_reads he hopen (spells_sequence hne rest) hsafe
  have hend : endSequence { s with rest := ascii " \x7d" ++ rest } =
      (.ok (), { s with rest := rest }) := endSequence_eq hopen rfl
  unfold sequence
  rw [textReader_bind hbegin, textReader_bind hmany, textReader_bind hend]
  rfl

/-- What is read has all elements only if their number was counted. -/
theorem sequence_ok (he : StringElement code elem strings) {xs ys : List α} {rest : Bytes}
    (hopen : s.Open) (hs : Spells [sequenceText (xs.flatMap strings)] s.rest rest)
    (hxs : ∀ x ∈ xs, x ∈ ys) (h : sequence elem s = (.ok ys, s')) :
    (∀ x ∈ xs, ∀ str ∈ strings x, ¬ EndsWithBackslash str) ∧
      Counted xs.length (xs.flatMap strings) := by
  obtain ⟨hdrop, -⟩ := hs.dropWhile_isBlank ⟨123, _, rfl, by decide⟩
  obtain ⟨size, s₁, hbegin, h⟩ := textReader_bind_ok h
  obtain ⟨ys', s₂, hmany, h⟩ := textReader_bind_ok h
  obtain ⟨_, s₃, hend, h⟩ := textReader_bind_ok h
  obtain rfl : ys' = ys := Except.ok.inj (congrArg Prod.fst h)
  by_cases hne : xs.flatMap strings = []
  · -- a brace is where the reader expects an element
    rw [hne] at hdrop
    have hsplit : s.rest.dropWhile isBlank = 123 :: (ascii " \x7d" ++ rest) := hdrop
    rw [beginSequence_eq hopen hsplit] at hbegin
    cases hbegin
    obtain ⟨y, s₄, hy, -⟩ := textReader_bind_ok (x := elem) hmany
    have hopen₁ : TextSource.Open { s with rest := ascii " \x7d" ++ rest } := hopen
    exact absurd (he.starts hopen₁ hy) (head_brace rest)
  · rw [sequenceText_some hne] at hdrop
    rw [beginSequence_eq hopen hdrop] at hbegin
    cases hbegin
    have hopen₁ : TextSource.Open { s with rest := ascii " " ++
        (joined ((xs.flatMap strings).map quote) ++ (ascii " \x7d" ++ rest)) } := hopen
    have hsafe : ∀ x ∈ xs, ∀ str ∈ strings x, ¬ EndsWithBackslash str := fun x hx =>
      readMany_safe he hopen₁ hmany x (hxs x hx)
    obtain ⟨zs, hsplit, hlen, hzs⟩ := readMany_prefix he hopen₁ (spells_sequence hne rest) hsafe
      (head_brace rest) hmany
    obtain ⟨rest₂, rfl⟩ := (readMany_moves he.moves _).result hmany
    have hclose := endSequence_ok (s := { s with rest := rest₂ }) hopen hend
    cases zs with
    | nil =>
      have hsize := commas_sequence hne rest
      rw [commas_of_not_mem (by decide)] at hlen
      have hspace : (ascii " ").count 44 = 0 := by decide
      rw [List.append_nil] at hsplit
      refine ⟨hsafe, hne, ?_⟩
      rw [hsplit] at hsize hlen ⊢
      omega
    | cons z zs =>
      -- the quote of the next element is where the reader expects the brace
      obtain ⟨str, strs, hstr⟩ := List.exists_cons_of_ne_nil (he.some z)
      rw [List.flatMap_cons, hstr] at hzs
      rw [hzs.dropWhile_quote] at hclose
      exact absurd hclose (by decide)

end TextReader

-- -------------------------
-- Vectors, sets and maps of strings
-- -------------------------

/-- A vector or a set: each element is one string. -/
def SafeStrings (strs : List Bytes) : Prop :=
  (∀ str ∈ strs, ¬ EndsWithBackslash str) ∧ Counted strs.length strs

instance (strs : List Bytes) : Decidable (SafeStrings strs) :=
  inferInstanceAs (Decidable (_ ∧ _))

/-- A map: each element is a key and a value. -/
def SafeMap (m : StringMap) : Prop :=
  (∀ str ∈ m.strings, ¬ EndsWithBackslash str) ∧ Counted m.elems.length m.strings

instance (m : StringMap) : Decidable (SafeMap m) := inferInstanceAs (Decidable (_ ∧ _))

theorem sequence_strings (hopen : s.Open) {strs : List Bytes} {rest : Bytes}
    (hs : Spells [sequenceText strs] s.rest rest) (h : SafeStrings strs) :
    sequence (readValue code .string) s = (.ok strs, { s with rest := rest }) := by
  refine sequence_reads stringElement_string hopen (by rwa [List.flatMap_singleton'])
    (fun x hx str hstr => ?_) (by rw [List.flatMap_singleton']; exact h.2)
  rw [List.mem_singleton.mp hstr]
  exact h.1 x hx

/-- A sequence of strings that is read is safe. -/
theorem sequence_strings_ok (hopen : s.Open) {strs strs' : List Bytes} {rest : Bytes}
    (hs : Spells [sequenceText strs] s.rest rest) (hstrs : ∀ str ∈ strs, str ∈ strs')
    (h : sequence (readValue code .string) s = (.ok strs', s')) : SafeStrings strs := by
  have hok := sequence_ok stringElement_string hopen (by rwa [List.flatMap_singleton']) hstrs h
  rw [List.flatMap_singleton'] at hok
  exact ⟨fun str hstr => hok.1 str hstr str List.mem_cons_self, hok.2⟩

/-- The case `std::vector<std::string>`. -/
theorem restored_strvec (xs : List Bytes) : Restored code (SafeStrings xs) (.strvec xs) where
  embedded := trivial
  reads hsafe s rest hopen hs := textReader_bind (sequence_strings hopen hs hsafe)
  safe_of hopen hs h := by
    obtain ⟨ys, s₁, hys, h⟩ := textReader_bind_ok h
    obtain rfl : ys = xs := PlainValue.strvec.inj (Except.ok.inj (congrArg Prod.fst h))
    exact sequence_strings_ok hopen hs (fun _ hstr => hstr) hys

/-- The case `std::set<std::string>`. -/
theorem restored_strset (x : StringSet) :
    Restored code (SafeStrings x.elems) (.strset x) where
  embedded := trivial
  reads hsafe s rest hopen hs := by
    refine (textReader_bind (sequence_strings hopen hs hsafe)).trans ?_
    rw [SortedList.ofList_elems]
    rfl
  safe_of hopen hs h := by
    obtain ⟨ys, s₁, hys, h⟩ := textReader_bind_ok h
    obtain rfl : SortedList.ofList ys = x :=
      PlainValue.strset.inj (Except.ok.inj (congrArg Prod.fst h))
    exact sequence_strings_ok hopen hs (fun _ hstr => SortedList.mem_of_mem_ofList hstr) hys

/-- The case `std::map<std::string, std::string>`. -/
theorem restored_strmap (m : StringMap) : Restored code (SafeMap m) (.strmap m) where
  embedded := trivial
  reads hsafe s rest hopen hs := by
    have hstrings : ∀ kv ∈ m.elems, ∀ str ∈ [kv.1, kv.2], ¬ EndsWithBackslash str :=
      fun kv hkv str hstr => hsafe.1 str (List.mem_flatMap.mpr ⟨kv, hkv, hstr⟩)
    refine (textReader_bind (sequence_reads stringElement_pair hopen hs hstrings hsafe.2)).trans ?_
    rw [SortedList.ofList_elems]
    rfl
  safe_of hopen hs h := by
    obtain ⟨ys, s₁, hys, h⟩ := textReader_bind_ok h
    obtain rfl : SortedList.ofList ys = m :=
      PlainValue.strmap.inj (Except.ok.inj (congrArg Prod.fst h))
    obtain ⟨hstrings, hcount⟩ := sequence_ok stringElement_pair hopen hs
      (fun _ hkv => SortedList.mem_of_mem_ofList hkv) hys
    refine ⟨fun str hstr => ?_, hcount⟩
    obtain ⟨kv, hkv, hstr⟩ := List.mem_flatMap.mp hstr
    exact hstrings kv hkv str hstr

/-- The types of sequences. -/
def PlainType.isSequence : PlainType → Bool
  | .strvec => true
  | .strset => true
  | .strmap => true
  | _ => false

/-- A sequence starts with a brace. -/
theorem PlainType.readText_starts {t : PlainType} {x : PlainValue} (ht : t.isSequence = true)
    (hopen : s.Open) (h : t.readText code s = (.ok x, s')) :
    (s.rest.dropWhile isBlank).headD 0 = 123 := by
  cases t with
  | strvec =>
    obtain ⟨_, _, hseq, -⟩ := textReader_bind_ok h
    exact sequence_starts hopen hseq
  | strset =>
    obtain ⟨_, _, hseq, -⟩ := textReader_bind_ok h
    exact sequence_starts hopen hseq
  | strmap =>
    obtain ⟨_, _, hseq, -⟩ := textReader_bind_ok h
    exact sequence_starts hopen hseq
  | _ => cases ht

end BoostActor
