import BoostActor.Core.TextGrammar
import BoostActor.Core.TextRoundTrip

/-!
# The end of a text

`from_string_impl` begins an object and deserializes a value of its type. The call of `end_object`
comes after the `return` of the value, so that nothing looks at what is behind the value of the
outermost object. Messages inside other objects are ended.

* `readObject_iff` — what is accepted is the beginning of an object up to the end of its value;
* `fromStringImpl_whole_iff` — a text with a value is a whole object if and only if it does not
  break off there or go on behind the object.
-/

namespace BoostActor

open Lib TextReader

/-- The code of the other types moves on in the text, and ends the objects that it begins. -/
structure FramedCode extends TextCode where
  forward : ∀ {t s x s'}, read t s = (.ok x, s') → s'.rest.length ≤ s.rest.length
  frames : ∀ {t s x s'}, read t s = (.ok x, s') → s'.openObjects = s.openObjects

/-- Without code of their own there are no values of the other types. -/
def FramedCode.empty : FramedCode where
  toTextCode := .empty
  forward h := by cases congrArg Prod.fst h
  frames h := by cases congrArg Prod.fst h

-- -------------------------
-- Objects
-- -------------------------

mutual

/-- A value of a type. -/
inductive ValueIn (code : TextCode) : TypeInfo → TextSource → Value → TextSource → Prop where
  | plain {t : PlainType} {s s' : TextSource} {x : PlainValue} (h : PlainAt code s x s' t) :
    ValueIn code (.builtin (.plain t)) s (.plain x) s'
  | handle {t : HandleType} {s s' : TextSource} {x : Value}
    (h : code.read (.builtin (.handle t)) s = (.ok x, s')) :
    ValueIn code (.builtin (.handle t)) s x s'
  | announced {name : Bytes} {read : UserReader} {s s' : TextSource} {x : Value}
    (h : code.read (.announced name read) s = (.ok x, s')) :
    ValueIn code (.announced name read) s x s'
  | message {s s' : TextSource} {elements : List Value} (h : MessageIn code s elements s') :
    ValueIn code (.builtin .message) s (.message elements) s'
  | tuple {name : Bytes} {ts : List (Option TypeInfo)} {s s' : TextSource} {xs : List Value}
    (h : ValuesIn code ts s xs s') : ValueIn code (.tuple name ts) s (.tuple name xs) s'

/-- Values of some types, one after the other. -/
inductive ValuesIn (code : TextCode) :
    List (Option TypeInfo) → TextSource → List Value → TextSource → Prop where
  | nil (s : TextSource) : ValuesIn code [] s [] s
  | cons {t : TypeInfo} {ts : List (Option TypeInfo)} {s s₁ s₂ : TextSource} {x : Value}
    {xs : List Value} (hx : ValueIn code t s x s₁) (hxs : ValuesIn code ts s₁ xs s₂) :
    ValuesIn code (some t :: ts) s (x :: xs) s₂

/-- A message as an object of its own. -/
inductive MessageIn (code : TextCode) : TextSource → List Value → TextSource → Prop where
  | intro {t : TypeInfo} {s s₁ s₂ s' : TextSource} {x : Value} {elements : List Value}
    (hopening : Opening s t s₁) (hcomplete : t.complete = true) (hx : ValueIn code t s₁ x s₂)
    (hmessage : x.asMessage? = some elements) (hending : Ending s₂ s') :
    MessageIn code s elements s'

end

/-- An object up to the end of its value. -/
inductive Opened (code : TextCode) (s : TextSource) (t : TypeInfo) (x : Value)
    (s' : TextSource) : Prop where
  | intro {s₁ : TextSource} (hopening : Opening s t s₁) (hcomplete : t.complete = true)
    (hx : ValueIn code t s₁ x s')

/-- The text is an object with nothing but blanks behind it. -/
def IsObject (code : TextCode) (types : TypeMap) (what : Bytes) : Prop :=
  ∃ t x s s', Opened code ⟨types, what, []⟩ t x s ∧ Ending s s'

/-- The text is an object up to the end of its value, and goes on in another way. -/
inductive Unfinished (code : TextCode) (types : TypeMap) (what : Bytes) : Prop where
  /-- there is no right parenthesis for the left one -/
  | truncated {t : TypeInfo} {x : Value} {s : TextSource} {name : Bytes}
    (h : Opened code ⟨types, what, []⟩ t x s) (hopen : s.openObjects = [(name, true)])
    (hparen : (s.rest.dropWhile isBlank).head? ≠ some 41)
  /-- something else than spaces and commas is behind the object -/
  | trailing {t : TypeInfo} {x : Value} {s : TextSource} {name rest : Bytes} {had : Bool}
    (h : Opened code ⟨types, what, []⟩ t x s) (hopen : s.openObjects = [(name, had)])
    (hparen : RightParenthesis s.rest had rest) (hrest : ∃ c ∈ rest, isBlank c = false)

-- -------------------------
-- What is accepted is an object
-- -------------------------

section

variable {code : TextCode} {nested : TextReader (List Value)}

mutual

/-- What is read as a value of a type is one. -/
theorem TypeInfo.readText_sound (hnested : ∀ {s elements s'}, nested s = (.ok elements, s') →
    MessageIn code s elements s') : ∀ (t : TypeInfo) {s s' : TextSource} {x : Value},
      t.readText code nested s = (.ok x, s') → ValueIn code t s x s'
  | .builtin (.plain t), s, s', x, h => by
    obtain ⟨y, hy, rfl⟩ := textReader_map_iff.mp h
    exact .plain (PlainType.readText_iff.mp hy)
  | .builtin (.handle t), s, s', x, h => .handle h
  | .builtin .message, s, s', x, h => by
    obtain ⟨elements, helements, rfl⟩ := textReader_map_iff.mp h
    exact .message (hnested helements)
  | .announced name read, s, s', x, h => .announced h
  | .tuple name ts, s, s', x, h => by
    obtain ⟨xs, hxs, rfl⟩ := textReader_map_iff.mp h
    exact .tuple (readTextAll_sound hnested ts hxs)

/-- What is read as a list of values is one. -/
theorem readTextAll_sound (hnested : ∀ {s elements s'}, nested s = (.ok elements, s') →
    MessageIn code s elements s') : ∀ (ts : List (Option TypeInfo)) {s s' : TextSource}
      {xs : List Value}, readTextAll code nested ts s = (.ok xs, s') → ValuesIn code ts s xs s'
  | [], s, s', xs, h => by
    obtain ⟨rfl, rfl⟩ := textReader_pure_iff.mp h
    exact .nil _
  | none :: ts, s, s', xs, h => absurd h textReader_throw
  | some t :: ts, s, s', xs, h => by
    obtain ⟨x, s₁, hx, h₁⟩ := textReader_bind_iff.mp h
    obtain ⟨ys, hys, rfl⟩ := textReader_map_iff.mp h₁
    exact .cons (t.readText_sound hnested hx) (readTextAll_sound hnested ts hys)

end

/-- By induction on the depth. -/
theorem readTextMessage_sound (depth : Nat) {s s' : TextSource} {elements : List Value}
    (h : readTextMessage code depth s = (.ok elements, s')) : MessageIn code s elements s' := by
  induction depth generalizing s s' elements with
  | zero => exact absurd h textReader_throw
  | succ depth ih =>
    unfold readTextMessage at h
    obtain ⟨t, s₁, hbegin, h₁⟩ := textReader_bind_iff.mp h
    split_ifs at h₁ with hcomplete
    · obtain ⟨x, s₂, hx, h₂⟩ := textReader_bind_iff.mp h₁
      obtain ⟨_, s₃, hend, h₃⟩ := textReader_bind_iff.mp h₂
      cases hmessage : x.asMessage? with
      | none =>
        rw [hmessage] at h₃
        exact absurd h₃ textReader_throw
      | some elements' =>
        rw [hmessage] at h₃
        obtain ⟨rfl, rfl⟩ := textReader_pure_iff.mp h₃
        exact .intro (beginObject_iff.mp hbegin) hcomplete (t.readText_sound ih hx) hmessage
          (endObject_iff.mp hend)
    · exact absurd h₁ textReader_throw

/-- What is read as an object is one. -/
theorem readObject_sound (depth : Nat) {s s' : TextSource} {t : TypeInfo} {x : Value}
    (h : readObject code depth s = (.ok (t, x), s')) : Opened code s t x s' := by
  unfold readObject at h
  obtain ⟨t', s₁, hbegin, h₁⟩ := textReader_bind_iff.mp h
  split_ifs at h₁ with hcomplete
  · obtain ⟨x', hx, heq⟩ := textReader_map_iff.mp h₁
    cases heq
    exact .intro (beginObject_iff.mp hbegin) hcomplete
      (t.readText_sound (readTextMessage_sound depth) hx)
  · exact absurd h₁ textReader_throw

end

-- -------------------------
-- Objects are accepted
-- -------------------------

/-- Only the text changes, and what is left of it is not longer. -/
def Advances (s s' : TextSource) : Prop :=
  s'.rest.length ≤ s.rest.length ∧ s'.openObjects = s.openObjects

namespace Advances

variable {s s' s'' : TextSource}

theorem refl (s : TextSource) : Advances s s := ⟨Nat.le_refl _, rfl⟩

theorem trans (h : Advances s s') (h' : Advances s' s'') : Advances s s'' :=
  ⟨Nat.le_trans h'.1 h.1, h'.2.trans h.2⟩

end Advances

theorem length_skip_le (text : Bytes) : (text.dropWhile isBlank).length ≤ text.length :=
  (List.dropWhile_suffix isBlank).length_le

/-- What is left behind a character. -/
theorem length_lt_of_skip {text rest : Bytes} {c : UInt8}
    (h : text.dropWhile isBlank = c :: rest) : rest.length < text.length := by
  have hle := length_skip_le text
  rw [h, List.length_cons] at hle
  omega

section

variable {code : TextCode} {α : Type} {s s' : TextSource}

/-- A value shortens the text. -/
theorem ValueAt.advances {t : PrimitiveType} {v : t.Val} (h : ValueAt code t s v s') :
    Advances s s' := by
  cases h with
  | @intro text str rest _ hcolon htext _ =>
    refine ⟨?_, rfl⟩
    have hskip := length_skip_le s.rest
    have htext' : text.length ≤ (s.rest.dropWhile isBlank).length := by
      unfold Colon at hcolon
      split_ifs at hcolon
      · exact Nat.le_of_lt (length_lt_of_skip hcolon)
      · rw [hcolon]
    have hrest : rest.length ≤ text.length := by
      generalize needle? t = needle at htext
      cases htext with
      | quoted _ =>
        rw [List.length_cons, List.length_append, List.length_cons]
        omega
      | plain _ _ =>
        rw [List.length_append]
        omega
    exact Nat.le_trans hrest (Nat.le_trans htext' hskip)

theorem ElementsAt.advances {elem : TextSource → α → TextSource → Prop}
    (helem : ∀ {s x s'}, elem s x s' → Advances s s') {xs : List α} (h : ElementsAt elem s xs s') :
    Advances s s' := by
  induction h with
  | nil s => exact .refl s
  | cons hx _ ih => exact (helem hx).trans ih

/-- So does a sequence. -/
theorem SequenceAt.advances {elem : TextSource → α → TextSource → Prop}
    (helem : ∀ {s x s'}, elem s x s' → Advances s s') {xs : List α} (h : SequenceAt elem s xs s') :
    Advances s s' := by
  cases h with
  | intro _ hbegin helems _ _ hend =>
    obtain ⟨hlen, hopen⟩ := helems.advances helem
    refine ⟨?_, hopen⟩
    have h₁ := length_lt_of_skip hbegin
    have h₂ := length_lt_of_skip hend
    dsimp only at hlen ⊢
    omega

theorem PairAt.advances {x : Bytes × Bytes} (h : PairAt code s x s') : Advances s s' := by
  obtain ⟨s₁, hfirst, hsecond⟩ := h
  exact hfirst.advances.trans hsecond.advances

/-- The name of a type is left out for some builtin types only. -/
theorem Opening.length {t : TypeInfo} (h : Opening s t s') :
    (∃ name had, s'.openObjects = (name, had) :: s.openObjects) ∧
      s'.rest.length ≤ s.rest.length ∧
      (s'.rest.length < s.rest.length ∨ ∃ t', t = .builtin (.plain t')) := by
  cases h with
  | @intro name rest rest' had t types hname hparen htype =>
    have hskip := length_skip_le s.rest
    have hrest' : rest'.length ≤ rest.length := by
      cases hparen with
      | present h => exact Nat.le_of_lt (length_lt_of_skip h)
      | absent _ => exact length_skip_le rest
    have hbuiltin : ∀ p : PlainType, name = (Builtin.plain p).name →
        ∃ t', t = .builtin (.plain t') := by
      rintro p rfl
      have hlookup : s.types.byUniformName (Builtin.plain p).name =
          (some (.builtin (.plain p)), s.types) := TypeMap.lookup_name _ _
      rw [hlookup] at htype
      exact ⟨p, (Option.some.inj (congrArg Prod.fst htype)).symm⟩
    refine ⟨⟨name, had, rfl⟩, ?_⟩
    generalize s.rest.dropWhile isBlank = text at hname hskip
    -- only a type name that is not built in may be long; it takes the characters it has
    cases hname with
    | string cs => exact ⟨Nat.le_trans hrest' hskip, .inr (hbuiltin (.primitive .string) rfl)⟩
    | atom cs => exact ⟨Nat.le_trans hrest' hskip, .inr (hbuiltin (.primitive .atomValue) rfl)⟩
    | integer cs hc => exact ⟨Nat.le_trans hrest' hskip, .inr (hbuiltin (.primitive .int32) rfl)⟩
    | name hname _ =>
      obtain ⟨-, c, cs, rfl, -⟩ := hname
      rw [List.length_append, List.length_cons] at hskip
      dsimp only
      omega

/-- Closing a parenthesis shortens the text. -/
theorem RightParenthesis.length_le {text rest : Bytes} {had : Bool}
    (h : RightParenthesis text had rest) : rest.length ≤ text.length := by
  cases h with
  | present h => exact Nat.le_of_lt (length_lt_of_skip h)
  | absent => exact Nat.le_refl _

/-- The end of an object shortens the text and closes it. -/
theorem Ending.length {name : Bytes} {had : Bool} {outer : List (Bytes × Bool)}
    (hopen : s.openObjects = (name, had) :: outer) (h : Ending s s') :
    s'.rest.length ≤ s.rest.length ∧ s'.openObjects = outer := by
  obtain ⟨rest, hparen, ⟨rfl, -, rfl⟩ | ⟨-, rfl⟩⟩ := (ending_iff hopen).mp h
  · exact ⟨Nat.zero_le _, rfl⟩
  · exact ⟨hparen.length_le, rfl⟩

end

section

variable {code : FramedCode}

/-- A plain value shortens the text. -/
theorem PlainAt.advances {t : PlainType} {x : PlainValue} {s s' : TextSource}
    (h : PlainAt code.toTextCode s x s' t) : Advances s s' := by
  cases t with
  | primitive t =>
    obtain ⟨v, hv, -⟩ := h
    exact hv.advances
  | strvec =>
    obtain ⟨xs, hxs, -⟩ := h
    exact hxs.advances ValueAt.advances
  | strset =>
    obtain ⟨xs, hxs, -⟩ := h
    exact hxs.advances ValueAt.advances
  | strmap =>
    obtain ⟨xs, hxs, -⟩ := h
    exact hxs.advances PairAt.advances
  | _ => exact ⟨code.forward h, code.frames h⟩

-- -------------------------
-- The grammar is read
-- -------------------------

mutual

/-- A value is read when the depth is more than the length of the text. -/
theorem ValueIn.reads : ∀ {t : TypeInfo} {s s' : TextSource} {x : Value},
    ValueIn code.toTextCode t s x s' → Advances s s' ∧ ∀ depth, s.rest.length < depth →
      t.readText code.toTextCode (readTextMessage code.toTextCode depth) s = (.ok x, s')
  | _, _, _, _, .plain h =>
    ⟨h.advances, fun _ _ => textReader_map_iff.mpr ⟨_, PlainType.readText_iff.mpr h, rfl⟩⟩
  | _, _, _, _, .handle h => ⟨⟨code.forward h, code.frames h⟩, fun _ _ => h⟩
  | _, _, _, _, .announced h => ⟨⟨code.forward h, code.frames h⟩, fun _ _ => h⟩
  | _, _, _, _, .message h => by
    obtain ⟨hadvances, hreads⟩ := h.reads
    refine ⟨⟨Nat.le_of_lt hadvances.1, hadvances.2⟩, fun depth hdepth => ?_⟩
    exact textReader_map_iff.mpr ⟨_, hreads depth hdepth, rfl⟩
  | _, _, _, _, .tuple h => by
    obtain ⟨hadvances, hreads⟩ := h.reads
    exact ⟨hadvances, fun depth hdepth => textReader_map_iff.mpr ⟨_, hreads depth hdepth, rfl⟩⟩

/-- A list of values that is spelled out is read, with enough depth. -/
theorem ValuesIn.reads : ∀ {ts : List (Option TypeInfo)} {s s' : TextSource} {xs : List Value},
    ValuesIn code.toTextCode ts s xs s' → Advances s s' ∧ ∀ depth, s.rest.length < depth →
      readTextAll code.toTextCode (readTextMessage code.toTextCode depth) ts s = (.ok xs, s')
  | _, _, _, _, .nil s => ⟨.refl s, fun _ _ => rfl⟩
  | _, _, _, _, .cons hx hxs => by
    obtain ⟨hadvances, hread⟩ := hx.reads
    obtain ⟨hadvances', hreads⟩ := hxs.reads
    refine ⟨hadvances.trans hadvances', fun depth hdepth => ?_⟩
    refine textReader_bind_iff.mpr ⟨_, _, hread depth hdepth, ?_⟩
    exact textReader_map_iff.mpr ⟨_, hreads depth (Nat.lt_of_le_of_lt hadvances.1 hdepth), rfl⟩

/-- The name of a message takes a part of the text. -/
theorem MessageIn.reads : ∀ {s s' : TextSource} {elements : List Value},
    MessageIn code.toTextCode s elements s' →
      (s'.rest.length < s.rest.length ∧ s'.openObjects = s.openObjects) ∧
      ∀ depth, s.rest.length < depth →
        readTextMessage code.toTextCode depth s = (.ok elements, s')
  | s, _, _, @MessageIn.intro _ _ _ s₁ _ _ _ _ hopening hcomplete hx hmessage hending => by
    obtain ⟨⟨hle, hopen⟩, hread⟩ := hx.reads
    obtain ⟨⟨name, had, hobjects⟩, -, hlength⟩ := hopening.length
    have hlt : s₁.rest.length < s.rest.length := by
      rcases hlength with hlt | ⟨p, rfl⟩
      · exact hlt
      · -- a value that is not a message
        cases hx
        cases hmessage
    obtain ⟨hend, houter⟩ := hending.length (hopen.trans hobjects)
    refine ⟨⟨by omega, houter⟩, fun depth hdepth => ?_⟩
    cases depth with
    | zero => omega
    | succ depth =>
      unfold readTextMessage
      rw [textReader_bind (beginObject_iff.mpr hopening), if_pos hcomplete,
        textReader_bind (hread depth (by omega)), textReader_bind (endObject_iff.mpr hending),
        hmessage]
      rfl

end

-- -------------------------
-- The outermost object
-- -------------------------

variable {types : TypeMap} {what : Bytes} {t : TypeInfo} {x : Value} {s : TextSource}

/-- What is accepted is the beginning of an object up to the end of its value. -/
theorem readObject_iff : readObject code.toTextCode (what.length + 1) ⟨types, what, []⟩ =
    (.ok (t, x), s) ↔ Opened code.toTextCode ⟨types, what, []⟩ t x s := by
  constructor
  · exact readObject_sound _
  · rintro ⟨hopening, hcomplete, hx⟩
    obtain ⟨-, hle, -⟩ := hopening.length
    have hdepth := Nat.lt_succ_of_le hle
    unfold readObject
    rw [textReader_bind (beginObject_iff.mpr hopening), if_pos hcomplete,
      textReader_bind (hx.reads.2 _ hdepth)]
    rfl

/-- A text that was opened has one open object left. -/
theorem Opened.openObjects (h : Opened code.toTextCode ⟨types, what, []⟩ t x s) :
    ∃ name had, s.openObjects = [(name, had)] := by
  obtain ⟨hopening, -, hx⟩ := h
  obtain ⟨⟨name, had, hobjects⟩, -⟩ := hopening.length
  exact ⟨name, had, hx.reads.1.2.trans hobjects⟩

/-- There is one way to read a text. -/
theorem Opened.unique {t' : TypeInfo} {x' : Value} {s' : TextSource}
    (h : Opened code.toTextCode ⟨types, what, []⟩ t x s)
    (h' : Opened code.toTextCode ⟨types, what, []⟩ t' x' s') : s = s' := by
  have hread := readObject_iff.mpr h
  rw [readObject_iff.mpr h'] at hread
  exact (congrArg Prod.snd hread).symm

/-- Something is read exactly if the text opens an object. -/
theorem fromStringImpl_iff : (∃ uv types', fromStringImpl code.toTextCode what types =
    (.ok (some uv), types')) ↔ ∃ t x s, Opened code.toTextCode ⟨types, what, []⟩ t x s := by
  constructor
  · rintro ⟨uv, types', h⟩
    cases hread : readObject code.toTextCode (what.length + 1) ⟨types, what, []⟩ with
    | mk result s =>
      cases result with
      | ok uv' => exact ⟨uv'.1, uv'.2, s, readObject_iff.mp hread⟩
      | error e =>
        obtain ⟨result, hresult, hnone⟩ := fromStringImpl_error hread
        rw [h] at hresult
        cases hnone _ (congrArg Prod.fst hresult).symm
  · rintro ⟨t, x, s, h⟩
    exact ⟨_, _, fromStringImpl_ok (readObject_iff.mpr h)⟩

/-- The object is unfinished if and only if `end_object` would fail. -/
theorem unfinished_iff (h : Opened code.toTextCode ⟨types, what, []⟩ t x s) :
    Unfinished code.toTextCode types what ↔ ¬ ∃ s', Ending s s' := by
  constructor
  · rintro (⟨h', hopen, hparen⟩ | ⟨h', hopen, hparen, c, hc, hblank⟩) ⟨s', hending⟩
    · -- the text opens in one way only
      obtain rfl := h.unique h'
      obtain ⟨rest, hrest, -⟩ := (ending_iff hopen).mp hending
      cases hrest with
      | present hrest =>
        rw [hrest] at hparen
        exact hparen rfl
    · obtain rfl := h.unique h'
      obtain ⟨rest, hrest, ⟨-, hall, -⟩ | ⟨hne, -⟩⟩ := (ending_iff hopen).mp hending
      · rw [rightParenthesis_unique hparen hrest] at hc
        rw [hall c hc] at hblank
        cases hblank
      · exact hne rfl
  · intro hending
    obtain ⟨name, had, hopen⟩ := h.openObjects
    -- behind the parenthesis there is something else than blanks
    have htrailing : ∀ rest, RightParenthesis s.rest had rest →
        Unfinished code.toTextCode types what := by
      intro rest hparen
      by_cases hblank : ∀ c ∈ rest, isBlank c = true
      · exact absurd ⟨_, .outermost hopen hparen hblank⟩ hending
      · push Not at hblank
        obtain ⟨c, hc, hne⟩ := hblank
        exact .trailing h hopen hparen ⟨c, hc, Bool.eq_false_iff.mpr hne⟩
    cases had with
    | false => exact htrailing s.rest .absent
    | true =>
      by_cases hparen : (s.rest.dropWhile isBlank).head? = some 41
      · obtain ⟨rest, hrest⟩ := List.head?_eq_some_iff.mp hparen
        exact htrailing rest (.present hrest)
      · exact .truncated h hopen hparen

/-- `from_string_impl` finds values in whole objects only, but for the texts that are objects up
to the end of the value and go on in another way. -/
theorem fromStringImpl_whole_iff (code : FramedCode) (types : TypeMap) (what : Bytes) :
    (∀ uv types', fromStringImpl code.toTextCode what types = (.ok (some uv), types') →
      IsObject code.toTextCode types what) ↔ ¬ Unfinished code.toTextCode types what := by
  constructor
  · intro hwhole hunfinished
    have hopened : ∃ t x s, Opened code.toTextCode ⟨types, what, []⟩ t x s := by
      rcases hunfinished with ⟨h, -, -⟩ | ⟨h, -, -, -⟩
      · exact ⟨_, _, _, h⟩
      · exact ⟨_, _, _, h⟩
    obtain ⟨uv, types', hok⟩ := fromStringImpl_iff.mpr hopened
    obtain ⟨t, x, s, s', h, hending⟩ := hwhole uv types' hok
    exact (unfinished_iff h).mp hunfinished ⟨s', hending⟩
  · intro hfinished uv types' hok
    obtain ⟨t, x, s, h⟩ := fromStringImpl_iff.mp ⟨uv, types', hok⟩
    rw [unfinished_iff h, not_not] at hfinished
    obtain ⟨s', hending⟩ := hfinished
    exact ⟨t, x, s, s', h, hending⟩

end

/-- A number in parentheses, and something behind it. -/
def trailingText : Bytes := ascii "@i32 ( 42 ) foo"

/-- The number is read, and nothing looks at what is behind it. -/
theorem trailingText_opened : Opened TextCode.empty ⟨.empty, trailingText, []⟩
    (.builtin (.plain (.primitive .int32))) (.plain (.primitive .int32 (42 : Int32)))
    ⟨.empty, ascii " ) foo", [(ascii "@i32", true)]⟩ := by
  let s : TextSource := ⟨.empty, ascii " 42 ) foo", [(ascii "@i32", true)]⟩
  have hopening : Opening ⟨.empty, trailingText, []⟩ (.builtin (.plain (.primitive .int32))) s :=
    beginObject_iff.mp (beginObject_builtin (b := .plain (.primitive .int32)) rfl)
  have hcolon : Colon s (ascii "42 ) foo") (ascii "42" ++ ascii " ) foo") := by
    unfold Colon
    rw [if_neg (by decide)]
    rfl
  have hdigits : (ascii "42").all (fun c => !endsValue c) = true := rfl
  have htext : ValueText (needle? .int32) (ascii "42" ++ ascii " ) foo") (ascii "42")
      (ascii " ) foo") := by
    refine .plain (fun c hc => ?_) ⟨32, _, rfl, rfl⟩
    exact (Bool.not_eq_true' _).mp (List.all_eq_true.mp hdigits c hc)
  have hvalue : ValueAt TextCode.empty .int32 s (42 : Int32) { s with rest := ascii " ) foo" } :=
    .intro ⟨_, _, _, rfl, .inl rfl⟩ hcolon htext rfl
  exact .intro hopening rfl (.plain ⟨42, hvalue, rfl⟩)

/-- A text that goes on behind its object is accepted. -/
theorem trailing_text_accepted : ¬ ∀ (code : FramedCode) (types : TypeMap) (what : Bytes),
    ∀ uv types', fromStringImpl code.toTextCode what types = (.ok (some uv), types') →
      IsObject code.toTextCode types what := by
  intro hall
  have hopened : Opened FramedCode.empty.toTextCode ⟨.empty, trailingText, []⟩ _ _ _ :=
    trailingText_opened
  obtain ⟨uv, types', hok⟩ := fromStringImpl_iff.mpr ⟨_, _, _, hopened⟩
  obtain ⟨t, x, s, s', h, hending⟩ := hall .empty .empty trailingText uv types' hok
  obtain rfl := hopened.unique h
  -- `end_object` would have found the text
  have hend := endObject_iff.mpr hending
  cases congrArg Prod.fst hend

end BoostActor
