import BoostActor.Core.StringSerialization
import BoostActor.Core.TypeNames

/-!
# The text of a value

What the serializer writes in closed form: the elements of a message or a sequence
with a comma between them, inside parentheses or braces.

* `messageToString_eq` — the text of a message;
* `toStringImpl_eq` — the text of a single value.
-/

namespace BoostActor

variable {code : TextCode}

/-- A string in its quotes. -/
def quote (str : Bytes) : Bytes := [34] ++ escape str ++ [34]

/-- Texts with a comma between them. -/
def joined : List Bytes → Bytes
  | [] => []
  | x :: xs => x ++ xs.flatMap fun y => ascii ", " ++ y

theorem joined_cons (x : Bytes) (xs : List Bytes) :
    joined (x :: xs) = x ++ xs.flatMap fun y => ascii ", " ++ y := rfl

/-- The text of a sequence. -/
def sequenceText (xs : List Bytes) : Bytes :=
  ascii "\x7b " ++ joined (xs.map quote) ++ if xs.isEmpty then ascii "\x7d" else ascii " \x7d"

/-- The strings a map is written as. -/
def StringMap.strings (m : StringMap) : List Bytes := m.elems.flatMap fun kv => [kv.1, kv.2]

/-- The value is not written by code of its own. -/
def PlainType.Embedded : PlainType → Prop
  | .primitive t => t ≠ .float ∧ t ≠ .double ∧ t ≠ .longDouble ∧ t ≠ .u16string ∧ t ≠ .u32string
  | .strvec => True
  | .strset => True
  | .strmap => True
  | _ => False

instance : DecidablePred PlainType.Embedded
  | .primitive _ => inferInstanceAs (Decidable (_ ∧ _))
  | .strvec => .isTrue trivial
  | .strset => .isTrue trivial
  | .strmap => .isTrue trivial
  | .charbuf => .isFalse id
  | .duration => .isFalse id
  | .messageId => .isFalse id
  | .node => .isFalse id
  | .syncTimeout => .isFalse id
  | .timeout => .isFalse id
  | .unit => .isFalse id

/-- The text of such a value. -/
def PlainValue.text (code : TextCode) : PlainValue → Bytes
  | .primitive t v => ptWrite code t v
  | .strvec xs => sequenceText xs
  | .strset s => sequenceText s.elems
  | .strmap m => sequenceText m.strings
  | _ => []

namespace TextSink

/-- After a value. -/
def afterText (out : Bytes) (open_ : List Bytes) : TextSink := ⟨out, true, false, open_⟩

/-- Before a value, with the separator written. -/
def beforeText (out : Bytes) (open_ : List Bytes) : TextSink := ⟨out, false, false, open_⟩

theorem clear_afterText (out : Bytes) (open_ : List Bytes) :
    (afterText out open_).clear = beforeText (out ++ ascii ", ") open_ := rfl

theorem clear_beforeText (out : Bytes) (open_ : List Bytes) :
    (beforeText out open_).clear = beforeText out open_ := rfl

/-- Behind the name of an object comes its parenthesis. -/
theorem clear_opened {name : Bytes} (h : isbuiltin name = false) (out : Bytes)
    (outer : List Bytes) :
    clear ⟨out, false, true, name :: outer⟩ = beforeText (out ++ ascii " ( ") (name :: outer) := by
  show TextSink.mk (out ++ if isbuiltin name = true then [] else _) _ _ _ = _
  rw [h]
  rfl

/-- A name that is shown is written. -/
theorem beginObject_shown {s : TextSink} {name out : Bytes} {open_ : List Bytes}
    (h : showsName name = true) (hs : s.clear = beforeText out open_) :
    s.beginObject name = ⟨out ++ name, false, true, name :: open_⟩ := by
  unfold beginObject
  rw [hs, h]
  rfl

theorem endObject_shown {name : Bytes} (h : showsName name = true) (out : Bytes)
    (after justOpened : Bool) (outer : List Bytes) :
    endObject ⟨out, after, justOpened, name :: outer⟩ = afterText (out ++ ascii " )") outer := by
  show TextSink.mk (out ++ if showsName name = true then _ else _) _ _ _ = _
  rw [h]
  rfl

/-- A name that is hidden leaves no end either. -/
theorem endObject_hidden {name : Bytes} (h : showsName name = false) (out : Bytes)
    (after justOpened : Bool) (outer : List Bytes) :
    endObject ⟨out, after, justOpened, name :: outer⟩ = afterText out outer := by
  show TextSink.mk (out ++ if showsName name = true then _ else _) _ _ _ = _
  rw [h]
  exact congrArg (fun o => afterText o outer) (List.append_nil out)

variable {s : TextSink} {out : Bytes} {open_ : List Bytes}

/-- A primitive value is written behind what was there. -/
theorem writeValue_eq (t : PrimitiveType) (v : t.Val) (hs : s.clear = beforeText out open_)
    (hopen : open_ ≠ []) :
    s.writeValue code t v = .ok (afterText (out ++ ptWrite code t v) open_) := by
  unfold writeValue
  rw [hs]
  have hne : ¬ open_.isEmpty = true := by rwa [List.isEmpty_iff]
  exact if_neg hne

/-- Behind a value, each string comes with a comma. -/
theorem foldlM_afterText (xs : List Bytes) (hopen : open_ ≠ []) :
    xs.foldlM (fun s x => s.writeValue code .string x) (afterText out open_) =
      .ok (afterText (out ++ xs.flatMap fun x => ascii ", " ++ quote x) open_) := by
  induction xs generalizing out with
  | nil => exact congrArg (fun o => Except.ok (afterText o open_)) (List.append_nil out).symm
  | cons x xs ih =>
    rw [List.foldlM_cons, writeValue_eq .string x (clear_afterText out open_) hopen]
    show xs.foldlM _ (afterText (out ++ ascii ", " ++ quote x) open_) = _
    rw [ih, List.flatMap_cons, List.append_assoc, List.append_assoc, List.append_assoc]

/-- A sequence of strings is written between braces. -/
theorem writeStrings_eq (xs : List Bytes) (hs : s.clear = beforeText out open_)
    (hopen : open_ ≠ []) :
    s.writeStrings code xs = .ok (afterText (out ++ sequenceText xs) open_) := by
  have hbegin : s.beginSequence = beforeText (out ++ ascii "\x7b ") open_ := by
    unfold beginSequence
    rw [hs]
    rfl
  unfold writeStrings
  rw [hbegin]
  cases xs with
  | nil =>
    show Except.ok (afterText (out ++ ascii "\x7b " ++ ascii "\x7d") open_) = _
    rw [List.append_assoc]
    rfl
  -- the first string behind the brace, the others behind commas
  | cons x xs =>
    rw [List.foldlM_cons, writeValue_eq .string x (clear_beforeText _ open_) hopen]
    show (xs.foldlM _ (afterText (out ++ ascii "\x7b " ++ quote x) open_) >>= fun s =>
      pure s.endSequence) = _
    rw [foldlM_afterText xs hopen]
    have htext : sequenceText (x :: xs) = ascii "\x7b " ++ (quote x ++
        (xs.flatMap (fun y => ascii ", " ++ quote y) ++ ascii " \x7d")) := by
      unfold sequenceText
      rw [List.map_cons, joined_cons, List.flatMap_map]
      simp only [List.append_assoc]
      rfl
    show Except.ok (afterText (out ++ ascii "\x7b " ++ quote x ++
      xs.flatMap (fun y => ascii ", " ++ quote y) ++ ascii " \x7d") open_) = _
    rw [htext]
    simp only [List.append_assoc]

/-- Every embedded value is written as its text. -/
theorem writeText_eq {x : PlainValue} (hx : x.type.Embedded) (hs : s.clear = beforeText out open_)
    (hopen : open_ ≠ []) :
    x.writeText code s = .ok (afterText (out ++ x.text code) open_) := by
  cases x with
  | primitive t v => exact writeValue_eq t v hs hopen
  | strvec xs => exact writeStrings_eq xs hs hopen
  | strset x => exact writeStrings_eq x.elems hs hopen
  | strmap m => exact writeStrings_eq m.strings hs hopen
  | _ => exact hx.elim

/-- Behind a value, each element comes with a comma. -/
theorem writeTextAll_afterText {xs : List PlainValue} (hxs : ∀ x ∈ xs, x.type.Embedded)
    (hopen : open_ ≠ []) :
    writeTextAll code (xs.map Value.plain) (afterText out open_) =
      .ok (afterText (out ++ xs.flatMap fun x => ascii ", " ++ x.text code) open_) := by
  induction xs generalizing out with
  | nil => exact congrArg (fun o => Except.ok (afterText o open_)) (List.append_nil out).symm
  | cons x xs ih =>
    rw [List.map_cons, writeTextAll, Value.writeText,
      writeText_eq (hxs x List.mem_cons_self) (clear_afterText out open_) hopen]
    show writeTextAll code (xs.map Value.plain)
      (afterText (out ++ ascii ", " ++ x.text code) open_) = _
    rw [ih fun y hy => hxs y (List.mem_cons_of_mem x hy), List.flatMap_cons, List.append_assoc,
      List.append_assoc, List.append_assoc]

end TextSink

open TextSink

/-! ## Messages -/

/-- The types of the elements of a message. -/
def elementBuiltins (xs : List PlainValue) : List Builtin := xs.map fun x => .plain x.type

/-- The name of a tuple of plain values. -/
theorem typeNames_plain (xs : List PlainValue) :
    tuplePrefix ++ typeNames (xs.map Value.plain) = tupleName (elementBuiltins xs) := by
  unfold typeNames tupleName elementBuiltins
  rw [List.flatMap_map, List.flatMap_map]
  rfl

/-- A tuple name starts like none of the names that are not shown. -/
theorem take_tupleName (bs : List Builtin) :
    (tupleName bs).take 3 = tuplePrefix := by
  unfold tupleName
  exact List.take_left' rfl

/-- The name of a tuple is no built-in name. -/
theorem isbuiltin_tupleName (bs : List Builtin) : isbuiltin (tupleName bs) = false := by
  have hne : ∀ n : Bytes, n.take 3 ≠ tuplePrefix → decide (tupleName bs = n) = false :=
    fun n hn => decide_eq_false fun heq => hn (heq ▸ take_tupleName bs)
  unfold isbuiltin
  rw [hne _ (by decide), hne _ (by decide), hne _ (by decide)]
  rfl

/-- So it is shown. -/
theorem showsName_tupleName (bs : List Builtin) : showsName (tupleName bs) = true := by
  have hne : tupleName bs ≠ ascii "@message" := by
    intro heq
    have hprefix := take_tupleName bs
    rw [heq] at hprefix
    exact absurd hprefix (by decide)
  unfold showsName
  rw [isbuiltin_tupleName, decide_eq_true hne]
  rfl

/-- The elements of a message in parentheses; an empty message has only the closing one. -/
def bodyText (code : TextCode) (xs : List PlainValue) : Bytes :=
  (if xs.isEmpty then [] else ascii " ( " ++ joined (xs.map (PlainValue.text code))) ++ ascii " )"

/-- A message is written as the name of its tuple and its elements. -/
theorem messageToString_eq (code : TextCode) {xs : List PlainValue}
    (hxs : ∀ x ∈ xs, x.type.Embedded) :
    messageToString code (xs.map Value.plain) =
      .ok (tupleName (elementBuiltins xs) ++ bodyText code xs) := by
  have hshows := showsName_tupleName (elementBuiltins xs)
  have hmessage : TextSink.new.beginObject (Value.message (xs.map Value.plain)).typeName =
      beforeText [] [ascii "@message"] := rfl
  -- the elements end with a value, or there is none
  have helements : ∃ after justOpened, writeTextAll code (xs.map Value.plain)
      ⟨tupleName (elementBuiltins xs), false, true,
        [tupleName (elementBuiltins xs), ascii "@message"]⟩ =
      .ok ⟨tupleName (elementBuiltins xs) ++
        (if xs.isEmpty then [] else ascii " ( " ++ joined (xs.map (PlainValue.text code))),
        after, justOpened, [tupleName (elementBuiltins xs), ascii "@message"]⟩ := by
    cases xs with
    | nil => exact ⟨false, true, rfl⟩
    | cons x xs =>
      refine ⟨true, false, ?_⟩
      rw [List.map_cons, writeTextAll, Value.writeText,
        writeText_eq (hxs x List.mem_cons_self)
          (clear_opened (isbuiltin_tupleName (elementBuiltins (x :: xs))) _ _)
          (List.cons_ne_nil _ _)]
      show writeTextAll code (xs.map Value.plain) (afterText _ _) = _
      rw [writeTextAll_afterText (fun y hy => hxs y (List.mem_cons_of_mem x hy))
        (List.cons_ne_nil _ _), List.map_cons, joined_cons, List.flatMap_map]
      simp only [List.append_assoc]
      rfl
  obtain ⟨after, justOpened, helements⟩ := helements
  unfold messageToString toStringImpl bodyText
  rw [hmessage, Value.writeText, typeNames_plain, beginObject_shown hshows (clear_beforeText _ _),
    List.nil_append, helements]
  show Except.ok (endObject (endObject _)).out = _
  rw [endObject_shown hshows, afterText, endObject_hidden (by decide), List.append_assoc]
  rfl

/-! ## Single values -/

/-- The text of a single value, of a type that is written with its name. -/
theorem toStringImpl_eq (code : TextCode) {x : PlainValue} (hx : x.type.Embedded)
    (hshows : showsName (Builtin.plain x.type).name = true) :
    toStringImpl code (.plain x) = .ok ((Builtin.plain x.type).name ++ ascii " ( " ++
      x.text code ++ ascii " )") := by
  have hbuiltin : isbuiltin (Builtin.plain x.type).name = false := by
    unfold showsName at hshows
    rw [Bool.and_eq_true, Bool.not_eq_true'] at hshows
    exact hshows.1
  have hbegin : TextSink.new.beginObject (Value.plain x).typeName =
      ⟨(Builtin.plain x.type).name, false, true, [(Builtin.plain x.type).name]⟩ :=
    beginObject_shown hshows (clear_beforeText [] [])
  unfold toStringImpl
  rw [hbegin, Value.writeText, writeText_eq hx (clear_opened hbuiltin _ _) (List.cons_ne_nil _ _)]
  show Except.ok (endObject ⟨_, true, false, _⟩).out = _
  rw [endObject_shown hshows]
  rfl

end BoostActor
