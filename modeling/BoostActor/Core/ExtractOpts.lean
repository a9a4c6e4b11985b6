import BoostActor.Core.Extract
import BoostActor.Lib.SortedList

/-!
# Extracting command line options

`message::extract_opts` (`message.cpp`) fills two maps from the names of the
options, renders the help text, and extracts from a message of strings with a
handler for one string and one for two.

The functions of the options read and write the state of the program; the names
found and the error are what the two handlers add to it.

* `CowMessage.extractOpts` — the function;
* `CowMessage.extractImpl_consume` — on a message of strings, its extraction goes
  through the list once: at each string, two strings are tried before one.
-/

namespace BoostActor

open Lib

variable {σ : Type}

/-- `message::cli_arg`. The function stores the value of an option, and says
whether it could. -/
structure CliArg (σ : Type) where
  name : Bytes
  text : Bytes
  helptext : Bytes
  func : Option (Bytes → σ → Bool × σ)

/-- `split` at the commas; adjacent ones count as one (`token_compress_on`). The
flag says that a comma was just read. -/
def splitCommas : Bool → Bytes → List Bytes
  | _, [] => [[]]
  | sep, c :: cs =>
    if c = 44 then
      if sep then splitCommas true cs else [] :: splitCommas true cs
    else match splitCommas false cs with
      | [] => [[c]]
      | s :: ss => (c :: s) :: ss

namespace CliArg

/-- The names of an option: the long one first. -/
def names (arg : CliArg σ) : List Bytes := splitCommas false arg.name

/-- `pred`: the option is called `help`, or one of its short names has an `h` or a
`?` in it. -/
def isHelp (arg : CliArg σ) : Bool :=
  match arg.names with
  | [] => false
  | s :: ss => s == ascii "help" || ss.any fun opt => opt.any fun c => c == 104 || c == 63

/-- `cli_arg{"help,h,?", "print this text"}`. -/
def help : CliArg σ := ⟨ascii "help,h,?", ascii "print this text", [], none⟩

/-- The long name that `insert_opt_name` cuts out. -/
def optName (arg : CliArg σ) : Bytes := arg.name.takeWhile fun c => c ≠ 44

/-- The help text of an option from its names. -/
def describe (arg : CliArg σ) : Bytes :=
  let names := match arg.names with
    | [] => []
    | [s] => ascii "--" ++ s
    | s :: s₁ :: ss =>
      ascii "-" ++ s₁ ++ ascii " [" ++ (ss.flatMap fun n => ascii "-" ++ n ++ ascii ",") ++
        ascii "--" ++ s ++ ascii "]"
  arg.helptext ++ names ++ if arg.func.isSome then ascii " arg" else []

end CliArg

/-- The default help item comes last, unless one of the options is for help. -/
def withHelp (xs : List (CliArg σ)) : List (CliArg σ) :=
  if xs.any CliArg.isHelp then xs else xs ++ [CliArg.help]

/-- A `std::map` from names to options. The last assignment to a name counts. -/
abbrev OptionMap (σ : Type) := List (Bytes × CliArg σ)

def OptionMap.find (map : OptionMap σ) (key : Bytes) : Option (CliArg σ) :=
  (List.find? (fun entry => decide (entry.1 = key)) map).map Prod.snd

/-- The two maps. -/
structure OptionMaps (σ : Type) where
  shorts : OptionMap σ
  longs : OptionMap σ

/-- The loop over the short names of an option. -/
def addShorts (arg : CliArg σ) : List Bytes → OptionMap σ → Except Bytes (OptionMap σ)
  | [], shorts => .ok shorts
  | s :: ss, shorts =>
    if s.length ≠ 1 then .error (ascii "invalid short option name: " ++ s)
    else addShorts arg ss ((ascii "-" ++ s, arg) :: shorts)

/-- The loop over the options. -/
def addOptions : List (CliArg σ) → OptionMaps σ → Except Bytes (OptionMaps σ)
  | [], maps => .ok maps
  | arg :: args, maps =>
    match arg.names with
    | [] => .error (ascii "invalid option name: " ++ arg.name)
    | s :: ss =>
      match addShorts arg ss maps.shorts with
      | .error err => .error err
      | .ok shorts => addOptions args ⟨shorts, (ascii "--" ++ s, arg) :: maps.longs⟩

/-- The help text without a `help_factory`. -/
def helpString (xs : List (CliArg σ)) : Bytes :=
  let width := xs.foldl (fun tmp arg => max tmp arg.helptext.length) 0
  ascii "Allowed options:\n" ++ xs.flatMap fun ca =>
    ascii "  " ++ ca.helptext ++ List.replicate (width - ca.helptext.length) 32 ++ ascii "  : " ++
      ca.text ++ ascii "\n"

/-- What the two handlers change: the state of the program, `opts` and `error`. -/
structure OptsState (σ : Type) where
  user : σ
  opts : SortedList (id : Bytes → Bytes)
  error : Bytes

namespace OptsState

def insertOptName (st : OptsState σ) (arg : CliArg σ) : OptsState σ :=
  { st with opts := st.opts.insert arg.optName }

def fail (st : OptsState σ) (error : Bytes) : OptsState σ := { st with error := error }

end OptsState

-- -------------------------
-- Options
-- -------------------------

/-- An option takes its value, or there is an error. -/
def takeValue (f : Bytes → σ → Bool × σ) (arg : CliArg σ) (value error : Bytes)
    (st : OptsState σ) : Bool × OptsState σ :=
  let (res, user) := f value st.user
  if res then (true, { st with user := user }.insertOptName arg)
  else (false, { st with user := user }.fail error)

/-- The handler for one string. -/
def parseOne (maps : OptionMaps σ) (arg : Bytes) (st : OptsState σ) : Bool × OptsState σ :=
  if arg.head? ≠ some 45 then (false, st)
  else match maps.shorts.find (arg.take 2) with
    | some i =>
      match i.func with
      | some f =>
        -- a value without a space, or none yet: then the handler for two strings is meant
        if 2 < arg.length then
          takeValue f i (arg.drop 2) (ascii "invalid value for " ++ i.name ++ ascii ": " ++ arg) st
        else (false, st)
      | none => (true, st.insertOptName i)
    | none =>
      match maps.longs.find (arg.takeWhile fun c => c ≠ 61) with
      | some j =>
        match j.func with
        | some f =>
          if 61 ∈ arg then
            takeValue f j (arg.dropWhile fun c => c ≠ 61).tail
              (ascii "invalid value for " ++ j.name ++ ascii ": " ++ arg) st
          else (false, st.fail (ascii "missing argument to " ++ arg))
        | none => (true, st.insertOptName j)
      | none => (false, st.fail (ascii "unknown command line option: " ++ arg))

/-- The handler for two strings. -/
def parseTwo (maps : OptionMaps σ) (arg1 arg2 : Bytes) (st : OptsState σ) : Bool × OptsState σ :=
  if arg1.length < 2 ∨ arg1.head? ≠ some 45 ∨ arg1[1]? = some 45 then (false, st)
  else match maps.shorts.find (arg1.take 2) with
    | some i =>
      match i.func with
      | some f =>
        if 2 < arg1.length then (false, st)
        else
          takeValue f i arg2 (ascii "invalid value for option " ++ i.name ++ ascii ": " ++ arg2) st
      | none => (false, st)
    | none => (false, st.fail (ascii "unknown command line option: " ++ arg1))

/-- The number of the type of strings. -/
def stringNr : UInt16 := Builtin.typeNr (.plain (.primitive .string))

/-- A string as an element of a message. -/
def stringElement (s : Bytes) : Element Bytes := ⟨⟨stringNr, 0⟩, s⟩

namespace CowMessage

-- -------------------------
-- Handlers for one and two strings
-- -------------------------

/-- The string at a position. -/
def stringAt (m : CowMessage Bytes) (pos : Nat) : Option Bytes :=
  (m.elementAt pos).bind fun e => if e.type.matchElement stringNr 0 then some e.value else none

/-- A message handler made of a function of one string and a function of two. -/
def stringHandler {τ : Type} (one : Bytes → τ → Bool × τ) (two : Bytes → Bytes → τ → Bool × τ)
    (m : CowMessage Bytes) (st : τ) : Bool × τ :=
  if m.size = 1 then
    match m.stringAt 0 with
    | some arg => one arg st
    | none => (false, st)
  else if m.size = 2 then
    match m.stringAt 0, m.stringAt 1 with
    | some arg1, some arg2 => two arg1 arg2 st
    | _, _ => (false, st)
  else (false, st)

/-- `message::cli_res`. -/
structure CliRes where
  remainder : CowMessage Bytes
  opts : SortedList (id : Bytes → Bytes)
  helptext : Bytes
  error : Bytes

/-- `message::extract_opts`, with the help factory if there is one. -/
def extractOpts (m : CowMessage Bytes) (xs : List (CliArg σ))
    (f : Option (List (CliArg σ) → Bytes)) (st : σ) : CliRes × σ :=
  let xs := withHelp xs
  match addOptions xs ⟨[], []⟩ with
  | .error err => (⟨m, .empty, [], err⟩, st)
  | .ok maps =>
    let xs := xs.map fun arg => { arg with helptext := arg.describe }
    let helpstr := match f with
      | some f => f xs
      | none => helpString xs
    let (res, st) := m.extract (stringHandler (parseOne maps) (parseTwo maps)) ⟨st, .empty, []⟩
    (⟨res, st.opts, helpstr, st.error⟩, st.user)

end CowMessage

-- -------------------------
-- Extraction from a list of strings
-- -------------------------

/-- Goes through a list of strings: two at once, then one, then on. -/
def consume {τ : Type} (one : Bytes → τ → Bool × τ) (two : Bytes → Bytes → τ → Bool × τ) :
    List Bytes → τ → List Bytes × τ
  | [], st => ([], st)
  | [a], st => (if (one a st).1 then [] else [a], (one a st).2)
  | a :: b :: rest, st =>
    if (two a b st).1 then consume one two rest (two a b st).2
    else
      (if (one a (two a b st).2).1 then (consume one two (b :: rest) (one a (two a b st).2).2).1
        else a :: (consume one two (b :: rest) (one a (two a b st).2).2).1,
      (consume one two (b :: rest) (one a (two a b st).2).2).2)

namespace CowMessage

variable {τ : Type} {one : Bytes → τ → Bool × τ} {two : Bytes → Bytes → τ → Bool × τ}
  {m : CowMessage Bytes}

theorem stringAt_eq {args : List Bytes} (h : m.Stands (args.map stringElement)) (pos : Nat) :
    m.stringAt pos = args[pos]? := by
  rw [stringAt, h.elementAt_eq, List.getElem?_map]
  cases args[pos]? <;> rfl

/-- The handler for one string is called. -/
theorem stringHandler_one {a : Bytes} (h : m.Stands ([a].map stringElement)) (st : τ) :
    stringHandler one two m st = one a st := by
  have hsize : m.size = 1 := h.size_eq
  rw [stringHandler, if_pos hsize, stringAt_eq h]
  rfl

/-- The handler for two strings is called. -/
theorem stringHandler_two {a b : Bytes} (h : m.Stands ([a, b].map stringElement)) (st : τ) :
    stringHandler one two m st = two a b st := by
  have hsize : m.size = 2 := h.size_eq
  rw [stringHandler, if_neg (by omega), if_pos hsize, stringAt_eq h, stringAt_eq h]
  rfl

theorem stringHandler_more (h : 2 < m.size) (st : τ) :
    stringHandler one two m st = (false, st) := by
  rw [stringHandler, if_neg (by omega), if_neg (by omega)]

/-- `extract_impl` at one position: either one of its slices is taken, or the
next position is tried. -/
theorem extractImpl_step (handler : CowMessage Bytes → τ → Bool × τ) {start : Nat}
    (h : start < m.size) (st : τ) :
    m.extractImpl handler start st =
      match m.tryLengths handler start (m.size - start) st with
      | (none, st) => m.extractImpl handler (start + 1) st
      | (some n, st) =>
        if (erasedMapping m.size start n).isEmpty then (empty, st)
        else (m.decorate (erasedMapping m.size start n)).extractImpl handler start st := by
  rw [extractImpl_eq, slicesFrom_of_lt h, search_append, tryLengths_eq]
  rcases m.tryLengths handler start (m.size - start) st with ⟨_ | n, st₁⟩
  · exact (extractImpl_eq handler m (start + 1) st₁).symm
  · rfl

/-- Behind the end nothing is offered. -/
theorem extractImpl_of_le (handler : CowMessage Bytes → τ → Bool × τ) {start : Nat}
    (h : m.size ≤ start) (st : τ) : m.extractImpl handler start st = (m, st) := by
  rw [extractImpl_eq, slicesFrom_of_le h]
  rfl

-- -------------------------
-- Arguments one after the other
-- -------------------------

/-- The strings in front of a position, and those from there on. -/
def Reads (m : CowMessage Bytes) (front args : List Bytes) : Prop :=
  m.Stands ((front ++ args).map stringElement)

variable {front args : List Bytes}

theorem Reads.size_eq (h : m.Reads front args) : m.size = front.length + args.length := by
  rw [Stands.size_eq h, List.length_map, List.length_append]

theorem Reads.slice (h : m.Reads front args) (n : Nat) :
    (m.slice front.length n).Stands ((args.take n).map stringElement) := by
  have hs := Stands.slice h front.length n
  rwa [← List.map_drop, ← List.map_take, List.drop_left] at hs

/-- Erasing a slice leaves the arguments behind it. -/
theorem Reads.erase (h : m.Reads front args) (n : Nat) :
    (m.decorate (erasedMapping m.size front.length n)).Reads front (args.drop n) := by
  have hrest : removeSlice ((front ++ args).map stringElement) (front.length, n) =
      (front ++ args.drop n).map stringElement := by
    rw [removeSlice, ← List.map_take, ← List.map_drop, ← List.map_append, List.take_left,
      ← List.drop_drop, List.drop_left]
  have hs := Stands.erase h (front.length, n)
  rwa [hrest] at hs

/-- Slices of more than two strings are refused. -/
theorem tryLengths_two (h : m.Reads front args) (st : τ) : ∀ k, k + 2 ≤ args.length →
    m.tryLengths (stringHandler one two) front.length (k + 2) st =
      m.tryLengths (stringHandler one two) front.length 2 st
  | 0, _ => rfl
  | k + 1, hk => by
    have hsize : (m.slice front.length (k + 1 + 2)).size = k + 1 + 2 := by
      rw [(h.slice _).size_eq, List.length_map, List.length_take]
      omega
    have hmore : stringHandler one two (m.slice front.length (k + 1 + 2)) st = (false, st) :=
      stringHandler_more (by omega) st
    rw [tryLengths]
    simp only [hmore]
    exact tryLengths_two h st k (by omega)

/-- One argument is offered on its own if two were refused. -/
theorem tryLengths_one (h : m.Reads front args) (a : Bytes) (rest : List Bytes)
    (ha : args = a :: rest) (st : τ) :
    m.tryLengths (stringHandler one two) front.length 1 st =
      (if (one a st).1 then some 1 else none, (one a st).2) := by
  have hs := h.slice 1
  subst ha
  have hone : stringHandler one two (m.slice front.length 1) st = one a st :=
    stringHandler_one hs st
  rw [tryLengths]
  simp only [hone]
  split <;> rfl

/-- What is offered at a position with two strings from there on. -/
theorem tryLengths_more (h : m.Reads front args) {a b : Bytes} {rest : List Bytes}
    (ha : args = a :: b :: rest) (st : τ) :
    m.tryLengths (stringHandler one two) front.length args.length st =
      if (two a b st).1 then (some 2, (two a b st).2)
      else (if (one a (two a b st).2).1 then some 1 else none, (one a (two a b st).2).2) := by
  have hlen : args.length = rest.length + 2 := by rw [ha]; rfl
  have hs := h.slice 2
  rw [hlen, tryLengths_two h st _ (le_of_eq hlen.symm)]
  subst ha
  have htwo : stringHandler one two (m.slice front.length 2) st = two a b st :=
    stringHandler_two hs st
  rw [tryLengths]
  simp only [htwo, Nat.reduceAdd]
  split
  · rfl
  · exact tryLengths_one h a (b :: rest) rfl _

/-- After a slice was taken: the rest of the strings are gone through. -/
theorem extractImpl_erase (h : m.Reads front args) {n : Nat} {st : τ} {p : List Bytes × τ}
    (hle : n ≤ args.length)
    (ih : ∀ {m : CowMessage Bytes}, m.Reads front (args.drop n) →
      (m.extractImpl (stringHandler one two) front.length st).1.Stands
          ((front ++ p.1).map stringElement) ∧
        (m.extractImpl (stringHandler one two) front.length st).2 = p.2)
    (hp : args.drop n = [] → p = ([], st)) :
    let next := if (erasedMapping m.size front.length n).isEmpty then (empty, st)
      else (m.decorate (erasedMapping m.size front.length n)).extractImpl
        (stringHandler one two) front.length st
    next.1.Stands ((front ++ p.1).map stringElement) ∧ next.2 = p.2 := by
  intro next
  by_cases hempty : (erasedMapping m.size front.length n).isEmpty = true
  · have hlen := length_erasedMapping (s := m.size) (i := front.length) (n := n)
      (by rw [h.size_eq]; omega)
    rw [List.isEmpty_iff.mp hempty, h.size_eq] at hlen
    have hfront : front = [] := List.length_eq_zero_iff.mp (by simp at hlen; omega)
    have hdrop : args.drop n = [] := List.drop_eq_nil_iff.mpr (by simp at hlen; omega)
    have hnext : next = (empty, st) := if_pos hempty
    rw [hnext, hp hdrop, hfront]
    exact ⟨stands_empty, rfl⟩
  · have hnext : next = (m.decorate (erasedMapping m.size front.length n)).extractImpl
        (stringHandler one two) front.length st := if_neg hempty
    rw [hnext]
    exact ih (h.erase n)

/-- An argument that was refused belongs to the front from then on. -/
theorem Reads.next {a : Bytes} {rest : List Bytes} (h : m.Reads front (a :: rest)) :
    m.Reads (front ++ [a]) rest := by
  rwa [Reads, ← List.append_cons]

/-- At the end of the message it is returned as it is. -/
theorem Reads.extractImpl_nil (h : m.Reads front []) (one : Bytes → τ → Bool × τ)
    (two : Bytes → Bytes → τ → Bool × τ) (st : τ) :
    (m.extractImpl (stringHandler one two) front.length st).1.Stands
        ((front ++ []).map stringElement) ∧
      (m.extractImpl (stringHandler one two) front.length st).2 = st := by
  have hsize : m.size = front.length := h.size_eq
  rw [extractImpl_of_le _ (le_of_eq hsize)]
  exact ⟨h, rfl⟩

/-- Extraction from a message of strings goes through the list. The induction
follows `consume`; what was refused stays in front. -/
theorem extractImpl_consume (args : List Bytes) (st : τ) : ∀ {m : CowMessage Bytes}
    {front : List Bytes}, m.Reads front args →
      (m.extractImpl (stringHandler one two) front.length st).1.Stands
          ((front ++ (consume one two args st).1).map stringElement) ∧
        (m.extractImpl (stringHandler one two) front.length st).2 =
          (consume one two args st).2 := by
  induction args, st using consume.induct one two with
  | case1 st =>
    intro m front h
    exact h.extractImpl_nil one two st
  -- one argument is left
  | case2 a st =>
    intro m front h
    have hsize : m.size = front.length + 1 := h.size_eq
    have hrest : m.size - front.length = 1 := by omega
    rw [extractImpl_step _ (by omega), hrest, tryLengths_one h a [] rfl, consume]
    by_cases hone : (one a st).1 = true
    · simp only [hone, if_true]
      exact extractImpl_erase h le_rfl (fun h' => h'.extractImpl_nil one two _) fun _ => rfl
    · simp only [hone]
      have hnil := h.next.extractImpl_nil one two (one a st).2
      rw [List.length_append, List.append_assoc] at hnil
      exact hnil
  -- two arguments were taken
  | case3 a b rest st htwo ih =>
    intro m front h
    have hsize : m.size = front.length + (rest.length + 2) := h.size_eq
    have hrest : m.size - front.length = (a :: b :: rest).length := by
      rw [List.length_cons, List.length_cons]
      omega
    rw [extractImpl_step _ (by omega), hrest, tryLengths_more h rfl, if_pos htwo, consume,
      if_pos htwo]
    refine extractImpl_erase h (by omega) (fun h' => ih h') fun hnil => ?_
    rw [show rest = [] from hnil, consume]
  -- the second one was refused together with the first
  | case4 a b rest st htwo ih =>
    intro m front h
    have hsize : m.size = front.length + (rest.length + 2) := h.size_eq
    have hrest : m.size - front.length = (a :: b :: rest).length := by
      rw [List.length_cons, List.length_cons]
      omega
    rw [extractImpl_step _ (by omega), hrest, tryLengths_more h rfl, if_neg htwo, consume,
      if_neg htwo]
    by_cases hone : (one a (two a b st).2).1 = true
    · simp only [hone, if_true]
      exact extractImpl_erase h (by omega) (fun h' => ih h') fun hnil => by cases hnil
    · simp only [hone]
      have hnext := ih h.next
      rw [List.length_append, List.append_assoc] at hnext
      exact hnext

/-- `extract` with such a handler. -/
theorem extract_consume (one : Bytes → τ → Bool × τ) (two : Bytes → Bytes → τ → Bool × τ)
    {args : List Bytes} (h : m.Stands (args.map stringElement)) (st : τ) :
    (m.extract (stringHandler one two) st).1.Stands
        ((consume one two args st).1.map stringElement) ∧
      (m.extract (stringHandler one two) st).2 = (consume one two args st).2 := by
  have h' : m.Reads [] args := h
  exact extractImpl_consume args st h'

end CowMessage

end BoostActor
