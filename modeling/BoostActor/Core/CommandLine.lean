import BoostActor.Core.ExtractOpts
import Mathlib.Data.List.Nodup
import Mathlib.Data.List.TakeWhile

/-!
# Command lines

What a command line is, without the handlers that read it: strings, options
without a value, and options with a value that is attached or comes as the next
string. `Parses` says which strings are left and which options were given.

* `consume_append` — `extract_opts` reads what can be parsed so;
* `readable_or_error` — anything else is an error, but for a short option at the
  end whose value is missing;
* `extractOpts_iff` — without an error everything was recognized iff the command
  line does not end like that.
-/

namespace BoostActor

open Lib

variable {σ : Type}

namespace CliArg

/-- The key of an option in `longs`. -/
def longKey (o : CliArg σ) : Bytes := ascii "--" ++ o.names.headD []

/-- The keys of an option in `shorts`. -/
def shortKeys (o : CliArg σ) : List Bytes := o.names.tail.map fun n => ascii "-" ++ n

def keys (o : CliArg σ) : List Bytes := o.longKey :: o.shortKeys

/-- The string is the option, with whatever follows. -/
def Spells (o : CliArg σ) (a : Bytes) : Prop :=
  a.take 2 ∈ o.shortKeys ∨ (a.takeWhile fun c => c ≠ 61) = o.longKey

/-- The string is the option with a value attached. -/
def Attaches (o : CliArg σ) (a value : Bytes) : Prop :=
  (a.take 2 ∈ o.shortKeys ∧ a.drop 2 = value ∧ value ≠ []) ∨
    (a.takeWhile fun c => c ≠ 61) = o.longKey ∧ (a.dropWhile fun c => c ≠ 61) = 61 :: value

end CliArg

/-- Short names have one character, which is not `-`, and no name is used twice. -/
structure ValidOptions (xs : List (CliArg σ)) : Prop where
  short : ∀ o ∈ xs, ∀ n ∈ o.names.tail, ∃ c, n = [c] ∧ c ≠ 45
  distinct : (xs.flatMap CliArg.keys).Nodup

/-- Reading a command line in some state: the strings that are left, the options
given, and the state in which their functions leave the program. -/
inductive Parses (xs : List (CliArg σ)) :
    List Bytes → σ → List Bytes → List (CliArg σ) → σ → Prop
  | nil {u : σ} : Parses xs [] u [] [] u
  | string {a : Bytes} {args rem : List Bytes} {given : List (CliArg σ)} {u u' : σ} :
      a.head? ≠ some 45 → Parses xs args u rem given u' →
      Parses xs (a :: args) u (a :: rem) given u'
  | flag {a : Bytes} {o : CliArg σ} {args rem : List Bytes} {given : List (CliArg σ)} {u u' : σ} :
      o ∈ xs → o.func = none → o.Spells a → Parses xs args u rem given u' →
      Parses xs (a :: args) u rem (o :: given) u'
  | attached {a value : Bytes} {o : CliArg σ} {f : Bytes → σ → Bool × σ} {args rem : List Bytes}
      {given : List (CliArg σ)} {u u₁ u' : σ} :
      o ∈ xs → o.func = some f → o.Attaches a value → f value u = (true, u₁) →
      Parses xs args u₁ rem given u' → Parses xs (a :: args) u rem (o :: given) u'
  | separate {a value : Bytes} {o : CliArg σ} {f : Bytes → σ → Bool × σ} {args rem : List Bytes}
      {given : List (CliArg σ)} {u u₁ u' : σ} :
      o ∈ xs → o.func = some f → a ∈ o.shortKeys → f value u = (true, u₁) →
      Parses xs args u₁ rem given u' → Parses xs (a :: value :: args) u rem (o :: given) u'

/-- The last string is a short option that takes a value, and all before it can be
parsed without it. -/
def Dangling (xs : List (CliArg σ)) (args : List Bytes) (u : σ) : Prop :=
  ∃ front a rem given u' o, args = front ++ [a] ∧ Parses xs front u rem given u' ∧
    o ∈ xs ∧ o.func.isSome = true ∧ a ∈ o.shortKeys

-- -------------------------
-- The maps
-- -------------------------

/-- In a map without duplicate keys, what is found is what is in it. -/
theorem OptionMap.find_eq_some {map : OptionMap σ} (h : (map.map Prod.fst).Nodup) {key : Bytes}
    {o : CliArg σ} : map.find key = some o ↔ (key, o) ∈ map := by
  rw [OptionMap.find, Option.map_eq_some_iff]
  constructor
  · rintro ⟨entry, hf, rfl⟩
    have hkey : entry.1 = key := by simpa using List.find?_some hf
    have hmem := List.mem_of_find?_eq_some hf
    rwa [← hkey]
  · intro hmem
    cases hf : List.find? (fun entry => decide (entry.1 = key)) map with
    | none => exact absurd (decide_eq_true rfl) (List.find?_eq_none.mp hf _ hmem)
    | some entry =>
      have hkey : entry.1 = key := by simpa using List.find?_some hf
      have heq := List.inj_on_of_nodup_map h (List.mem_of_find?_eq_some hf) hmem hkey
      exact ⟨entry, rfl, by rw [heq]⟩

/-- The entries of the two maps. -/
def mapsOf (xs : List (CliArg σ)) : OptionMaps σ :=
  ⟨(xs.flatMap fun o => o.shortKeys.map fun k => (k, o)).reverse,
    (xs.map fun o => (o.longKey, o)).reverse⟩

/-- The short names of an option are put into the map. -/
theorem addShorts_ok (arg : CliArg σ) : ∀ (ss : List Bytes) (shorts : OptionMap σ),
    (∀ s ∈ ss, s.length = 1) →
      addShorts arg ss shorts =
        .ok ((ss.map fun s => (ascii "-" ++ s, arg)).reverse ++ shorts)
  | [], _, _ => rfl
  | s :: ss, shorts, h => by
    have hs := h s List.mem_cons_self
    rw [addShorts, if_neg (by simpa using hs),
      addShorts_ok arg ss _ fun t ht => h t (List.mem_cons_of_mem s ht)]
    simp

/-- Splitting yields one part at least. -/
theorem splitCommas_ne_nil (sep : Bool) (s : Bytes) : splitCommas sep s ≠ [] := by
  induction s generalizing sep with
  | nil => simp [splitCommas]
  | cons c cs ih =>
    rw [splitCommas]
    split
    · split
      · exact ih true
      · simp
    · split <;> simp

/-- The maps of valid options hold all their names. -/
theorem addOptions_ok : ∀ (xs : List (CliArg σ)) (maps : OptionMaps σ),
    (∀ o ∈ xs, ∀ n ∈ o.names.tail, n.length = 1) →
      addOptions xs maps =
        .ok ⟨(mapsOf xs).shorts ++ maps.shorts, (mapsOf xs).longs ++ maps.longs⟩
  | [], _, _ => rfl
  | o :: xs, maps, h => by
    have ho := h o List.mem_cons_self
    have ih := fun maps => addOptions_ok xs maps fun p hp => h p (List.mem_cons_of_mem o hp)
    rw [addOptions]
    cases hn : o.names with
    | nil => exact absurd hn (splitCommas_ne_nil false o.name)
    | cons s ss =>
      have hss : ∀ n ∈ ss, n.length = 1 := fun n hn' => ho n (by rw [hn]; exact hn')
      simp only [addShorts_ok o ss maps.shorts hss, ih]
      simp [mapsOf, CliArg.shortKeys, CliArg.longKey, hn]

namespace ValidOptions

variable {xs : List (CliArg σ)}

/-- A short key is a dash and another character. -/
theorem shortKey (h : ValidOptions xs) {o : CliArg σ} (ho : o ∈ xs) {k : Bytes}
    (hk : k ∈ o.shortKeys) : ∃ c, k = [45, c] ∧ c ≠ 45 := by
  obtain ⟨n, hn, rfl⟩ := List.mem_map.mp hk
  obtain ⟨c, rfl, hc⟩ := h.short o ho n hn
  exact ⟨c, rfl, hc⟩

theorem addOptions (h : ValidOptions xs) : addOptions xs ⟨[], []⟩ = .ok (mapsOf xs) := by
  rw [addOptions_ok xs _ fun o ho n hn => ?_]
  · simp
  · obtain ⟨c, rfl, -⟩ := h.short o ho n hn
    rfl

/-- An option is found under its short keys. -/
theorem find_short (h : ValidOptions xs) {key : Bytes} {o : CliArg σ} :
    (mapsOf xs).shorts.find key = some o ↔ o ∈ xs ∧ key ∈ o.shortKeys := by
  have hsub : (xs.flatMap CliArg.shortKeys).Sublist (xs.flatMap CliArg.keys) := by
    clear h
    induction xs with
    | nil => exact List.Sublist.slnil
    | cons o xs ih =>
      rw [List.flatMap_cons, List.flatMap_cons]
      exact (List.sublist_cons_self _ _).append ih
  have hkeys : ((mapsOf xs).shorts.map Prod.fst).Nodup := by
    have hmap : (mapsOf xs).shorts.map Prod.fst = (xs.flatMap CliArg.shortKeys).reverse := by
      rw [mapsOf, List.map_reverse, List.map_flatMap]
      simp [Function.comp_def]
    rw [hmap, List.nodup_reverse]
    exact hsub.nodup h.distinct
  rw [OptionMap.find_eq_some hkeys]
  simp only [mapsOf, List.mem_reverse, List.mem_flatMap, List.mem_map, Prod.mk.injEq]
  constructor
  · rintro ⟨p, hp, k, hk, rfl, rfl⟩
    exact ⟨hp, hk⟩
  · rintro ⟨ho, hk⟩
    exact ⟨o, ho, key, hk, rfl, rfl⟩

/-- An option is found under its long key. -/
theorem find_long (h : ValidOptions xs) {key : Bytes} {o : CliArg σ} :
    (mapsOf xs).longs.find key = some o ↔ o ∈ xs ∧ key = o.longKey := by
  have hsub : (xs.map CliArg.longKey).Sublist (xs.flatMap CliArg.keys) := by
    clear h
    induction xs with
    | nil => exact List.Sublist.slnil
    | cons o xs ih =>
      rw [List.flatMap_cons, CliArg.keys, List.map_cons, List.cons_append]
      exact (ih.trans (List.sublist_append_right _ _)).cons_cons _
  have hkeys : ((mapsOf xs).longs.map Prod.fst).Nodup := by
    have hmap : (mapsOf xs).longs.map Prod.fst = (xs.map CliArg.longKey).reverse := by
      rw [mapsOf, List.map_reverse, List.map_map]
      rfl
    rw [hmap, List.nodup_reverse]
    exact hsub.nodup h.distinct
  rw [OptionMap.find_eq_some hkeys]
  simp only [mapsOf, List.mem_reverse, List.mem_map, Prod.mk.injEq]
  constructor
  · rintro ⟨p, hp, rfl, rfl⟩
    exact ⟨hp, rfl⟩
  · rintro ⟨ho, rfl⟩
    exact ⟨o, ho, rfl, rfl⟩

/-- A string with a short option in front is no long one. -/
theorem find_short_of_long (h : ValidOptions xs) {a : Bytes} {o : CliArg σ}
    (ha : (a.takeWhile fun c => c ≠ 61) = o.longKey) :
    (mapsOf xs).shorts.find (a.take 2) = none := by
  have htake : a.take 2 = [45, 45] := by
    rcases a with _ | ⟨c, _ | ⟨d, a⟩⟩
    · simp [CliArg.longKey, ascii] at ha
    · by_cases hc : c = 61 <;> simp [CliArg.longKey, ascii, hc] at ha
    · by_cases hc : c = 61
      · simp [CliArg.longKey, ascii, hc] at ha
      · by_cases hd : d = 61
        · simp [CliArg.longKey, ascii, hc, hd] at ha
        · simp [CliArg.longKey, ascii, hc, hd] at ha
          simp [ha.1, ha.2.1]
  cases hf : (mapsOf xs).shorts.find (a.take 2) with
  | none => rfl
  | some p =>
    obtain ⟨hp, hk⟩ := h.find_short.mp hf
    obtain ⟨c, hc, hne⟩ := h.shortKey hp hk
    rw [htake] at hc
    cases hc
    exact absurd rfl hne

end ValidOptions

-- -------------------------
-- What the handlers do with a string
-- -------------------------

section

variable {xs : List (CliArg σ)} {a : Bytes}

/-- The two handlers leave the string alone. -/
structure Skipped (xs : List (CliArg σ)) (a : Bytes) : Prop where
  one : ∀ st, parseOne (mapsOf xs) a st = (false, st)
  two : ∀ b st, parseTwo (mapsOf xs) a b st = (false, st)

theorem skipped_of_string (h : a.head? ≠ some 45) : Skipped xs a where
  one st := by rw [parseOne, if_pos h]
  two b st := by rw [parseTwo, if_pos (.inr (.inl h))]

/-- A long key begins with two dashes. -/
theorem head?_of_longKey {o : CliArg σ} (h : (a.takeWhile fun c => c ≠ 61) = o.longKey) :
    a.head? = some 45 ∧ a[1]? = some 45 := by
  rcases a with _ | ⟨c, _ | ⟨d, a⟩⟩
  · simp [CliArg.longKey, ascii] at h
  · by_cases hc : c = 61 <;> simp [CliArg.longKey, ascii, hc] at h
  · by_cases hc : c = 61
    · simp [CliArg.longKey, ascii, hc] at h
    · by_cases hd : d = 61
      · simp [CliArg.longKey, ascii, hc, hd] at h
      · simp [CliArg.longKey, ascii, hc, hd] at h
        simp [h.1, h.2.1]

/-- The handler for two strings leaves long options alone. -/
theorem parseTwo_of_longKey {o : CliArg σ} (h : (a.takeWhile fun c => c ≠ 61) = o.longKey)
    (b : Bytes) (st : OptsState σ) : parseTwo (mapsOf xs) a b st = (false, st) := by
  rw [parseTwo, if_pos (.inr (.inr (head?_of_longKey h).2))]

namespace ValidOptions

variable (hv : ValidOptions xs)
include hv

/-- The string starts with a short option. -/
theorem starts {o : CliArg σ} (ho : o ∈ xs) (hk : a.take 2 ∈ o.shortKeys) :
    a.head? = some 45 ∧ a[1]? ≠ some 45 ∧ 2 ≤ a.length := by
  obtain ⟨c, hc, hne⟩ := hv.shortKey ho hk
  rcases a with _ | ⟨d, _ | ⟨e, a⟩⟩
  · cases hc
  · simp at hc
  · simp only [List.take_succ_cons, List.cons.injEq] at hc
    simp [hc.1, hc.2.1, hne]

/-- A flag is counted when it is given. -/
theorem parseOne_flag {o : CliArg σ} (ho : o ∈ xs) (hf : o.func = none) (hs : o.Spells a)
    (st : OptsState σ) : parseOne (mapsOf xs) a st = (true, st.insertOptName o) := by
  rcases hs with hk | hl
  · rw [parseOne, if_neg (not_not.mpr (hv.starts ho hk).1), hv.find_short.mpr ⟨ho, hk⟩]
    simp only [hf]
  · rw [parseOne, if_neg (not_not.mpr (head?_of_longKey hl).1), hv.find_short_of_long hl]
    simp only [hv.find_long.mpr ⟨ho, hl⟩, hf]

/-- A flag takes no value from the next argument. -/
theorem parseTwo_flag {o : CliArg σ} (ho : o ∈ xs) (hf : o.func = none) (hs : o.Spells a)
    (b : Bytes) (st : OptsState σ) : parseTwo (mapsOf xs) a b st = (false, st) := by
  rcases hs with hk | hl
  · obtain ⟨hhead, hsnd, hlen⟩ := hv.starts ho hk
    rw [parseTwo, if_neg (by simp [hhead, hsnd]; omega), hv.find_short.mpr ⟨ho, hk⟩]
    simp only [hf]
  · exact parseTwo_of_longKey hl b st

/-- An attached value is passed to the handler of the option. -/
theorem parseOne_attached {o : CliArg σ} {f : Bytes → σ → Bool × σ} {v : Bytes} (ho : o ∈ xs)
    (hf : o.func = some f) (ha : o.Attaches a v) :
    ∃ err ≠ [], ∀ st, parseOne (mapsOf xs) a st = takeValue f o v err st := by
  rcases ha with ⟨hk, hdrop, hne⟩ | ⟨hl, hdrop⟩
  · refine ⟨ascii "invalid value for " ++ o.name ++ ascii ": " ++ a, by simp [ascii], fun st => ?_⟩
    have hlen : 2 < a.length := by
      by_contra hle
      rw [List.drop_eq_nil_of_le (by omega)] at hdrop
      exact hne hdrop.symm
    rw [parseOne, if_neg (not_not.mpr (hv.starts ho hk).1), hv.find_short.mpr ⟨ho, hk⟩]
    simp only [hf, if_pos hlen, hdrop]
  · refine ⟨ascii "invalid value for " ++ o.name ++ ascii ": " ++ a, by simp [ascii], fun st => ?_⟩
    have heq : 61 ∈ a := by
      rw [← List.takeWhile_append_dropWhile (p := fun c => decide (c ≠ 61)) (l := a)]
      exact List.mem_append_right _ (hdrop ▸ List.mem_cons_self)
    rw [parseOne, if_neg (not_not.mpr (head?_of_longKey hl).1), hv.find_short_of_long hl]
    simp only [hv.find_long.mpr ⟨ho, hl⟩, hf, if_pos heq, hdrop, List.tail_cons]

/-- An option with its value attached takes nothing from the next argument. -/
theorem parseTwo_attached {o : CliArg σ} {f : Bytes → σ → Bool × σ} {v : Bytes} (ho : o ∈ xs)
    (hf : o.func = some f) (ha : o.Attaches a v) (b : Bytes) (st : OptsState σ) :
    parseTwo (mapsOf xs) a b st = (false, st) := by
  rcases ha with ⟨hk, hdrop, hne⟩ | ⟨hl, -⟩
  · obtain ⟨hhead, hsnd, -⟩ := hv.starts ho hk
    have hlen : 2 < a.length := by
      by_contra hle
      rw [List.drop_eq_nil_of_le (by omega)] at hdrop
      exact hne hdrop.symm
    rw [parseTwo, if_neg (by simp [hhead, hsnd]; omega), hv.find_short.mpr ⟨ho, hk⟩]
    simp only [hf, if_pos hlen]
  · exact parseTwo_of_longKey hl b st

/-- A short option without its value is skipped by the handler for one string. -/
theorem parseOne_bare {o : CliArg σ} {f : Bytes → σ → Bool × σ} (ho : o ∈ xs)
    (hf : o.func = some f) (hk : a ∈ o.shortKeys) (st : OptsState σ) :
    parseOne (mapsOf xs) a st = (false, st) := by
  obtain ⟨c, rfl, hc⟩ := hv.shortKey ho hk
  rw [parseOne, if_neg (by simp)]
  have hfind : (mapsOf xs).shorts.find ([45, c].take 2) = some o := hv.find_short.mpr ⟨ho, hk⟩
  simp only [hfind, hf]
  rfl

/-- A bare key takes the next argument as its value. -/
theorem parseTwo_bare {o : CliArg σ} {f : Bytes → σ → Bool × σ} (ho : o ∈ xs)
    (hf : o.func = some f) (hk : a ∈ o.shortKeys) (b : Bytes) :
    ∃ err ≠ [], ∀ st, parseTwo (mapsOf xs) a b st = takeValue f o b err st := by
  obtain ⟨c, rfl, hc⟩ := hv.shortKey ho hk
  refine ⟨ascii "invalid value for option " ++ o.name ++ ascii ": " ++ b, by simp [ascii],
    fun st => ?_⟩
  rw [parseTwo, if_neg (by simp [hc])]
  have hfind : (mapsOf xs).shorts.find ([45, c].take 2) = some o := hv.find_short.mpr ⟨ho, hk⟩
  simp only [hfind, hf]
  rfl

end ValidOptions

-- -------------------------
-- What is parsed is read
-- -------------------------

/-- Goes on where the handler for two strings does nothing. -/
theorem consume_of_skipped {τ : Type} {one : Bytes → τ → Bool × τ}
    {two : Bytes → Bytes → τ → Bool × τ} {st : τ} (h : ∀ b, two a b st = (false, st))
    (rest : List Bytes) :
    consume one two (a :: rest) st =
      (if (one a st).1 then (consume one two rest (one a st).2).1
        else a :: (consume one two rest (one a st).2).1,
      (consume one two rest (one a st).2).2) := by
  cases rest with
  | nil => rfl
  | cons b rest =>
    rw [consume, if_neg (by simp [h b]), h b]

/-- The state after options were given. -/
def OptsState.after (st : OptsState σ) (given : List (CliArg σ)) (user : σ) : OptsState σ :=
  { st with user := user, opts := (given.map CliArg.optName).foldl SortedList.insert st.opts }

theorem takeValue_ok {f : Bytes → σ → Bool × σ} {o : CliArg σ} {v err : Bytes} {st : OptsState σ}
    {u : σ} (h : f v st.user = (true, u)) : takeValue f o v err st = (true, st.after [o] u) := by
  rw [takeValue, h]
  rfl

/-- A value that is refused leaves an error message. -/
theorem takeValue_error {f : Bytes → σ → Bool × σ} {o : CliArg σ} {v err : Bytes}
    {st : OptsState σ} {u : σ} (h : f v st.user = (false, u)) (herr : err ≠ []) :
    (takeValue f o v err st).1 = false ∧ (takeValue f o v err st).2.error ≠ [] := by
  rw [takeValue, h]
  exact ⟨rfl, herr⟩

/-- `extract_opts` reads what can be parsed, whatever comes behind it. -/
theorem consume_append (hv : ValidOptions xs) {front rem : List Bytes} {given : List (CliArg σ)}
    {u u' : σ} (h : Parses xs front u rem given u') (tail : List Bytes) :
    ∀ st : OptsState σ, st.user = u →
      consume (parseOne (mapsOf xs)) (parseTwo (mapsOf xs)) (front ++ tail) st =
        (rem ++ (consume (parseOne (mapsOf xs)) (parseTwo (mapsOf xs)) tail
            (st.after given u')).1,
          (consume (parseOne (mapsOf xs)) (parseTwo (mapsOf xs)) tail (st.after given u')).2) := by
  induction h with
  | nil =>
    rintro st rfl
    rfl
  -- one string after the other; what is skipped is not taken by `parse_two` either
  | string ha _ ih =>
    intro st hu
    have hs : Skipped xs _ := skipped_of_string ha
    rw [List.cons_append, consume_of_skipped (fun b => hs.two b st), hs.one st, ih st hu]
    rfl
  | @flag a o args rem given u u' ho hf hs _ ih =>
    intro st hu
    rw [List.cons_append, consume_of_skipped (fun b => hv.parseTwo_flag ho hf hs b st),
      hv.parseOne_flag ho hf hs st, ih (st.insertOptName o) hu]
    rfl
  | attached ho hf ha hval _ ih =>
    intro st hu
    subst hu
    obtain ⟨err, -, hone⟩ := hv.parseOne_attached ho hf ha
    rw [List.cons_append, consume_of_skipped (fun b => hv.parseTwo_attached ho hf ha b st), hone st,
      takeValue_ok hval, ih _ rfl]
    rfl
  -- the key and its value are consumed at once
  | separate ho hf hk hval _ ih =>
    intro st hu
    subst hu
    obtain ⟨err, -, htwo⟩ := hv.parseTwo_bare ho hf hk _
    rw [List.cons_append, List.cons_append, consume, htwo st, takeValue_ok hval, if_pos rfl,
      ih _ rfl]
    rfl

-- -------------------------
-- What is read can be parsed
-- -------------------------

/-- The command line can be parsed, up to a missing value at its end. -/
def ReadableLine (xs : List (CliArg σ)) (args : List Bytes) (u : σ) : Prop :=
  (∃ rem given u', Parses xs args u rem given u') ∨ Dangling xs args u

/-- One more option or string in front. -/
theorem ReadableLine.cons (pre : List Bytes) {args : List Bytes} {u u₁ : σ}
    (hstep : ∀ {args rem given u'}, Parses xs args u₁ rem given u' →
      ∃ rem' given', Parses xs (pre ++ args) u rem' given' u')
    (h : ReadableLine xs args u₁) : ReadableLine xs (pre ++ args) u := by
  rcases h with ⟨rem, given, u', h⟩ | ⟨front, last, rem, given, u', o, rfl, h, hlast⟩
  · obtain ⟨rem', given', h'⟩ := hstep h
    exact .inl ⟨rem', given', u', h'⟩
  · obtain ⟨rem', given', h'⟩ := hstep h
    exact .inr ⟨pre ++ front, last, rem', given', u', o, (List.append_assoc _ _ _).symm, h', hlast⟩

/-- What a string in front can be. In the last case the handlers report an
error. -/
inductive StringKind (xs : List (CliArg σ)) (a : Bytes) : Prop
  | string : a.head? ≠ some 45 → StringKind xs a
  | flag {o : CliArg σ} : o ∈ xs → o.func = none → o.Spells a → StringKind xs a
  | attached {o : CliArg σ} {f : Bytes → σ → Bool × σ} {v : Bytes} :
      o ∈ xs → o.func = some f → o.Attaches a v → StringKind xs a
  | bare {o : CliArg σ} {f : Bytes → σ → Bool × σ} :
      o ∈ xs → o.func = some f → a ∈ o.shortKeys → StringKind xs a
  | error : (∀ st, (parseOne (mapsOf xs) a st).1 = false ∧
      (parseOne (mapsOf xs) a st).2.error ≠ []) →
      (∀ b st, (parseTwo (mapsOf xs) a b st).1 = false) → StringKind xs a

/-- What an argument can be, for valid options. -/
theorem stringKind (hv : ValidOptions xs) (a : Bytes) : StringKind xs a := by
  by_cases hdash : a.head? = some 45
  · cases hs : (mapsOf xs).shorts.find (a.take 2) with
    | some o =>
      obtain ⟨ho, hk⟩ := hv.find_short.mp hs
      cases hf : o.func with
      | none => exact .flag ho hf (.inl hk)
      | some f =>
        by_cases hlen : 2 < a.length
        · -- there is something behind the short key
          have hne : a.drop 2 ≠ [] := by
            intro hnil
            have := List.drop_eq_nil_iff.mp hnil
            omega
          exact .attached ho hf (.inl ⟨hk, rfl, hne⟩)
        · rw [List.take_of_length_le (by omega)] at hk
          exact .bare ho hf hk
    | none =>
      -- without a short key, nothing is taken from the next argument
      have htwo : ∀ b st, (parseTwo (mapsOf xs) a b st).1 = false := by
        intro b st
        rw [parseTwo]
        split
        · rfl
        · simp only [hs]
      cases hl : (mapsOf xs).longs.find (a.takeWhile fun c => c ≠ 61) with
      | some o =>
        obtain ⟨ho, hk⟩ := hv.find_long.mp hl
        cases hf : o.func with
        | none => exact .flag ho hf (.inr hk)
        | some f =>
          by_cases heq : 61 ∈ a
          · -- the value is behind the `=`
            cases hd : a.dropWhile fun c => c ≠ 61 with
            | nil =>
              have hsplit :=
                List.takeWhile_append_dropWhile (p := fun c => decide (c ≠ 61)) (l := a)
              rw [hd, List.append_nil] at hsplit
              rw [← hsplit] at heq
              exact absurd (List.mem_takeWhile_imp heq) (by simp)
            | cons c v =>
              have hc := List.head?_dropWhile_not (fun c => decide (c ≠ 61)) a
              rw [hd] at hc
              obtain rfl : c = 61 := by simpa using hc
              exact .attached ho hf (.inr ⟨hk, hd⟩)
          · refine .error (fun st => ?_) htwo
            rw [parseOne, if_neg (not_not.mpr hdash), hs]
            simp only [hl, hf, if_neg heq]
            simp [OptsState.fail, ascii]
      -- no option has this name
      | none =>
        refine .error (fun st => ?_) htwo
        rw [parseOne, if_neg (not_not.mpr hdash), hs]
        simp only [hl]
        simp [OptsState.fail, ascii]
  · exact .string hdash

/-- An error is never taken back. -/
theorem takeValue_keeps {f : Bytes → σ → Bool × σ} {o : CliArg σ} {v err : Bytes}
    {st : OptsState σ} (herr : err ≠ []) (h : st.error ≠ []) :
    (takeValue f o v err st).2.error ≠ [] := by
  rw [takeValue]
  dsimp only
  split
  · exact h
  · exact herr

/-- An error message is kept by `parse_one`. -/
theorem parseOne_keeps {maps : OptionMaps σ} {a : Bytes} {st : OptsState σ} (h : st.error ≠ []) :
    (parseOne maps a st).2.error ≠ [] := by
  rw [parseOne]
  split
  · exact h
  · split
    · split
      · split
        · exact takeValue_keeps (by simp [ascii]) h
        · exact h
      · exact h
    · split
      · split
        · split
          · exact takeValue_keeps (by simp [ascii]) h
          · simp [OptsState.fail, ascii]
        · exact h
      · simp [OptsState.fail, ascii]

/-- An error message is kept by `parse_two`. -/
theorem parseTwo_keeps {maps : OptionMaps σ} {a b : Bytes} {st : OptsState σ}
    (h : st.error ≠ []) : (parseTwo maps a b st).2.error ≠ [] := by
  rw [parseTwo]
  split
  · exact h
  · split
    · split
      · split
        · exact h
        · exact takeValue_keeps (by simp [ascii]) h
      · exact h
    · simp [OptsState.fail, ascii]

/-- An error message is kept by the whole loop. -/
theorem consume_keeps {maps : OptionMaps σ} (args : List Bytes) (st : OptsState σ)
    (h : st.error ≠ []) : (consume (parseOne maps) (parseTwo maps) args st).2.error ≠ [] := by
  induction args, st using consume.induct (parseOne maps) (parseTwo maps) with
  | case1 st => exact h
  | case2 a st => exact parseOne_keeps h
  | case3 a b rest st htwo ih =>
    rw [consume, if_pos htwo]
    exact ih (parseTwo_keeps h)
  | case4 a b rest st htwo ih =>
    rw [consume, if_neg htwo]
    exact ih (parseOne_keeps (parseTwo_keeps h))

/-- Whatever cannot be parsed up to a missing value at the end is an error. The
induction follows the way `extract_opts` goes through the strings. -/
theorem readable_or_error (hv : ValidOptions xs) (args : List Bytes) (st : OptsState σ) :
    ReadableLine xs args st.user ∨
      (consume (parseOne (mapsOf xs)) (parseTwo (mapsOf xs)) args st).2.error ≠ [] := by
  induction args, st using consume.induct (parseOne (mapsOf xs)) (parseTwo (mapsOf xs)) with
  | case1 st => exact .inl (.inl ⟨[], [], _, .nil⟩)
  | case2 a st =>
    rw [consume]
    cases stringKind hv a with
    | string ha => exact .inl (.inl ⟨_, _, _, .string ha .nil⟩)
    | flag ho hf hs => exact .inl (.inl ⟨_, _, _, .flag ho hf hs .nil⟩)
    | @attached o f v ho hf ha =>
      obtain ⟨err, herr, hone⟩ := hv.parseOne_attached ho hf ha
      rcases hval : f v st.user with ⟨_ | _, u⟩
      · rw [hone st]
        exact .inr (takeValue_error hval herr).2
      · exact .inl (.inl ⟨_, _, _, .attached ho hf ha hval .nil⟩)
    | @bare o f ho hf hk =>
      -- the value is missing, and nobody says so
      exact .inl (.inr ⟨[], a, [], [], _, o, rfl, .nil, ho, by rw [hf]; rfl, hk⟩)
    | error hone htwo => exact .inr (hone st).2
  -- both arguments were taken at once, which only a bare key does
  | case3 a b rest st htwo ih =>
    rw [consume, if_pos htwo]
    cases stringKind hv a with
    | string ha =>
      have hs : Skipped xs a := skipped_of_string ha
      rw [hs.two b st] at htwo
      cases htwo
    | flag ho hf hs =>
      rw [hv.parseTwo_flag ho hf hs b st] at htwo
      cases htwo
    | attached ho hf ha =>
      rw [hv.parseTwo_attached ho hf ha b st] at htwo
      cases htwo
    | @bare o f ho hf hk =>
      obtain ⟨err, herr, heq⟩ := hv.parseTwo_bare ho hf hk b
      rw [heq st] at htwo ih ⊢
      rcases hval : f b st.user with ⟨_ | _, u⟩
      · rw [(takeValue_error hval herr).1] at htwo
        cases htwo
      · rw [takeValue_ok hval] at ih ⊢
        exact ih.imp_left (ReadableLine.cons [a, b] fun h => ⟨_, _, .separate ho hf hk hval h⟩)
    | error hone hno =>
      rw [hno b st] at htwo
      cases htwo
  -- only the first one was taken
  | case4 a b rest st htwo ih =>
    rw [consume, if_neg htwo]
    cases stringKind hv a with
    | string ha =>
      have hs : Skipped xs a := skipped_of_string ha
      rw [hs.two b st, hs.one st] at ih ⊢
      exact ih.imp_left (ReadableLine.cons [a] fun h => ⟨_, _, .string ha h⟩)
    | flag ho hf hs =>
      rw [hv.parseTwo_flag ho hf hs b st, hv.parseOne_flag ho hf hs st] at ih ⊢
      exact ih.imp_left (ReadableLine.cons [a] fun h => ⟨_, _, .flag ho hf hs h⟩)
    | @attached o f v ho hf ha =>
      obtain ⟨err, herr, hone⟩ := hv.parseOne_attached ho hf ha
      rw [hv.parseTwo_attached ho hf ha b st, hone st] at ih ⊢
      rcases hval : f v st.user with ⟨_ | _, u⟩
      · exact .inr (consume_keeps _ _ (takeValue_error hval herr).2)
      · rw [takeValue_ok hval] at ih ⊢
        exact ih.imp_left (ReadableLine.cons [a] fun h => ⟨_, _, .attached ho hf ha hval h⟩)
    | @bare o f ho hf hk =>
      -- the handler for two strings refused the value
      obtain ⟨err, herr, heq⟩ := hv.parseTwo_bare ho hf hk b
      rw [heq st] at htwo ⊢
      rcases hval : f b st.user with ⟨_ | _, u⟩
      · exact .inr (consume_keeps _ _ (parseOne_keeps (takeValue_error hval herr).2))
      · rw [takeValue_ok hval] at htwo
        exact absurd rfl htwo
    | error hone hno => exact .inr (consume_keeps _ _ (hone _).2)

end

-- -------------------------
-- The whole function
-- -------------------------

/-- The long name of an option. -/
def CliArg.longName (o : CliArg σ) : Bytes := o.names.headD []

/-- The first name of an option comes first. -/
theorem head?_splitCommas (s : Bytes) :
    (splitCommas false s).headD [] = s.takeWhile fun c => c ≠ 44 := by
  induction s with
  | nil => rfl
  | cons c cs ih =>
    rw [splitCommas]
    by_cases hc : c = 44
    · simp [hc]
    · rw [if_neg hc, List.takeWhile_cons_of_pos (by simpa using hc), ← ih]
      cases hs : splitCommas false cs with
      | nil => rfl
      | cons s ss => rfl

/-- `insert_opt_name` cuts out the long name. -/
theorem CliArg.optName_eq (o : CliArg σ) : o.optName = o.longName := (head?_splitCommas o.name).symm

theorem CliArg.keys_help :
    (CliArg.help : CliArg σ).keys = [ascii "--help", ascii "-h", ascii "-?"] := rfl

/-- An option with one of its keys is the option for help. -/
theorem CliArg.isHelp_of_key {o : CliArg σ} {k : Bytes} (hk : k ∈ o.keys)
    (hshort : ∀ n ∈ o.names.tail, ∃ c, n = [c] ∧ c ≠ 45)
    (hh : k ∈ (CliArg.help : CliArg σ).keys) : o.isHelp = true := by
  rw [keys_help] at hh
  cases hn : o.names with
  | nil => exact absurd hn (splitCommas_ne_nil false o.name)
  | cons s ss =>
    rw [hn] at hshort
    rw [isHelp, hn]
    rcases List.mem_cons.mp hk with rfl | hk
    · -- a long name
      have hs : s = ascii "help" := by
        simpa [longKey, hn, ascii] using hh
      simp [hs]
    · rw [shortKeys, hn] at hk
      obtain ⟨n, hmem, rfl⟩ := List.mem_map.mp hk
      obtain ⟨c, rfl, hc⟩ := hshort n hmem
      have hc' : c = 104 ∨ c = 63 := by
        simpa [ascii, hc] using hh
      have hany : (ss.any fun opt => opt.any fun c => c == 104 || c == 63) = true :=
        List.any_eq_true.mpr ⟨[c], hmem, by simpa using hc'⟩
      simp [hany]

/-- With the default help item the options are valid still. -/
theorem ValidOptions.withHelp {xs : List (CliArg σ)} (h : ValidOptions xs) :
    ValidOptions (withHelp xs) := by
  rw [BoostActor.withHelp]
  split
  · exact h
  · next hno =>
    have hhelp : ∀ n ∈ (CliArg.help : CliArg σ).names.tail, ∃ c, n = [c] ∧ c ≠ 45 := by
      intro n hn
      have hnames : (CliArg.help : CliArg σ).names.tail = [ascii "h", ascii "?"] := rfl
      rw [hnames] at hn
      rcases List.mem_cons.mp hn with rfl | hn
      · exact ⟨104, rfl, by decide⟩
      · rw [List.mem_singleton] at hn
        exact ⟨63, hn, by decide⟩
    constructor
    · intro o ho
      rcases List.mem_append.mp ho with ho | ho
      · exact h.short o ho
      · rw [List.mem_singleton.mp ho]
        exact hhelp
    · -- no other option has its keys, or it would not have been added
      rw [List.flatMap_append, List.nodup_append]
      have hnodup : ([CliArg.help].flatMap (CliArg.keys (σ := σ))).Nodup := by
        rw [List.flatMap_singleton, CliArg.keys_help]
        decide
      refine ⟨h.distinct, hnodup, fun k hk k' hk' heq => hno ?_⟩
      subst heq
      obtain ⟨o, ho, hko⟩ := List.mem_flatMap.mp hk
      rw [List.flatMap_singleton] at hk'
      exact List.any_eq_true.mpr ⟨o, ho, CliArg.isHelp_of_key hko (h.short o ho) hk'⟩

section

variable {xs : List (CliArg σ)} {args : List Bytes} {m : CowMessage Bytes}

/-- `extract_opts` of valid options goes through the list with their maps. -/
theorem extractOpts_eq (hv : ValidOptions xs) (hm : m.Stands (args.map stringElement))
    (f : Option (List (CliArg σ) → Bytes)) (u : σ) :
    let next := consume (parseOne (mapsOf (withHelp xs))) (parseTwo (mapsOf (withHelp xs))) args
      ⟨u, .empty, []⟩
    (m.extractOpts xs f u).1.remainder.Stands (next.1.map stringElement) ∧
      (m.extractOpts xs f u).1.opts = next.2.opts ∧
      (m.extractOpts xs f u).1.error = next.2.error ∧ (m.extractOpts xs f u).2 = next.2.user := by
  intro next
  obtain ⟨hrem, hst⟩ := CowMessage.extract_consume (parseOne (mapsOf (withHelp xs)))
    (parseTwo (mapsOf (withHelp xs))) hm ⟨u, .empty, []⟩
  rw [CowMessage.extractOpts, hv.withHelp.addOptions]
  dsimp only
  rw [hst]
  exact ⟨hrem, rfl, rfl, rfl⟩

/-- What remains are arguments without a dash. -/
theorem string_of_parses {rem : List Bytes} {given : List (CliArg σ)} {u u' : σ}
    (h : Parses xs args u rem given u') : ∀ s ∈ rem, s.head? ≠ some 45 := by
  induction h with
  | nil => simp
  | string ha _ ih =>
    intro s hs
    rcases List.mem_cons.mp hs with rfl | hs
    · exact ha
    · exact ih s hs
  | flag _ _ _ _ ih => exact ih
  | attached _ _ _ _ _ ih => exact ih
  | separate _ _ _ _ _ ih => exact ih

-- -------------------------
-- Command lines
-- -------------------------

/-- Without an error the whole command line was parsed: no string that starts with
`-` is left, but all others are, and the names are those of the options given. -/
def RecognizesAll (xs : List (CliArg σ)) (args : List Bytes) (u : σ) (res : CowMessage.CliRes)
    (u' : σ) : Prop :=
  res.error = [] → ∃ rem given, Parses (withHelp xs) args u rem given u' ∧
    res.remainder.Stands (rem.map stringElement) ∧ (∀ s ∈ rem, s.head? ≠ some 45) ∧
    ∀ n, n ∈ res.opts.elems ↔ ∃ o ∈ given, o.longName = n

/-- A command line that can be parsed is recognized as a whole. -/
theorem recognizesAll_of_parses (hv : ValidOptions xs) (hm : m.Stands (args.map stringElement))
    (f : Option (List (CliArg σ) → Bytes)) {rem : List Bytes} {given : List (CliArg σ)} {u u' : σ}
    (h : Parses (withHelp xs) args u rem given u') :
    RecognizesAll xs args u (m.extractOpts xs f u).1 (m.extractOpts xs f u).2 := by
  intro _
  obtain ⟨hrem, hopts, -, huser⟩ := extractOpts_eq hv hm f u
  have hrun := consume_append hv.withHelp h [] ⟨u, .empty, []⟩ rfl
  rw [List.append_nil] at hrun
  rw [hrun] at hrem hopts huser
  have hrem' : rem ++ [] = rem := List.append_nil rem
  refine ⟨rem, given, ?_, hrem' ▸ hrem, string_of_parses h, fun n => ?_⟩
  · rw [huser]
    exact h
  · rw [hopts]
    have hmem : n ∈ ((given.map CliArg.optName).foldl SortedList.insert
        (SortedList.empty : SortedList (id : Bytes → Bytes))).elems ↔
        n ∈ given.map CliArg.optName ∨
          n ∈ (SortedList.empty : SortedList (id : Bytes → Bytes)).elems :=
      SortedList.mem_foldl_insert fun _ _ h => h
    refine hmem.trans ?_
    simp only [List.mem_map, CliArg.optName_eq]
    exact or_iff_left fun h => by cases h

/-- A short option at the end, its value missing, is left without an error. -/
theorem remainder_of_dangling (hv : ValidOptions xs) {front rem : List Bytes} {a : Bytes}
    {given : List (CliArg σ)} {u u' : σ} {o : CliArg σ}
    (hm : m.Stands ((front ++ [a]).map stringElement)) (f : Option (List (CliArg σ) → Bytes))
    (h : Parses (withHelp xs) front u rem given u') (ho : o ∈ withHelp xs)
    (hsome : o.func.isSome = true) (hk : a ∈ o.shortKeys) :
    (m.extractOpts xs f u).1.error = [] ∧
      (m.extractOpts xs f u).1.remainder.Stands ((rem ++ [a]).map stringElement) := by
  obtain ⟨g, hg⟩ := Option.isSome_iff_exists.mp hsome
  obtain ⟨hrem, -, herr, -⟩ := extractOpts_eq hv hm f u
  have hlast : consume (parseOne (mapsOf (withHelp xs))) (parseTwo (mapsOf (withHelp xs))) [a]
      (OptsState.after ⟨u, .empty, []⟩ given u') =
        ([a], OptsState.after ⟨u, .empty, []⟩ given u') := by
    rw [consume, hv.withHelp.parseOne_bare ho hg hk]
    rfl
  rw [consume_append hv.withHelp h [a] ⟨u, .empty, []⟩ rfl, hlast] at hrem herr
  exact ⟨herr, hrem⟩

theorem stringElement_injective : Function.Injective stringElement := by
  intro a b h
  exact congrArg Element.value h

/-- `extract_opts` recognizes all there is without an error iff the command line
does not end in a short option that lacks its value. -/
theorem extractOpts_iff (hv : ValidOptions xs) (hm : m.Stands (args.map stringElement))
    (f : Option (List (CliArg σ) → Bytes)) (u : σ) :
    RecognizesAll xs args u (m.extractOpts xs f u).1 (m.extractOpts xs f u).2 ↔
      ¬ Dangling (withHelp xs) args u := by
  constructor
  · intro hall hd
    obtain ⟨front, a, rem, given, u', o, rfl, hp, ho, hsome, hk⟩ := hd
    obtain ⟨herr, hrem⟩ := remainder_of_dangling hv hm f hp ho hsome hk
    obtain ⟨rem', given, -, hrem', hno, -⟩ := hall herr
    obtain ⟨c, rfl, -⟩ := hv.withHelp.shortKey ho hk
    have hlists : rem ++ [[45, c]] = rem' :=
      List.map_injective_iff.mpr stringElement_injective (hrem.2.symm.trans hrem'.2)
    exact hno [45, c] (hlists ▸ List.mem_append_right rem List.mem_cons_self) rfl
  · intro hd herr
    have herr' := (extractOpts_eq hv hm f u).2.2.1.symm.trans herr
    rcases readable_or_error hv.withHelp args ⟨u, .empty, []⟩ with hread | hne
    · rcases hread with ⟨rem, given, u', hp⟩ | hdang
      · exact recognizesAll_of_parses hv hm f hp herr
      · exact absurd hdang hd
    · exact absurd herr' hne

end

/-- `cli_arg{"file,f", "", filename}`, where the state is the value of `filename`. -/
def fileOption : CliArg Bytes := ⟨ascii "file,f", [], [], some fun value _ => (true, value)⟩

/-- The option of the example is valid. -/
theorem fileOption_valid : ValidOptions [fileOption] where
  short o ho n hn := by
    rw [List.mem_singleton] at ho
    subst ho
    have hnames : fileOption.names.tail = [ascii "f"] := rfl
    rw [hnames, List.mem_singleton] at hn
    exact ⟨102, hn, by decide⟩
  distinct := by decide

theorem fileOption_stands (args : List Bytes) :
    (MessageExpr.builder (args.map stringElement)).build.Stands (args.map stringElement) :=
  MessageExpr.stands _

/-- A file name that is given is recognized. -/
theorem fileOption_recognized :
    RecognizesAll [fileOption] [ascii "-f", ascii "x"] []
      ((MessageExpr.builder ([ascii "-f", ascii "x"].map stringElement)).build.extractOpts
        [fileOption] none []).1
      ((MessageExpr.builder ([ascii "-f", ascii "x"].map stringElement)).build.extractOpts
        [fileOption] none []).2 := by
  apply (extractOpts_iff fileOption_valid (fileOption_stands _) none []).mpr
  rintro ⟨front, a, rem, given, u', o, hargs, -, ho, -, hk⟩
  obtain ⟨c, rfl, -⟩ := fileOption_valid.withHelp.shortKey ho hk
  have hlast := congrArg List.getLast? hargs
  simp [ascii] at hlast

/-- `-f` alone is neither an error nor recognized. -/
theorem missing_value :
    let res := ((MessageExpr.builder ([ascii "-f"].map stringElement)).build.extractOpts
      [fileOption] none []).1
    res.error = [] ∧ res.remainder.Stands ([ascii "-f"].map stringElement) := by
  have hm := fileOption_stands ([] ++ [ascii "-f"])
  exact remainder_of_dangling fileOption_valid hm none .nil List.mem_cons_self rfl
    (List.mem_singleton.mpr rfl)

end BoostActor
