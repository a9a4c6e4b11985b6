import BoostActor.Core.MessageData
import Mathlib.Data.List.Basic

/-!
# Messages as lists

A message stands for the list of its elements. `MessageData.elements` is that
list; `MessageData.WellFormed` says that the size and the type token kept in the
data are those of the list and that every mapping stays inside the data it is a
mapping of. The constructors establish it, so that a message built in any way
is observed as its list: `CowMessage.as_lists`.
-/

namespace BoostActor

-- -------------------------
-- Positions
-- -------------------------

/-- Looking a position up through a list of positions that all exist. -/
theorem getElem?_filterMap_of_isSome {β γ : Type} (f : β → Option γ) :
    ∀ (is : List β), (∀ i ∈ is, (f i).isSome) → ∀ pos : Nat,
      (is.filterMap f)[pos]? = is[pos]?.bind f
  | [], _, pos => by simp
  | i :: is, h, pos => by
    obtain ⟨y, hy⟩ := Option.isSome_iff_exists.mp (h i (by simp))
    rw [List.filterMap_cons_some hy]
    cases pos with
    | zero => simp [hy]
    | succ pos =>
      have ih := getElem?_filterMap_of_isSome f is (fun j hj => h j (by simp [hj])) pos
      simpa using ih

/-- Positions that are all found give as many elements. -/
theorem length_filterMap_of_isSome {β γ : Type} (f : β → Option γ) :
    ∀ is : List β, (∀ i ∈ is, (f i).isSome) → (is.filterMap f).length = is.length
  | [], _ => rfl
  | i :: is, h => by
    obtain ⟨y, hy⟩ := Option.isSome_iff_exists.mp (h i (by simp))
    rw [List.filterMap_cons_some hy, List.length_cons, List.length_cons,
      length_filterMap_of_isSome f is fun j hj => h j (by simp [hj])]

/-- The elements at consecutive positions. -/
theorem filterMap_range' {β : Type} (xs : List β) :
    ∀ k p : Nat, (List.range' p k).filterMap (fun i => xs[i]?) = (xs.drop p).take k
  | 0, p => by simp
  | k + 1, p => by
    rw [List.range'_succ, List.filterMap_cons, filterMap_range' xs k (p + 1)]
    rcases hp : xs[p]? with _ | x
    · have hle := List.getElem?_eq_none_iff.mp hp
      rw [List.drop_eq_nil_of_le hle, List.drop_eq_nil_of_le (by omega)]
      simp
    · obtain ⟨hlt, hx⟩ := List.getElem?_eq_some_iff.mp hp
      rw [List.drop_eq_getElem_cons hlt, hx, List.take_succ_cons]

-- -------------------------
-- The list of a message
-- -------------------------

namespace MessageData

variable {α : Type}

mutual

/-- The elements of the data, in order. -/
def elements : MessageData α → List (Element α)
  | tupleVals data => data
  | dynamicMsgData xs _ => xs
  | decoratedTuple decorated mapping _ => mapping.filterMap fun i => decorated.elements[i]?
  | concatenatedTuple data _ _ => allElements data

def allElements : List (MessageData α) → List (Element α)
  | [] => []
  | d :: data => d.elements ++ allElements data

end

/-- Size and type token are those of the elements. -/
def Counted (d : MessageData α) : Prop :=
  d.size = d.elements.length ∧ d.typeToken = typeTokenOf (d.elements.map fun e => e.type.nr)

mutual

/-- What the constructors of the four kinds of data establish. -/
def WellFormed : MessageData α → Prop
  | tupleVals _ => True
  | dynamicMsgData xs token => (dynamicMsgData xs token).Counted
  | decoratedTuple d mapping token =>
    (decoratedTuple d mapping token).Counted ∧ d.WellFormed ∧ ∀ i ∈ mapping, i < d.elements.length
  | concatenatedTuple data token size =>
    (concatenatedTuple data token size).Counted ∧ AllWellFormed data

def AllWellFormed : List (MessageData α) → Prop
  | [] => True
  | d :: data => d.WellFormed ∧ AllWellFormed data

end

-- -------------------------
-- Elements of well formed data
-- -------------------------

theorem allWellFormed_iff : ∀ data : List (MessageData α),
    AllWellFormed data ↔ ∀ d ∈ data, d.WellFormed
  | [] => by simp [AllWellFormed]
  | d :: data => by simp [AllWellFormed, allWellFormed_iff data]

/-- The elements of a concatenation are those of its parts in order. -/
theorem allElements_eq : ∀ data : List (MessageData α), allElements data = data.flatMap elements
  | [] => rfl
  | d :: data => by rw [allElements, allElements_eq data, List.flatMap_cons]

/-- Well formed data knows its size and its type token. -/
theorem WellFormed.counted : ∀ {d : MessageData α}, d.WellFormed → d.Counted
  | tupleVals _, _ => ⟨rfl, rfl⟩
  | dynamicMsgData _ _, h => h
  | decoratedTuple _ _ _, h => h.1
  | concatenatedTuple _ _ _, h => h.1

theorem WellFormed.size_eq {d : MessageData α} (h : d.WellFormed) :
    d.size = d.elements.length := h.counted.1

theorem isSome_getElem? {β : Type} {xs : List β} {i : Nat} (h : i < xs.length) :
    (xs[i]?).isSome := by
  rw [List.getElem?_eq_getElem h]
  rfl

mutual

/-- Every kind of data finds the element of the list. -/
theorem WellFormed.elementAt_eq : ∀ {d : MessageData α}, d.WellFormed → ∀ pos : Nat,
    d.elementAt pos = d.elements[pos]?
  | tupleVals _, _, _ => rfl
  | dynamicMsgData _ _, _, _ => rfl
  | decoratedTuple d mapping _, h, pos => by
    have hd : d.elementAt = fun i => d.elements[i]? := funext h.2.1.elementAt_eq
    rw [elementAt, elements, hd,
      getElem?_filterMap_of_isSome _ _ fun i hi => isSome_getElem? (h.2.2 i hi)]
  | concatenatedTuple data _ _, h, pos => select_eq h.2 pos

/-- `select` skips the parts before the position. -/
theorem select_eq : ∀ {data : List (MessageData α)}, AllWellFormed data → ∀ idx : Nat,
    select data idx = (allElements data)[idx]?
  | [], _, _ => rfl
  | d :: data, h, idx => by
    have hsize := h.1.size_eq
    rw [select, allElements]
    by_cases hle : d.size ≤ idx
    · rw [if_pos hle, select_eq h.2, List.getElem?_append_right (by omega), hsize]
    · rw [if_neg hle, h.1.elementAt_eq, List.getElem?_append_left (by omega)]

end

theorem WellFormed.typeNrAt_eq {d : MessageData α} (h : d.WellFormed) (pos : Nat) :
    d.typeNrAt pos = d.elements[pos]?.map fun e => e.type.nr := by
  rw [typeNrAt, h.elementAt_eq]

/-- The type numbers of all elements. -/
theorem WellFormed.typeNrs_eq {d : MessageData α} (h : d.WellFormed) :
    d.typeNrs = d.elements.map fun e => e.type.nr := by
  refine List.ext_getElem (by simp [typeNrs, h.size_eq]) fun i hi _ => ?_
  have hlt : i < d.elements.length := by simpa [typeNrs, h.size_eq] using hi
  simp [typeNrs, h.typeNrAt_eq, hlt]

-- -------------------------
-- The constructors
-- -------------------------

/-- A decorated tuple has the elements at its positions. -/
theorem newDecorated_elements (d : MessageData α) (v : List Nat) :
    (d.newDecorated v).elements = v.filterMap fun i => d.elements[i]? := by
  rw [newDecorated, elements]

/-- The token loop over the mapping meets the type numbers of the elements shown. -/
theorem decoratedToken_eq {d : MessageData α} (h : d.WellFormed) :
    ∀ (v : List Nat) (token : UInt32), (∀ i ∈ v, i < d.elements.length) →
      v.foldl (fun token i => addToTypeToken token ((d.typeNrAt i).getD 0)) token =
        ((v.filterMap fun i => d.elements[i]?).map fun e => e.type.nr).foldl addToTypeToken token
  | [], _, _ => rfl
  | i :: v, token, hv => by
    have hi : i < d.elements.length := hv i (by simp)
    have hx : d.elements[i]? = some d.elements[i] := List.getElem?_eq_getElem hi
    rw [List.foldl_cons, decoratedToken_eq h v _ fun j hj => hv j (by simp [hj]),
      List.filterMap_cons_some hx, List.map_cons, List.foldl_cons, h.typeNrAt_eq, hx]
    rfl

/-- A decorated tuple over valid positions is well formed. -/
theorem WellFormed.newDecorated {d : MessageData α} (h : d.WellFormed) {v : List Nat}
    (hv : ∀ i ∈ v, i < d.elements.length) : (d.newDecorated v).WellFormed := by
  refine ⟨⟨?_, ?_⟩, h, hv⟩
  · show v.length = _
    rw [elements, length_filterMap_of_isSome _ _ fun i hi => isSome_getElem? (hv i hi)]
  · rw [elements]
    exact decoratedToken_eq h v _ hv

/-- A position of a view, looked up in its mapping. -/
theorem getD_of_lt {mapping : List Nat} {i : Nat} (h : i < mapping.length) :
    mapping.getD i 0 = mapping[i] := by
  simp [List.getD, h]

/-- `decorated_tuple::make` flattens nested decorators and shows the same elements. -/
theorem makeDecorated_spec {d : MessageData α} (h : d.WellFormed) {v : List Nat}
    (hv : ∀ i ∈ v, i < d.elements.length) :
    (d.makeDecorated v).WellFormed ∧
      (d.makeDecorated v).elements = v.filterMap fun i => d.elements[i]? := by
  cases d with
  | tupleVals _ => exact ⟨h.newDecorated hv, newDecorated_elements _ v⟩
  | dynamicMsgData _ _ => exact ⟨h.newDecorated hv, newDecorated_elements _ v⟩
  | concatenatedTuple _ _ _ => exact ⟨h.newDecorated hv, newDecorated_elements _ v⟩
  | decoratedTuple d pmap token =>
    -- the view of the view maps through both mappings at once
    have hlen : (decoratedTuple d pmap token).elements.length = pmap.length := h.size_eq.symm
    have hin : ∀ i ∈ v, pmap.getD i 0 < d.elements.length := by
      intro i hi
      have hlt : i < pmap.length := hlen ▸ hv i hi
      rw [getD_of_lt hlt]
      exact h.2.2 _ (List.getElem_mem hlt)
    refine ⟨h.2.1.newDecorated (by simpa using hin), ?_⟩
    rw [makeDecorated, newDecorated_elements, List.filterMap_map]
    refine List.filterMap_congr fun i hi => ?_
    have hlt : i < pmap.length := hlen ▸ hv i hi
    rw [Function.comp_apply, elements,
      getElem?_filterMap_of_isSome _ _ fun j hj => isSome_getElem? (h.2.2 j hj),
      getD_of_lt hlt, List.getElem?_eq_getElem hlt, Option.bind_some]

/-- The parts of the data have its elements. -/
theorem parts_elements (d : MessageData α) : d.parts.flatMap elements = d.elements := by
  cases d with
  | concatenatedTuple data token size => rw [parts, elements, allElements_eq]
  | tupleVals _ => simp [parts]
  | dynamicMsgData _ _ => simp [parts]
  | decoratedTuple _ _ _ => simp [parts]

/-- The parts of well formed data are well formed. -/
theorem WellFormed.parts {d : MessageData α} (h : d.WellFormed) : ∀ p ∈ d.parts, p.WellFormed := by
  cases d with
  | concatenatedTuple data token size => exact (allWellFormed_iff data).mp h.2
  | tupleVals _ => simpa [MessageData.parts] using h
  | dynamicMsgData _ _ => simpa [MessageData.parts] using h
  | decoratedTuple _ _ _ => simpa [MessageData.parts] using h

/-- The nested token loop of the constructor runs over the type numbers of all parts. -/
theorem concatenatedToken_eq : ∀ (data : List (MessageData α)) (token : UInt32),
    (∀ d ∈ data, d.WellFormed) →
      data.foldl (fun token m => m.typeNrs.foldl addToTypeToken token) token =
        ((data.flatMap elements).map fun e => e.type.nr).foldl addToTypeToken token
  | [], _, _ => rfl
  | d :: data, token, h => by
    have hd : d.WellFormed := h d (by simp)
    rw [List.foldl_cons, concatenatedToken_eq data _ fun p hp => h p (by simp [hp]),
      List.flatMap_cons, List.map_append, List.foldl_append, hd.typeNrs_eq]

/-- The size that the constructor sums up. -/
theorem concatenatedSize_eq : ∀ (data : List (MessageData α)) (n : Nat),
    (∀ d ∈ data, d.WellFormed) →
      data.foldl (fun tmp m => tmp + m.size) n = n + (data.flatMap elements).length
  | [], _, _ => rfl
  | d :: data, n, h => by
    have hd : d.WellFormed := h d (by simp)
    rw [List.foldl_cons, concatenatedSize_eq data _ fun p hp => h p (by simp [hp]),
      List.flatMap_cons, List.length_append, hd.size_eq, Nat.add_assoc]

/-- A concatenated tuple has the elements of its parts in order. -/
theorem newConcatenated_spec {xs : List (MessageData α)} (h : ∀ d ∈ xs, d.WellFormed) :
    (newConcatenated xs).WellFormed ∧ (newConcatenated xs).elements = xs.flatMap elements := by
  have hparts : ∀ p ∈ xs.flatMap MessageData.parts, p.WellFormed := by
    intro p hp
    obtain ⟨d, hd, hpd⟩ := List.mem_flatMap.mp hp
    exact (h d hd).parts p hpd
  have helems : (xs.flatMap MessageData.parts).flatMap elements = xs.flatMap elements := by
    rw [List.flatMap_assoc]
    exact List.flatMap_congr fun d _ => parts_elements d
  have hall : (newConcatenated xs).elements = (xs.flatMap MessageData.parts).flatMap elements := by
    rw [newConcatenated, elements, allElements_eq]
  refine ⟨⟨⟨?_, ?_⟩, (allWellFormed_iff _).mpr hparts⟩, hall.trans helems⟩
  · show _ = (newConcatenated xs).elements.length
    rw [hall]
    exact (concatenatedSize_eq _ 0 hparts).trans (Nat.zero_add _)
  · show _ = typeTokenOf ((newConcatenated xs).elements.map fun e => e.type.nr)
    rw [hall]
    exact concatenatedToken_eq _ _ hparts

end MessageData

-- -------------------------
-- Messages
-- -------------------------

namespace CowMessage

variable {α : Type}

/-- The elements of a message, in order. -/
def elements (m : CowMessage α) : List (Element α) := m.vals.elim [] MessageData.elements

def WellFormed (m : CowMessage α) : Prop := ∀ d ∈ m.vals, d.WellFormed

/-- A well formed message with its list. -/
def Stands (m : CowMessage α) (xs : List (Element α)) : Prop := m.WellFormed ∧ m.elements = xs

theorem Stands.self {m : CowMessage α} (h : m.WellFormed) : m.Stands m.elements := ⟨h, rfl⟩

theorem stands_empty : (empty : CowMessage α).Stands [] := ⟨by rintro d ⟨⟩, rfl⟩

theorem stands_some {d : MessageData α} {xs : List (Element α)} (h : d.WellFormed)
    (hxs : d.elements = xs) : (⟨some d⟩ : CowMessage α).Stands xs :=
  ⟨by rintro d' ⟨⟩; exact h, hxs⟩

namespace Stands

variable {m : CowMessage α} {xs : List (Element α)}

/-- `size` is the number of elements. -/
theorem size_eq (h : m.Stands xs) : m.size = xs.length := by
  obtain ⟨hwf, rfl⟩ := h
  rcases m with ⟨_ | d⟩
  · rfl
  · exact (hwf d rfl).size_eq

/-- `at` is the element at a position. -/
theorem elementAt_eq (h : m.Stands xs) (pos : Nat) : m.elementAt pos = xs[pos]? := by
  obtain ⟨hwf, rfl⟩ := h
  rcases m with ⟨_ | d⟩
  · rfl
  · exact (hwf d rfl).elementAt_eq pos

/-- The type token is that of the elements' type numbers. -/
theorem typeToken_eq (h : m.Stands xs) :
    m.typeToken = typeTokenOf (xs.map fun e => e.type.nr) := by
  obtain ⟨hwf, rfl⟩ := h
  rcases m with ⟨_ | d⟩
  · rfl
  · exact (hwf d rfl).counted.2

-- -------------------------
-- The operations
-- -------------------------

/-- A mapping inside the message shows the elements at its positions. -/
theorem decorate (h : m.Stands xs) {mapping : List Nat} (hm : ∀ i ∈ mapping, i < xs.length) :
    (m.decorate mapping).Stands (mapping.filterMap fun i => xs[i]?) := by
  obtain ⟨hwf, rfl⟩ := h
  rcases m with ⟨_ | d⟩
  · refine ⟨by rintro d ⟨⟩, ?_⟩
    cases mapping with
    | nil => rfl
    | cons i _ => exact absurd (hm i (by simp)) (Nat.not_lt_zero i)
  · have hspec := MessageData.makeDecorated_spec (hwf d rfl) hm
    exact stands_some hspec.1 hspec.2

/-- A view of consecutive positions. -/
theorem decorate_range' (h : m.Stands xs) {p k : Nat} (hk : p + k ≤ xs.length) :
    (m.decorate (List.range' p k)).Stands ((xs.drop p).take k) := by
  rw [← filterMap_range']
  refine h.decorate fun i hi => ?_
  obtain ⟨_, hlt⟩ := List.mem_range'_1.mp hi
  omega

/-- `drop` drops elements from the front. -/
theorem drop (h : m.Stands xs) (n : Nat) : (m.drop n).Stands (xs.drop n) := by
  have hsize := h.size_eq
  unfold CowMessage.drop
  split_ifs with h0 hle
  · rw [h0]
    exact h
  · rw [List.drop_eq_nil_of_le (by omega)]
    exact stands_empty
  · have hview := h.decorate_range' (p := n) (k := m.size - n) (by omega)
    rwa [List.take_of_length_le (by rw [List.length_drop]; omega)] at hview

/-- `drop_right` drops elements from the back. -/
theorem dropRight (h : m.Stands xs) (n : Nat) :
    (m.dropRight n).Stands (xs.take (xs.length - n)) := by
  have hsize := h.size_eq
  unfold CowMessage.dropRight
  split_ifs with h0 hle
  · rw [h0, Nat.sub_zero, List.take_length]
    exact h
  · rw [Nat.sub_eq_zero_of_le (by omega), List.take_zero]
    exact stands_empty
  · rw [List.range_eq_range', ← hsize]
    exact h.decorate_range' (p := 0) (by omega)

/-- `slice` takes a part of the elements. -/
theorem slice (h : m.Stands xs) (pos n : Nat) :
    (m.slice pos n).Stands ((xs.drop pos).take n) := by
  have hsize := h.size_eq
  unfold CowMessage.slice
  split_ifs with hle
  · rw [List.drop_eq_nil_of_le (by omega), List.take_nil]
    exact stands_empty
  · have hview := h.decorate_range' (p := pos) (k := min (m.size - pos) n) (by omega)
    rcases le_total (m.size - pos) n with hn | hn
    · rw [min_eq_left hn, List.take_of_length_le (by rw [List.length_drop]; omega)] at hview
      rwa [min_eq_left hn, List.take_of_length_le (by rw [List.length_drop]; omega)]
    · rwa [min_eq_right hn] at hview ⊢

/-- `take` takes elements from the front. -/
theorem take (h : m.Stands xs) (n : Nat) : (m.take n).Stands (xs.take n) := by
  have hsize := h.size_eq
  unfold CowMessage.take
  split_ifs with hle
  · rwa [List.take_of_length_le (by omega)]
  · have hleft := h.dropRight (m.size - n)
    rwa [show xs.length - (m.size - n) = n by omega] at hleft

/-- `take_right` takes elements from the back. -/
theorem takeRight (h : m.Stands xs) (n : Nat) :
    (m.takeRight n).Stands (xs.drop (xs.length - n)) := by
  have hsize := h.size_eq
  unfold CowMessage.takeRight
  split_ifs with hle
  · rwa [Nat.sub_eq_zero_of_le (by omega), List.drop_zero]
  · rw [← hsize]
    exact h.drop (m.size - n)

end Stands

/-- Null messages have no elements, so leaving them out changes nothing. -/
theorem flatMap_vals : ∀ xs : List (CowMessage α),
    (xs.filterMap vals).flatMap MessageData.elements = xs.flatMap elements
  | [] => rfl
  | ⟨none⟩ :: xs => by
    have hnone : vals (⟨none⟩ : CowMessage α) = none := rfl
    rw [List.filterMap_cons_none hnone, flatMap_vals xs, List.flatMap_cons]
    rfl
  | ⟨some d⟩ :: xs => by
    have hsome : vals (⟨some d⟩ : CowMessage α) = some d := rfl
    rw [List.filterMap_cons_some hsome, List.flatMap_cons, flatMap_vals xs, List.flatMap_cons]
    rfl

/-- However many arguments are null, concatenation appends the lists. -/
theorem stands_concat {xs : List (CowMessage α)} (h : ∀ m ∈ xs, m.WellFormed) :
    (concat xs).Stands (xs.flatMap elements) := by
  have hvals : ∀ d ∈ xs.filterMap vals, d.WellFormed := by
    intro d hd
    obtain ⟨m, hm, hmd⟩ := List.mem_filterMap.mp hd
    exact h m hm d hmd
  rw [← flatMap_vals]
  unfold concat
  split
  next heq => simpa [heq] using stands_empty
  next d heq => simpa [heq] using stands_some (hvals d (by simp [heq])) rfl
  next ds _ _ =>
    have hspec := MessageData.newConcatenated_spec hvals
    exact stands_some hspec.1 hspec.2

/-- `operator+` appends the elements. -/
theorem stands_append {m m' : CowMessage α} {xs ys : List (Element α)} (h : m.Stands xs)
    (h' : m'.Stands ys) : (m.append m').Stands (xs ++ ys) := by
  have happ := @stands_concat _ [m, m'] (by
    intro n hn
    rcases List.mem_pair.mp hn with rfl | rfl
    · exact h.1
    · exact h'.1)
  have hlist : [m, m'].flatMap elements = xs ++ ys := by
    rw [List.flatMap_cons, List.flatMap_singleton, h.2, h'.2]
  exact hlist ▸ happ

end CowMessage

/-- A builder keeps the token of what was appended to it. -/
theorem MessageBuilder.foldl_append {α : Type} : ∀ (xs : List (Element α)) (b : MessageBuilder α),
    xs.foldl append b =
      ⟨b.elements ++ xs, (xs.map fun e => e.type.nr).foldl addToTypeToken b.typeToken⟩
  | [], b => by simp
  | x :: xs, b => by
    rw [List.foldl_cons, foldl_append xs, append, List.append_assoc]
    rfl

-- -------------------------
-- Equality
-- -------------------------

namespace TypeInfos

variable {α : Type}

/-- The values of two lists with the same type names, compared in order. -/
def sameValues (T : TypeInfos α) : List (Element α) → List (Element α) → Option Bool
  | x :: xs, y :: ys =>
    (T.equals (T.uniformName x.type) x.value y.value).bind fun same =>
      if same then T.sameValues xs ys else some false
  | _, _ => some true

/-- Equality of two lists of elements: sizes, then type names, then values. -/
def sameElements (T : TypeInfos α) (xs ys : List (Element α)) : Option Bool :=
  if xs.length ≠ ys.length then some false
  else if xs.map (fun e => T.uniformName e.type) = ys.map (fun e => T.uniformName e.type) then
    T.sameValues xs ys
  else some false

/-- The types of the elements are known, and a value equals itself. -/
def Reflexive (T : TypeInfos α) (xs : List (Element α)) : Prop :=
  ∀ x ∈ xs, T.equals (T.uniformName x.type) x.value x.value = some true

instance (T : TypeInfos α) (xs : List (Element α)) : Decidable (T.Reflexive xs) :=
  inferInstanceAs (Decidable (∀ x ∈ xs, _ = _))

/-- Elements whose types compare reflexively equal themselves. -/
theorem sameValues_self (T : TypeInfos α) : ∀ {xs : List (Element α)}, T.Reflexive xs →
    T.sameValues xs xs = some true
  | [], _ => rfl
  | x :: xs, h => by
    rw [sameValues, h x (by simp), Option.bind_some, if_pos rfl,
      sameValues_self T fun y hy => h y (by simp [hy])]

theorem sameElements_self (T : TypeInfos α) {xs : List (Element α)} (h : T.Reflexive xs) :
    T.sameElements xs xs = some true := by
  rw [sameElements, if_neg (by simp), if_pos rfl, T.sameValues_self h]

end TypeInfos

namespace MessageData

variable {α : Type} {d d' : MessageData α}

/-- Comparing the type names compares the lists of names. -/
theorem sameNames_iff (T : TypeInfos α) (h : d.WellFormed) (h' : d'.WellFormed)
    (hlen : d.elements.length = d'.elements.length) :
    d.sameNames T d' = true ↔ d.elements.map (fun e => T.uniformName e.type) =
      d'.elements.map (fun e => T.uniformName e.type) := by
  have hget : ∀ i, (d.elementAt i).map (fun e => T.uniformName e.type) =
      (d.elements.map fun e => T.uniformName e.type)[i]? := fun i => by
    rw [h.elementAt_eq, List.getElem?_map]
  have hget' : ∀ i, (d'.elementAt i).map (fun e => T.uniformName e.type) =
      (d'.elements.map fun e => T.uniformName e.type)[i]? := fun i => by
    rw [h'.elementAt_eq, List.getElem?_map]
  rw [sameNames, List.all_eq_true]
  constructor
  · intro hall
    refine List.ext_getElem? fun i => ?_
    by_cases hi : i < d.elements.length
    · have hsame := hall i (List.mem_range.mpr (h.size_eq ▸ hi))
      rwa [beq_iff_eq, hget, hget'] at hsame
    · rw [List.getElem?_eq_none (by simpa using hi),
        List.getElem?_eq_none (by simpa [← hlen] using hi)]
  · intro heq i _
    rw [beq_iff_eq, hget, hget', heq]

/-- Comparing from a position on compares the rests of the lists. -/
theorem sameValues_range' (T : TypeInfos α) (h : d.WellFormed) (h' : d'.WellFormed)
    (hlen : d.elements.length = d'.elements.length) :
    ∀ k p : Nat, p + k = d.elements.length →
      d.sameValues T d' (List.range' p k) =
        T.sameValues (d.elements.drop p) (d'.elements.drop p)
  | 0, p, hp => by
    rw [List.drop_eq_nil_of_le (by omega)]
    rfl
  | k + 1, p, hp => by
    have hlt : p < d.elements.length := by omega
    have hlt' : p < d'.elements.length := by omega
    rw [List.range'_succ, sameValues, h.elementAt_eq, h'.elementAt_eq,
      List.getElem?_eq_getElem hlt, List.getElem?_eq_getElem hlt',
      List.drop_eq_getElem_cons hlt, List.drop_eq_getElem_cons hlt', TypeInfos.sameValues,
      sameValues_range' T h h' hlen k (p + 1) (by omega)]

/-- Between two data objects, equality is that of the lists. -/
theorem equals_eq (T : TypeInfos α) (h : d.WellFormed) (h' : d'.WellFormed) :
    d.equals T false d' = T.sameElements d.elements d'.elements := by
  rw [equals, TypeInfos.sameElements, h.size_eq, h'.size_eq, if_neg Bool.false_ne_true]
  split_ifs with hlen hnames hlist hlist
  · rfl
  · rw [List.range_eq_range', sameValues_range' T h h' (not_not.mp hlen) _ 0 (by simp),
      List.drop_zero, List.drop_zero]
  · exact absurd ((sameNames_iff T h h' (not_not.mp hlen)).mp hnames) hlist
  · exact absurd ((sameNames_iff T h h' (not_not.mp hlen)).mpr hlist) hnames
  · rfl

end MessageData

namespace CowMessage

variable {α : Type} {m m' : CowMessage α} {xs ys : List (Element α)}

theorem Stands.isEmpty_eq (h : m.Stands xs) : m.isEmpty = decide (xs.length = 0) := by
  rw [isEmpty, h.size_eq]
  rfl

/-- A message with elements is not null. -/
theorem Stands.vals_eq (h : m.Stands xs) (hx : xs.length ≠ 0) :
    ∃ d, m.vals = some d ∧ d.WellFormed ∧ d.elements = xs := by
  obtain ⟨hwf, rfl⟩ := h
  rcases m with ⟨_ | d⟩
  · exact absurd rfl hx
  · exact ⟨d, rfl, hwf d rfl, rfl⟩

/-- With an empty message on one side, equality asks whether the other is empty too. -/
theorem Stands.equals_of_empty (T : TypeInfos α) (h : m.Stands xs) (h' : m'.Stands ys)
    (same : Bool) (hempty : xs.length = 0 ∨ ys.length = 0) :
    m.equals T same m' = some (decide (xs.length = ys.length)) := by
  by_cases hx : xs.length = 0
  · have hm : m.isEmpty = true := h.isEmpty_eq.trans (decide_eq_true hx)
    have heq : m.equals T same m' = some m'.isEmpty := by
      unfold CowMessage.equals
      split <;> rw [if_pos hm]
    rw [heq, h'.isEmpty_eq, hx, decide_eq_decide.mpr eq_comm]
  · have hy : ys.length = 0 := hempty.resolve_left hx
    have hm : ¬ m.isEmpty = true := by
      rw [h.isEmpty_eq, decide_eq_true_iff]
      exact hx
    have hm' : m'.isEmpty = true := h'.isEmpty_eq.trans (decide_eq_true hy)
    have heq : m.equals T same m' = some false := by
      unfold CowMessage.equals
      split <;> rw [if_neg hm]
      rw [if_pos hm']
    rw [heq, hy, decide_eq_false hx]

/-- Equality of messages is that of their lists; where both hold one data object,
for lists whose elements are known and equal to themselves. -/
theorem Stands.equals_eq (T : TypeInfos α) (h : m.Stands xs) (h' : m'.Stands ys) {same : Bool}
    (hsame : same = true → m = m' ∧ T.Reflexive xs) :
    m.equals T same m' = T.sameElements xs ys := by
  by_cases hempty : xs.length = 0 ∨ ys.length = 0
  · -- without elements only the sizes count
    rw [h.equals_of_empty T h' same hempty, TypeInfos.sameElements]
    by_cases hlen : xs.length = ys.length
    · obtain rfl : xs = [] := List.length_eq_zero_iff.mp (by omega)
      obtain rfl : ys = [] := List.length_eq_zero_iff.mp hlen.symm
      rfl
    · rw [if_pos hlen, decide_eq_false hlen]
  · obtain ⟨hx, hy⟩ := not_or.mp hempty
    have hm : m.isEmpty = false := h.isEmpty_eq.trans (decide_eq_false hx)
    have hm' : m'.isEmpty = false := h'.isEmpty_eq.trans (decide_eq_false hy)
    obtain ⟨d, hd, hwf, hde⟩ := h.vals_eq hx
    obtain ⟨d', hd', hwf', hde'⟩ := h'.vals_eq hy
    -- the messages compare their data
    have heq : m.equals T same m' = d.equals T same d' := by
      simp only [CowMessage.equals, hd, hd', hm, hm', Bool.false_eq_true, if_false]
    cases same with
    | false => rw [heq, MessageData.equals_eq T hwf hwf', hde, hde']
    | true =>
      -- one data object: the pointer test answers without looking at the elements
      obtain ⟨rfl, hrefl⟩ := hsame rfl
      obtain rfl : xs = ys := h.2.symm.trans h'.2
      rw [heq, T.sameElements_self hrefl, MessageData.equals, if_pos rfl]

end CowMessage

-- -------------------------
-- Every way of building a message
-- -------------------------

/-- The ways of building a message: `message{}`, `make_message`, a
`message_builder` after some appends, the views of a message and `concat`. -/
inductive MessageExpr (α : Type) where
  | message
  | makeMessage (x : Element α) (xs : List (Element α))
  | builder (xs : List (Element α))
  | drop (e : MessageExpr α) (n : Nat)
  | dropRight (e : MessageExpr α) (n : Nat)
  | slice (e : MessageExpr α) (pos n : Nat)
  | take (e : MessageExpr α) (n : Nat)
  | takeRight (e : MessageExpr α) (n : Nat)
  | concat (es : List (MessageExpr α))

namespace MessageExpr

variable {α : Type}

mutual

/-- The message the code builds. -/
def build : MessageExpr α → CowMessage α
  | message => .empty
  | makeMessage x xs => .makeMessage (x :: xs)
  | builder xs => (xs.foldl MessageBuilder.append .new).toMessage
  | drop e n => e.build.drop n
  | dropRight e n => e.build.dropRight n
  | slice e pos n => e.build.slice pos n
  | take e n => e.build.take n
  | takeRight e n => e.build.takeRight n
  | concat es => .concat (buildAll es)

def buildAll : List (MessageExpr α) → List (CowMessage α)
  | [] => []
  | e :: es => e.build :: buildAll es

end

mutual

/-- The list the message stands for. -/
def list : MessageExpr α → List (Element α)
  | message => []
  | makeMessage x xs => x :: xs
  | builder xs => xs
  | drop e n => e.list.drop n
  | dropRight e n => e.list.take (e.list.length - n)
  | slice e pos n => (e.list.drop pos).take n
  | take e n => e.list.take n
  | takeRight e n => e.list.drop (e.list.length - n)
  | concat es => listAll es

def listAll : List (MessageExpr α) → List (Element α)
  | [] => []
  | e :: es => e.list ++ listAll es

end

mutual

/-- The message built stands for the list. -/
theorem stands : ∀ e : MessageExpr α, e.build.Stands e.list
  | message => CowMessage.stands_empty
  | makeMessage _ _ => CowMessage.stands_some trivial rfl
  | builder xs => by
    rw [build, MessageBuilder.foldl_append]
    exact CowMessage.stands_some ⟨rfl, rfl⟩ rfl
  | drop e n => (stands e).drop n
  | dropRight e n => (stands e).dropRight n
  | slice e pos n => (stands e).slice pos n
  | take e n => (stands e).take n
  | takeRight e n => (stands e).takeRight n
  | concat es => by
    have hall := standsAll es
    have hcat := CowMessage.stands_concat hall.1
    rw [hall.2] at hcat
    exact hcat

/-- The parts of a concatenation stand for their lists. -/
theorem standsAll : ∀ es : List (MessageExpr α),
    (∀ m ∈ buildAll es, m.WellFormed) ∧ (buildAll es).flatMap CowMessage.elements = listAll es
  | [] => ⟨by simp [buildAll], rfl⟩
  | e :: es => by
    have he := stands e
    have hes := standsAll es
    rw [buildAll, listAll, List.flatMap_cons, he.2, hes.2]
    refine ⟨fun m hm => ?_, rfl⟩
    rcases List.mem_cons.mp hm with rfl | hm
    · exact he.1
    · exact hes.1 m hm

end

theorem listAll_eq : ∀ es : List (MessageExpr α), listAll es = es.flatMap list
  | [] => rfl
  | e :: es => by rw [listAll, listAll_eq es, List.flatMap_cons]

end MessageExpr

/-- What the observers of a message answer about a list of elements. -/
structure CowMessage.ObservedAs {α : Type} (T : TypeInfos α) (m : CowMessage α)
    (xs : List (Element α)) : Prop where
  size : m.size = xs.length
  at? : ∀ pos, m.at? pos = xs[pos]?.map Element.value
  typeNrAt : ∀ pos, m.typeNrAt pos = xs[pos]?.map fun e => e.type.nr
  uniformNameAt : ∀ pos, m.uniformNameAt T pos = xs[pos]?.map fun e => T.uniformName e.type
  matchElement : ∀ pos typenr rtti, m.matchElement pos typenr rtti =
    xs[pos]?.map fun e => e.type.matchElement typenr rtti
  typeToken : m.typeToken = typeTokenOf (xs.map fun e => e.type.nr)

/-- Every observer gives what it gives for the list. -/
theorem CowMessage.Stands.observed {α : Type} {m : CowMessage α} {xs : List (Element α)}
    (h : m.Stands xs) (T : TypeInfos α) : m.ObservedAs T xs where
  size := h.size_eq
  at? pos := congrArg (Option.map _) (h.elementAt_eq pos)
  typeNrAt pos := congrArg (Option.map _) (h.elementAt_eq pos)
  uniformNameAt pos := congrArg (Option.map _) (h.elementAt_eq pos)
  matchElement pos _ _ := congrArg (Option.map _) (h.elementAt_eq pos)
  typeToken := h.typeToken_eq

open MessageExpr in
/-- Messages behave as lists, however they were built. Equality compares the
lists unless both sides hold one data object, which equals itself. -/
theorem CowMessage.as_lists {α : Type} (T : TypeInfos α) (e e' e'' : MessageExpr α) :
    e.build.ObservedAs T e.list ∧
    (e.build.equals T false e'.build = T.sameElements e.list e'.list) ∧
    (T.Reflexive e.list → e.build.equals T true e.build = T.sameElements e.list e.list) ∧
    (∀ n, (e.build.drop n).ObservedAs T (e.list.drop n)) ∧
    (∀ n, (e.build.dropRight n).ObservedAs T (e.list.take (e.list.length - n))) ∧
    (∀ pos n, (e.build.slice pos n).ObservedAs T ((e.list.drop pos).take n)) ∧
    (∀ n, (e.build.take n).ObservedAs T (e.list.take n)) ∧
    (∀ n, (e.build.takeRight n).ObservedAs T (e.list.drop (e.list.length - n))) ∧
    (∀ es, (CowMessage.concat (buildAll es)).ObservedAs T (es.flatMap list)) ∧
    ((e.build.append e'.build).append e''.build).ObservedAs T (e.list ++ e'.list ++ e''.list) ∧
    (e.build.append (e'.build.append e''.build)).ObservedAs T (e.list ++ e'.list ++ e''.list) ∧
    (CowMessage.empty.append e.build).ObservedAs T e.list ∧
    (e.build.append CowMessage.empty).ObservedAs T e.list ∧
    (∀ n, ((e.build.take n).append (e.build.drop n)).ObservedAs T e.list) := by
  have h := e.stands
  have h' := e'.stands
  have h'' := e''.stands
  have hnull := CowMessage.stands_empty (α := α)
  refine ⟨h.observed T, h.equals_eq T h' (by simp),
    fun hrefl => h.equals_eq T h fun _ => ⟨rfl, hrefl⟩,
    fun n => (h.drop n).observed T, fun n => (h.dropRight n).observed T,
    fun pos n => (h.slice pos n).observed T, fun n => (h.take n).observed T,
    fun n => (h.takeRight n).observed T, fun es => ?_, ?_, ?_, ?_, ?_, fun n => ?_⟩
  · have hes := (MessageExpr.concat es).stands.observed T
    rwa [build, list, listAll_eq] at hes
  · exact (CowMessage.stands_append (CowMessage.stands_append h h') h'').observed T
  · rw [List.append_assoc]
    exact (CowMessage.stands_append h (CowMessage.stands_append h' h'')).observed T
  · exact (CowMessage.stands_append hnull h).observed T
  · have happ := CowMessage.stands_append h hnull
    rw [List.append_nil] at happ
    exact happ.observed T
  · have happ := CowMessage.stands_append (h.take n) (h.drop n)
    rw [List.take_append_drop] at happ
    exact happ.observed T

/-- Integers kept in a `double`, and `none` for NaN, which `safe_equal` tells apart
from itself; no type is announced. -/
def doubles : TypeInfos (Option Int) where
  announced _ := none
  equals name a b :=
    if name ∈ builtinTypes.map Prod.fst then some (a.isSome && a == b) else none

/-- A message of a `double` and an `int32_t` equals itself and its two halves put together. -/
theorem CowMessage.as_lists_doubles :
    let e : MessageExpr (Option Int) := .makeMessage ⟨⟨36, 0⟩, some 1⟩ [⟨⟨14, 0⟩, some 2⟩]
    doubles.Reflexive e.list ∧ e.build.equals doubles true e.build = some true ∧
      e.build.equals doubles false (MessageExpr.concat [.take e 1, .drop e 1]).build = some true ∧
      ((e.build.take 1).append (e.build.drop 1)).ObservedAs doubles e.list := by
  intro e
  have hrefl : doubles.Reflexive e.list := by decide
  obtain ⟨-, hequals, hself, -, -, -, -, -, -, -, -, -, -, happ⟩ :=
    as_lists doubles e (.concat [.take e 1, .drop e 1]) .message
  exact ⟨hrefl, (hself hrefl).trans (by decide), hequals.trans (by decide), happ 1⟩

/-- Equality is not a function of the two lists: a message that holds NaN equals
its copies, but no message built apart from it. -/
theorem CowMessage.equality_of_objects :
    ¬ ∀ (e₁ e₁' e₂ e₂' : MessageExpr (Option Int)) (same₁ same₂ : Bool),
      (same₁ = true → e₁ = e₁') → (same₂ = true → e₂ = e₂') →
      e₁.list = e₂.list → e₁'.list = e₂'.list →
      e₁.build.equals doubles same₁ e₁'.build = e₂.build.equals doubles same₂ e₂'.build := by
  intro hall
  let nan : MessageExpr (Option Int) := .makeMessage ⟨⟨36, 0⟩, none⟩ []
  have heq := hall nan nan nan nan true false (fun _ => rfl) (by simp) rfl rfl
  exact absurd heq (by decide)

end BoostActor
