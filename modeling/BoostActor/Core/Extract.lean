import BoostActor.Core.MessageLists
import Mathlib.Data.List.Forall2

/-!
# Extracting slices from a message

`message::extract` (`message.cpp`) offers slices of a message to a handler, from
left to right and the longest first. Once the handler takes one, it continues at
the same position with the message that is left.

Elements are whatever the message holds, and the state of the handler whatever
its functions read and write, the elements a message refers to among it.

* `CowMessage.extractImpl_inOrder` — what `extract` offers and returns follows
  the order `InOrder`, which says it on lists;
* `CowMessage.extract_inOrder` — the same for `extract`, with what follows for the
  positions of the slices and for the elements that are left.
-/

namespace BoostActor

namespace CowMessage

variable {α σ : Type}

-- -------------------------
-- The search
-- -------------------------

/-- The inner loop of `extract_impl`, from `n` down to 1. -/
def tryLengths (handler : CowMessage α → σ → Bool × σ) (m : CowMessage α) (i : Nat) :
    Nat → σ → Option Nat × σ
  | 0, st => (none, st)
  | n + 1, st =>
    let (res, st) := handler (m.slice i (n + 1)) st
    if res then (some (n + 1), st) else m.tryLengths handler i n st

/-- The outer loop of `extract_impl`, with `k` positions to go from `i` on. -/
def tryPositions (handler : CowMessage α → σ → Bool × σ) (m : CowMessage α) :
    Nat → Nat → σ → Option (Nat × Nat) × σ
  | 0, _, st => (none, st)
  | k + 1, i, st =>
    match m.tryLengths handler i (m.size - i) st with
    | (some n, st) => (some (i, n), st)
    | (none, st) => m.tryPositions handler k (i + 1) st

/-- A slice that is taken is not empty, and has the length that was tried. -/
theorem tryLengths_bounds {handler : CowMessage α → σ → Bool × σ} {m : CowMessage α} {i : Nat} :
    ∀ {k n : Nat} {st st' : σ}, m.tryLengths handler i k st = (some n, st') → 0 < n ∧ n ≤ k
  | 0, n, st, st', h => by cases h
  | k + 1, n, st, st', h => by
    simp only [tryLengths] at h
    split at h
    · cases h
      omega
    · have := tryLengths_bounds h
      omega

/-- A slice that is taken lies within the message. -/
theorem tryPositions_bounds {handler : CowMessage α → σ → Bool × σ} {m : CowMessage α} :
    ∀ {k i : Nat} {st st' : σ} {c : Nat × Nat}, m.tryPositions handler k i st = (some c, st') →
      i + k ≤ m.size → c.1 < m.size ∧ 0 < c.2 ∧ c.1 + c.2 ≤ m.size
  | 0, i, st, st', c, h, _ => by cases h
  | k + 1, i, st, st', c, h, hk => by
    rw [tryPositions] at h
    split at h
    · next n st₁ hn =>
      cases h
      have := tryLengths_bounds hn
      dsimp only
      omega
    · exact tryPositions_bounds h (by omega)

-- -------------------------
-- Slices
-- -------------------------

/-- The positions that are left when `n` of `s` are erased from position `i` on. -/
def erasedMapping (s i n : Nat) : List Nat :=
  (List.range s).take i ++ (List.range s).drop (i + n)

/-- As many elements remain as are not erased. -/
theorem length_erasedMapping {s i n : Nat} (h : i + n ≤ s) :
    (erasedMapping s i n).length = s - n := by
  simp only [erasedMapping, List.length_append, List.length_take, List.length_drop,
    List.length_range]
  omega

/-- A decorated message has one element for each position at most. -/
theorem size_decorate_le (m : CowMessage α) (mapping : List Nat) :
    (m.decorate mapping).size ≤ mapping.length := by
  obtain ⟨_ | d⟩ := m
  · exact Nat.zero_le _
  · cases d with
    | decoratedTuple d pmap token => exact le_of_eq (List.length_map _)
    | _ => exact le_rfl

/-- `extract_impl`. Each slice that is taken makes the message shorter. -/
def extractImpl (handler : CowMessage α → σ → Bool × σ) (m : CowMessage α) (start : Nat) (st : σ) :
    CowMessage α × σ :=
  match _h : m.tryPositions handler (m.size - start) start st with
  | (none, st) => (m, st)
  | (some (i, n), st) =>
    let mapping := erasedMapping m.size i n
    if mapping.isEmpty then (empty, st)
    else (m.decorate mapping).extractImpl handler i st
termination_by m.size
decreasing_by
  by_cases hs : start ≤ m.size
  · have hb := tryPositions_bounds _h (by omega)
    have hle := m.size_decorate_le (erasedMapping m.size i n)
    rw [length_erasedMapping hb.2.2] at hle
    dsimp only at hb
    omega
  · -- behind the end there is no position to try
    rw [Nat.sub_eq_zero_of_le (by omega)] at _h
    cases _h

/-- `message::extract`. -/
def extract (handler : CowMessage α → σ → Bool × σ) (m : CowMessage α) (st : σ) :
    CowMessage α × σ :=
  m.extractImpl handler 0 st

end CowMessage

-- -------------------------
-- The documented order
-- -------------------------

section

variable {β : Type}

/-- The slices of a list of the given size, from left to right and the longest
first. -/
def slicesFrom (start size : Nat) : List (Nat × Nat) :=
  (List.range' start (size - start)).flatMap fun i =>
    (List.range' 1 (size - i)).reverse.map fun n => (i, n)

/-- What is left of a list without the slice. -/
def removeSlice (xs : List β) (c : Nat × Nat) : List β := xs.take c.1 ++ xs.drop (c.1 + c.2)

/-- A slice `[pos, pos + len)` of what was left, and whether the handler took it. -/
structure Offer (β : Type) where
  remainder : List β
  pos : Nat
  len : Nat
  accepted : Bool

def Offer.slice (o : Offer β) : List β := (o.remainder.drop o.pos).take o.len

/-- The slice, refused. -/
def refused (xs : List β) (c : Nat × Nat) : Offer β := ⟨xs, c.1, c.2, false⟩

/-- The offers for a list from a position on, and what is left in the end: either
all slices are refused, or the first that is not is removed and the offers go on
at its position for the rest. -/
inductive InOrder : List β → Nat → List (Offer β) → List β → Prop
  | refused (xs : List β) (start : Nat) :
      InOrder xs start ((slicesFrom start xs.length).map (refused xs)) xs
  | accepted {xs rest : List β} {start : Nat} {before after : List (Nat × Nat)} {c : Nat × Nat}
      {offers : List (Offer β)} :
      slicesFrom start xs.length = before ++ c :: after →
      InOrder (removeSlice xs c) c.1 offers rest →
      InOrder xs start (before.map (BoostActor.refused xs) ++ ⟨xs, c.1, c.2, true⟩ :: offers) rest

/-- The slices from a position on. -/
theorem mem_slicesFrom {start size : Nat} {c : Nat × Nat} :
    c ∈ slicesFrom start size ↔ start ≤ c.1 ∧ 0 < c.2 ∧ c.1 + c.2 ≤ size := by
  simp only [slicesFrom, List.mem_flatMap, List.mem_range'_1, List.mem_map, List.mem_reverse]
  constructor
  · rintro ⟨i, hi, n, hn, rfl⟩
    dsimp only
    omega
  · intro h
    exact ⟨c.1, by omega, c.2, by omega, rfl⟩

theorem slicesFrom_of_le {start size : Nat} (h : size ≤ start) : slicesFrom start size = [] := by
  rw [slicesFrom, Nat.sub_eq_zero_of_le h]
  rfl

/-- The slices at the first position come before those at the others. -/
theorem slicesFrom_of_lt {start size : Nat} (h : start < size) :
    slicesFrom start size =
      (List.range' 1 (size - start)).reverse.map (fun n => (start, n)) ++
        slicesFrom (start + 1) size := by
  have hk : size - start = size - (start + 1) + 1 := by omega
  rw [slicesFrom, hk, List.range'_succ, List.flatMap_cons, ← hk]
  rfl

namespace InOrder

variable {xs rest : List β} {start : Nat} {offers : List (Offer β)}

/-- No slice starts left of the first position. -/
theorem start_le (h : InOrder xs start offers rest) : ∀ o ∈ offers, start ≤ o.pos := by
  induction h with
  | refused xs start =>
    intro o ho
    obtain ⟨c, hc, rfl⟩ := List.mem_map.mp ho
    exact (mem_slicesFrom.mp hc).1
  | @accepted xs rest start before after c offers hc _ ih =>
    have hmem : ∀ d ∈ before ++ c :: after, start ≤ d.1 := fun d hd =>
      (mem_slicesFrom.mp (hc ▸ hd)).1
    intro o ho
    rcases List.mem_append.mp ho with ho | ho
    · obtain ⟨d, hd, rfl⟩ := List.mem_map.mp ho
      exact hmem d (List.mem_append_left _ hd)
    · have hstart := hmem c (List.mem_append_right _ List.mem_cons_self)
      rcases List.mem_cons.mp ho with rfl | ho
      · exact hstart
      · exact Nat.le_trans hstart (ih o ho)

/-- No slice starts left of one that was taken before. -/
theorem accepted_le (h : InOrder xs start offers rest) {pre post : List (Offer β)} {o : Offer β}
    (ho : offers = pre ++ o :: post) (hacc : o.accepted = true) :
    ∀ o' ∈ post, o.pos ≤ o'.pos := by
  induction h generalizing pre with
  | refused xs start =>
    -- none was taken
    have hmem : o ∈ (slicesFrom start xs.length).map (BoostActor.refused xs) := by
      rw [ho]
      exact List.mem_append_right _ List.mem_cons_self
    obtain ⟨c, -, rfl⟩ := List.mem_map.mp hmem
    cases hacc
  | @accepted xs rest start before after c offers hc hnext ih =>
    rcases List.append_eq_append_iff.mp ho with ⟨mid, rfl, hmid⟩ | ⟨mid, hmid, hpost⟩
    · cases mid with
      | nil =>
        obtain ⟨rfl, rfl⟩ := List.cons.inj hmid
        exact hnext.start_le
      | cons o₁ mid =>
        obtain ⟨-, rfl⟩ := List.cons.inj hmid
        -- the slice was taken in this step
        exact ih rfl
    · cases mid with
      | nil =>
        obtain ⟨rfl, rfl⟩ := List.cons.inj hpost
        exact hnext.start_le
      -- an offer before it
      | cons o₁ mid =>
        -- the slices before the one that was taken were refused
        obtain ⟨rfl, -⟩ := List.cons.inj hpost
        have hmem : o ∈ before.map (BoostActor.refused xs) := by
          rw [hmid]
          exact List.mem_append_right _ List.mem_cons_self
        obtain ⟨c, -, rfl⟩ := List.mem_map.mp hmem
        cases hacc

/-- Removing a slice keeps the order of the rest. -/
theorem removeSlice_sublist (xs : List β) (c : Nat × Nat) : (removeSlice xs c).Sublist xs := by
  have hsub : (xs.take c.1 ++ xs.drop (c.1 + c.2)).Sublist (xs.take c.1 ++ xs.drop c.1) := by
    apply (List.append_sublist_append_left _).mpr
    rw [← List.drop_drop]
    exact List.drop_sublist _ _
  rwa [List.take_append_drop] at hsub

/-- What is left keeps its order. -/
theorem sublist (h : InOrder xs start offers rest) : rest.Sublist xs := by
  induction h with
  | refused => exact List.Sublist.refl _
  | accepted _ _ ih => exact ih.trans (removeSlice_sublist _ _)

/-- All that is missing in the end is in the slices that were taken. -/
theorem length_eq (h : InOrder xs start offers rest) :
    xs.length = rest.length + ((offers.filter Offer.accepted).map Offer.len).sum := by
  have hrefused : ∀ (xs : List β) (cs : List (Nat × Nat)),
      (cs.map (BoostActor.refused xs)).filter Offer.accepted = [] := by
    intro xs cs
    rw [List.filter_eq_nil_iff]
    intro o ho
    obtain ⟨c, -, rfl⟩ := List.mem_map.mp ho
    exact Bool.false_ne_true
  induction h with
  | refused => simp [hrefused]
  | @accepted xs rest start before after c offers hc _ ih =>
    have hb := (mem_slicesFrom.mp (hc ▸ List.mem_append_right _ List.mem_cons_self :
      c ∈ slicesFrom start xs.length)).2
    have hlen : (removeSlice xs c).length = xs.length - c.2 := by
      simp only [removeSlice, List.length_append, List.length_take, List.length_drop]
      omega
    rw [List.filter_append, hrefused, List.nil_append, List.filter_cons_of_pos rfl, List.map_cons,
      List.sum_cons]
    dsimp only
    omega

end InOrder

end

namespace CowMessage

variable {α σ : Type} {m : CowMessage α} {xs : List (Element α)}

-- -------------------------
-- What the code offers
-- -------------------------

/-- The calls a handler got: the message, and whether it took it. -/
abbrev CallLog (α : Type) := List (CowMessage α × Bool)

/-- The handler, which also writes down its calls. -/
def logged (handler : CowMessage α → σ → Bool × σ) (m : CowMessage α) (st : σ × CallLog α) :
    Bool × (σ × CallLog α) :=
  ((handler m st.1).1, (handler m st.1).2, st.2 ++ [(m, (handler m st.1).1)])

/-- The calls are those offers: each message stands for the slice. -/
def Records (log : CallLog α) (offers : List (Offer (Element α))) : Prop :=
  List.Forall₂ (fun entry o => entry.1.Stands o.slice ∧ entry.2 = o.accepted) log offers

/-- Both loops: the first slice of a list of slices that the handler takes. -/
def search (handler : CowMessage α → σ → Bool × σ) (m : CowMessage α) :
    List (Nat × Nat) → σ → Option (Nat × Nat) × σ
  | [], st => (none, st)
  | c :: cs, st =>
    if (handler (m.slice c.1 c.2) st).1 then (some c, (handler (m.slice c.1 c.2) st).2)
    else m.search handler cs (handler (m.slice c.1 c.2) st).2

variable {handler : CowMessage α → σ → Bool × σ}

/-- A search goes on where it has found nothing. -/
theorem search_append (cs ds : List (Nat × Nat)) (st : σ) :
    m.search handler (cs ++ ds) st =
      match m.search handler cs st with
      | (some c, st) => (some c, st)
      | (none, st) => m.search handler ds st := by
  induction cs generalizing st with
  | nil => rfl
  | cons c cs ih =>
    rw [List.cons_append, search, search]
    split
    · rfl
    · exact ih _

/-- Longer slices are tried first. -/
theorem tryLengths_eq (i k : Nat) (st : σ) :
    m.search handler ((List.range' 1 k).reverse.map fun n => (i, n)) st =
      ((m.tryLengths handler i k st).1.map fun n => (i, n), (m.tryLengths handler i k st).2) := by
  induction k generalizing st with
  | zero => rfl
  | succ k ih =>
    have hrev : (List.range' 1 (k + 1)).reverse = (k + 1) :: (List.range' 1 k).reverse := by
      rw [List.range'_concat, List.reverse_append, Nat.add_comm 1]
      simp
    rw [hrev, List.map_cons, search, tryLengths]
    cases hr : (handler (m.slice i (k + 1)) st).1 with
    | true => simp [hr]
    | false => simpa [hr] using ih _

/-- The two loops are one search through the slices from a position on. -/
theorem tryPositions_eq (k i : Nat) (st : σ) (hk : i + k = m.size) :
    m.tryPositions handler k i st = m.search handler (slicesFrom i m.size) st := by
  induction k generalizing i st with
  | zero =>
    rw [slicesFrom_of_le (by omega)]
    rfl
  | succ k ih =>
    rw [slicesFrom_of_lt (by omega), search_append, tryLengths_eq, tryPositions]
    rcases m.tryLengths handler i (m.size - i) st with ⟨_ | n, st⟩
    · exact ih (i + 1) st (by omega)
    · rfl

/-- What a search through the slices of a message does and records. -/
inductive Searched (xs : List (Element α)) (cs : List (Nat × Nat)) :
    Option (Nat × Nat) → CallLog α → Prop
  | refused {log : CallLog α} : Records log (cs.map (refused xs)) → Searched xs cs none log
  | accepted {before after : List (Nat × Nat)} {c : Nat × Nat} {log : CallLog α} :
      cs = before ++ c :: after →
      Records log (before.map (BoostActor.refused xs) ++ [⟨xs, c.1, c.2, true⟩]) →
      Searched xs cs (some c) log

/-- One more slice was refused. -/
theorem Searched.cons {cs : List (Nat × Nat)} {c : Nat × Nat} {res : Option (Nat × Nat)}
    {log : CallLog α} {call : CowMessage α} (hcall : call.Stands ((xs.drop c.1).take c.2))
    (h : Searched xs cs res log) : Searched xs (c :: cs) res ((call, false) :: log) := by
  cases h with
  | refused hrec => exact .refused (.cons ⟨hcall, rfl⟩ hrec)
  | @accepted before after d log hcs hrec =>
    have hcs' : c :: cs = (c :: before) ++ d :: after := congrArg (c :: ·) hcs
    exact .accepted hcs' (.cons ⟨hcall, rfl⟩ hrec)

/-- Logging the calls does not change the search. -/
theorem search_logged (h : m.Stands xs) : ∀ (cs : List (Nat × Nat)) (st : σ) (log : CallLog α),
    ∃ new, Searched xs cs (m.search handler cs st).1 new ∧
      m.search (logged handler) cs (st, log) =
        ((m.search handler cs st).1, (m.search handler cs st).2, log ++ new)
  | [], st, log => ⟨[], .refused .nil, by rw [List.append_nil]; rfl⟩
  | c :: cs, st, log => by
    have hslice := h.slice c.1 c.2
    rw [search, search]
    rcases hcall : handler (m.slice c.1 c.2) st with ⟨_ | _, st₁⟩
    · -- refused: the search goes on with the rest
      obtain ⟨new, hnew, heq⟩ := search_logged h cs st₁ (log ++ [(m.slice c.1 c.2, false)])
      refine ⟨(m.slice c.1 c.2, false) :: new, ?_, ?_⟩
      · simpa only [Bool.false_eq_true, if_false] using hnew.cons hslice
      · simp only [logged, hcall, Bool.false_eq_true, if_false, heq, List.append_assoc]
        rfl
    · refine ⟨[(m.slice c.1 c.2, true)], ?_, ?_⟩
      · have hrec : Records [(m.slice c.1 c.2, true)] [⟨xs, c.1, c.2, true⟩] :=
          .cons ⟨hslice, rfl⟩ .nil
        exact .accepted (List.nil_append (c :: cs)).symm hrec
      · simp only [logged, hcall, if_true]

theorem mem_erasedMapping {s i n p : Nat} (h : p ∈ erasedMapping s i n) : p < s := by
  rcases List.mem_append.mp h with h | h
  · exact List.mem_range.mp (List.mem_of_mem_take h)
  · exact List.mem_range.mp (List.mem_of_mem_drop h)

/-- The message with the slice erased stands for the list without it. -/
theorem Stands.erase (h : m.Stands xs) (c : Nat × Nat) :
    (m.decorate (erasedMapping m.size c.1 c.2)).Stands (removeSlice xs c) := by
  have hdec : (m.decorate (erasedMapping m.size c.1 c.2)).Stands
      ((erasedMapping m.size c.1 c.2).filterMap fun p => xs[p]?) :=
    h.decorate fun p hp => h.size_eq ▸ mem_erasedMapping hp
  have hfront : ((List.range xs.length).take c.1).filterMap (fun p => xs[p]?) = xs.take c.1 := by
    rw [List.take_range, List.range_eq_range', filterMap_range', List.drop_zero,
      List.take_eq_take_iff]
    omega
  have hback : ((List.range xs.length).drop (c.1 + c.2)).filterMap (fun p => xs[p]?) =
      xs.drop (c.1 + c.2) := by
    rw [List.range_eq_range', List.drop_range', filterMap_range', Nat.zero_add, Nat.mul_one]
    exact List.take_of_length_le (by simp)
  have hall : (erasedMapping m.size c.1 c.2).filterMap (fun p => xs[p]?) = removeSlice xs c := by
    rw [erasedMapping, List.filterMap_append, h.size_eq, hfront, hback, removeSlice]
  rwa [hall] at hdec

/-- `extract_impl` in terms of the search through all slices. -/
theorem extractImpl_eq (handler : CowMessage α → σ → Bool × σ) (m : CowMessage α) (start : Nat)
    (st : σ) :
    m.extractImpl handler start st =
      match m.search handler (slicesFrom start m.size) st with
      | (none, st) => (m, st)
      | (some c, st) =>
        if (erasedMapping m.size c.1 c.2).isEmpty then (empty, st)
        else (m.decorate (erasedMapping m.size c.1 c.2)).extractImpl handler c.1 st := by
  have hsearch : m.tryPositions handler (m.size - start) start st =
      m.search handler (slicesFrom start m.size) st := by
    by_cases hle : start ≤ m.size
    · exact tryPositions_eq _ _ _ (by omega)
    · rw [slicesFrom_of_le (by omega), Nat.sub_eq_zero_of_le (by omega)]
      rfl
  rw [extractImpl]
  split
  · next st₁ h => rw [← hsearch, h]
  · next i n st₁ h => rw [← hsearch, h]

-- -------------------------
-- The result
-- -------------------------

/-- What `extract_impl` returns with a record of the calls: the same as without,
and the calls follow the order. -/
structure Extracted (handler : CowMessage α → σ → Bool × σ) (m : CowMessage α)
    (xs : List (Element α)) (start : Nat) (st : σ) (log new : CallLog α)
    (offers : List (Offer (Element α))) (rest : List (Element α)) : Prop where
  run : m.extractImpl (logged handler) start (st, log) =
    ((m.extractImpl handler start st).1, (m.extractImpl handler start st).2, log ++ new)
  calls : Records new offers
  order : InOrder xs start offers rest
  result : (m.extractImpl handler start st).1.Stands rest

/-- `extract_impl` follows the documented order. The induction is on the number of
elements, of which each slice that is taken leaves fewer. -/
theorem extractImpl_inOrder (handler : CowMessage α → σ → Bool × σ) :
    ∀ (k : Nat) {m : CowMessage α} {xs : List (Element α)} (start : Nat) (st : σ) (log : CallLog α),
      m.Stands xs → xs.length < k →
        ∃ new offers rest, Extracted handler m xs start st log new offers rest
  | 0, m, xs, start, st, log, _, hk => absurd hk (Nat.not_lt_zero _)
  | k + 1, m, xs, start, st, log, h, hk => by
    obtain ⟨new, hnew, hlog⟩ := search_logged h (slicesFrom start m.size) st log
    have hrun := extractImpl_eq handler m start st
    have hrun' := extractImpl_eq (logged handler) m start (st, log)
    rw [hlog] at hrun'
    rcases hs : m.search handler (slicesFrom start m.size) st with ⟨_ | c, st₁⟩
    · -- every slice was refused
      rw [hs] at hnew hrun hrun'
      cases hnew with
      | refused hrec =>
        refine ⟨new, _, xs, ?_, hrec, ?_, ?_⟩
        · rw [hrun', hrun]
        · rw [h.size_eq]
          exact .refused xs start
        · rwa [hrun]
    · rw [hs] at hnew hrun hrun'
      cases hnew with
      | @accepted before after _ _ hcs hrec =>
        have hc : 0 < c.2 ∧ c.1 + c.2 ≤ m.size :=
          (mem_slicesFrom.mp (hcs ▸ List.mem_append_right _ List.mem_cons_self)).2
        have hlen := length_erasedMapping hc.2
        have hrest := h.erase c
        -- the slice is the first that was accepted
        have horder : slicesFrom start xs.length = before ++ c :: after := h.size_eq ▸ hcs
        by_cases hempty : (erasedMapping m.size c.1 c.2).isEmpty = true
        · -- nothing is left
          simp only [hempty, if_true] at hrun hrun'
          have hnil : removeSlice xs c = [] := by
            rw [← List.length_eq_zero_iff, ← hrest.size_eq]
            have hle := m.size_decorate_le (erasedMapping m.size c.1 c.2)
            rw [List.isEmpty_iff.mp hempty] at hle ⊢
            exact Nat.le_zero.mp hle
          have hdone : InOrder (removeSlice xs c) c.1 [] [] := by
            have hnone := InOrder.refused ([] : List (Element α)) c.1
            rw [hnil]
            rwa [List.length_nil, slicesFrom_of_le (Nat.zero_le _)] at hnone
          refine ⟨new, _, [], ?_, hrec, .accepted horder hdone, ?_⟩
          · rw [hrun', hrun]
          · rw [hrun]
            exact stands_empty
        · -- the search goes on in the rest
          simp only [hempty] at hrun hrun'
          -- the rest is shorter, which the recursion needs
          have hlt : (removeSlice xs c).length < k := by
            have hle := m.size_decorate_le (erasedMapping m.size c.1 c.2)
            rw [hrest.size_eq, hlen, h.size_eq] at hle
            have := h.size_eq
            omega
          obtain ⟨new', offers, rest, he⟩ := extractImpl_inOrder handler k c.1 st₁ (log ++ new)
            hrest hlt
          refine ⟨new ++ new', _, rest, ?_, ?_, .accepted horder he.order, ?_⟩
          · rw [hrun', hrun]
            simpa using he.run
          · rw [List.append_cons]
            exact List.rel_append hrec he.calls
          · rw [hrun]
            exact he.result

/-- What `extract` does, for every message and every handler. -/
theorem extract_inOrder (handler : CowMessage α → σ → Bool × σ) (st : σ) (h : m.Stands xs) :
    ∃ calls offers rest,
      -- the calls the handler gets, in order, with its answers
      m.extract (logged handler) (st, []) =
        ((m.extract handler st).1, (m.extract handler st).2, calls) ∧
      -- they offer the slices in the documented order
      Records calls offers ∧ InOrder xs 0 offers rest ∧
      -- none starts left of one that was taken before
      (∀ pre o post, offers = pre ++ o :: post → o.accepted = true → ∀ o' ∈ post, o.pos ≤ o'.pos) ∧
      -- the result has the other elements in their order
      (m.extract handler st).1.Stands rest ∧ rest.Sublist xs ∧
      xs.length = rest.length + ((offers.filter Offer.accepted).map Offer.len).sum := by
  obtain ⟨calls, offers, rest, he⟩ :=
    extractImpl_inOrder handler (xs.length + 1) 0 st [] h (Nat.lt_succ_self _)
  exact ⟨calls, offers, rest, he.run, he.calls, he.order,
    fun _ _ _ ho hacc => he.order.accepted_le ho hacc, he.result, he.order.sublist,
    he.order.length_eq⟩

/-- Takes two elements at a time, and counts. -/
def takePairs (m : CowMessage Nat) (count : Nat) : Bool × Nat :=
  if m.size = 2 then (true, count + 1) else (false, count)

/-- Three numbers, taken in pairs, leave at most one. -/
theorem extract_pairs : ∃ rest, rest.Sublist [⟨⟨14, 0⟩, 1⟩, ⟨⟨14, 0⟩, 2⟩, ⟨⟨14, 0⟩, 3⟩] ∧
    (((MessageExpr.makeMessage ⟨⟨14, 0⟩, 1⟩ [⟨⟨14, 0⟩, 2⟩, ⟨⟨14, 0⟩, 3⟩]).build.extract
      takePairs 0).1.Stands rest) := by
  obtain ⟨_, _, rest, _, _, _, _, hres, hsub, _⟩ := extract_inOrder takePairs 0
    (MessageExpr.makeMessage ⟨⟨14, 0⟩, 1⟩ [⟨⟨14, 0⟩, 2⟩, ⟨⟨14, 0⟩, 3⟩]).stands
  exact ⟨rest, hsub, hres⟩

end CowMessage

end BoostActor
