import BoostActor.Core.MatchCase

/-!
# The type token as a filter

A case without a wildcard is tried only on messages that have its type token. The
token is computed in other ways for each kind of message data and for a pattern,
and it keeps the last numbers of a long sequence only (`type_nr.hpp`). It is the
same function of the type numbers everywhere, so that a message with another token
has other type numbers than the pattern, and is not matched.

`BehaviorImpl.invoke_eq_answer`: with or without the filter, a behavior answers as
its cases say. `BehaviorImpl.invokesFirst_iff`: that is what the first case that matches
says, unless it skips the message and a behavior behind an `or_else` answers then.
-/

namespace BoostActor

open Lib

-- -------------------------
-- Assigning to an element of a message
-- -------------------------

namespace MessageData

variable {α : Type}

/-- `copy()`. -/
def copy : MessageData α → MessageData α
  | dynamicMsgData elements _ =>
    dynamicMsgData elements (typeTokenOf (elements.map fun e => e.type.nr))
  | d => d

mutual

/-- Assigns to the element at a position. -/
def store : MessageData α → Nat → α → MessageData α
  | tupleVals data, pos, v => tupleVals (data.modify pos fun e => { e with value := v })
  | dynamicMsgData elements token, pos, v =>
    dynamicMsgData (elements.modify pos fun e => { e with value := v }) token
  | decoratedTuple decorated mapping token, pos, v =>
    match mapping[pos]? with
    | none => decoratedTuple decorated mapping token
    | some i => decoratedTuple (decorated.store i v) mapping token
  | concatenatedTuple data token size, pos, v => concatenatedTuple (storeIn data pos v) token size

def storeIn : List (MessageData α) → Nat → α → List (MessageData α)
  | [], _, _ => []
  | m :: data, idx, v =>
    if m.size ≤ idx then m :: storeIn data (idx - m.size) v else m.store idx v :: data

end

-- -------------------------
-- Writing an element
-- -------------------------

/-- The copy of a detached message is equal to it. -/
theorem WellFormed.copy_eq {d : MessageData α} (h : d.WellFormed) : d.copy = d := by
  cases d with
  | dynamicMsgData elements token =>
    have htoken : token = typeTokenOf (elements.map fun e => e.type.nr) := h.2
    exact congrArg (dynamicMsgData elements) htoken.symm
  | tupleVals _ => rfl
  | decoratedTuple _ _ _ => rfl
  | concatenatedTuple _ _ _ => rfl

/-- A store keeps the types of the elements. -/
theorem map_type_modify (xs : List (Element α)) (pos : Nat) (v : α) :
    (xs.modify pos fun e => { e with value := v }).map Element.type = xs.map Element.type := by
  refine List.ext_getElem? fun i => ?_
  rw [List.getElem?_map, List.getElem?_modify, List.getElem?_map]
  split_ifs
  · cases xs[i]? <;> rfl
  · cases xs[i]? <;> rfl

/-- A store keeps the size. -/
theorem size_store (d : MessageData α) (pos : Nat) (v : α) : (d.store pos v).size = d.size := by
  cases d with
  | tupleVals data => simp [store, size]
  | dynamicMsgData elements token => simp [store, size]
  | concatenatedTuple _ _ _ => rfl
  | decoratedTuple decorated mapping token =>
    rw [store]
    split <;> rfl

/-- A store keeps the type token. -/
theorem typeToken_store (d : MessageData α) (pos : Nat) (v : α) :
    (d.store pos v).typeToken = d.typeToken := by
  cases d with
  | tupleVals data =>
    have htypes := congrArg (List.map ElementType.nr) (map_type_modify data pos v)
    rw [List.map_map, List.map_map] at htypes
    exact congrArg typeTokenOf htypes
  | dynamicMsgData elements token => rfl
  | concatenatedTuple _ _ _ => rfl
  | decoratedTuple decorated mapping token =>
    rw [store]
    split <;> rfl

/-- The types of the elements at the positions of a mapping. -/
theorem map_type_mapped (xs : List (Element α)) (mapping : List Nat) :
    (mapping.filterMap fun i => xs[i]?).map Element.type =
      mapping.filterMap fun i => (xs.map Element.type)[i]? := by
  rw [List.map_filterMap]
  refine List.filterMap_congr fun i _ => ?_
  rw [List.getElem?_map]

mutual

/-- The elements keep their types. -/
theorem types_store : ∀ (d : MessageData α) (pos : Nat) (v : α),
    (d.store pos v).elements.map Element.type = d.elements.map Element.type
  | tupleVals data, pos, v => map_type_modify data pos v
  | dynamicMsgData elements _, pos, v => map_type_modify elements pos v
  | decoratedTuple decorated mapping token, pos, v => by
    rw [store]
    cases mapping[pos]? with
    | none => rfl
    | some i =>
      show (mapping.filterMap fun j => (decorated.store i v).elements[j]?).map _ =
        (mapping.filterMap fun j => decorated.elements[j]?).map _
      rw [map_type_mapped, map_type_mapped, types_store decorated i v]
  | concatenatedTuple data _ _, pos, v => types_storeIn data pos v

/-- A store keeps the types of all parts. -/
theorem types_storeIn : ∀ (data : List (MessageData α)) (idx : Nat) (v : α),
    (allElements (storeIn data idx v)).map Element.type = (allElements data).map Element.type
  | [], _, _ => rfl
  | m :: data, idx, v => by
    rw [storeIn]
    split_ifs
    · rw [allElements, allElements, List.map_append, List.map_append,
        types_storeIn data (idx - m.size) v]
    · rw [allElements, allElements, List.map_append, List.map_append, types_store m idx v]

end

theorem length_store (d : MessageData α) (pos : Nat) (v : α) :
    (d.store pos v).elements.length = d.elements.length := by
  have htypes := congrArg List.length (types_store d pos v)
  simpa using htypes

/-- A store keeps size and token right. -/
theorem Counted.store {d : MessageData α} (h : d.Counted) (pos : Nat) (v : α) :
    (d.store pos v).Counted := by
  refine ⟨?_, ?_⟩
  · rw [size_store, length_store]
    exact h.1
  · have htypes := congrArg (List.map ElementType.nr) (types_store d pos v)
    rw [List.map_map, List.map_map] at htypes
    rw [typeToken_store]
    exact h.2.trans (congrArg typeTokenOf htypes.symm)

mutual

/-- A store keeps a message well formed. -/
theorem WellFormed.store : ∀ {d : MessageData α}, d.WellFormed → ∀ (pos : Nat) (v : α),
    (d.store pos v).WellFormed
  | tupleVals _, _, _, _ => trivial
  | dynamicMsgData _ _, h, pos, v => h.counted.store pos v
  | decoratedTuple decorated mapping token, h, pos, v => by
    have hcounted := h.counted.store pos v
    rw [MessageData.store] at hcounted ⊢
    cases hi : mapping[pos]? with
    | none => exact h
    | some i =>
      rw [hi] at hcounted
      refine ⟨hcounted, WellFormed.store h.2.1 i v, fun j hj => ?_⟩
      rw [length_store]
      exact h.2.2 j hj
  | concatenatedTuple data token size, h, pos, v =>
    ⟨h.counted.store pos v, AllWellFormed.storeIn h.2 pos v⟩

/-- So does a store into one of the parts. -/
theorem AllWellFormed.storeIn : ∀ {data : List (MessageData α)}, AllWellFormed data →
    ∀ (idx : Nat) (v : α), AllWellFormed (MessageData.storeIn data idx v)
  | [], _, _, _ => trivial
  | m :: data, h, idx, v => by
    rw [MessageData.storeIn]
    split_ifs
    · exact ⟨h.1, AllWellFormed.storeIn h.2 (idx - m.size) v⟩
    · exact ⟨WellFormed.store h.1 idx v, h.2⟩

end

end MessageData

-- -------------------------
-- Messages as values
-- -------------------------

namespace CowMessage

variable {α : Type}

/-- Match cases on messages that are values; a pointer to an element is its position.
Detaching a message copies its data if it is shared. -/
def access (atomOf : α → UInt64) (shared : MessageData α → Bool) :
    MessageAccess (CowMessage α) Nat α where
  view m := m.view atomOf
  typeToken m := m.typeToken
  at? m pos := (m.elementAt pos).map fun _ => pos
  forceUnshare m := m.vals.map fun d => ⟨some (if shared d then d.copy else d)⟩
  assign m pos v := ⟨m.vals.map fun d => d.store pos v⟩

-- -------------------------
-- Messages with elements
-- -------------------------

/-- The message has elements, and its data is as the constructors leave it. -/
structure Filled (m : CowMessage α) : Prop where
  wellFormed : m.WellFormed
  size_ne : m.size ≠ 0

variable {atomOf : α → UInt64} {shared : MessageData α → Bool} {m : CowMessage α}

theorem Filled.vals (h : m.Filled) : ∃ d, m.vals = some d ∧ d.WellFormed := by
  cases hd : m.vals with
  | none =>
    have hsize : m.size = 0 := by rw [size, hd]; rfl
    exact absurd hsize h.size_ne
  | some d => exact ⟨d, rfl, h.wellFormed d hd⟩

/-- Detaching does not show in the value. -/
theorem Filled.forceUnshare (h : m.Filled) :
    (access atomOf shared).forceUnshare m = some m := by
  obtain ⟨d, hd, hwf⟩ := h.vals
  show (m.vals.map fun d => (⟨some (if shared d then d.copy else d)⟩ : CowMessage α)) = some m
  rw [hd, Option.map_some, hwf.copy_eq, ite_self, ← hd]

/-- A filled message stays filled. -/
theorem Filled.assign (h : m.Filled) (pos : Nat) (v : α) :
    ((access atomOf shared).assign m pos v).Filled := by
  obtain ⟨d, hd, hwf⟩ := h.vals
  have heq : (access atomOf shared).assign m pos v = ⟨some (d.store pos v)⟩ := by
    show (⟨m.vals.map fun d => d.store pos v⟩ : CowMessage α) = _
    rw [hd, Option.map_some]
  rw [heq]
  refine ⟨?_, ?_⟩
  · rintro d' ⟨⟩
    exact hwf.store pos v
  · have hsize := h.size_ne
    rw [size, hd] at hsize
    show (d.store pos v).size ≠ 0
    rwa [MessageData.size_store]

/-- A position an element of a pattern fits has an element. -/
theorem at?_of_fits {e : ElementPattern} {pos : Nat} (h : (m.view atomOf).Fits e pos) :
    (access atomOf shared).at? m pos = some pos := by
  have htype : ∃ t, (m.elementAt pos).map Element.type = some t := by
    cases e with
    | typed t =>
      obtain ⟨t', ht', -⟩ := h
      exact ⟨t', ht'⟩
    | atomConstant v =>
      obtain ⟨⟨t, ht, -⟩, -⟩ := h
      exact ⟨t, ht⟩
  obtain ⟨t, ht⟩ := htype
  obtain ⟨x, hx, -⟩ := Option.map_eq_some_iff.mp ht
  show (m.elementAt pos).map (fun _ => pos) = some pos
  rw [hx, Option.map_some]

end CowMessage

-- -------------------------
-- A matching message has the token
-- -------------------------

/-- An element that fits has the type number. -/
theorem MessageView.Fits.typeNr {msg : MessageView} {e : ElementPattern} {pos : Nat}
    (h : msg.Fits e pos) : ∃ t, msg.typeAt pos = some t ∧ t.nr = e.typeNr := by
  cases e with
  | typed t =>
    obtain ⟨t', ht', hnr, -⟩ := h
    exact ⟨t', ht', hnr⟩
  | atomConstant v =>
    obtain ⟨ht, -⟩ := h
    exact ht

section

variable {α : Type} {atomOf : α → UInt64} {m : CowMessage α}

/-- Without wildcards, the elements from a position on have the type numbers of the
pattern, one for one. -/
theorem typeNrs_of_splits {ps : Pattern} {pos : Nat} {ks : List Nat} (hm : m.WellFormed)
    (hps : ∀ p ∈ ps, p ≠ none) (h : Splits (m.view atomOf).Fits m.size ps pos ks) :
    (m.elements.drop pos).map (fun e => e.type.nr) =
      ps.map fun p => p.elim 0 ElementPattern.typeNr := by
  have hstands := CowMessage.Stands.self hm
  induction h with
  | nil =>
    rw [List.drop_eq_nil_of_le (Nat.le_of_eq hstands.size_eq.symm)]
    rfl
  | @element e ps pos ks hfits hrest ih =>
    obtain ⟨t, ht, hnr⟩ := hfits.typeNr
    have helem : (m.elementAt pos).map Element.type = some t := ht
    obtain ⟨x, hx, rfl⟩ := Option.map_eq_some_iff.mp helem
    rw [hstands.elementAt_eq] at hx
    obtain ⟨hlt, hget⟩ := List.getElem?_eq_some_iff.mp hx
    rw [List.drop_eq_getElem_cons hlt, List.map_cons, List.map_cons, hget, hnr,
      ih fun p hp => hps p (List.mem_cons_of_mem _ hp)]
    rfl
  | wildcard _ _ _ => exact absurd rfl (hps none List.mem_cons_self)

/-- The tokens of a message and of a pattern without wildcards that it matches are equal. -/
theorem typeToken_of_matches {ps : Pattern} (hm : m.WellFormed) (hps : ∀ p ∈ ps, p ≠ none)
    (h : Matches (m.view atomOf).Fits m.size ps 0) : ps.typeToken = m.typeToken := by
  obtain ⟨ks, hsplit⟩ := h
  have htoken := (CowMessage.Stands.self hm).typeToken_eq
  rw [htoken, Pattern.typeToken, ← typeNrs_of_splits hm hps hsplit, List.drop_zero]

end

-- -------------------------
-- Behaviors
-- -------------------------

section

variable {α σ ρ : Type} (atomOf : α → UInt64) (shared : MessageData α → Bool) {m : CowMessage α}
  (s : σ)

/-- `match_case::invoke` returns; a case that does not match changes nothing, and one
that does is tried. -/
structure Attempt (m : CowMessage α) (c : MatchCase (CowMessage α) Nat α σ ρ)
    (r : CallOutcome (CowMessage α) σ (Option (Option ρ))) : Prop where
  invoke : c.invoke (CowMessage.access atomOf shared) m s = some r
  unchanged : r.value = none → r = ⟨m, s, none⟩
  filled : r.msg.Filled
  passes : r.value ≠ none → c.passes m.typeToken = true

/-- A filled message stays filled when a handler is applied to it. -/
theorem CowMessage.Filled.applyFun (hm : m.Filled) (fn : Handler (CowMessage α) Nat α σ ρ)
    (isManipulator : Bool) (args : List (Argument Nat α)) :
    (applyFun (CowMessage.access atomOf shared) fn isManipulator m args s).msg.Filled :=
  applyFun_keeps CowMessage.Filled (fun _ p v h => h.assign p v) fn isManipulator args s hm

/-- The elements of a match have addresses. -/
theorem CowMessage.Filled.exists_pointers (_ : m.Filled) {ps : Pattern}
    (h : (matchPattern (CowMessage.access atomOf shared) ps m).1 = true) :
    ∃ it, elementPointers (CowMessage.access atomOf shared) m ps.arity
      (matchPattern (CowMessage.access atomOf shared) ps m).2 = some it :=
  exists_elementPointers (fun e pos hfits => by rw [CowMessage.at?_of_fits hfits]; rfl) h

/-- A trivial case passes the token test if it matches. -/
theorem TrivialMatchCase.attempt (hm : m.Filled)
    (c : TrivialMatchCase (CowMessage α) Nat α σ ρ) :
    ∃ r, Attempt atomOf shared s m (.trivial c) r := by
  cases h : (matchPattern (CowMessage.access atomOf shared) c.pattern m).1 with
  | false =>
    exact ⟨⟨m, s, none⟩, c.invoke_of_mismatch h, fun _ => rfl, hm, fun hne => absurd rfl hne⟩
  | true =>
    have htoken : c.pattern.typeToken = m.typeToken :=
      typeToken_of_matches hm.wellFormed c.pattern_ne_none (tryMatch_iff.mp h)
    have hpasses : (MatchCase.trivial c).passes m.typeToken = true := by
      rw [MatchCase.passes, Bool.or_eq_true, beq_iff_eq]
      exact .inr htoken
    cases hman : c.isManipulator with
    | false =>
      obtain ⟨it, hit⟩ := hm.exists_pointers atomOf shared h
      exact ⟨_, c.invoke_of_match h hman hit, fun hnone => (by cases hnone),
        hm.applyFun atomOf shared s c.fn false _, fun _ => hpasses⟩
    | true =>
      -- the detached message has an element at every position
      have hat : ∀ pos ∈ List.range m.size,
          ((CowMessage.access atomOf shared).at? m pos).isSome = true := by
        intro pos hpos
        have hstands := CowMessage.Stands.self hm.wellFormed
        have hlt : pos < m.elements.length := hstands.size_eq ▸ List.mem_range.mp hpos
        show ((m.elementAt pos).map fun _ => pos).isSome = true
        rw [hstands.elementAt_eq, List.getElem?_eq_getElem hlt]
        rfl
      obtain ⟨it, hit⟩ := exists_mapM hat
      refine ⟨applyFun (CowMessage.access atomOf shared) c.fn true m (it.map .reference) s, ?_,
        fun hnone => (by cases hnone), hm.applyFun atomOf shared s c.fn true _, fun _ => hpasses⟩
      show c.invoke _ m s = _
      rw [c.invoke_of_manipulator h hman, hm.forceUnshare, Option.bind_some]
      show Option.map _ ((List.range m.size).mapM ((CowMessage.access atomOf shared).at? m)) = _
      rw [hit]
      rfl

/-- So does an advanced one. -/
theorem AdvancedMatchCase.attempt (hm : m.Filled)
    (c : AdvancedMatchCase (CowMessage α) Nat α σ ρ) :
    ∃ r, Attempt atomOf shared s m (.advanced c) r := by
  have hdet : c.detached (CowMessage.access atomOf shared) m = some m := by
    unfold detached
    split_ifs
    · exact hm.forceUnshare
    · rfl
  cases h : (matchPattern (CowMessage.access atomOf shared) c.pattern m).1 with
  | false =>
    exact ⟨⟨m, s, none⟩, c.invoke_of_mismatch hdet h, fun _ => rfl, hm, fun hne => absurd rfl hne⟩
  | true =>
    have hpasses : (MatchCase.advanced c).passes m.typeToken = true := by
      rw [MatchCase.passes, Bool.or_eq_true, beq_iff_eq]
      cases hwild : (MatchCase.advanced c).hasWildcard with
      | true => exact .inl rfl
      | false =>
        -- without wildcards the tokens are equal
        refine .inr (typeToken_of_matches hm.wellFormed (fun p hp hnone => ?_) (tryMatch_iff.mp h))
        have hany := List.any_eq_false.mp hwild p hp
        rw [hnone] at hany
        exact hany rfl
    obtain ⟨it, hit⟩ := hm.exists_pointers atomOf shared h
    have hinvoke := c.invoke_of_match (s := s) hdet h hit
    cases hargs : c.zipArguments m it with
    | error thrown =>
      rw [hargs] at hinvoke
      exact ⟨_, hinvoke, fun hnone => (by cases hnone), hm, fun _ => hpasses⟩
    | ok args? =>
    cases args? with
    | none =>
      rw [hargs] at hinvoke
      exact ⟨_, hinvoke, fun _ => rfl, hm, fun hne => absurd rfl hne⟩
    | some args =>
      rw [hargs] at hinvoke
      exact ⟨_, hinvoke, fun hnone => (by cases hnone),
        hm.applyFun atomOf shared s c.fn c.isManipulator args, fun _ => hpasses⟩

/-- So does every case. -/
theorem MatchCase.attempt (hm : m.Filled) (c : MatchCase (CowMessage α) Nat α σ ρ) :
    ∃ r, Attempt atomOf shared s m c r := by
  cases c with
  | trivial c => exact c.attempt atomOf shared s hm
  | advanced c => exact c.attempt atomOf shared s hm
  | catchAll fn =>
    exact ⟨_, rfl, fun hnone => (by cases hnone), hm.applyFun atomOf shared s fn false [],
      fun _ => rfl⟩

-- -------------------------
-- Trying the cases in order
-- -------------------------

/-- The loop over the cases finds the first that matches, as long as it tries all that do. -/
theorem invokeCases_eq_firstMatch (hm : m.Filled)
    (tried : MatchCase (CowMessage α) Nat α σ ρ → Bool)
    (htried : ∀ c, c.passes m.typeToken = true → tried c = true)
    (cases : List (MatchCase (CowMessage α) Nat α σ ρ)) :
    invokeCases (CowMessage.access atomOf shared) tried cases m s =
        some (firstMatch (CowMessage.access atomOf shared) cases m s) ∧
      (firstMatch (CowMessage.access atomOf shared) cases m s).msg.Filled := by
  induction cases with
  | nil => exact ⟨rfl, hm⟩
  | cons c cases ih =>
    obtain ⟨r, hr⟩ := c.attempt atomOf shared s hm
    rw [invokeCases, hr.invoke, Option.bind_some]
    cases hvalue : r.value with
    | none =>
      -- the case does not match, tried or not
      have hskip : firstMatch (CowMessage.access atomOf shared) (c :: cases) m s =
          firstMatch (CowMessage.access atomOf shared) cases m s := by
        unfold firstMatch
        rw [List.findSome?_cons, MatchCase.answer?, hr.invoke, Option.bind_some, hvalue]
        rfl
      rw [hskip, hr.unchanged hvalue, ite_self]
      exact ih
    | some res =>
      have hfound : firstMatch (CowMessage.access atomOf shared) (c :: cases) m s =
          ⟨r.msg, r.state, res⟩ := by
        unfold firstMatch
        rw [List.findSome?_cons, MatchCase.answer?, hr.invoke, Option.bind_some, hvalue]
        rfl
      rw [hfound, if_pos (htried c (hr.passes (by rw [hvalue]; exact Option.some_ne_none res)))]
      exact ⟨rfl, hr.filled⟩

/-- A behavior invokes its first case that matches, with or without the test. -/
theorem BehaviorImpl.answers (b : BehaviorImpl (CowMessage α) Nat α σ ρ) (hm : m.Filled) :
    b.invoke (CowMessage.access atomOf shared) m s =
        some (b.answer (CowMessage.access atomOf shared) m s) ∧
      b.invokeUnfiltered (CowMessage.access atomOf shared) m s =
        some (b.answer (CowMessage.access atomOf shared) m s) ∧
      (b.answer (CowMessage.access atomOf shared) m s).msg.Filled := by
  induction b generalizing m s with
  | default cases =>
    have hfiltered := invokeCases_eq_firstMatch atomOf shared s hm _ (fun _ h => h) cases
    have hall := invokeCases_eq_firstMatch atomOf shared s hm (fun _ => true) (fun _ _ => rfl) cases
    exact ⟨hfiltered.1, hall.1, hall.2⟩
  | combinator first second ih ih' =>
    obtain ⟨hinvoke, hunfiltered, hfilled⟩ := ih s hm
    rw [invoke, invokeUnfiltered, hinvoke, hunfiltered, answer, Option.bind_some, Option.bind_some]
    cases hvalue : (first.answer (CowMessage.access atomOf shared) m s).value.isSome with
    | true => exact ⟨rfl, rfl, hfilled⟩
    | false => exact ih' _ hfilled

/-- With or without the comparison of type tokens, a behavior answers as the first case
that matches says: a message with another token is matched by none of the cases left
out, whatever its representation and length. -/
theorem BehaviorImpl.invoke_eq_answer (b : BehaviorImpl (CowMessage α) Nat α σ ρ)
    (hm : m.WellFormed) (hne : m.size ≠ 0) :
    b.invoke (CowMessage.access atomOf shared) m s =
        some (b.answer (CowMessage.access atomOf shared) m s) ∧
      b.invokeUnfiltered (CowMessage.access atomOf shared) m s =
        some (b.answer (CowMessage.access atomOf shared) m s) :=
  let ⟨hinvoke, hunfiltered, _⟩ := b.answers atomOf shared s ⟨hm, hne⟩
  ⟨hinvoke, hunfiltered⟩

end

/-! ## Cases that skip the message

`or_else` concatenates two handlers, and a function that returns `skip_message` leaves
the message in the mailbox. The loop over the cases ends at such a function, while
`combinator::invoke` goes on to the second behavior. -/

section

variable {M P α σ ρ : Type} (A : MessageAccess M P α)

/-- The lists of cases that `or_else` put together, in order. -/
def BehaviorImpl.parts : BehaviorImpl M P α σ ρ → List (List (MatchCase M P α σ ρ))
  | default cases => [cases]
  | combinator first second => first.parts ++ second.parts

/-- The first case of some part that matches answers; each part sees the message and
the state that the parts before it leave. -/
def partAnswers : List (List (MatchCase M P α σ ρ)) → M → σ → Bool
  | [], _, _ => false
  | cases :: parts, msg, s =>
    let r := firstMatch A cases msg s
    r.value.isSome || partAnswers parts r.msg r.state

/-- The first case that matches skips the message, and a part behind it answers. -/
def answersAfterSkip : List (List (MatchCase M P α σ ρ)) → M → σ → Bool
  | [], _, _ => false
  | cases :: parts, msg, s =>
    match cases.findSome? (MatchCase.answer? A msg s) with
    | none => answersAfterSkip parts msg s
    | some r => r.value.isNone && partAnswers A parts r.msg r.state

/-- The parts one after the other, up to one that answers. -/
def answerParts : List (List (MatchCase M P α σ ρ)) → M → σ → CallOutcome M σ (Option ρ)
  | [], msg, s => ⟨msg, s, none⟩
  | cases :: parts, msg, s =>
    let r := firstMatch A cases msg s
    if r.value.isSome then r else answerParts parts r.msg r.state

/-- What `behavior_impl::invoke` is for: the type tokens make no difference, and the
first case that matches answers, in whichever part it is. -/
structure BehaviorImpl.InvokesFirst (b : BehaviorImpl M P α σ ρ) (msg : M) (s : σ) : Prop where
  unfiltered : b.invoke A msg s = b.invokeUnfiltered A msg s
  first : (b.invoke A msg s).map CallOutcome.value = some (firstMatch A b.cases msg s).value

variable {A} {msg : M} {s : σ}

/-- The parts of a behavior in order. -/
theorem BehaviorImpl.cases_eq_flatten (b : BehaviorImpl M P α σ ρ) :
    b.cases = b.parts.flatten := by
  induction b with
  | default cases => exact List.flatten_singleton.symm
  | combinator first second ih ih' =>
    rw [BehaviorImpl.cases, parts, List.flatten_append, ih, ih']

/-- The answers of two lists of parts. -/
theorem answerParts_append (parts parts' : List (List (MatchCase M P α σ ρ))) (msg : M) (s : σ) :
    answerParts A (parts ++ parts') msg s =
      let r := answerParts A parts msg s
      if r.value.isSome then r else answerParts A parts' r.msg r.state := by
  induction parts generalizing msg s with
  | nil => rfl
  | cons cases parts ih =>
    rw [List.cons_append, answerParts, answerParts]
    cases h : (firstMatch A cases msg s).value.isSome with
    | true => simp only [if_true, h]
    | false => simpa only [Bool.false_eq_true, if_false] using ih _ _

/-- The answer of a behavior is that of its parts. -/
theorem BehaviorImpl.answer_eq_parts (b : BehaviorImpl M P α σ ρ) (msg : M) (s : σ) :
    b.answer A msg s = answerParts A b.parts msg s := by
  induction b generalizing msg s with
  | default cases =>
    rw [answer, parts, answerParts, answerParts]
    split_ifs with h
    · rfl
    · -- the outcome is the same, spelled out
      rw [Option.not_isSome_iff_eq_none] at h
      rw [← h]
  | combinator first second ih ih' =>
    rw [answer, parts, answerParts_append, ih msg s]
    simp only [ih']

/-- No part matches that has no case that does. -/
theorem firstMatch_of_none {cases : List (MatchCase M P α σ ρ)}
    (h : cases.findSome? (MatchCase.answer? A msg s) = none) :
    firstMatch A cases msg s = ⟨msg, s, none⟩ := by
  rw [firstMatch, h, Option.getD_none]

theorem firstMatch_of_some {cases : List (MatchCase M P α σ ρ)} {r : CallOutcome M σ (Option ρ)}
    (h : cases.findSome? (MatchCase.answer? A msg s) = some r) : firstMatch A cases msg s = r := by
  rw [firstMatch, h, Option.getD_some]

/-- Some part answers. -/
theorem isSome_answerParts (parts : List (List (MatchCase M P α σ ρ))) (msg : M) (s : σ) :
    (answerParts A parts msg s).value.isSome = partAnswers A parts msg s := by
  induction parts generalizing msg s with
  | nil => rfl
  | cons cases parts ih =>
    rw [answerParts, partAnswers]
    cases h : (firstMatch A cases msg s).value.isSome with
    | true => simp only [if_true, h, Bool.true_or]
    | false => simpa only [Bool.false_eq_true, if_false, Bool.false_or] using ih _ _

/-- The parts answer as the first case of all of them that matches, unless it skips the
message and a part behind it answers. -/
theorem answerParts_value_iff (parts : List (List (MatchCase M P α σ ρ))) (msg : M) (s : σ) :
    (answerParts A parts msg s).value = (firstMatch A parts.flatten msg s).value ↔
      answersAfterSkip A parts msg s = false := by
  induction parts generalizing msg s with
  | nil => exact ⟨fun _ => rfl, fun _ => rfl⟩
  | cons cases parts ih =>
    rw [answerParts, answersAfterSkip, List.flatten_cons]
    cases h : cases.findSome? (MatchCase.answer? A msg s) with
    | none =>
      -- no case of this part matches
      have hrest : firstMatch A (cases ++ parts.flatten) msg s =
          firstMatch A parts.flatten msg s := by
        rw [firstMatch, List.findSome?_append, h, Option.none_or, firstMatch]
      rw [firstMatch_of_none h, hrest]
      exact ih msg s
    | some r =>
      have hfirst : firstMatch A (cases ++ parts.flatten) msg s = r := by
        rw [firstMatch, List.findSome?_append, h, Option.some_or, Option.getD_some]
      rw [firstMatch_of_some h, hfirst]
      cases hvalue : r.value with
      | some res => simp [hvalue]
      | none =>
        -- the case skips, so that the parts behind it must not answer
        show _ ↔ (r.value.isNone && partAnswers A parts r.msg r.state) = false
        rw [← isSome_answerParts, hvalue]
        simp [Option.isSome_eq_false_iff]

end

section

variable {α σ ρ : Type} (atomOf : α → UInt64) (shared : MessageData α → Bool) {m : CowMessage α}
  (s : σ)

/-- A behavior gives the result of the first case that matches unless that case skips
the message and a behavior behind an `or_else` answers then. -/
theorem BehaviorImpl.invokesFirst_iff (b : BehaviorImpl (CowMessage α) Nat α σ ρ)
    (hm : m.WellFormed) (hne : m.size ≠ 0) :
    b.InvokesFirst (CowMessage.access atomOf shared) m s ↔
      answersAfterSkip (CowMessage.access atomOf shared) b.parts m s = false := by
  obtain ⟨hinvoke, hunfiltered⟩ := b.invoke_eq_answer atomOf shared s hm hne
  rw [← answerParts_value_iff, ← b.answer_eq_parts, ← b.cases_eq_flatten]
  constructor
  · intro h
    have hfirst := h.first
    rw [hinvoke, Option.map_some] at hfirst
    exact Option.some.inj hfirst
  · intro h
    refine ⟨hinvoke.trans hunfiltered.symm, ?_⟩
    rw [hinvoke, Option.map_some, h]

end

/-- A case for one `int32_t` that answers as given. -/
def onInt (result : Option Nat) : MatchCase (CowMessage Nat) Nat Nat Unit Nat :=
  .trivial ⟨[(.typed ⟨14, 0⟩, false)], fun _ _ s => ⟨result, s, []⟩⟩

/-- A message of one `int32_t` from a `message_builder`, on a behavior with a case for
something else in front of the `or_else`. -/
theorem BehaviorImpl.invokesFirst_int :
    let m := (MessageExpr.builder [⟨⟨14, 0⟩, 7⟩]).build
    let A := CowMessage.access UInt64.ofNat fun _ => true
    let b : BehaviorImpl (CowMessage Nat) Nat Nat Unit Nat :=
      (BehaviorImpl.default
        [.trivial ⟨[(.atomConstant 1, true)], fun _ _ s => ⟨none, s, []⟩⟩]).orElse
          (.default [onInt (some 1)])
    answersAfterSkip A b.parts m () = false ∧ b.InvokesFirst A m () :=
  ⟨by decide, (BehaviorImpl.invokesFirst_iff _ _ _ _ (MessageExpr.stands _).1 (by decide)).mpr
    (by decide)⟩

/-- Behind `or_else` the first case that matches need not be the one that answers: it
may skip the message. -/
theorem BehaviorImpl.orElse_skips :
    let m := CowMessage.makeMessage [⟨⟨14, 0⟩, 7⟩]
    let A := CowMessage.access UInt64.ofNat fun _ => false
    let b := (BehaviorImpl.default [onInt none]).orElse (.default [onInt (some 1)])
    (b.invoke A m ()).map CallOutcome.value = some (some 1) ∧
      (firstMatch A b.cases m ()).value = none := by
  decide

end BoostActor
