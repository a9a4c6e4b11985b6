import BoostActor.Core.MatchCase
import BoostActor.Core.MessageBuilding

/-!
# Trying match cases on shared messages

A case that takes mutable references detaches the message it is called with: a
`trivial_match_case` once the message matches, an `advanced_match_case` before it is
matched. The data of the empty message is null, and detaching it is a call through
a null pointer.

Main results, about `MessageHeap`:

* `attempt_unobservable` — a case that does not match leaves the value of every
  message as it was;
* `attempts_safe_iff` — trying a behavior on a message is safe unless the
  message is empty and a case is reached that detaches it first.
-/

namespace BoostActor

open Lib

-- -------------------------
-- Messages in a heap
-- -------------------------

/-- The type token an object keeps or computes. -/
def DataObject.typeToken {α : Type} : DataObject α → UInt32
  | tupleVals data => typeTokenOf (data.map fun e => e.type.nr)
  | dynamicMsgData _ token => token
  | decoratedTuple _ _ token => token
  | concatenatedTuple _ token _ => token

namespace MessageHeap

variable {α : Type}

/-- `message::at` of the message `x`. -/
def at? (h : MessageHeap α) (x pos : Nat) : Option Place :=
  (h.vars[x]?.join).bind fun a => h.locate (h.objects.length + 1) a pos

/-- The element at a position of the message `x`. -/
def elementAt (h : MessageHeap α) (x pos : Nat) : Option (Element (Cell α)) :=
  (h.at? x pos).bind h.cell?

/-- `message::type_token` of the message `x`. -/
def typeToken (h : MessageHeap α) (x : Nat) : UInt32 :=
  (h.vars[x]?.join).elim makeTypeToken fun a =>
    (h.object? a).elim makeTypeToken DataObject.typeToken

/-- Match cases on the message `x`; `atomOf` reads an element as an `atom_value`. -/
def access (atomOf : Cell α → UInt64) (x : Nat) : MessageAccess (MessageHeap α) Place α where
  view h :=
    { size := h.varSize x
      typeAt := fun pos => (h.elementAt x pos).map Element.type
      atomAt := fun pos => (h.elementAt x pos).map fun e => atomOf e.value }
  typeToken h := h.typeToken x
  at? h pos := h.at? x pos
  forceUnshare h := (h.vars[x]?.join).map fun a => (h.unshareVar x a).1
  assign h place v := h.store place (.plain v)

/-- All messages have the values they had. -/
def SameMessages (h h' : MessageHeap α) : Prop :=
  ∀ y ts, h'.MessageValue y ts ↔ h.MessageValue y ts

/-- The heap is well formed, and the message `x` has data. -/
structure HasData (x : Nat) (h : MessageHeap α) : Prop where
  wellFormed : h.WellFormed
  vals : ∃ a, h.vars[x]? = some (some a)

variable {h : MessageHeap α} {x : Nat} {a a₁ : DataAddr} {atomOf : Cell α → UInt64}

/-- All messages read as before if the values are the same. -/
theorem SameValues.sameMessages {h₁ : MessageHeap α} (hs : SameValues h h₁ x a a₁) :
    h.SameMessages h₁ := by
  intro y ts
  by_cases hy : y = x
  · subst hy
    have hholds : ∀ b, some (some a) = some (some b) ↔ b = a := fun b => by
      rw [Option.some.injEq, Option.some.injEq, eq_comm]
    have hholds₁ : ∀ b, some (some a₁) = some (some b) ↔ b = a₁ := fun b => by
      rw [Option.some.injEq, Option.some.injEq, eq_comm]
    unfold MessageValue
    rw [hs.holder₁, hs.holder]
    simp only [hholds, hholds₁, exists_eq_left, hs.dataSize, hs.data]
    simp
  · exact hs.messageValue_iff hy ts

variable (atomOf) in
/-- Detaching a message with data does not show. -/
theorem forceUnshare_spec (hwf : h.WellFormed) (hx : h.vars[x]? = some (some a)) :
    ∃ h', (access atomOf x).forceUnshare h = some h' ∧ h'.HasData x ∧ h.SameMessages h' := by
  obtain ⟨orig, h', a', hun, hdet, hvars, -⟩ := unshareVar_spec hwf hx
  have hs := hdet.sameValues hwf hx hvars
  refine ⟨h', ?_, ⟨hdet.wellFormed, a', hs.holder₁⟩, hs.sameMessages⟩
  show (h.vars[x]?.join).map (fun a => (h.unshareVar x a).1) = some h'
  rw [hx, Option.join_some, Option.map_some, hun]

/-- There is nothing to detach in the empty message. -/
theorem forceUnshare_null (hx : h.vars[x]? = some none) :
    (access atomOf x).forceUnshare h = none := by
  show (h.vars[x]?.join).map (fun a => (h.unshareVar x a).1) = none
  rw [hx]
  rfl

/-- Storing where there is no element changes nothing. -/
theorem store_of_no_cell {c : Place} (hc : h.cell? c = none) (v : Cell α) : h.store c v = h := by
  unfold store
  cases ho : h.object? c.1 with
  | none => rfl
  | some o =>
    rw [cell?, ho, Option.bind_some] at hc
    have hstore : ∀ xs : List (Element (Cell α)), xs[c.2]? = none →
        xs.modify c.2 (fun e => { e with value := v }) = xs := fun xs hxs =>
      List.modify_eq_self (List.getElem?_eq_none_iff.mp hxs)
    have hsame : o.store c.2 v = o := by
      cases o with
      | tupleVals data => exact congrArg DataObject.tupleVals (hstore data hc)
      | dynamicMsgData elements token =>
        exact congrArg (DataObject.dynamicMsgData · token) (hstore elements hc)
      | decoratedTuple _ _ _ => rfl
      | concatenatedTuple _ _ _ => rfl
    show h.setObject c.1 (o.store c.2 v) = h
    rw [hsame, setObject_self ho]

/-- Assigning plain values keeps the heap well formed and the message where it is. -/
theorem HasData.assign (hh : h.HasData x) (c : Place) (v : α) :
    ((access atomOf x).assign h c v).HasData x := by
  obtain ⟨hwf, a, hx⟩ := hh
  refine ⟨?_, a, ?_⟩
  · cases hc : h.cell? c with
    | none =>
      show (h.store c (.plain v)).WellFormed
      rwa [store_of_no_cell hc]
    | some e => exact hwf.store (by rw [hc]; rfl) rfl
  · show (h.store c (.plain v)).vars[x]? = _
    rw [vars_store, hx]

/-- A position an element of a pattern fits has an element. -/
theorem at?_of_fits {e : ElementPattern} {pos : Nat}
    (hfits : ((access atomOf x).view h).Fits e pos) : ((access atomOf x).at? h pos).isSome := by
  have htype : ∃ t, (h.elementAt x pos).map Element.type = some t := by
    cases e with
    | typed t =>
      obtain ⟨t', ht', -⟩ := hfits
      exact ⟨t', ht'⟩
    | atomConstant v =>
      obtain ⟨⟨t, ht, -⟩, -⟩ := hfits
      exact ⟨t, ht⟩
  obtain ⟨t, ht⟩ := htype
  obtain ⟨el, hel, -⟩ := Option.map_eq_some_iff.mp ht
  obtain ⟨c, hc, -⟩ := Option.bind_eq_some_iff.mp hel
  show (h.at? x pos).isSome = true
  rw [hc]
  rfl

/-- A message with data has an element at each of its positions. -/
theorem HasData.at?_isSome (hh : h.HasData x) :
    ∀ pos ∈ List.range ((access atomOf x).view h).size, ((access atomOf x).at? h pos).isSome := by
  intro pos hpos
  obtain ⟨hwf, a, hx⟩ := hh
  obtain ⟨rank, hrank, hbound⟩ := hwf.exists_rank
  have hsize : h.varSize x = h.sizeOf a := by rw [varSize, hx]; rfl
  have hvalid : h.Valid (a, pos) := by
    have hlt : pos < h.varSize x := List.mem_range.mp hpos
    rwa [hsize] at hlt
  obtain ⟨c, hc, -⟩ := locate_spec hwf hrank (h.objects.length + 1) hvalid
    (Nat.lt_succ_of_le (hbound a))
  show (h.at? x pos).isSome = true
  rw [at?, hx, Option.join_some, Option.bind_some, hc]
  rfl

-- -------------------------
-- Messages with data
-- -------------------------

section

variable {σ ρ : Type} {s : σ}

/-- `match_case::invoke` returns, and a case that does not match leaves every message
and the state of the program as they were. -/
structure Attempt (atomOf : Cell α → UInt64) (x : Nat) (h : MessageHeap α) (s : σ)
    (c : MatchCase (MessageHeap α) Place α σ ρ)
    (r : CallOutcome (MessageHeap α) σ (Option (Option ρ))) : Prop where
  invoke : c.invoke (access atomOf x) h s = some r
  hasData : r.msg.HasData x
  unchanged : r.value = none → r.state = s ∧ h.SameMessages r.msg

theorem SameMessages.refl (h : MessageHeap α) : h.SameMessages h := fun _ _ => Iff.rfl

theorem HasData.applyFun (hh : h.HasData x) (fn : Handler (MessageHeap α) Place α σ ρ)
    (isManipulator : Bool) (args : List (Argument Place α)) :
    (applyFun (access atomOf x) fn isManipulator h args s).msg.HasData x :=
  applyFun_keeps (HasData x) (fun _ p v hh => hh.assign p v) fn isManipulator args s hh

/-- An attempt at a trivial case has an outcome. -/
theorem HasData.attempt_trivial (hh : h.HasData x)
    (c : TrivialMatchCase (MessageHeap α) Place α σ ρ) :
    ∃ r, Attempt atomOf x h s (.trivial c) r := by
  cases hmatch : (matchPattern (access atomOf x) c.pattern h).1 with
  | false =>
    exact ⟨⟨h, s, none⟩, c.invoke_of_mismatch hmatch, hh, fun _ => ⟨rfl, .refl h⟩⟩
  | true =>
    cases hman : c.isManipulator with
    | false =>
      obtain ⟨it, hit⟩ := exists_elementPointers (fun _ _ => at?_of_fits) hmatch
      exact ⟨_, c.invoke_of_match hmatch hman hit, hh.applyFun c.fn false _,
        fun hnone => (by cases hnone)⟩
    | true =>
      -- a copy of the message is taken apart
      obtain ⟨a, hx⟩ := hh.vals
      obtain ⟨h', hun, hh', -⟩ := forceUnshare_spec atomOf hh.wellFormed hx
      obtain ⟨it, hit⟩ := exists_mapM hh'.at?_isSome
      refine ⟨BoostActor.applyFun (access atomOf x) c.fn true h' (it.map .reference) s, ?_,
        hh'.applyFun c.fn true _, fun hnone => (by cases hnone)⟩
      show c.invoke _ h s = _
      rw [c.invoke_of_manipulator hmatch hman, hun, Option.bind_some, hit]
      rfl

/-- An attempt at an advanced case has one. -/
theorem HasData.attempt_advanced (hh : h.HasData x)
    (c : AdvancedMatchCase (MessageHeap α) Place α σ ρ) :
    ∃ r, Attempt atomOf x h s (.advanced c) r := by
  -- detached or not, the message has data and the value it had
  have hdet : ∃ h', c.detached (access atomOf x) h = some h' ∧ h'.HasData x ∧
      h.SameMessages h' := by
    unfold AdvancedMatchCase.detached
    split_ifs
    · obtain ⟨a, hx⟩ := hh.vals
      exact forceUnshare_spec atomOf hh.wellFormed hx
    · exact ⟨h, rfl, hh, .refl h⟩
  obtain ⟨h', hdet, hh', hsame⟩ := hdet
  cases hmatch : (matchPattern (access atomOf x) c.pattern h').1 with
  | false =>
    exact ⟨⟨h', s, none⟩, c.invoke_of_mismatch hdet hmatch, hh', fun _ => ⟨rfl, hsame⟩⟩
  | true =>
    -- a message that matches has a pointer for every argument
    obtain ⟨it, hit⟩ := exists_elementPointers (fun _ _ => at?_of_fits) hmatch
    have hinvoke := c.invoke_of_match (s := s) hdet hmatch hit
    cases hargs : c.zipArguments h' it with
    | error thrown =>
      rw [hargs] at hinvoke
      exact ⟨_, hinvoke, hh', fun hnone => (by cases hnone)⟩
    | ok args? =>
    cases args? with
    | none =>
      rw [hargs] at hinvoke
      exact ⟨_, hinvoke, hh', fun _ => ⟨rfl, hsame⟩⟩
    | some args =>
      rw [hargs] at hinvoke
      exact ⟨_, hinvoke, hh'.applyFun c.fn c.isManipulator args, fun hnone => (by cases hnone)⟩

variable (atomOf s) in
theorem HasData.attempt (hh : h.HasData x) (c : MatchCase (MessageHeap α) Place α σ ρ) :
    ∃ r, Attempt atomOf x h s c r := by
  cases c with
  | trivial c => exact hh.attempt_trivial c
  | advanced c => exact hh.attempt_advanced c
  | catchAll fn => exact ⟨_, rfl, hh.applyFun fn false [], fun hnone => (by cases hnone)⟩

/-- A behavior returns on a message with data. -/
theorem HasData.invokeCases (hh : h.HasData x)
    (tried : MatchCase (MessageHeap α) Place α σ ρ → Bool)
    (cases : List (MatchCase (MessageHeap α) Place α σ ρ)) :
    ∃ r, invokeCases (access atomOf x) tried cases h s = some r ∧ r.msg.HasData x := by
  induction cases generalizing h s with
  | nil => exact ⟨⟨h, s, none⟩, rfl, hh⟩
  | cons c cases ih =>
    rw [BoostActor.invokeCases]
    split_ifs
    · obtain ⟨r, hr⟩ := hh.attempt atomOf s c
      rw [hr.invoke, Option.bind_some]
      cases r.value with
      | none => exact ih hr.hasData
      | some res => exact ⟨_, rfl, hr.hasData⟩
    · exact ih hh

variable (atomOf s) in
/-- A behavior that is tried on a message with data answers or not. -/
theorem HasData.invoke (hh : h.HasData x) (b : BehaviorImpl (MessageHeap α) Place α σ ρ) :
    ∃ r, b.invoke (access atomOf x) h s = some r ∧ r.msg.HasData x := by
  induction b generalizing h s with
  | default cases => exact hh.invokeCases _ cases
  | combinator first second ih ih' =>
    obtain ⟨r, hr, hh'⟩ := ih s hh
    rw [BehaviorImpl.invoke, hr, Option.bind_some]
    split_ifs
    · exact ⟨r, rfl, hh'⟩
    · exact ih' _ hh'

end

end MessageHeap

-- -------------------------
-- The empty message
-- -------------------------

section

variable {M P α σ ρ : Type}

namespace MatchCase

/-- The message is detached before it is matched. -/
def detachesFirst : MatchCase M P α σ ρ → Bool
  | advanced c => c.isManipulator
  | _ => false

/-- What a case does with the empty message, if it takes it: its pattern has nothing but
wildcards, and its function has no arguments. -/
def emptyReply (msg : M) (s : σ) : MatchCase M P α σ ρ → Option (HandlerReply P α σ ρ)
  | trivial c => if c.args = [] then some (c.fn msg [] s) else none
  | catchAll fn => some (fn msg [] s)
  | advanced c => if c.pattern.all Option.isNone then some (c.fn msg [] s) else none

end MatchCase

/-- Among the cases tried on the empty message, one that detaches it comes before any that
takes it. -/
def reachesDetach (msg : M) (s : σ) : List (MatchCase M P α σ ρ) → Bool
  | [] => false
  | c :: cases =>
    if c.passes makeTypeToken then
      c.detachesFirst || ((c.emptyReply msg s).isNone && reachesDetach msg s cases)
    else reachesDetach msg s cases

/-- The answer of the first case that is tried on the empty message and takes it, and the
state after it. -/
def emptyAnswer (msg : M) (s : σ) (cases : List (MatchCase M P α σ ρ)) : Option ρ × σ :=
  match cases.findSome? fun c => if c.passes makeTypeToken then c.emptyReply msg s else none with
  | some reply => (reply.result, reply.state)
  | none => (none, s)

namespace BehaviorImpl

def emptyAnswer (msg : M) : BehaviorImpl M P α σ ρ → σ → Option ρ × σ
  | default cases, s => BoostActor.emptyAnswer msg s cases
  | combinator first second, s =>
    let r := first.emptyAnswer msg s
    if r.1.isSome then r else second.emptyAnswer msg r.2

/-- A case is reached that detaches the empty message. -/
def detachesEmpty (msg : M) : BehaviorImpl M P α σ ρ → σ → Bool
  | default cases, s => reachesDetach msg s cases
  | combinator first second, s =>
    first.detachesEmpty msg s ||
      ((first.emptyAnswer msg s).1.isNone && second.detachesEmpty msg (first.emptyAnswer msg s).2)

end BehaviorImpl

end

namespace MessageHeap

section

variable {α σ ρ : Type} {h : MessageHeap α} {x : Nat} {atomOf : Cell α → UInt64} {s : σ}

theorem size_of_null (hx : h.vars[x]? = some none) : ((access atomOf x).view h).size = 0 := by
  show (h.vars[x]?.join).elim 0 h.sizeOf = 0
  rw [hx]
  rfl

theorem typeToken_of_null (hx : h.vars[x]? = some none) : h.typeToken x = makeTypeToken := by
  unfold typeToken
  rw [hx]
  rfl

/-- Only wildcards match the empty message. -/
theorem matchPattern_of_null (hx : h.vars[x]? = some none) (ps : Pattern) :
    (matchPattern (access atomOf x) ps h).1 = ps.all Option.isNone := by
  show (tryMatchFrom _ (metaElements ps) 0 _).1 = _
  rw [tryMatchFrom_stop (by rw [size_of_null hx]; exact Nat.lt_irrefl 0)]

/-- A pattern of wildcards gets no pointers. -/
theorem elementPointers_of_null {n : Nat} (hn : n = 0) (it : SetCommitRollback) :
    elementPointers (access atomOf x) h n it = some [] := by
  subst hn
  rfl

/-- A function without arguments takes the empty message. -/
theorem invoke_trivial_of_null (hx : h.vars[x]? = some none)
    (c : TrivialMatchCase (MessageHeap α) Place α σ ρ) (hargs : c.args = []) :
    c.invoke (access atomOf x) h s = some ⟨h, (c.fn h [] s).state, some (c.fn h [] s).result⟩ := by
  have hpattern : c.pattern = [] := by rw [TrivialMatchCase.pattern, hargs]; rfl
  have hman : c.isManipulator = false := by rw [TrivialMatchCase.isManipulator, hargs]; rfl
  have hmatch : (matchPattern (access atomOf x) c.pattern h).1 = true := by
    rw [matchPattern_of_null hx, hpattern]
    rfl
  have harity : c.pattern.arity = 0 := by rw [hpattern]; rfl
  rw [c.invoke_of_match hmatch hman (elementPointers_of_null harity _)]
  rfl

/-- One with arguments does not. -/
theorem invoke_trivial_of_args (hx : h.vars[x]? = some none)
    (c : TrivialMatchCase (MessageHeap α) Place α σ ρ) (hargs : c.args ≠ []) :
    c.invoke (access atomOf x) h s = some ⟨h, s, none⟩ := by
  have hmatch : (matchPattern (access atomOf x) c.pattern h).1 = false := by
    rw [matchPattern_of_null hx]
    obtain ⟨arg, args, heq⟩ := List.exists_cons_of_ne_nil hargs
    rw [TrivialMatchCase.pattern, heq]
    rfl
  rw [c.invoke_of_mismatch hmatch]

/-- A case of wildcards that does not detach the empty message takes it. -/
theorem invoke_advanced_of_null (hx : h.vars[x]? = some none)
    (c : AdvancedMatchCase (MessageHeap α) Place α σ ρ) (hman : c.isManipulator = false)
    (hall : c.pattern.all Option.isNone = true) :
    c.invoke (access atomOf x) h s = some ⟨h, (c.fn h [] s).state, some (c.fn h [] s).result⟩ := by
  have hdet : c.detached (access atomOf x) h = some h := by
    rw [AdvancedMatchCase.detached, hman, if_neg Bool.false_ne_true]
  have hmatch : (matchPattern (access atomOf x) c.pattern h).1 = true := by
    rw [matchPattern_of_null hx, hall]
  have harity : c.pattern.arity = 0 := by
    unfold Pattern.arity
    rw [List.length_eq_zero_iff, List.filterMap_eq_nil_iff]
    exact all_isNone_iff.mp hall
  have hps : c.ps = [] := List.length_eq_zero_iff.mp (c.ps_length.trans harity)
  have hzip : c.zipArguments h [] = .ok (some []) := by
    simp [AdvancedMatchCase.zipArguments, hps]
    rfl
  rw [c.invoke_of_match hdet hmatch (elementPointers_of_null harity _), hzip, hman]
  rfl

/-- One with another element does not. -/
theorem invoke_advanced_of_element (hx : h.vars[x]? = some none)
    (c : AdvancedMatchCase (MessageHeap α) Place α σ ρ) (hman : c.isManipulator = false)
    (hall : c.pattern.all Option.isNone = false) :
    c.invoke (access atomOf x) h s = some ⟨h, s, none⟩ := by
  have hdet : c.detached (access atomOf x) h = some h := by
    rw [AdvancedMatchCase.detached, hman, if_neg Bool.false_ne_true]
  have hmatch : (matchPattern (access atomOf x) c.pattern h).1 = false := by
    rw [matchPattern_of_null hx, hall]
  rw [c.invoke_of_mismatch hdet hmatch]

/-- A case that detaches the empty message calls through a null pointer. -/
theorem invoke_advanced_of_manipulator (hx : h.vars[x]? = some none)
    (c : AdvancedMatchCase (MessageHeap α) Place α σ ρ) (hman : c.isManipulator = true) :
    c.invoke (access atomOf x) h s = none := by
  have hdet : c.detached (access atomOf x) h = none := by
    rw [AdvancedMatchCase.detached, hman, if_pos rfl]
    exact forceUnshare_null hx
  rw [c.invoke_of_null hdet]

/-- A case on the empty message: it calls through a null pointer if it detaches first, else
it does what its function does, or nothing. -/
theorem invoke_of_null (hx : h.vars[x]? = some none) (c : MatchCase (MessageHeap α) Place α σ ρ) :
    c.invoke (access atomOf x) h s = if c.detachesFirst then none else
      some (match c.emptyReply h s with
        | none => ⟨h, s, none⟩
        | some reply => ⟨h, reply.state, some reply.result⟩) := by
  cases c with
  | catchAll fn => rfl
  | trivial c =>
    show c.invoke _ h s = some (match if c.args = [] then some (c.fn h [] s) else none with
      | none => ⟨h, s, none⟩
      | some reply => ⟨h, reply.state, some reply.result⟩)
    -- a case without arguments matches the empty message
    by_cases hargs : c.args = []
    · rw [invoke_trivial_of_null hx c hargs, if_pos hargs]
    · rw [invoke_trivial_of_args hx c hargs, if_neg hargs]
  | advanced c =>
    show c.invoke _ h s = if c.isManipulator = true then none else
      some (match if c.pattern.all Option.isNone = true then some (c.fn h [] s) else none with
        | none => ⟨h, s, none⟩
        | some reply => ⟨h, reply.state, some reply.result⟩)
    -- a case that detaches the message dereferences null
    cases hman : c.isManipulator with
    | true => rw [invoke_advanced_of_manipulator hx c hman, if_pos rfl]
    | false =>
      rw [if_neg Bool.false_ne_true]
      cases hall : c.pattern.all Option.isNone with
      | true => rw [invoke_advanced_of_null hx c hman hall, if_pos rfl]
      | false => rw [invoke_advanced_of_element hx c hman hall, if_neg Bool.false_ne_true]

/-- The loop over the cases on the empty message. -/
theorem invokeCases_of_null (hx : h.vars[x]? = some none)
    (cases : List (MatchCase (MessageHeap α) Place α σ ρ)) :
    invokeCases (access atomOf x) (MatchCase.passes makeTypeToken) cases h s =
      if reachesDetach h s cases then none
      else some ⟨h, (emptyAnswer h s cases).2, (emptyAnswer h s cases).1⟩ := by
  induction cases with
  | nil => rfl
  | cons c cases ih =>
    cases hpasses : c.passes makeTypeToken with
    -- a case whose type token differs is not tried
    | false =>
      have hanswer : emptyAnswer h s (c :: cases) = emptyAnswer h s cases := by
        unfold emptyAnswer
        rw [List.findSome?_cons, hpasses]
        rfl
      rw [invokeCases, reachesDetach, hpasses, hanswer]
      exact ih
    | true =>
      rw [invokeCases, reachesDetach, hpasses, if_pos rfl, if_pos rfl, invoke_of_null hx c]
      cases hdetach : c.detachesFirst with
      | true => rfl
      | false =>
        rw [if_neg Bool.false_ne_true, Option.bind_some, Bool.false_or]
        -- a case that does not match leaves the rest
        cases hreply : c.emptyReply h s with
        | none =>
          have hanswer : emptyAnswer h s (c :: cases) = emptyAnswer h s cases := by
            unfold emptyAnswer
            rw [List.findSome?_cons, hpasses, hreply]
            rfl
          rw [hanswer]
          exact ih
        | some reply =>
          have hanswer : emptyAnswer h s (c :: cases) = (reply.result, reply.state) := by
            unfold emptyAnswer
            rw [List.findSome?_cons, hpasses, hreply]
            rfl
          rw [hanswer]
          rfl

variable (atomOf s) in
/-- A behavior on the empty message. -/
theorem invoke_behavior_of_null (hx : h.vars[x]? = some none)
    (b : BehaviorImpl (MessageHeap α) Place α σ ρ) :
    b.invoke (access atomOf x) h s =
      if b.detachesEmpty h s then none
      else some ⟨h, (b.emptyAnswer h s).2, (b.emptyAnswer h s).1⟩ := by
  induction b generalizing s with
  | default cases =>
    show invokeCases (access atomOf x) (MatchCase.passes (h.typeToken x)) cases h s = _
    rw [typeToken_of_null hx]
    exact invokeCases_of_null hx cases
  | combinator first second ih ih' =>
    rw [BehaviorImpl.invoke, ih, BehaviorImpl.detachesEmpty, BehaviorImpl.emptyAnswer]
    cases first.detachesEmpty h s with
    | true => rfl
    | false =>
      rw [if_neg Bool.false_ne_true, Option.bind_some, Bool.false_or]
      cases hanswer : (first.emptyAnswer h s).1 with
      | some res =>
        show some (⟨h, (first.emptyAnswer h s).2, some res⟩ : CallOutcome _ _ _) =
          some ⟨h, (first.emptyAnswer h s).2, (first.emptyAnswer h s).1⟩
        rw [hanswer]
      | none => exact ih' _

-- -------------------------
-- Trying a behavior
-- -------------------------

/-- No case is tried through a null pointer, and those that do not match leave the value
of every message alone. -/
structure SafeAttempts (atomOf : Cell α → UInt64) (x : Nat) (h : MessageHeap α) (s : σ)
    (b : BehaviorImpl (MessageHeap α) Place α σ ρ) : Prop where
  noNull : b.invoke (access atomOf x) h s ≠ none
  unobservable : ∀ c ∈ b.cases, ∀ (h₁ : MessageHeap α) (s₁ : σ) r, h₁.WellFormed →
    (h₁.vars[x]?).isSome → c.invoke (access atomOf x) h₁ s₁ = some r → r.value = none →
    r.state = s₁ ∧ h₁.SameMessages r.msg

/-- A case that does not match leaves the value of every message as it was. -/
theorem attempt_unobservable (hwf : h.WellFormed) (hx : (h.vars[x]?).isSome)
    (c : MatchCase (MessageHeap α) Place α σ ρ) {r} (hr : c.invoke (access atomOf x) h s = some r)
    (hnone : r.value = none) : r.state = s ∧ h.SameMessages r.msg := by
  obtain ⟨vals, hvals⟩ := Option.isSome_iff_exists.mp hx
  cases vals with
  | some a =>
    -- the only result is the one with these properties
    obtain ⟨r', hattempt⟩ := HasData.attempt atomOf s ⟨hwf, a, hvals⟩ c
    obtain rfl : r' = r := Option.some.inj (hattempt.invoke.symm.trans hr)
    exact hattempt.unchanged hnone
  | none =>
    rw [invoke_of_null hvals] at hr
    split_ifs at hr
    cases hreply : c.emptyReply h s with
    | none =>
      rw [hreply] at hr
      obtain rfl := Option.some.inj hr
      exact ⟨rfl, .refl h⟩
    | some reply =>
      rw [hreply] at hr
      obtain rfl := Option.some.inj hr
      cases hnone

/-- Trying a behavior is safe exactly if the message has data, or no case is reached that
detaches the empty message before matching it. -/
theorem attempts_safe_iff (atomOf : Cell α → UInt64) (hwf : h.WellFormed)
    {vals : Option DataAddr} (hx : h.vars[x]? = some vals)
    (b : BehaviorImpl (MessageHeap α) Place α σ ρ) (s : σ) :
    SafeAttempts atomOf x h s b ↔ vals ≠ none ∨ b.detachesEmpty h s = false := by
  have hunobservable : ∀ c ∈ b.cases, ∀ (h₁ : MessageHeap α) (s₁ : σ) r, h₁.WellFormed →
      (h₁.vars[x]?).isSome → c.invoke (access atomOf x) h₁ s₁ = some r → r.value = none →
      r.state = s₁ ∧ h₁.SameMessages r.msg :=
    fun c _ _ _ _ hwf₁ hx₁ hr hnone => attempt_unobservable hwf₁ hx₁ c hr hnone
  cases vals with
  | some a =>
    obtain ⟨r, hr, -⟩ := HasData.invoke atomOf s ⟨hwf, a, hx⟩ b
    exact iff_of_true ⟨by rw [hr]; exact Option.some_ne_none r, hunobservable⟩ (.inl (by simp))
  | none =>
    -- the behavior stops in the first case that detaches
    have hinvoke := invoke_behavior_of_null atomOf s hx b
    cases hdetach : b.detachesEmpty h s with
    | true =>
      rw [hdetach, if_pos rfl] at hinvoke
      exact iff_of_false (fun hsafe => hsafe.noNull hinvoke) (by simp)
    | false =>
      rw [hdetach, if_neg Bool.false_ne_true] at hinvoke
      exact iff_of_true ⟨by rw [hinvoke]; exact Option.some_ne_none _, hunobservable⟩ (.inr rfl)

end

namespace Sample

/-- A message of one `int32_t`, and what is left after dropping that. -/
def dropped : MessageHeap Nat := ((⟨[], []⟩ : MessageHeap Nat).makeMessage [int 1]).drop 0 1

theorem dropped_built : Built dropped := .drop 0 1 (.makeMessage .start (holds_int _ [1]))

/-- `on(any_vals, arg_match) >> [](int32_t&)`. -/
def onAnyInt : MatchCase (MessageHeap Nat) Place Nat Unit Nat :=
  .advanced
    { pattern := [none, some (.typed ⟨14, 0⟩)]
      ps := [none]
      fargs := [true]
      fn := fun _ _ s => ⟨some 1, s, []⟩
      ps_length := rfl
      fargs_le := Nat.le_refl 1 }

end Sample

/-- The condition for a message that was dropped. -/
theorem attempts_safe_dropped :
    SafeAttempts (fun _ => 0) 0 Sample.dropped () (.default [Sample.onAnyInt]) ↔
      some 0 ≠ (none : Option DataAddr) ∨
        (BehaviorImpl.default [Sample.onAnyInt]).detachesEmpty Sample.dropped () = false :=
  attempts_safe_iff _ Sample.dropped_built.wellFormed (by decide) _ ()

/-- A case with a wildcard and a mutable reference, tried on the empty message. -/
theorem attempts_unsafe :
    Built Sample.dropped ∧ Sample.dropped.vars[1]? = some none ∧
      ¬ SafeAttempts (fun _ => 0) 1 Sample.dropped () (.default [Sample.onAnyInt]) :=
  ⟨Sample.dropped_built, rfl, fun hsafe => hsafe.noNull rfl⟩

end MessageHeap

end BoostActor
