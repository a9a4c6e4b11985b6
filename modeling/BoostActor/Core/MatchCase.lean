import BoostActor.Core.MatchCursor

/-!
# Match cases and behaviors

A behavior tries its match cases in order (`behavior_impl.cpp`, `match_case.hpp`).
Cases without a wildcard are tried only on messages that have their type token.
A case that matches calls its function with references to elements of the message;
if it takes mutable references, the message is detached first.

What a case does to a message depends on how messages are represented. The code
is the same for the messages of `Core.MessageData`, which are values, and those of
`Core.MessageHeap`, which share data, so it is given here for any `MessageAccess`.
-/

namespace BoostActor

-- -------------------------
-- Access to messages
-- -------------------------

/-- What match cases do with messages `M`, given pointers `P` to elements. `none` is a
call through a null pointer. Values assigned to elements are from `α`. -/
structure MessageAccess (M P α : Type) where
  view : M → MessageView
  typeToken : M → UInt32
  /-- `message::at` -/
  at? : M → Nat → Option P
  /-- `message::force_unshare` -/
  forceUnshare : M → Option M
  assign : M → P → α → M

/-- An argument of a function: an element of the message, or what a projection made of it. -/
inductive Argument (P α : Type) where
  | reference (p : P)
  | value (v : α)

/-- What a function does: the message it answers with, if any, the state of the program
after it, and what it assigns to elements. -/
structure HandlerReply (P α σ ρ : Type) where
  result : Option ρ
  state : σ
  writes : List (P × α)

section

variable {M P α σ ρ : Type}

/-- The function of a match case, and `optional_message_visitor` on its result. -/
abbrev Handler (M P α σ ρ : Type) := M → List (Argument P α) → σ → HandlerReply P α σ ρ

/-- What a call leaves behind, and what it returns. -/
structure CallOutcome (M σ β : Type) where
  msg : M
  state : σ
  value : β

namespace ElementPattern

/-- `type_nr` of an element of a pattern. -/
def typeNr : ElementPattern → UInt16
  | typed t => t.nr
  | atomConstant _ => atomTypeNr

end ElementPattern

/-- `make_type_token_from_list`; the type number of `anything` is 0. -/
def Pattern.typeToken (ps : Pattern) : UInt32 :=
  typeTokenOf (ps.map fun p => p.elim 0 ElementPattern.typeNr)

-- -------------------------
-- Match cases
-- -------------------------

/-- A `trivial_match_case`: the types of the parameters of its function, and whether
each is a mutable reference. -/
structure TrivialMatchCase (M P α σ ρ : Type) where
  args : List (ElementPattern × Bool)
  fn : Handler M P α σ ρ

/-- What a projection makes of an element, and nothing where a guard is not fulfilled. One
that throws ends the call with what it throws, as a function that throws does. -/
abbrev Projection (M P α ρ : Type) := M → P → Except ρ (Option α)

/-- An `advanced_match_case_impl`. There is a projection for each element of the pattern
that is no wildcard, with `none` for `unit_t`, and the last of them belong to the
parameters of the function; `fargs` says which parameters are mutable references. -/
structure AdvancedMatchCase (M P α σ ρ : Type) where
  pattern : Pattern
  ps : List (Option (Projection M P α ρ))
  fargs : List Bool
  fn : Handler M P α σ ρ
  ps_length : ps.length = pattern.arity
  fargs_le : fargs.length ≤ ps.length

/-- A `match_case`. -/
inductive MatchCase (M P α σ ρ : Type) where
  | trivial (c : TrivialMatchCase M P α σ ρ)
  | catchAll (fn : Handler M P α σ ρ)
  | advanced (c : AdvancedMatchCase M P α σ ρ)

/-- `try_match` with the intermediate tuple of a case. -/
def matchPattern (A : MessageAccess M P α) (ps : Pattern) (msg : M) : Bool × SetCommitRollback :=
  tryMatch (A.view msg) (metaElements ps) fun _ => none

/-- The elements that the first `n` pointers of the intermediate tuple point to. -/
def elementPointers (A : MessageAccess M P α) (msg : M) (n : Nat) (it : SetCommitRollback) :
    Option (List P) :=
  (List.range n).mapM fun k => (it.data k).bind (A.at? msg)

/-- The function is applied; with mutable references it may assign to the message. -/
def applyFun (A : MessageAccess M P α) (fn : Handler M P α σ ρ) (isManipulator : Bool) (msg : M)
    (args : List (Argument P α)) (s : σ) : CallOutcome M σ (Option (Option ρ)) :=
  let reply := fn msg args s
  { msg := if isManipulator then reply.writes.foldl (fun msg w => A.assign msg w.1 w.2) msg else msg
    state := reply.state
    value := some reply.result }

namespace TrivialMatchCase

def pattern (c : TrivialMatchCase M P α σ ρ) : Pattern := c.args.map fun a => some a.1

def isManipulator (c : TrivialMatchCase M P α σ ρ) : Bool := c.args.any Prod.snd

/-- `trivial_match_case::invoke`; it returns no value for `no_match`. -/
def invoke (A : MessageAccess M P α) (c : TrivialMatchCase M P α σ ρ) (msg : M) (s : σ) :
    Option (CallOutcome M σ (Option (Option ρ))) :=
  let (matched, it) := matchPattern A c.pattern msg
  if !matched then some ⟨msg, s, none⟩
  else if c.isManipulator then
    (A.forceUnshare msg).bind fun msg =>
      -- update pointers in our intermediate tuple
      ((List.range (A.view msg).size).mapM (A.at? msg)).map fun it =>
        applyFun A c.fn true msg (it.map .reference) s
  else
    (elementPointers A msg c.args.length it).map fun it =>
      applyFun A c.fn false msg (it.map .reference) s

end TrivialMatchCase

/-- `match_case_zipper`: the element itself where there is no projection. -/
def matchCaseZip (msg : M) (p : Option (Projection M P α ρ)) (arg : P) :
    Except ρ (Option (Argument P α)) :=
  match p with
  | none => return some (.reference arg)
  | some f => return (← f msg arg).map .value

namespace AdvancedMatchCase

def isManipulator (c : AdvancedMatchCase M P α σ ρ) : Bool := c.fargs.any id

/-- The arguments, from the pointers to the elements that were matched: there are none
if a guard is not fulfilled, of a discarded element or of an argument. The guards of
discarded elements come first. -/
def zipArguments (c : AdvancedMatchCase M P α σ ρ) (msg : M) (it : List P) :
    Except ρ (Option (List (Argument P α))) := do
  let zipped := List.zipWith (matchCaseZip msg) c.ps it
  let discarded := c.ps.length - c.fargs.length
  let lefts ← (zipped.take discarded).mapM id
  if lefts.any Option.isNone then return none
  let rights ← (zipped.drop discarded).mapM id
  return rights.mapM id

/-- The message that is matched: msg is detached before invoking fun_ if needed. -/
def detached (A : MessageAccess M P α) (c : AdvancedMatchCase M P α σ ρ) (msg : M) : Option M :=
  if c.isManipulator then A.forceUnshare msg else some msg

/-- `prepare_invoke`: the message, and the arguments if it matches. -/
def prepareInvoke (A : MessageAccess M P α) (c : AdvancedMatchCase M P α σ ρ) (msg : M) :
    Option (M × Except ρ (Option (List (Argument P α)))) :=
  (c.detached A msg).bind fun msg =>
    let (matched, it) := matchPattern A c.pattern msg
    if !matched then some (msg, .ok none)
    else (elementPointers A msg c.pattern.arity it).map fun it => (msg, c.zipArguments msg it)

/-- `advanced_match_case::invoke`. -/
def invoke (A : MessageAccess M P α) (c : AdvancedMatchCase M P α σ ρ) (msg : M) (s : σ) :
    Option (CallOutcome M σ (Option (Option ρ))) :=
  (c.prepareInvoke A msg).map fun (msg, prepared) =>
    match prepared with
    | .error thrown => ⟨msg, s, some (some thrown)⟩
    | .ok none => ⟨msg, s, none⟩
    | .ok (some args) => applyFun A c.fn c.isManipulator msg args s

end AdvancedMatchCase

namespace MatchCase

def hasWildcard : MatchCase M P α σ ρ → Bool
  | trivial _ => false
  | catchAll _ => true
  | advanced c => c.pattern.any Option.isNone

def typeToken : MatchCase M P α σ ρ → UInt32
  | trivial c => c.pattern.typeToken
  | catchAll _ => makeTypeToken
  | advanced c => c.pattern.typeToken

/-- `match_case::invoke`. -/
def invoke (A : MessageAccess M P α) (c : MatchCase M P α σ ρ) (msg : M) (s : σ) :
    Option (CallOutcome M σ (Option (Option ρ))) :=
  match c with
  | trivial c => c.invoke A msg s
  | catchAll fn => some (applyFun A fn false msg [] s)
  | advanced c => c.invoke A msg s

/-- The case is tried on messages with this token. -/
def passes (token : UInt32) (c : MatchCase M P α σ ρ) : Bool :=
  c.hasWildcard || c.typeToken == token

end MatchCase

-- -------------------------
-- Behaviors
-- -------------------------

/-- A `behavior_impl`: the match cases of a `default_behavior_impl`, or the
`combinator` of two behaviors that `or_else` makes. -/
inductive BehaviorImpl (M P α σ ρ : Type) where
  | default (cases : List (MatchCase M P α σ ρ))
  | combinator (first second : BehaviorImpl M P α σ ρ)

/-- The loop of `behavior_impl::invoke` over the cases that are tried. -/
def invokeCases (A : MessageAccess M P α) (tried : MatchCase M P α σ ρ → Bool) :
    List (MatchCase M P α σ ρ) → M → σ → Option (CallOutcome M σ (Option ρ))
  | [], msg, s => some ⟨msg, s, none⟩
  | c :: cases, msg, s =>
    if tried c then
      (c.invoke A msg s).bind fun r =>
        match r.value with
        | some res => some ⟨r.msg, r.state, res⟩
        | none => invokeCases A tried cases r.msg r.state
    else invokeCases A tried cases msg s

namespace BehaviorImpl

def orElse (b other : BehaviorImpl M P α σ ρ) : BehaviorImpl M P α σ ρ := combinator b other

/-- `behavior_impl::invoke`. -/
def invoke (A : MessageAccess M P α) :
    BehaviorImpl M P α σ ρ → M → σ → Option (CallOutcome M σ (Option ρ))
  | default cases, msg, s => invokeCases A (MatchCase.passes (A.typeToken msg)) cases msg s
  | combinator first second, msg, s =>
    (first.invoke A msg s).bind fun r =>
      if r.value.isSome then some r else second.invoke A r.msg r.state

/-- The same without the comparison of type tokens. -/
def invokeUnfiltered (A : MessageAccess M P α) :
    BehaviorImpl M P α σ ρ → M → σ → Option (CallOutcome M σ (Option ρ))
  | default cases, msg, s => invokeCases A (fun _ => true) cases msg s
  | combinator first second, msg, s =>
    (first.invokeUnfiltered A msg s).bind fun r =>
      if r.value.isSome then some r else second.invokeUnfiltered A r.msg r.state

end BehaviorImpl

-- -------------------------
-- What a behavior answers
-- -------------------------

/-- What a case that matches the message does and returns. -/
def MatchCase.answer? (A : MessageAccess M P α) (msg : M) (s : σ) (c : MatchCase M P α σ ρ) :
    Option (CallOutcome M σ (Option ρ)) :=
  (c.invoke A msg s).bind fun r => r.value.map fun res => ⟨r.msg, r.state, res⟩

/-- The first of the cases that matches the message answers. -/
def firstMatch (A : MessageAccess M P α) (cases : List (MatchCase M P α σ ρ)) (msg : M) (s : σ) :
    CallOutcome M σ (Option ρ) :=
  (cases.findSome? (MatchCase.answer? A msg s)).getD ⟨msg, s, none⟩

/-- What a behavior is for: the first case that matches answers. Behind `or_else`, the
second behavior answers where the first has no answer, which it has not either if the
case that matches skips the message. -/
def BehaviorImpl.answer (A : MessageAccess M P α) :
    BehaviorImpl M P α σ ρ → M → σ → CallOutcome M σ (Option ρ)
  | default cases, msg, s => firstMatch A cases msg s
  | combinator first second, msg, s =>
    let r := first.answer A msg s
    if r.value.isSome then r else second.answer A r.msg r.state

/-- All match cases of a behavior, in the order in which they are tried. -/
def BehaviorImpl.cases : BehaviorImpl M P α σ ρ → List (MatchCase M P α σ ρ)
  | default cases => cases
  | combinator first second => first.cases ++ second.cases

-- -------------------------
-- Pointers
-- -------------------------

/-- A list is mapped if every element is. -/
theorem exists_mapM {β γ : Type} {f : β → Option γ} : ∀ {xs : List β},
    (∀ x ∈ xs, (f x).isSome) → ∃ ys, xs.mapM f = some ys
  | [], _ => ⟨[], rfl⟩
  | x :: xs, h => by
    obtain ⟨y, hy⟩ := Option.isSome_iff_exists.mp (h x List.mem_cons_self)
    obtain ⟨ys, hys⟩ := exists_mapM fun z hz => h z (List.mem_cons_of_mem _ hz)
    refine ⟨y :: ys, ?_⟩
    rw [List.mapM_cons, hy, hys]
    rfl

/-- After a success every pointer that a case uses is to an element. -/
theorem exists_elementPointers {A : MessageAccess M P α} {msg : M} {ps : Pattern}
    (hat : ∀ e pos, (A.view msg).Fits e pos → (A.at? msg pos).isSome)
    (h : (matchPattern A ps msg).1 = true) :
    ∃ it, elementPointers A msg ps.arity (matchPattern A ps msg).2 = some it := by
  obtain ⟨ks, hsplit, hlen, hdata⟩ := data_of_tryMatch h
  refine exists_mapM fun k hk => ?_
  have hlt : k < ks.length := hlen ▸ List.mem_range.mp hk
  obtain ⟨e, hfits⟩ := hsplit.fits_of_mem ks[k] (List.getElem_mem hlt)
  have hk' : (matchPattern A ps msg).2.data k = ks[k]? := hdata k (List.mem_range.mp hk)
  rw [hk', List.getElem?_eq_getElem hlt, Option.bind_some]
  exact hat e _ hfits

-- -------------------------
-- Each attempt
-- -------------------------

/-- What holds of a message, whatever is assigned to it, holds after the function of a case. -/
theorem applyFun_keeps {A : MessageAccess M P α} (Inv : M → Prop)
    (hassign : ∀ msg p v, Inv msg → Inv (A.assign msg p v)) (fn : Handler M P α σ ρ)
    (isManipulator : Bool) {msg : M} (args : List (Argument P α)) (s : σ) (h : Inv msg) :
    Inv (applyFun A fn isManipulator msg args s).msg := by
  show Inv (if isManipulator then _ else _)
  split_ifs
  · generalize (fn msg args s).writes = ws
    induction ws generalizing msg with
    | nil => exact h
    | cons w ws ih => exact ih (hassign msg w.1 w.2 h)
  · exact h

namespace TrivialMatchCase

variable {A : MessageAccess M P α} {c : TrivialMatchCase M P α σ ρ} {msg msg' : M} {s : σ}
  {it : List P}

theorem arity_pattern (c : TrivialMatchCase M P α σ ρ) : c.pattern.arity = c.args.length := by
  unfold pattern Pattern.arity
  simp [List.filterMap_map]

/-- The pattern has no wildcards. -/
theorem pattern_ne_none (c : TrivialMatchCase M P α σ ρ) : ∀ p ∈ c.pattern, p ≠ none := by
  intro p hp
  obtain ⟨a, -, rfl⟩ := List.mem_map.mp hp
  exact Option.some_ne_none _

/-- A case that does not match leaves the message alone. -/
theorem invoke_of_mismatch (h : (matchPattern A c.pattern msg).1 = false) :
    c.invoke A msg s = some ⟨msg, s, none⟩ := by
  show (if (!(matchPattern A c.pattern msg).1) = true then _ else _) = _
  rw [h]
  rfl

/-- A case that matches calls its function with pointers to the elements. -/
theorem invoke_of_match (h : (matchPattern A c.pattern msg).1 = true)
    (hman : c.isManipulator = false)
    (hit : elementPointers A msg c.pattern.arity (matchPattern A c.pattern msg).2 = some it) :
    c.invoke A msg s = some (applyFun A c.fn false msg (it.map .reference) s) := by
  rw [arity_pattern] at hit
  show (if (!(matchPattern A c.pattern msg).1) = true then _
    else if c.isManipulator = true then _
    else Option.map _ (elementPointers A msg _ (matchPattern A c.pattern msg).2)) = _
  rw [h, hman, hit]
  rfl

/-- A case with mutable references takes the elements of the detached message. -/
theorem invoke_of_manipulator (h : (matchPattern A c.pattern msg).1 = true)
    (hman : c.isManipulator = true) :
    c.invoke A msg s = (A.forceUnshare msg).bind fun msg =>
      ((List.range (A.view msg).size).mapM (A.at? msg)).map fun it =>
        applyFun A c.fn true msg (it.map .reference) s := by
  show (if (!(matchPattern A c.pattern msg).1) = true then _
    else if c.isManipulator = true then _ else _) = _
  rw [h, hman]
  rfl

end TrivialMatchCase

namespace AdvancedMatchCase

variable {A : MessageAccess M P α} {c : AdvancedMatchCase M P α σ ρ} {msg msg' : M} {s : σ}
  {it : List P}

theorem invoke_of_null (h : c.detached A msg = none) : c.invoke A msg s = none := by
  show ((c.detached A msg).bind _).map _ = none
  rw [h]
  rfl

/-- A case that does not match may have detached the message. -/
theorem invoke_of_mismatch (hdet : c.detached A msg = some msg')
    (h : (matchPattern A c.pattern msg').1 = false) :
    c.invoke A msg s = some ⟨msg', s, none⟩ := by
  show ((c.detached A msg).bind fun msg =>
    if (!(matchPattern A c.pattern msg).1) = true then _ else _).map _ = _
  rw [hdet, Option.bind_some, h]
  rfl

/-- A case that matches calls its function unless a projection or guard prevents it. -/
theorem invoke_of_match (hdet : c.detached A msg = some msg')
    (h : (matchPattern A c.pattern msg').1 = true)
    (hit : elementPointers A msg' c.pattern.arity (matchPattern A c.pattern msg').2 = some it) :
    c.invoke A msg s = some (match c.zipArguments msg' it with
      | .error thrown => ⟨msg', s, some (some thrown)⟩
      | .ok none => ⟨msg', s, none⟩
      | .ok (some args) => applyFun A c.fn c.isManipulator msg' args s) := by
  show ((c.detached A msg).bind fun msg =>
    if (!(matchPattern A c.pattern msg).1) = true then _
    else Option.map _ (elementPointers A msg _ (matchPattern A c.pattern msg).2)).map _ = _
  rw [hdet, Option.bind_some, h, hit]
  rfl

end AdvancedMatchCase

end

end BoostActor
