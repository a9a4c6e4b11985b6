import BoostActor.Core.MatchCase
import BoostActor.Lib.Related

/-!
# Handlers that see values

A function of a match case gets references to the elements of a message. What it
does depends on the values behind them, and it assigns through them alone, so that
it can be given by a function of values that names the arguments it assigns to.
Such behaviors run on any representation of messages.

* `Simulates.invoke` — on two representations that correspond, a behavior does and
  returns the same;
* `MessageAccess.NonNull.invoke` — where no pointer is null, a behavior returns.
-/

namespace BoostActor

open Lib

-- -------------------------
-- Handlers of values
-- -------------------------

variable {M N P Q α σ ρ : Type}

/-- What a function does, given the values of its arguments; its writes name the
arguments by their position. -/
abbrev ValueFunction (α σ ρ : Type) := List α → σ → HandlerReply Nat α σ ρ

/-- The value of an argument. -/
def Argument.value? (read : P → Option α) : Argument P α → Option α
  | .reference p => read p
  | .value v => some v

/-- Where a write to an argument goes; a projected value is a copy. -/
def argumentWrite (args : List (Argument P α)) (w : Nat × α) : Option (P × α) :=
  match args[w.1]? with
  | some (.reference p) => some (p, w.2)
  | _ => none

/-- The function on references that `read` reads. -/
def ValueFunction.on (f : ValueFunction α σ ρ) (read : M → P → Option α) : Handler M P α σ ρ :=
  fun msg args s =>
    let reply := f (args.filterMap (Argument.value? (read msg))) s
    { result := reply.result
      state := reply.state
      writes := reply.writes.filterMap (argumentWrite args) }

/-- A match case with such a function; projections take values, and may throw. -/
inductive ValueCase (α σ ρ : Type) where
  | trivial (args : List (ElementPattern × Bool)) (fn : ValueFunction α σ ρ)
  | catchAll (fn : ValueFunction α σ ρ)
  | advanced (pattern : Pattern) (ps : List (Option (α → Except ρ (Option α)))) (fargs : List Bool)
      (fn : ValueFunction α σ ρ) (ps_length : ps.length = pattern.arity)
      (fargs_le : fargs.length ≤ ps.length)

/-- A projection of what a reference refers to. -/
def projectionOn (read : M → P → Option α) (f : α → Except ρ (Option α)) : Projection M P α ρ :=
  fun msg p => (read msg p).elim (.ok none) f

def ValueCase.on (read : M → P → Option α) : ValueCase α σ ρ → MatchCase M P α σ ρ
  | trivial args fn => .trivial ⟨args, fn.on read⟩
  | catchAll fn => .catchAll (fn.on read)
  | advanced pattern ps fargs fn hps hfargs =>
    .advanced ⟨pattern, ps.map (Option.map (projectionOn read)), fargs, fn.on read,
      by rwa [List.length_map], by rwa [List.length_map]⟩

/-- A behavior of such cases. -/
inductive ValueBehavior (α σ ρ : Type) where
  | default (cases : List (ValueCase α σ ρ))
  | combinator (first second : ValueBehavior α σ ρ)

def ValueBehavior.on (read : M → P → Option α) : ValueBehavior α σ ρ → BehaviorImpl M P α σ ρ
  | default cases => .default (cases.map (ValueCase.on read))
  | combinator first second => .combinator (first.on read) (second.on read)

/-- Two representations of messages correspond: `R` relates messages, `U` those that
were detached, and `E` pointers to elements of related messages. -/
structure Simulates (A : MessageAccess M P α) (B : MessageAccess N Q α)
    (read : M → P → Option α) (read' : N → Q → Option α) (R U : M → N → Prop)
    (E : M → P → Q → Prop) : Prop where
  weaken : ∀ {m n}, U m n → R m n
  view : ∀ {m n}, R m n → A.view m = B.view n
  typeToken : ∀ {m n}, R m n → A.typeToken m = B.typeToken n
  at? : ∀ {m n}, R m n → ∀ pos, Option.Rel (E m) (A.at? m pos) (B.at? n pos)
  unshare : ∀ {m n}, R m n → Option.Rel U (A.forceUnshare m) (B.forceUnshare n)
  read : ∀ {m n p q}, R m n → E m p q → read m p = read' n q
  assign : ∀ {m n p q} v, U m n → E m p q → U (A.assign m p v) (B.assign n q v)
  pointer : ∀ {m n p q p' q'} v, U m n → E m p' q' → E m p q → E (A.assign m p' v) p q

/-- Both calls leave related messages and return the same. -/
structure SameOutcome {β : Type} (R : M → N → Prop) (r : CallOutcome M σ β)
    (r' : CallOutcome N σ β) : Prop where
  msg : R r.msg r'.msg
  state : r.state = r'.state
  value : r.value = r'.value

/-- The arguments are references to related elements, or the same values. -/
inductive SameArgument (E : P → Q → Prop) : Argument P α → Argument Q α → Prop
  | reference {p : P} {q : Q} : E p q → SameArgument E (.reference p) (.reference q)
  | value (v : α) : SameArgument E (.value v) (.value v)

namespace Simulates

variable {A : MessageAccess M P α} {B : MessageAccess N Q α} {read : M → P → Option α}
  {read' : N → Q → Option α} {R U : M → N → Prop} {E : M → P → Q → Prop} {m : M} {n : N}

-- -------------------------
-- A call of a function
-- -------------------------

/-- The function sees the same values. -/
theorem argument_values (h : Simulates A B read read' R U E) (hR : R m n)
    {args : List (Argument P α)} {args' : List (Argument Q α)}
    (hargs : List.Forall₂ (SameArgument (E m)) args args') :
    args.filterMap (Argument.value? (read m)) = args'.filterMap (Argument.value? (read' n)) := by
  induction hargs with
  | nil => rfl
  | cons harg _ ih =>
    cases harg with
    | reference hpq =>
      rw [List.filterMap_cons, List.filterMap_cons, ih]
      show (match read m _ with | none => _ | some b => _) = _
      rw [h.read hR hpq]
      rfl
    | value v => exact congrArg (v :: ·) ih

/-- Its writes go to related elements. -/
theorem argument_writes {args : List (Argument P α)} {args' : List (Argument Q α)}
    (hargs : List.Forall₂ (SameArgument (E m)) args args') (ws : List (Nat × α)) :
    List.Forall₂ (fun w w' => E m w.1 w'.1 ∧ w.2 = w'.2) (ws.filterMap (argumentWrite args))
      (ws.filterMap (argumentWrite args')) := by
  refine List.rel_filterMap (R := Eq) ?_ (List.forall₂_eq_eq_eq ▸ rfl)
  rintro w _ rfl
  have hget := forall₂_getElem? hargs w.1
  unfold argumentWrite
  generalize args[w.1]? = arg at hget ⊢
  generalize args'[w.1]? = arg' at hget ⊢
  cases hget with
  | none => exact .none
  | some harg =>
    cases harg with
    | reference hpq => exact .some ⟨hpq, rfl⟩
    | value v => exact .none

/-- Related writes keep detached messages related. -/
theorem foldl_assign (h : Simulates A B read read' R U E) {ws : List (P × α)}
    {ws' : List (Q × α)} (hU : U m n)
    (hws : List.Forall₂ (fun w w' => E m w.1 w'.1 ∧ w.2 = w'.2) ws ws') :
    U (ws.foldl (fun msg w => A.assign msg w.1 w.2) m)
      (ws'.foldl (fun msg w => B.assign msg w.1 w.2) n) := by
  induction ws generalizing m n ws' with
  | nil => cases hws; exact hU
  | cons w ws ih =>
    cases hws with
    | @cons _ w' _ _ hw hrest =>
      obtain ⟨p, v⟩ := w
      obtain ⟨q, v'⟩ := w'
      obtain ⟨hpq, hv⟩ := hw
      obtain rfl : v = v' := hv
      -- the pointers that are still to be written to stay related
      rw [List.foldl_cons, List.foldl_cons]
      exact ih (h.assign v hU hpq) (hrest.imp fun _ _ hw => ⟨h.pointer v hU hpq hw.1, hw.2⟩)

/-- The function of a case gives the same outcome on both messages. -/
theorem applyFun (h : Simulates A B read read' R U E) (fn : ValueFunction α σ ρ)
    {isManipulator : Bool} (hR : R m n) (hU : isManipulator = true → U m n)
    {args : List (Argument P α)} {args' : List (Argument Q α)}
    (hargs : List.Forall₂ (SameArgument (E m)) args args') (s : σ) :
    SameOutcome R (BoostActor.applyFun A (fn.on read) isManipulator m args s)
      (BoostActor.applyFun B (fn.on read') isManipulator n args' s) := by
  have hvalues := h.argument_values hR hargs
  have hreply : fn (args.filterMap (Argument.value? (read m))) s =
      fn (args'.filterMap (Argument.value? (read' n))) s := congrArg (fn · s) hvalues
  refine ⟨?_, congrArg HandlerReply.state hreply,
    congrArg (fun r : HandlerReply Nat α σ ρ => some r.result) hreply⟩
  cases isManipulator with
  | false => exact hR
  | true =>
    show R (List.foldl _ m (List.filterMap _ _)) (List.foldl _ n (List.filterMap _ _))
    rw [hreply]
    exact h.weaken (h.foldl_assign (hU rfl) (argument_writes hargs _))

-- -------------------------
-- Each case
-- -------------------------

theorem matchPattern (h : Simulates A B read read' R U E) (hR : R m n) (ps : Pattern) :
    BoostActor.matchPattern A ps m = BoostActor.matchPattern B ps n := by
  unfold BoostActor.matchPattern
  rw [h.view hR]

/-- The pointers to the elements of the two messages are related one by one. -/
theorem elementPointers (h : Simulates A B read read' R U E) (hR : R m n) (k : Nat)
    (it : SetCommitRollback) :
    Option.Rel (List.Forall₂ (E m)) (BoostActor.elementPointers A m k it)
      (BoostActor.elementPointers B n k it) := by
  refine forall₂_mapM (q := Eq) (List.forall₂_eq_eq_eq ▸ rfl) ?_
  rintro i _ rfl
  cases it.data i with
  | none => exact .none
  | some pos => exact h.at? hR pos

/-- Related pointers are related as reference arguments. -/
theorem references {its : List P} {its' : List Q} (hits : List.Forall₂ (E m) its its') :
    List.Forall₂ (SameArgument (α := α) (E m)) (its.map .reference) (its'.map .reference) :=
  List.rel_map (fun _ _ hpq => .reference hpq) hits

/-- Trivial match cases give the same outcome on both messages. -/
theorem invoke_trivial (h : Simulates A B read read' R U E) (args : List (ElementPattern × Bool))
    (fn : ValueFunction α σ ρ) (hR : R m n) (s : σ) :
    Option.Rel (SameOutcome R)
      (TrivialMatchCase.invoke A ⟨args, fn.on read⟩ m s)
      (TrivialMatchCase.invoke B ⟨args, fn.on read'⟩ n s) := by
  have hpattern : (⟨args, fn.on read⟩ : TrivialMatchCase M P α σ ρ).pattern =
    (⟨args, fn.on read'⟩ : TrivialMatchCase N Q α σ ρ).pattern := rfl
  have hmatch := h.matchPattern hR (⟨args, fn.on read⟩ : TrivialMatchCase M P α σ ρ).pattern
  unfold TrivialMatchCase.invoke
  simp only [← hpattern, ← hmatch]
  split_ifs with hmis hman hman' hman'
  · exact .some ⟨hR, rfl, rfl⟩
  · -- the message is detached first
    refine optionRel_bind (h.unshare hR) fun m₁ n₁ hU => ?_
    have hsize := congrArg MessageView.size (h.view (h.weaken hU))
    rw [hsize]
    refine optionRel_map (q := List.Forall₂ (E m₁)) (forall₂_mapM (q := Eq)
      (List.forall₂_eq_eq_eq ▸ rfl) ?_) fun its its' hits =>
        h.applyFun fn (h.weaken hU) (fun _ => hU) (references hits) s
    rintro i _ rfl
    exact h.at? (h.weaken hU) i
  · exact absurd hman hman'
  · exact absurd hman' hman
  · exact optionRel_map (h.elementPointers hR _ _) fun its its' hits =>
      h.applyFun fn hR (fun hm => by cases hm) (references hits) s

/-- Projections see the same values. -/
theorem matchCaseZip (h : Simulates A B read read' R U E) (hR : R m n)
    (f : Option (α → Except ρ (Option α))) {p : P} {q : Q} (hpq : E m p q) :
    ExceptRel (Option.Rel (SameArgument (E m)))
      (BoostActor.matchCaseZip m (f.map (projectionOn read)) p)
      (BoostActor.matchCaseZip n (f.map (projectionOn read')) q) := by
  cases f with
  | none => exact .ok (.some (.reference hpq))
  | some f =>
    show ExceptRel _ ((read m p).elim (.ok none) f >>= fun v => _)
      ((read' n q).elim (.ok none) f >>= fun v => _)
    rw [h.read hR hpq]
    cases (read' n q).elim (.ok none) f with
    | error thrown => exact .error thrown
    | ok v =>
      cases v with
      | none => exact .ok .none
      | some v => exact .ok (.some (.value v))

variable {pattern : Pattern} {ps : List (Option (α → Except ρ (Option α)))} {fargs : List Bool}
  {hps : (ps.map (Option.map (projectionOn read))).length = pattern.arity}
  {hfargs : fargs.length ≤ (ps.map (Option.map (projectionOn read))).length}
  {hps' : (ps.map (Option.map (projectionOn read'))).length = pattern.arity}
  {hfargs' : fargs.length ≤ (ps.map (Option.map (projectionOn read'))).length}

/-- Projecting the arguments has the same outcome on both messages. -/
theorem zipArguments (h : Simulates A B read read' R U E) (hR : R m n)
    (fn : ValueFunction α σ ρ) {its : List P} {its' : List Q}
    (hits : List.Forall₂ (E m) its its') :
    ExceptRel (Option.Rel (List.Forall₂ (SameArgument (E m))))
      (AdvancedMatchCase.zipArguments ⟨pattern, ps.map (Option.map (projectionOn read)), fargs,
        fn.on read, hps, hfargs⟩ m its)
      (AdvancedMatchCase.zipArguments ⟨pattern, ps.map (Option.map (projectionOn read')), fargs,
        fn.on read', hps', hfargs'⟩ n its') := by
  have hzipped : List.Forall₂ (ExceptRel (Option.Rel (SameArgument (E m))))
      (List.zipWith (BoostActor.matchCaseZip m) (ps.map (Option.map (projectionOn read))) its)
      (List.zipWith (BoostActor.matchCaseZip n) (ps.map (Option.map (projectionOn read'))) its') :=
    by
    rw [List.zipWith_map_left, List.zipWith_map_left]
    exact forall₂_zipWith (p := Eq) (List.forall₂_eq_eq_eq ▸ rfl) hits
      fun f _ p q hf hpq => hf ▸ h.matchCaseZip hR f hpq
  unfold AdvancedMatchCase.zipArguments
  simp only [List.length_map]
  generalize ps.length - fargs.length = discarded
  refine exceptRel_bind (forall₂_mapExcept (List.forall₂_take discarded hzipped)
    fun _ _ hrel => hrel) fun lefts lefts' hlefts => ?_
  rw [forall₂_any hlefts fun _ _ => optionRel_isNone]
  split_ifs
  · exact .ok .none
  · exact exceptRel_bind (forall₂_mapExcept (List.forall₂_drop discarded hzipped)
      fun _ _ hrel => hrel) fun rights rights' hrights =>
        .ok (forall₂_mapM hrights fun _ _ hrel => hrel)

/-- Both messages are detached or neither. -/
theorem detached (h : Simulates A B read read' R U E) (fn : ValueFunction α σ ρ) (hR : R m n) :
    Option.Rel (fun m n => R m n ∧ (fargs.any id = true → U m n))
      (AdvancedMatchCase.detached A ⟨pattern, ps.map (Option.map (projectionOn read)), fargs,
        fn.on read, hps, hfargs⟩ m)
      (AdvancedMatchCase.detached B ⟨pattern, ps.map (Option.map (projectionOn read')), fargs,
        fn.on read', hps', hfargs'⟩ n) := by
  unfold AdvancedMatchCase.detached AdvancedMatchCase.isManipulator
  split_ifs with hman
  · exact optionRel_imp (h.unshare hR) fun m₁ n₁ hU => ⟨h.weaken hU, fun _ => hU⟩
  · exact .some ⟨hR, fun hm => absurd hm hman⟩

/-- Preparing an advanced match case leaves related messages and related arguments. -/
theorem prepareInvoke (h : Simulates A B read read' R U E) (fn : ValueFunction α σ ρ)
    (hR : R m n) :
    Option.Rel (fun r r' => R r.1 r'.1 ∧ (fargs.any id = true → U r.1 r'.1) ∧
        ExceptRel (Option.Rel (List.Forall₂ (SameArgument (E r.1)))) r.2 r'.2)
      (AdvancedMatchCase.prepareInvoke A ⟨pattern, ps.map (Option.map (projectionOn read)), fargs,
        fn.on read, hps, hfargs⟩ m)
      (AdvancedMatchCase.prepareInvoke B ⟨pattern, ps.map (Option.map (projectionOn read')), fargs,
        fn.on read', hps', hfargs'⟩ n) := by
  unfold AdvancedMatchCase.prepareInvoke
  refine optionRel_bind (h.detached fn hR) fun m₁ n₁ hdetached => ?_
  obtain ⟨hR₁, hU₁⟩ := hdetached
  simp only [h.matchPattern hR₁]
  split_ifs with hmis
  · exact .some ⟨hR₁, hU₁, .ok .none⟩
  · exact optionRel_map (h.elementPointers hR₁ _ _) fun its its' hits =>
      ⟨hR₁, hU₁, h.zipArguments hR₁ fn hits⟩

/-- Advanced match cases give the same outcome on both messages. -/
theorem invoke_advanced (h : Simulates A B read read' R U E) (fn : ValueFunction α σ ρ)
    (hR : R m n) (s : σ) :
    Option.Rel (SameOutcome R)
      (AdvancedMatchCase.invoke A ⟨pattern, ps.map (Option.map (projectionOn read)), fargs,
        fn.on read, hps, hfargs⟩ m s)
      (AdvancedMatchCase.invoke B ⟨pattern, ps.map (Option.map (projectionOn read')), fargs,
        fn.on read', hps', hfargs'⟩ n s) := by
  unfold AdvancedMatchCase.invoke
  refine optionRel_map (h.prepareInvoke fn hR) fun r r' hprepared => ?_
  obtain ⟨m₁, prepared⟩ := r
  obtain ⟨n₁, prepared'⟩ := r'
  obtain ⟨hR₁, hU₁, hargs⟩ := hprepared
  cases hargs with
  | error thrown => exact ⟨hR₁, rfl, rfl⟩
  | ok hargs =>
    cases hargs with
    | none => exact ⟨hR₁, rfl, rfl⟩
    | some hargs => exact h.applyFun fn hR₁ hU₁ hargs s

-- -------------------------
-- Behaviors
-- -------------------------

/-- Match cases of either kind give the same outcome on both messages. -/
theorem invoke_case (h : Simulates A B read read' R U E) (c : ValueCase α σ ρ) (hR : R m n)
    (s : σ) :
    Option.Rel (SameOutcome R) ((c.on read).invoke A m s) ((c.on read').invoke B n s) := by
  cases c with
  | trivial args fn => exact h.invoke_trivial args fn hR s
  | catchAll fn => exact .some (h.applyFun fn hR (fun hm => by cases hm) .nil s)
  | advanced pattern ps fargs fn hps hfargs => exact h.invoke_advanced fn hR s

/-- The type token of a case does not depend on the access. -/
theorem passes (read : M → P → Option α) (read' : N → Q → Option α) (token : UInt32)
    (c : ValueCase α σ ρ) :
    MatchCase.passes token (c.on read) = MatchCase.passes token (c.on read') := by
  cases c <;> rfl

/-- The loop over the cases gives the same outcome on both messages. -/
theorem invokeCases (h : Simulates A B read read' R U E) (token : UInt32)
    (cases : List (ValueCase α σ ρ)) (hR : R m n) (s : σ) :
    Option.Rel (SameOutcome R)
      (BoostActor.invokeCases A (MatchCase.passes token) (cases.map (ValueCase.on read)) m s)
      (BoostActor.invokeCases B (MatchCase.passes token) (cases.map (ValueCase.on read')) n s) := by
  induction cases generalizing m n s with
  | nil => exact .some ⟨hR, rfl, rfl⟩
  | cons c cases ih =>
    rw [List.map_cons, List.map_cons, BoostActor.invokeCases, BoostActor.invokeCases,
      passes read read' token c]
    split_ifs with hpass
    · refine optionRel_bind (h.invoke_case c hR s) fun r r' hr => ?_
      obtain ⟨m₁, s₁, value⟩ := r
      obtain ⟨n₁, s₁', value'⟩ := r'
      obtain ⟨hR₁, hs, hvalue⟩ := hr
      obtain rfl : s₁ = s₁' := hs
      obtain rfl : value = value' := hvalue
      cases value with
      | none => exact ih hR₁ s₁
      | some res => exact .some ⟨hR₁, rfl, rfl⟩
    · exact ih hR s

/-- A behavior does and returns the same on related messages. -/
theorem invoke (h : Simulates A B read read' R U E) (b : ValueBehavior α σ ρ) (hR : R m n)
    (s : σ) :
    Option.Rel (SameOutcome R) ((b.on read).invoke A m s) ((b.on read').invoke B n s) := by
  induction b generalizing m n s with
  | default cases =>
    unfold ValueBehavior.on BehaviorImpl.invoke
    rw [h.typeToken hR]
    exact h.invokeCases _ cases hR s
  | combinator first second ihf ihs =>
    unfold ValueBehavior.on BehaviorImpl.invoke
    refine optionRel_bind (ihf hR s) fun r r' hr => ?_
    obtain ⟨m₁, s₁, value⟩ := r
    obtain ⟨n₁, s₁', value'⟩ := r'
    obtain ⟨hR₁, hs, hvalue⟩ := hr
    obtain rfl : s₁ = s₁' := hs
    obtain rfl : value = value' := hvalue
    cases value with
    | none => exact ihs hR₁ s₁
    | some res => exact .some ⟨hR₁, rfl, rfl⟩

end Simulates

-- -------------------------
-- Messages without null pointers
-- -------------------------

/-- Every element that is asked for has a pointer. -/
structure MessageAccess.NonNull (A : MessageAccess M P α) : Prop where
  unshare : ∀ msg, (A.forceUnshare msg).isSome
  fits : ∀ msg e pos, (A.view msg).Fits e pos → (A.at? msg pos).isSome
  inRange : ∀ msg pos, pos < (A.view msg).size → (A.at? msg pos).isSome

namespace MessageAccess.NonNull

variable {A : MessageAccess M P α}

/-- A trivial match case runs to an end. -/
theorem invoke_trivial (hA : A.NonNull) (c : TrivialMatchCase M P α σ ρ) (msg : M) (s : σ) :
    ∃ r, c.invoke A msg s = some r := by
  cases hmatch : (BoostActor.matchPattern A c.pattern msg).1 with
  | false => exact ⟨_, c.invoke_of_mismatch hmatch⟩
  | true =>
    cases hman : c.isManipulator with
    | false =>
      obtain ⟨it, hit⟩ := exists_elementPointers (hA.fits msg) hmatch
      exact ⟨_, c.invoke_of_match hmatch hman hit⟩
    | true =>
      obtain ⟨msg', hun⟩ := Option.isSome_iff_exists.mp (hA.unshare msg)
      obtain ⟨it, hit⟩ := exists_mapM fun i hi => hA.inRange msg' i (List.mem_range.mp hi)
      rw [c.invoke_of_manipulator hmatch hman, hun, Option.bind_some, hit]
      exact ⟨_, rfl⟩

/-- An advanced match case runs to an end. -/
theorem invoke_advanced (hA : A.NonNull) (c : AdvancedMatchCase M P α σ ρ) (msg : M) (s : σ) :
    ∃ r, c.invoke A msg s = some r := by
  have hdet : ∃ msg', c.detached A msg = some msg' := by
    unfold AdvancedMatchCase.detached
    split_ifs
    · exact Option.isSome_iff_exists.mp (hA.unshare msg)
    · exact ⟨msg, rfl⟩
  obtain ⟨msg', hdet⟩ := hdet
  cases hmatch : (BoostActor.matchPattern A c.pattern msg').1 with
  | false => exact ⟨_, c.invoke_of_mismatch hdet hmatch⟩
  | true =>
    obtain ⟨it, hit⟩ := exists_elementPointers (hA.fits msg') hmatch
    exact ⟨_, c.invoke_of_match hdet hmatch hit⟩

/-- Every match case runs to an end. -/
theorem invoke_case (hA : A.NonNull) (c : MatchCase M P α σ ρ) (msg : M) (s : σ) :
    ∃ r, c.invoke A msg s = some r := by
  cases c with
  | trivial c => exact hA.invoke_trivial c msg s
  | catchAll fn => exact ⟨_, rfl⟩
  | advanced c => exact hA.invoke_advanced c msg s

/-- The loop over the cases runs to an end. -/
theorem invokeCases (hA : A.NonNull) (tried : MatchCase M P α σ ρ → Bool)
    (cases : List (MatchCase M P α σ ρ)) (msg : M) (s : σ) :
    ∃ r, BoostActor.invokeCases A tried cases msg s = some r := by
  induction cases generalizing msg s with
  | nil => exact ⟨_, rfl⟩
  | cons c cases ih =>
    rw [BoostActor.invokeCases]
    split_ifs
    · obtain ⟨r, hr⟩ := hA.invoke_case c msg s
      rw [hr, Option.bind_some]
      cases r.value with
      | none => exact ih r.msg r.state
      | some res => exact ⟨_, rfl⟩
    · exact ih msg s

/-- Every behavior runs to an end on every message. -/
theorem invoke (hA : A.NonNull) (b : BehaviorImpl M P α σ ρ) (msg : M) (s : σ) :
    ∃ r, b.invoke A msg s = some r := by
  induction b generalizing msg s with
  | default cases => exact hA.invokeCases _ cases msg s
  | combinator first second ih ih' =>
    obtain ⟨r, hr⟩ := ih msg s
    rw [BehaviorImpl.invoke, hr, Option.bind_some]
    split_ifs
    · exact ⟨r, rfl⟩
    · exact ih' r.msg r.state

end MessageAccess.NonNull

end BoostActor
