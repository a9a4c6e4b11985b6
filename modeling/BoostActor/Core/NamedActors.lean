import BoostActor.Lib.Run
import BoostActor.Lib.UnorderedMap
import BoostActor.Core.MailboxElement

/-!
# Named actors

The entries that the actor registry keeps under a name (`actor_registry.cpp`). `put_named`
attaches a functor to the actor, which calls `put_named` again without an actor once the
actor terminates, and then makes an entry under the lock. Other threads may go first in
between, and the functors of a terminated actor are called at any time after.

* `current_of_inOrder` — `get_named` returns the actor of the latest `put_named`, in every run
  in which no call and no functor would have to change an entry.
-/

namespace BoostActor

open Lib

/-- The named entries and what goes on around them. Names are atom values. -/
structure NamedActors where
  namedEntries : UMap UInt64 (Option ActorRef)
  exited : List ActorRef
  /-- the functors that are attached to an actor, with their key -/
  attached : List (ActorRef × UInt64)
  /-- functors of terminated actors that have not been called yet -/
  fired : List (ActorRef × UInt64)
  /-- calls of `put_named` that have yet to take the lock -/
  calls : List (UInt64 × Option ActorRef)
  /-- the calls of `put_named` so far, the latest first -/
  puts : List (UInt64 × Option ActorRef)

/-- What happens to the registry. -/
inductive NamedEvent where
  /-- a call of `put_named`, up to the lock -/
  | attach (key : UInt64) (value : Option ActorRef)
  /-- the same call goes on -/
  | put (key : UInt64) (value : Option ActorRef)
  /-- an actor terminates -/
  | exit (a : ActorRef)
  /-- a functor is called -/
  | callback (a : ActorRef) (key : UInt64)
deriving DecidableEq, Repr

namespace NamedActors

def initial : NamedActors where
  namedEntries := UMap.empty
  exited := []
  attached := []
  fired := []
  calls := []
  puts := []

/-- `get_named` -/
def getNamed (s : NamedActors) (key : UInt64) : Option ActorRef :=
  (s.namedEntries.find? key).join

/-- The part of `put_named` under the lock. -/
def emplaceNamed (s : NamedActors) (key : UInt64) (value : Option ActorRef) : NamedActors :=
  { s with namedEntries := s.namedEntries.emplace key value }

/-- `attach_functor`, in `put_named`. -/
def attachFunctor (s : NamedActors) (key : UInt64) : Option ActorRef → NamedActors
  | none => s
  | some a =>
    -- the functor of an actor that has terminated is called immediately
    if a ∈ s.exited then s.emplaceNamed key none
    else { s with attached := (a, key) :: s.attached }

def step (s : NamedActors) : NamedEvent → Option NamedActors
  | .attach key value =>
    some { s.attachFunctor key value with calls := (key, value) :: s.calls }
  | .put key value =>
    if (key, value) ∈ s.calls then
      some { s.emplaceNamed key value with
        calls := s.calls.erase (key, value), puts := (key, value) :: s.puts }
    else none
  | .exit a =>
    if a ∈ s.exited then none
    else some { s with
      exited := a :: s.exited
      attached := s.attached.filter fun f => f.1 ≠ a
      fired := s.attached.filter (fun f => f.1 = a) ++ s.fired }
  | .callback a key =>
    if (a, key) ∈ s.fired then
      some { s.emplaceNamed key none with fired := s.fired.erase (a, key) }
    else none

/-- The actor of the latest `put_named` for a key; none if there was no such call, or no actor. -/
def latest (s : NamedActors) (key : UInt64) : Option ActorRef :=
  ((s.puts.find? fun p => p.1 == key).map Prod.snd).join

/-- What the registry may know of an actor that was put under a key: the actor, until it has
terminated and its functor was called, or that it has terminated. -/
def Knows (s : NamedActors) (key : UInt64) : Option ActorRef → Option ActorRef → Prop
  | none, answer => answer = none
  | some a, answer =>
    answer = some a ∧ (a ∉ s.exited ∨ (a, key) ∈ s.fired) ∨ answer = none ∧ a ∈ s.exited

instance (s : NamedActors) (key : UInt64) :
    ∀ value answer, Decidable (s.Knows key value answer)
  | none, answer => inferInstanceAs (Decidable (answer = none))
  | some a, answer => inferInstanceAs (Decidable
      (answer = some a ∧ (a ∉ s.exited ∨ (a, key) ∈ s.fired) ∨ answer = none ∧ a ∈ s.exited))

/-- `get_named` returns what was put last, or that the actor has terminated. -/
def Current (s : NamedActors) : Prop := ∀ key, s.Knows key (s.latest key) (s.getNamed key)

/-- No entry has to change: `put_named` finds none under its key, or one that says the same
already, and an actor whose last functor is called is not in the entry. -/
def InOrder (s : NamedActors) : NamedEvent → Prop
  | .put key value => (s.namedEntries.find? key).all fun entry => decide (s.Knows key value entry)
  | .callback a key =>
    s.namedEntries.find? key = some (some a) → (a, key) ∈ s.fired.erase (a, key)
  | _ => True

instance (s : NamedActors) : ∀ e, Decidable (s.InOrder e)
  | .attach _ _ => isTrue trivial
  | .put _ _ => inferInstanceAs (Decidable (_ = true))
  | .exit _ => isTrue trivial
  | .callback _ _ => inferInstanceAs (Decidable (_ → _))

-- -------------------------
-- Functors
-- -------------------------

/-- Every call of `put_named` has left a functor, which is attached until the actor terminates
and makes an entry when it is called. -/
structure Watched (s : NamedActors) : Prop where
  puts : ∀ key a, (key, some a) ∈ s.puts → a ∉ s.exited → (a, key) ∈ s.attached
  calls : ∀ key a, (key, some a) ∈ s.calls → a ∉ s.exited → (a, key) ∈ s.attached
  told : ∀ key a, (key, some a) ∈ s.calls → a ∈ s.exited →
    (a, key) ∈ s.fired ∨ s.namedEntries.contains key = true
  fired : ∀ f ∈ s.fired, f.1 ∈ s.exited

/-- `emplace` adds at most its own key. -/
theorem contains_emplace (m : UMap UInt64 (Option ActorRef)) (key : UInt64)
    (value : Option ActorRef) (k : UInt64) :
    (m.emplace key value).contains k = (m.contains k || key == k) := by
  rw [UMap.contains, UMap.contains, UMap.find?_emplace]
  by_cases hk : (key == k) = true
  · cases m.find? k <;> simp [hk]
  · simp [hk]

/-- An entry without an actor, where there was none, is no news. -/
theorem getNamed_emplaceNamed_none (s : NamedActors) (key k : UInt64) :
    (s.emplaceNamed key none).getNamed k = s.getNamed k := by
  rw [emplaceNamed, getNamed, getNamed, UMap.find?_emplace]
  cases s.namedEntries.find? k with
  | none =>
    by_cases hk : (key == k) = true
    · simp [hk]
    · simp [hk]
  | some entry => rfl

/-- What attaching a functor leaves alone. -/
theorem attachFunctor_frame (s : NamedActors) (key : UInt64) (value : Option ActorRef) :
    (s.attachFunctor key value).exited = s.exited ∧ (s.attachFunctor key value).fired = s.fired ∧
      (s.attachFunctor key value).puts = s.puts ∧
      (s.attachFunctor key value).getNamed = s.getNamed := by
  cases value with
  | none => exact ⟨rfl, rfl, rfl, rfl⟩
  | some a =>
    rw [attachFunctor]
    split_ifs
    · exact ⟨rfl, rfl, rfl, funext (s.getNamed_emplaceNamed_none key)⟩
    · exact ⟨rfl, rfl, rfl, rfl⟩

/-- What attaching a functor adds. -/
theorem attachFunctor_grows (s : NamedActors) (key : UInt64) (value : Option ActorRef) :
    (∀ f ∈ s.attached, f ∈ (s.attachFunctor key value).attached) ∧
      (∀ k, s.namedEntries.contains k = true →
        (s.attachFunctor key value).namedEntries.contains k = true) := by
  cases value with
  | none => exact ⟨fun _ h => h, fun _ h => h⟩
  | some a =>
    rw [attachFunctor]
    split_ifs
    · refine ⟨fun _ h => h, fun k h => ?_⟩
      simp [emplaceNamed, contains_emplace, h]
    · exact ⟨fun f hf => List.mem_cons_of_mem _ hf, fun _ h => h⟩

/-- The functor itself: attached to a live actor, or called. -/
theorem attachFunctor_self (s : NamedActors) (key : UInt64) (a : ActorRef) :
    (a ∉ s.exited → (a, key) ∈ (s.attachFunctor key (some a)).attached) ∧
      (a ∈ s.exited → (s.attachFunctor key (some a)).namedEntries.contains key = true) := by
  rw [attachFunctor]
  refine ⟨fun hlive => ?_, fun hexited => ?_⟩
  · rw [if_neg hlive]
    exact List.mem_cons_self
  · rw [if_pos hexited]
    simp [emplaceNamed, contains_emplace]

theorem watched_initial : Watched initial :=
  ⟨fun _ _ h => absurd h List.not_mem_nil, fun _ _ h => absurd h List.not_mem_nil,
    fun _ _ h => absurd h List.not_mem_nil, fun _ h => absurd h List.not_mem_nil⟩

/-- Attaching the functor in `put_named` keeps every actor watched. -/
theorem Watched.attach {s : NamedActors} (h : Watched s) (key : UInt64)
    (value : Option ActorRef) :
    Watched { s.attachFunctor key value with calls := (key, value) :: s.calls } := by
  obtain ⟨hexited, hfired, hputs, -⟩ := s.attachFunctor_frame key value
  obtain ⟨hattached, hcontains⟩ := s.attachFunctor_grows key value
  -- the functor is attached, or called at once
  refine ⟨?_, ?_, ?_, ?_⟩
  · intro k a hput hlive
    dsimp only at hput hlive
    rw [hputs] at hput
    rw [hexited] at hlive
    exact hattached _ (h.puts k a hput hlive)
  · intro k a hcall hlive
    dsimp only at hlive
    rw [hexited] at hlive
    obtain heq | hcall := List.mem_cons.mp hcall
    · cases heq
      exact (s.attachFunctor_self key a).1 hlive
    · exact hattached _ (h.calls k a hcall hlive)
  · intro k a hcall ha
    dsimp only at ha ⊢
    rw [hexited] at ha
    rw [hfired]
    obtain heq | hcall := List.mem_cons.mp hcall
    · cases heq
      exact .inr ((s.attachFunctor_self key a).2 ha)
    · exact (h.told k a hcall ha).imp_right (hcontains k)
  · intro f hf
    dsimp only at hf ⊢
    rw [hfired] at hf
    rw [hexited]
    exact h.fired f hf

/-- Storing the name keeps every actor watched. -/
theorem Watched.put {s : NamedActors} (h : Watched s) {key : UInt64} {value : Option ActorRef}
    (hmem : (key, value) ∈ s.calls) :
    Watched { s.emplaceNamed key value with
      calls := s.calls.erase (key, value), puts := (key, value) :: s.puts } := by
  refine ⟨fun k a hput hlive => ?_, fun k a hcall hlive => ?_, fun k a hcall ha => ?_, h.fired⟩
  · obtain heq | hput := List.mem_cons.mp hput
    · cases heq
      exact h.calls key a hmem hlive
    · exact h.puts k a hput hlive
  · exact h.calls k a (List.mem_of_mem_erase hcall) hlive
  · refine (h.told k a (List.mem_of_mem_erase hcall) ha).imp_right fun hc => ?_
    simp [emplaceNamed, contains_emplace, hc]

/-- The functors of an actor that terminates are called later. -/
theorem mem_fired_of_exit {s : NamedActors} {a b : ActorRef} {key : UInt64}
    (ha : (a, key) ∈ s.attached) :
    (a = b → (a, key) ∈ s.attached.filter (fun f => f.1 = b) ++ s.fired) ∧
      (a ≠ b → (a, key) ∈ s.attached.filter fun f => f.1 ≠ b) := by
  refine ⟨fun hb => ?_, fun hb => ?_⟩
  · exact List.mem_append_left _ (List.mem_filter.mpr ⟨ha, by simpa using hb⟩)
  · exact List.mem_filter.mpr ⟨ha, by simpa using hb⟩

/-- So does the termination of an actor. -/
theorem Watched.exit {s : NamedActors} (h : Watched s) (b : ActorRef) :
    Watched { s with
      exited := b :: s.exited
      attached := s.attached.filter fun f => f.1 ≠ b
      fired := s.attached.filter (fun f => f.1 = b) ++ s.fired } := by
  -- the functors of `b` are called later, all others stay attached
  refine ⟨?_, ?_, ?_, ?_⟩
  · intro k a hput hlive
    rw [List.mem_cons, not_or] at hlive
    exact (mem_fired_of_exit (h.puts k a hput hlive.2)).2 hlive.1
  · intro k a hcall hlive
    rw [List.mem_cons, not_or] at hlive
    exact (mem_fired_of_exit (h.calls k a hcall hlive.2)).2 hlive.1
  · intro k a hcall ha
    by_cases hexited : a ∈ s.exited
    · exact (h.told k a hcall hexited).imp_left (List.mem_append_right _)
    · have hb : a = b := (List.mem_cons.mp ha).resolve_right hexited
      exact .inl ((mem_fired_of_exit (h.calls k a hcall hexited)).1 hb)
  · intro f hf
    obtain hf | hf := List.mem_append.mp hf
    · have hb : f.1 = b := by simpa using (List.mem_filter.mp hf).2
      rw [hb]
      exact List.mem_cons_self
    · exact List.mem_cons_of_mem _ (h.fired f hf)

/-- So does the callback of a functor. -/
theorem Watched.callback {s : NamedActors} (h : Watched s) (b : ActorRef) (key : UInt64) :
    Watched { s.emplaceNamed key none with fired := s.fired.erase (b, key) } := by
  refine ⟨h.puts, h.calls, fun k a hcall ha => ?_, fun f hf => h.fired f (List.mem_of_mem_erase hf)⟩
  by_cases hk : (a, k) = (b, key)
  · cases hk
    exact .inr (by simp [emplaceNamed, contains_emplace])
  · refine (h.told k a hcall ha).imp (fun hf => (List.mem_erase_of_ne hk).mpr hf) fun hc => ?_
    simp [emplaceNamed, contains_emplace, hc]

-- -------------------------
-- The latest actor
-- -------------------------

/-- Terminations, and the functors they call, change nothing for `get_named`. -/
theorem getNamed_of_exit {s s' : NamedActors} {a : ActorRef} {e : NamedEvent}
    (he : e = .exit a ∨ ∃ key, e = .callback a key) (hs : s.step e = some s') :
    s'.getNamed = s.getNamed := by
  obtain rfl | ⟨key, rfl⟩ := he
  · rw [step] at hs
    split_ifs at hs
    rw [Option.some.injEq] at hs
    subst hs
    rfl
  · rw [step] at hs
    split_ifs at hs
    rw [Option.some.injEq] at hs
    subst hs
    exact funext (s.getNamed_emplaceNamed_none key)

/-- What `get_named` returns after `put_named`. -/
theorem getNamed_emplaceNamed (s : NamedActors) (key : UInt64) (value : Option ActorRef)
    (k : UInt64) : (s.emplaceNamed key value).getNamed k =
      if key = k ∧ s.namedEntries.find? key = none then value else s.getNamed k := by
  rw [emplaceNamed, getNamed, getNamed, UMap.find?_emplace]
  by_cases hk : key = k
  · subst hk
    cases s.namedEntries.find? key with
    | none => simp
    | some entry => simp
  · simp [hk]

/-- The actor put last, after `put_named`. -/
theorem latest_cons {s : NamedActors} {puts : List (UInt64 × Option ActorRef)}
    {key : UInt64} {value : Option ActorRef} (hputs : s.puts = (key, value) :: puts)
    (k : UInt64) : s.latest k = if key = k then value else { s with puts }.latest k := by
  rw [latest, hputs, List.find?_cons]
  by_cases hk : key = k
  · simp [hk]
  · have hbeq : (key == k) = false := by simpa using hk
    rw [if_neg hk]
    simp only [hbeq]
    rfl

/-- An actor that was put last was put. -/
theorem mem_puts_of_latest {s : NamedActors} {key : UInt64} {a : ActorRef}
    (h : s.latest key = some a) : (key, some a) ∈ s.puts := by
  rw [latest, Option.join_eq_some_iff, Option.map_eq_some_iff] at h
  obtain ⟨⟨k, value⟩, hfind, rfl⟩ := h
  have hk : k = key := by simpa using List.find?_some hfind
  subst hk
  exact List.mem_of_find?_eq_some hfind

/-- What is known depends on the actors alone. -/
theorem knows_congr {s s' : NamedActors} (hexited : s'.exited = s.exited)
    (hfired : s'.fired = s.fired) (key : UInt64) (value answer : Option ActorRef) :
    s'.Knows key value answer ↔ s.Knows key value answer := by
  cases value with
  | none => exact Iff.rfl
  | some a => rw [Knows, Knows, hexited, hfired]

/-- A call that makes the first entry: nobody has told of a termination yet. -/
theorem Watched.knows_self {s : NamedActors} (hw : Watched s) {key : UInt64}
    {value : Option ActorRef} (hmem : (key, value) ∈ s.calls)
    (hnone : s.namedEntries.find? key = none) : s.Knows key value value := by
  cases value with
  | none => rfl
  | some a =>
    refine .inl ⟨rfl, ?_⟩
    by_cases ha : a ∈ s.exited
    · obtain hfired | hcontains := hw.told key a hmem ha
      · exact .inr hfired
      · rw [UMap.contains, hnone] at hcontains
        cases hcontains
    · exact .inl ha

/-- A call of `put_named` that takes the lock. -/
theorem current_put_iff {s : NamedActors} (hw : Watched s) (hc : Current s) {key : UInt64}
    {value : Option ActorRef} (hmem : (key, value) ∈ s.calls) :
    Current { s.emplaceNamed key value with
      calls := s.calls.erase (key, value), puts := (key, value) :: s.puts } ↔
      InOrder s (.put key value) := by
  let s' : NamedActors := { s.emplaceNamed key value with
    calls := s.calls.erase (key, value), puts := (key, value) :: s.puts }
  have hlatest : ∀ k, s'.latest k = if key = k then value else s.latest k := latest_cons rfl
  have hget : ∀ k, s'.getNamed k =
      if key = k ∧ s.namedEntries.find? key = none then value else s.getNamed k :=
    s.getNamed_emplaceNamed key value
  have hknows : ∀ k v a, s'.Knows k v a ↔ s.Knows k v a := knows_congr rfl rfl
  -- nothing changes for other keys
  have hother : Current s' ↔ s.Knows key value (s'.getNamed key) := by
    refine ⟨fun h => ?_, fun h k => ?_⟩
    · have hk := h key
      rwa [hlatest, if_pos rfl, hknows] at hk
    · rw [hlatest, hknows]
      by_cases hk : key = k
      · subst hk
        rwa [if_pos rfl]
      · rw [if_neg hk, hget, if_neg fun h => hk h.1]
        exact hc k
  -- the callback or the put decides for its own key alone
  show Current s' ↔ _
  rw [hother, InOrder, hget]
  cases hfind : s.namedEntries.find? key with
  | none => simpa using hw.knows_self hmem hfind
  | some entry => simp [getNamed, hfind]

/-- A functor that is called. -/
theorem current_callback_iff {s : NamedActors} (hw : Watched s) (hc : Current s) {a : ActorRef}
    {key : UInt64} (hmem : (a, key) ∈ s.fired) :
    Current { s.emplaceNamed key none with fired := s.fired.erase (a, key) } ↔
      InOrder s (.callback a key) := by
  let s' : NamedActors := { s.emplaceNamed key none with fired := s.fired.erase (a, key) }
  have hget : ∀ k, s'.getNamed k = s.getNamed k := s.getNamed_emplaceNamed_none key
  have hlast : ∀ k, s'.latest k = s.latest k := fun _ => rfl
  have hexited : a ∈ s.exited := hw.fired _ hmem
  -- the callback of a dead actor is dropped if its name is stored again
  refine ⟨fun h hentry => ?_, fun horder k => ?_⟩
  · -- the entry names the actor, so the actor was put last
    have hname : s.getNamed key = some a := by
      rw [getNamed, hentry]
      rfl
    have hbefore : s.Knows key (s.latest key) (s.getNamed key) := hc key
    have hafter : s'.Knows key (s'.latest key) (s'.getNamed key) := h key
    rw [hname] at hbefore
    rw [hlast, hget, hname] at hafter
    cases hlatest : s.latest key with
    | none =>
      rw [hlatest] at hbefore
      cases hbefore
    | some b =>
      rw [hlatest] at hbefore hafter
      obtain ⟨hb, -⟩ | ⟨hb, -⟩ := hbefore
      · cases hb
        obtain ⟨-, hlive | hfired⟩ | ⟨hnone, -⟩ := hafter
        · exact absurd hexited hlive
        · exact hfired
        · cases hnone
      · cases hb
  · have hk := hc k
    show s'.Knows k (s'.latest k) (s'.getNamed k)
    rw [hlast, hget]
    cases hlatest : s.latest k with
    | none =>
      rw [hlatest] at hk
      exact hk
    | some b =>
      rw [hlatest] at hk
      refine hk.imp_left fun ⟨hname, htold⟩ => ⟨hname, htold.imp_right fun hfired => ?_⟩
      by_cases hpair : (b, k) = (a, key)
      · cases hpair
        refine horder ?_
        rwa [getNamed, Option.join_eq_some_iff] at hname
      · exact (List.mem_erase_of_ne hpair).mpr hfired

/-- An actor that terminates. -/
theorem Current.exit {s : NamedActors} (hw : Watched s) (hc : Current s) (b : ActorRef) :
    Current { s with
      exited := b :: s.exited
      attached := s.attached.filter fun f => f.1 ≠ b
      fired := s.attached.filter (fun f => f.1 = b) ++ s.fired } := by
  intro k
  have hk := hc k
  show Knows _ k (s.latest k) (s.getNamed k)
  cases hlatest : s.latest k with
  | none =>
    rw [hlatest] at hk
    exact hk
  | some a =>
    rw [hlatest] at hk
    refine hk.imp (fun ⟨hname, htold⟩ => ⟨hname, ?_⟩) fun ⟨hnone, ha⟩ =>
      ⟨hnone, List.mem_cons_of_mem _ ha⟩
    obtain hlive | hfired := htold
    · by_cases hb : a = b
      · -- its functor is called later
        have hattached := hw.puts k a (mem_puts_of_latest hlatest) hlive
        exact .inr ((mem_fired_of_exit hattached).1 hb)
      · left
        rw [List.mem_cons, not_or]
        exact ⟨hb, hlive⟩
    · exact .inr (List.mem_append_right _ hfired)

/-- A step from a current state leads to a current state if and only if it is in order. -/
theorem current_step_iff {s s' : NamedActors} {e : NamedEvent} (hw : Watched s) (hc : Current s)
    (hs : s.step e = some s') : Watched s' ∧ (Current s' ↔ InOrder s e) := by
  -- attaching changes no name, and the other events are handled above
  cases e with
  | attach key value =>
    rw [step, Option.some.injEq] at hs
    subst hs
    refine ⟨hw.attach key value, iff_of_true (fun k => ?_) trivial⟩
    obtain ⟨hexited, hfired, hputs, hget⟩ := s.attachFunctor_frame key value
    have hlatest : (s.attachFunctor key value).latest k = s.latest k := by
      rw [latest, latest, hputs]
    show Knows _ k ((s.attachFunctor key value).latest k) ((s.attachFunctor key value).getNamed k)
    rw [hlatest, hget]
    exact (knows_congr hexited hfired k _ _).mpr (hc k)
  | put key value =>
    rw [step] at hs
    split_ifs at hs with hmem
    rw [Option.some.injEq] at hs
    subst hs
    exact ⟨hw.put hmem, current_put_iff hw hc hmem⟩
  | exit a =>
    rw [step] at hs
    split_ifs at hs
    rw [Option.some.injEq] at hs
    subst hs
    exact ⟨hw.exit a, iff_of_true (hc.exit hw a) trivial⟩
  | callback a key =>
    rw [step] at hs
    split_ifs at hs with hmem
    rw [Option.some.injEq] at hs
    subst hs
    exact ⟨hw.callback a key, current_callback_iff hw hc hmem⟩

/-- The states of the runs whose steps meet `ok`. -/
abbrev Reachable (ok : NamedActors → NamedEvent → Prop) : NamedActors → Prop :=
  Reach (· = initial) step ok

/-- Runs in order keep every actor watched and every name current. -/
theorem invariants {s : NamedActors} (h : Reachable InOrder s) : Watched s ∧ Current s := by
  refine Reach.invariant (I := fun s => Watched s ∧ Current s) ?_ ?_ h
  · rintro s rfl
    exact ⟨watched_initial, fun _ => rfl⟩
  · rintro s e s' ⟨hw, hc⟩ hok hs
    obtain ⟨hw', hiff⟩ := current_step_iff hw hc hs
    exact ⟨hw', hiff.mpr hok⟩

/-- In every run whose steps are in order, `get_named` returns what was put last, for every key;
a step that is not in order makes it return something else. What terminations and functors do
never changes what it returns. -/
theorem current_of_inOrder {s : NamedActors} (h : Reachable InOrder s) :
    Current s ∧ (∀ e s', s.step e = some s' → (Current s' ↔ InOrder s e)) ∧
      ∀ e s', (∃ a, e = .exit a ∨ ∃ key, e = .callback a key) → s.step e = some s' →
        s'.getNamed = s.getNamed := by
  obtain ⟨hw, hc⟩ := invariants h
  refine ⟨hc, fun e s' hs => (current_step_iff hw hc hs).2, ?_⟩
  rintro e s' ⟨a, he⟩ hs
  exact getNamed_of_exit he hs

/-- An actor is put under two names. -/
theorem current_of_inOrder_two : ∃ s, Reachable InOrder s ∧ s.getNamed 1 = some 7 ∧
    s.getNamed 2 = some 7 ∧ Current s := by
  obtain ⟨s, hr, hs⟩ := exists_run (fun s e => if InOrder s e then step s e else none) initial
    [.attach 1 (some 7), .put 1 (some 7), .attach 2 (some 7), .put 2 (some 7)]
    (fun s => decide (s.getNamed 1 = some 7 ∧ s.getNamed 2 = some 7)) (by decide)
  have h : Reachable InOrder s := reach_of_checked_run (.init rfl) hr
  obtain ⟨hone, htwo⟩ := of_decide_eq_true hs
  exact ⟨s, h, hone, htwo, (current_of_inOrder h).1⟩

/-- Nobody gets an actor that replaces another, and a terminated actor stays. -/
theorem stale_names :
    (∃ s, Reachable anyStep s ∧ s.latest 1 = some 8 ∧ s.getNamed 1 = some 7 ∧ ¬ Current s) ∧
      ∃ s, Reachable anyStep s ∧ s.latest 1 = some 7 ∧ 7 ∈ s.exited ∧ s.fired = [] ∧
        s.getNamed 1 = some 7 ∧ ¬ Current s := by
  refine ⟨?_, ?_⟩
  · obtain ⟨s, hr, hs⟩ := exists_run step initial
      [.attach 1 (some 7), .put 1 (some 7), .attach 1 (some 8), .put 1 (some 8)]
      (fun s => decide (s.latest 1 = some 8 ∧ s.getNamed 1 = some 7 ∧
        ¬ s.Knows 1 (s.latest 1) (s.getNamed 1))) (by decide)
    obtain ⟨hlatest, hname, hnot⟩ := of_decide_eq_true hs
    exact ⟨s, reach_of_run (.init rfl) hr, hlatest, hname, fun hc => hnot (hc 1)⟩
  · obtain ⟨s, hr, hs⟩ := exists_run step initial
      [.attach 1 (some 7), .put 1 (some 7), .exit 7, .callback 7 1]
      (fun s => decide (s.latest 1 = some 7 ∧ 7 ∈ s.exited ∧ s.fired = [] ∧
        s.getNamed 1 = some 7 ∧ ¬ s.Knows 1 (s.latest 1) (s.getNamed 1))) (by decide)
    obtain ⟨hlatest, hexited, hfired, hname, hnot⟩ := of_decide_eq_true hs
    exact ⟨s, reach_of_run (.init rfl) hr, hlatest, hexited, hfired, hname, fun hc => hnot (hc 1)⟩

end NamedActors

end BoostActor
