import BoostActor.Io.Wiring

/-!
# Local actors and their registry

Messages change the local actors of a node through side activities only
(`DataStep.sideways`). From this follows what the registry promises: an entry that
is not marked as exited refers to an actor with that id.

* `registered_of_reachable` — in every reachable state.
-/

namespace BoostActor

open Lib

variable {hdl : ConnectionHandle} {hdr : Header} {payload : Option Bytes} {via : List NodeId}
  {s s' : Broker}

/-! ## What a message does to local actors -/

/-- The local actors and their registry stay as they are. -/
structure ActorsKept (s s' : Broker) : Prop where
  actors : s'.actors = s.actors
  registry : s'.registry = s.registry

/-- The local actors change through side activities only. -/
def Sideways : Broker → Broker → Prop :=
  Relation.ReflTransGen fun a b => (∃ T, Act T a b) ∨ ActorsKept a b

theorem Sideways.trans {a b c : Broker} (h : Sideways a b) (h' : Sideways b c) : Sideways a c :=
  Relation.ReflTransGen.trans h h'

theorem ActorsKept.sideways (h : ActorsKept s s') : Sideways s s' :=
  Relation.ReflTransGen.single (Or.inr h)

theorem Quiet.sideways {T : Turn} (h : Quiet T s s') : Sideways s s' :=
  Relation.ReflTransGen.mono (fun _ _ ha => Or.inl ⟨T, ha⟩) _ _ h

/-- What side activities and changes elsewhere preserve. -/
theorem Sideways.preserves {P : Broker → Prop} (h : Sideways s s')
    (hact : ∀ {T a b}, P a → Act T a b → P b) (hkept : ∀ {a b}, P a → ActorsKept a b → P b)
    (hs : P s) : P s' := by
  induction h with
  | refl => exact hs
  | tail _ hlast ih =>
    rcases hlast with ⟨T, ha⟩ | hk
    · exact hact ih ha
    · exact hkept ih hk

theorem KillsOnly.actorsKept (h : KillsOnly s s') : ActorsKept s s' := by
  obtain ⟨_, _, _, rfl⟩ := h
  exact ⟨rfl, rfl⟩

/-- Purging a node keeps the actors. -/
theorem Broker.purgeState_actorsKept (nid : NodeId) : ActorsKept s (s.purgeState nid) := by
  cases hk : s.tbl.connected nid with
  | true =>
    obtain ⟨_, _, _, he⟩ := purgeState_eq hk
    rw [he]
    exact ⟨rfl, rfl⟩
  | false =>
    rw [purgeState_of_not_connected hk]
    exact ⟨rfl, rfl⟩

/-- Erasing a direct route keeps the actors. -/
theorem Broker.eraseDirect_actorsKept : ActorsKept s (s.eraseDirect hdl) := by
  cases hb : s.tbl.directByHdl.find? hdl with
  | none =>
    rw [eraseDirect_of_unbound hb]
    exact ⟨rfl, rfl⟩
  | some nid =>
    rw [eraseDirect_eq hb]
    exact ⟨(purgeState_actorsKept nid).actors, (purgeState_actorsKept nid).registry⟩

theorem Broker.bindDirect_actorsKept (hdl : ConnectionHandle) (nid : NodeId) :
    ActorsKept s (s.bindDirect hdl nid) := by
  rw [bindDirect_eq]
  exact ⟨rfl, rfl⟩

/-- The end of a handshake goes sideways. -/
theorem Finalized.sideways {nid : NodeId} {aid : ActorId} (h : Finalized hdl nid aid s s') :
    Sideways s s' := by
  cases h with
  | silent => exact ActorsKept.sideways ⟨rfl, rfl⟩
  | answer _ _ _ _ hq =>
    have h₁ : ActorsKept s ((s.identify hdl nid).takeCallback hdl) := ⟨rfl, rfl⟩
    exact h₁.sideways.trans (hq.sideways.trans (ActorsKept.sideways ⟨rfl, rfl⟩))

/-- Processing a message goes sideways. -/
theorem Processed.sideways {next : ConnectionState} (h : Processed hdl hdr payload via s next s') :
    Sideways s s' := by
  have hbind := (Broker.bindDirect_actorsKept (s := s) hdl hdr.sourceNode).sideways
  cases h with
  | reject => exact Broker.eraseDirect_actorsKept.sideways
  | side _ _ hq => exact hq.sideways
  | kill => exact (Broker.eraseProxy_killsOnly _ _ _).actorsKept.sideways
  | refuse _ _ _ _ hf => exact hf.sideways.trans Broker.eraseDirect_actorsKept.sideways
  | server _ _ _ _ _ hq hf hq' =>
    exact hbind.trans (hq.sideways.trans (hf.sideways.trans hq'.sideways))
  | noRoute _ _ _ _ _ hq =>
    exact hbind.trans (hq.sideways.trans Broker.eraseDirect_actorsKept.sideways)
  | client _ _ _ hq => exact hbind.trans hq.sideways

/-- A message that is broken off goes sideways. -/
theorem Aborted.sideways (h : Aborted hdl hdr payload via s s') : Sideways s s' := by
  have hbind := (Broker.bindDirect_actorsKept (s := s) hdl hdr.sourceNode).sideways
  have hid : ∀ {s : Broker}, Sideways s ((s.identify hdl hdr.sourceNode).takeCallback hdl) :=
    ActorsKept.sideways ⟨rfl, rfl⟩
  cases h with
  | side _ _ hq => exact hq.sideways
  | refuse _ _ _ hq => exact hid.trans hq.sideways
  | bound _ hq => exact hbind.trans hq.sideways
  | answering _ hq hq' => exact hbind.trans (hq.sideways.trans (hid.trans hq'.sideways))
  | finalized _ hq hf hq' =>
    exact hbind.trans (hq.sideways.trans (hf.sideways.trans hq'.sideways))

theorem Arrived.sideways {dm : NewData} (h : Arrived dm s s' hdr payload) : Sideways s s' := by
  cases h with
  | payload => exact .refl
  | header => exact ActorsKept.sideways ⟨rfl, rfl⟩

theorem Handled.sideways {dm : NewData} {next : ConnectionState} (h : Handled dm s next s') :
    Sideways s s' := by
  cases h with
  | mismatch => exact Broker.eraseDirect_actorsKept.sideways
  | await => exact ActorsKept.sideways ⟨rfl, rfl⟩
  | message ha hp => exact ha.sideways.trans hp.sideways

theorem Broker.terminate_actorsKept : ActorsKept s s.terminate := by
  obtain ⟨_, _, he⟩ := terminate_eq (s := s)
  rw [he]
  exact ⟨rfl, rfl⟩

/-- Data changes the local actors through side activities only. -/
theorem DataStep.sideways {dm : NewData} (h : DataStep dm s s') : Sideways s s' := by
  have henter : Sideways s (s.enter dm.handle) := ActorsKept.sideways ⟨rfl, rfl⟩
  cases h with
  | closed hh => exact henter.trans (hh.sideways.trans (ActorsKept.sideways ⟨rfl, rfl⟩))
  | @«open» s₁ next _ hh =>
    refine henter.trans (hh.sideways.trans (ActorsKept.sideways ?_))
    show ActorsKept s₁ ((s₁.settle dm.handle next).flush dm.handle)
    unfold Broker.settle
    split
    · exact ⟨rfl, rfl⟩
    · split <;> exact ⟨rfl, rfl⟩
  | terminated hf =>
    refine henter.trans (Sideways.trans ?_ Broker.terminate_actorsKept.sideways)
    cases hf with
    | unreadable => exact .refl
    | message ha hp => exact ha.sideways.trans hp.sideways

/-! ## The registry -/

/-- What the registry promises about its entries. -/
structure Registered (s : Broker) : Prop where
  /-- an entry that is not marked as exited refers to the actor with its id -/
  entry : ∀ {key ref}, s.registry.find? key = some (ref, ExitReason.notExited) →
    ∃ r act, ref = some r ∧ s.actors[r]? = some act ∧ act.id = key
  /-- only an actor that has exited calls its functors -/
  exiting : ∀ {r : ActorRef} {act : LocalActor}, s.actors[r]? = some act →
    act.exitReason = ExitReason.notExited →
    act.exiting = []

namespace Registered

/-- Keeping actors and registry keeps entries and actors in step. -/
theorem kept (h : Registered s) (hk : ActorsKept s s') : Registered s' := by
  refine ⟨?_, ?_⟩
  · intro key ref
    rw [hk.actors, hk.registry]
    exact h.entry
  · intro r act
    rw [hk.actors]
    exact h.exiting

/-- Actors may change as long as they keep their ids. -/
theorem modify (h : Registered s) {ref : ActorRef} {f : LocalActor → LocalActor}
    (hid : ∀ act, (f act).id = act.id)
    (hex : ∀ act, s.actors[ref]? = some act → (f act).exitReason = ExitReason.notExited →
      (f act).exiting = []) :
    Registered { s with actors := s.actors.modify ref f } := by
  refine ⟨fun {key ref'} hf => ?_, fun {r act} ha he => ?_⟩
  · obtain ⟨r, act, rfl, hact, rfl⟩ := h.entry hf
    refine ⟨r, if ref = r then f act else act, rfl, ?_, ?_⟩
    · show (s.actors.modify ref f)[r]? = _
      rw [List.getElem?_modify, hact]
      split <;> rfl
    · split
      · exact hid act
      · rfl
  · replace ha : (s.actors.modify ref f)[r]? = some act := ha
    rw [List.getElem?_modify, Option.map_eq_map, Option.map_eq_some_iff] at ha
    obtain ⟨act₀, hact₀, hact⟩ := ha
    split at hact
    · next hr =>
      subst hr
      rw [← hact] at he ⊢
      exact hex act₀ hact₀ he
    · rw [← hact] at he ⊢
      exact h.exiting hact₀ he

/-- Marking an entry as exited. -/
theorem eraseEntry (h : Registered s) {key : ActorId} {reason : ExitReason}
    (hr : reason ≠ ExitReason.notExited) : Registered (s.eraseEntry key reason) := by
  refine ⟨fun {key' ref} hf => ?_, h.exiting⟩
  replace hf : (s.registry.adjust key fun _ => (none, reason)).find? key' =
    some (ref, ExitReason.notExited) := hf
  rw [UMap.find?_adjust] at hf
  split at hf
  · rw [Option.map_eq_some_iff] at hf
    obtain ⟨_, _, he⟩ := hf
    cases he
    exact absurd rfl hr
  · exact h.entry hf

/-- A new actor is neither registered nor exited. -/
theorem addActor (h : Registered s) : Registered s.addActor := by
  refine ⟨fun {key ref} hf => ?_, fun {r act} ha he => ?_⟩
  · obtain ⟨r, act, rfl, hact, hid⟩ := h.entry hf
    refine ⟨r, act, rfl, ?_, hid⟩
    have hlt := (List.getElem?_eq_some_iff.mp hact).1
    show (s.actors ++ [_])[r]? = _
    rw [List.getElem?_append_left hlt, hact]
  · replace ha : (s.actors ++ [_])[r]? = some act := ha
    rw [List.getElem?_append] at ha
    split at ha
    · exact h.exiting ha he
    · rw [List.getElem?_singleton] at ha
      split at ha
      · cases ha
        rfl
      · cases ha

/-- Every act keeps entries and actors in step. -/
theorem act {T : Turn} (h : Registered s) (ha : Act T s s') : Registered s' := by
  cases ha with
  | spawn => exact h.addActor
  | @register ref act hact hk =>
    refine ⟨fun {key ref'} hf => ?_, h.exiting⟩
    replace hf : (s.registry.emplace act.id _).find? key = some (ref', _) := hf
    rw [UMap.find?_emplace_of_none (UMap.contains_eq_false.mp hk)] at hf
    split at hf
    · next hkey =>
      cases hf
      exact ⟨ref, act, rfl, hact, beq_iff_eq.mp hkey⟩
    · exact h.entry hf
  | attach hact he _ =>
    refine h.modify (fun _ => rfl) fun act' hact' he' => ?_
    have := h.exiting hact' he'
    exact this
  | eraseEntry hr => exact h.eraseEntry hr
  | _ => exact h.kept ⟨rfl, rfl⟩

theorem sideways (h : Registered s) (hs : Sideways s s') : Registered s' :=
  hs.preserves (fun h ha => h.act ha) (fun h hk => h.kept hk) h

theorem quiet {T : Turn} (h : Registered s) (hq : Quiet T s s') : Registered s' :=
  h.sideways hq.sideways

/-- Opening and closing ports keeps entries and actors in step. -/
theorem ports (h : Registered s) (hp : PortsOnly s s') : Registered s' := by
  obtain ⟨_, _, _, _, rfl⟩ := hp.eq
  exact h.kept ⟨rfl, rfl⟩

/-- Calling an attachable keeps entries and actors in step. -/
theorem callAttachable (h : Registered s) (ref : ActorRef) : Registered (s.callAttachable ref) := by
  unfold Broker.callAttachable
  split
  · exact h
  · next act hact =>
    split
    · exact h
    · next a rest hex =>
      -- an actor whose attachables are called has exited
      have hne : act.exitReason ≠ ExitReason.notExited := by
        intro he
        rw [h.exiting hact he] at hex
        cases hex
      have hset : s.actors.set ref { act with exiting := rest } =
          s.actors.modify ref fun act => { act with exiting := rest } := by
        apply List.ext_getElem?
        intro r
        rw [List.getElem?_set, List.getElem?_modify]
        split
        · next hr =>
          subst hr
          rw [hact, if_pos (List.getElem?_eq_some_iff.mp hact).1]
          rfl
        · simp
      have h₁ : Registered { s with actors := s.actors.set ref { act with exiting := rest } } := by
        rw [hset]
        refine h.modify (fun _ => rfl) fun act' hact' he' => ?_
        rw [hact] at hact'
        cases hact'
        exact absurd he' hne
      cases a with
      | eraseEntry key => exact h₁.eraseEntry hne
      | sendKillProxyInstance nid aid => exact h₁.kept ⟨rfl, rfl⟩

/-- Every other input keeps entries and actors in step. -/
theorem other {i : Input} (h : Registered s) (ho : Other s i s') : Registered s' := by
  cases ho with
  | ports _ hp => exact h.ports hp
  | publish _ _ hp hq => exact ((h.ports hp).quiet hq).kept ⟨rfl, rfl⟩
  | forward _ _ hq => exact h.quiet hq
  | @task index _ _ _ hd =>
    have h₁ : Registered { s with tasks := s.tasks.eraseIdx index } := h.kept ⟨rfl, rfl⟩
    cases hd with
    | eraseProxy => exact h₁.kept (Broker.eraseProxy_killsOnly _ _ _).actorsKept
    | sendKillProxyInstance hq => exact h₁.quiet hq
    | deleteProxy => exact h₁.kept (Broker.eraseProxy_killsOnly _ _ _).actorsKept
  | spawn => exact h.addActor
  | exit _ _ hr => exact h.modify (fun _ => rfl) fun _ _ he' => absurd he' hr
  | attachable ref => exact h.callAttachable ref
  | @destroy r =>
    refine h.kept ?_
    unfold Broker.destroyProxy
    split <;> exact ⟨rfl, rfl⟩

/-- Every step keeps entries and actors in step. -/
theorem step {i : Input} (h : Registered s) (hw : Wired s) (hs : s.step i = some s') :
    Registered s' := by
  cases step_cases hw hs with
  | other ho => exact h.other ho
  | ended ho => exact (h.other ho).kept Broker.terminate_actorsKept
  | data _ hd => exact h.sideways hd.sideways
  | @accepted hdl _ _ _ _ hq =>
    exact (quiet (h.kept ⟨rfl, rfl⟩ : Registered (s.opened hdl)) hq).kept ⟨rfl, rfl⟩
  | requested => exact h.kept ⟨rfl, rfl⟩
  | refused => exact h.kept ⟨rfl, rfl⟩
  | lost => exact h.kept ⟨rfl, rfl⟩
  | lostNode => exact h.kept ⟨rfl, rfl⟩

/-- A broker starts with its registry and actors in step. -/
theorem initial : s.isInitial → Registered s := by
  rintro ⟨process, order, rfl⟩
  refine ⟨fun {key ref} hf => ?_, fun {r act} ha => ?_⟩
  · simp [Broker.initial] at hf
  · simp [Broker.initial] at ha

end Registered

/-- The registry keeps its promise in every reachable state. -/
theorem registered_of_reachable {ok : Broker → Input → Prop} (h : Broker.Reachable ok s) :
    Registered s := by
  have hinv : Wired s ∧ Registered s :=
    h.invariant (I := fun s => Wired s ∧ Registered s) (fun _ hi => ⟨.initial hi, .initial hi⟩)
      fun _ _ _ hi _ hs => ⟨hi.1.step hs, hi.2.step hi.1 hs⟩
  exact hinv.2

end BoostActor
