import BoostActor.Lib.Run
import BoostActor.Core.GroupManager

/-!
# Joining a remote group

A `local_group_proxy` joins the broker of the original group with its first subscriber and
leaves it with its last one. Actors subscribe and unsubscribe at the same time, one call each:
a call changes the subscribers under the lock, releases the lock, and only then sends its
message to the remote broker. The remote broker handles these messages in the order in which
they were sent, in between the messages of other proxies.

* `willBeJoined` — whether the proxy has joined when all messages have been handled;
* `joined_iff_subscribers` — a quiescent proxy has joined iff it has subscribers, in every run
  in which no call sends its join message before an earlier leave message.
-/

namespace BoostActor

open Lib

/-- What a proxy tells the remote broker. -/
inductive Notice where
  | join
  | leave
deriving DecidableEq, Repr

/-- A `local_group_proxy` and the broker of the original group. -/
structure RemoteGroup where
  proxyBroker : ActorAddr
  subscribers : USet ActorAddr
  /-- the calls that have released the lock and not sent their message yet -/
  unsent : List (ActorAddr × Notice)
  /-- the messages to the remote broker -/
  channel : List Notice
  broker : LocalBroker

namespace RemoteGroup

/-- `add_subscriber`. -/
def addSubscriber (s : RemoteGroup) (who : ActorAddr) : (Bool × Nat) × RemoteGroup :=
  if who = .invalid ∨ who ∈ s.subscribers then ((false, s.subscribers.elems.length), s)
  else
    let subscribers := s.subscribers.insert who
    ((true, subscribers.elems.length), { s with subscribers })

/-- `erase_subscriber`. -/
def eraseSubscriber (s : RemoteGroup) (who : ActorAddr) : (Bool × Nat) × RemoteGroup :=
  let subscribers := s.subscribers.erase who
  ((decide (who ∈ s.subscribers), subscribers.elems.length), { s with subscribers })

/-- The first part of `local_group_proxy::subscribe`. -/
def subscribe (s : RemoteGroup) (who : ActorAddr) : RemoteGroup :=
  let (res, s) := s.addSubscriber who
  if res.1 ∧ res.2 = 1 then { s with unsent := s.unsent ++ [(who, .join)] } else s

/-- The first part of `local_group_proxy::unsubscribe`. -/
def unsubscribe (s : RemoteGroup) (who : ActorAddr) : RemoteGroup :=
  let (res, s) := s.eraseSubscriber who
  if res.1 ∧ res.2 = 0 then { s with unsent := s.unsent ++ [(who, .leave)] } else s

/-- An actor is in the middle of a call. -/
def calling (s : RemoteGroup) (who : ActorAddr) : Bool := (s.unsent.map (·.1)).contains who

/-- What the remote broker does with a message from this proxy. -/
def receive (s : RemoteGroup) : Notice → LocalBroker
  | .join => s.broker.join s.proxyBroker
  | .leave => s.broker.leave s.proxyBroker

inductive Move where
  | subscribe (who : ActorAddr)
  | unsubscribe (who : ActorAddr)
  /-- `anon_send(broker_, ...)`, the second part of a call -/
  | transmit (who : ActorAddr) (n : Notice)
  /-- the remote broker handles the next message of this proxy -/
  | handle
  /-- the remote broker handles a message of another proxy -/
  | handleOther (other : ActorAddr) (n : Notice)
deriving DecidableEq, Repr

def step (s : RemoteGroup) : Move → Option RemoteGroup
  | .subscribe who => if s.calling who then none else some (s.subscribe who)
  | .unsubscribe who => if s.calling who then none else some (s.unsubscribe who)
  | .transmit who n =>
    if (who, n) ∈ s.unsent then
      some { s with unsent := s.unsent.erase (who, n), channel := s.channel ++ [n] }
    else none
  | .handle =>
    match s.channel with
    | [] => none
    | n :: channel => some { s with channel, broker := s.receive n }
  | .handleOther other n =>
    if other = s.proxyBroker then none
    else
      match n with
      | .join => some { s with broker := s.broker.join other }
      | .leave => some { s with broker := s.broker.leave other }

/-- A new proxy. -/
def isInitial (s : RemoteGroup) : Prop :=
  s.proxyBroker ≠ .invalid ∧ s.proxyBroker ∉ s.broker.acquaintances ∧
    s.subscribers = .empty ∧ s.unsent = [] ∧ s.channel = []

/-- The states of runs whose steps all meet a condition. -/
def Reachable (ok : RemoteGroup → Move → Prop) : RemoteGroup → Prop :=
  Reach isInitial step ok

/-- No call is in progress, and the remote broker has handled everything. -/
def quiescent (s : RemoteGroup) : Prop := s.unsent = [] ∧ s.channel = []

/-- A call sends its join message. -/
def Move.sendsJoin : Move → Bool
  | .transmit _ .join => true
  | _ => false

/-- A join message is not sent while a leave message is still unsent. -/
def leavesFirst (s : RemoteGroup) (m : Move) : Prop :=
  m.sendsJoin = true → ∀ e ∈ s.unsent, e.2 ≠ .leave

instance (s : RemoteGroup) (m : Move) : Decidable (leavesFirst s m) :=
  inferInstanceAs (Decidable (_ → _))

-- -------------------------
-- What one step does
-- -------------------------

variable {s s' : RemoteGroup} {who : ActorAddr}

/-- The first subscriber makes the proxy join. -/
theorem subscribe_cases (s : RemoteGroup) (who : ActorAddr) :
    s.subscribe who = s ∨
    (who ∉ s.subscribers ∧ s.subscribers.elems = [] ∧ s.subscribe who =
      { s with
        subscribers := s.subscribers.insert who
        unsent := s.unsent ++ [(who, .join)] }) ∨
    (s.subscribers.elems ≠ [] ∧
      s.subscribe who = { s with subscribers := s.subscribers.insert who }) := by
  unfold subscribe addSubscriber
  by_cases hno : who = .invalid ∨ who ∈ s.subscribers
  · simp [hno]
  · have hmem : who ∉ s.subscribers := fun h => hno (.inr h)
    have hlen := USet.length_insert hmem
    rw [if_neg hno]
    dsimp only
    by_cases he : s.subscribers.elems = []
    · refine .inr (.inl ⟨hmem, he, ?_⟩)
      rw [if_pos ⟨rfl, by rw [hlen, he]; rfl⟩]
    · refine .inr (.inr ⟨he, ?_⟩)
      rw [if_neg]
      rintro ⟨-, h1⟩
      rw [hlen] at h1
      exact he (List.length_eq_zero_iff.mp (by omega))

/-- The last subscriber makes the proxy leave. -/
theorem unsubscribe_cases (s : RemoteGroup) (who : ActorAddr) :
    (who ∈ s.subscribers ∧ (s.subscribers.erase who).elems = [] ∧ s.unsubscribe who =
      { s with
        subscribers := s.subscribers.erase who
        unsent := s.unsent ++ [(who, .leave)] }) ∨
    ((who ∉ s.subscribers ∨ (s.subscribers.erase who).elems ≠ []) ∧
      s.unsubscribe who = { s with subscribers := s.subscribers.erase who }) := by
  unfold unsubscribe eraseSubscriber
  dsimp only
  by_cases h : who ∈ s.subscribers ∧ (s.subscribers.erase who).elems = []
  · refine .inl ⟨h.1, h.2, ?_⟩
    rw [if_pos ⟨by simp [h.1], by simp [h.2]⟩]
  · refine .inr ⟨by tauto, ?_⟩
    rw [if_neg]
    rintro ⟨h1, h2⟩
    exact h ⟨of_decide_eq_true h1, List.length_eq_zero_iff.mp h2⟩

-- -------------------------
-- The invariant
-- -------------------------

/-- Whether the proxy has joined when the messages on their way have been handled. -/
def willBeJoined (s : RemoteGroup) : Bool :=
  s.channel.foldl (fun _ n => decide (n = .join)) (decide (s.proxyBroker ∈ s.broker.acquaintances))

/-- The messages that can be unsent at the same time, and what they say about the subscribers.
A call with an unsent join message keeps its own subscription, so that no other call can empty
the set. -/
inductive Pending (s : RemoteGroup) : List (ActorAddr × Notice) → Prop where
  | nothing : s.willBeJoined = decide (s.subscribers.elems ≠ []) → Pending s []
  | join {y : ActorAddr} : y ∈ s.subscribers → s.willBeJoined = false → Pending s [(y, .join)]
  | leave {x : ActorAddr} : s.subscribers.elems = [] → s.willBeJoined = true →
      Pending s [(x, .leave)]
  | both {x y : ActorAddr} : y ∈ s.subscribers → s.willBeJoined = true →
      Pending s [(x, .leave), (y, .join)]

/-- What a proxy keeps. -/
structure Tracked (s : RemoteGroup) : Prop where
  valid : s.proxyBroker ≠ .invalid
  pending : s.Pending s.unsent

/-- Handling the next notice brings about what was to come. -/
theorem willBeJoined_handle {n : Notice} {channel : List Notice} (hv : s.proxyBroker ≠ .invalid)
    (hc : s.channel = n :: channel) :
    { s with channel, broker := s.receive n }.willBeJoined = s.willBeJoined := by
  unfold willBeJoined
  rw [hc, List.foldl_cons]
  congr 1
  cases n with
  | join =>
    by_cases hp : s.proxyBroker ∈ s.broker.acquaintances
    · simp [receive, LocalBroker.join, hp]
    · simp [receive, LocalBroker.join, hp, hv]
  | leave =>
    by_cases hp : s.proxyBroker ∈ s.broker.acquaintances
    · simp [receive, LocalBroker.leave, hp, hv]
    · simp [receive, LocalBroker.leave, hp]

theorem willBeJoined_transmit (unsent : List (ActorAddr × Notice)) (n : Notice) :
    { s with unsent, channel := s.channel ++ [n] }.willBeJoined = decide (n = .join) := by
  simp [willBeJoined]

/-- Other proxies do not matter. -/
theorem willBeJoined_of_other {b : LocalBroker}
    (h : s.proxyBroker ∈ b.acquaintances ↔ s.proxyBroker ∈ s.broker.acquaintances) :
    { s with broker := b }.willBeJoined = s.willBeJoined := by
  simp [willBeJoined, h]

theorem mem_join_other {b : LocalBroker} {p other : ActorAddr} (h : other ≠ p) :
    p ∈ (b.join other).acquaintances ↔ p ∈ b.acquaintances := by
  unfold LocalBroker.join
  split
  · rfl
  · simp [Ne.symm h]

theorem mem_leave_other {b : LocalBroker} {p other : ActorAddr} (h : other ≠ p) :
    p ∈ (b.leave other).acquaintances ↔ p ∈ b.acquaintances := by
  unfold LocalBroker.leave
  split
  · rfl
  · simp [Ne.symm h]

/-- Only subscribers and what is to come matter. -/
theorem Pending.congr {unsent : List (ActorAddr × Notice)} (h : s.Pending unsent)
    (hs : s'.subscribers = s.subscribers) (hw : s'.willBeJoined = s.willBeJoined) :
    s'.Pending unsent := by
  cases h with
  | nothing h => exact .nothing (by rw [hw, hs, h])
  | join hy hj => exact .join (by rwa [hs]) (by rw [hw, hj])
  | leave he hj => exact .leave (by rw [hs, he]) (by rw [hw, hj])
  | both hy hj => exact .both (by rwa [hs]) (by rw [hw, hj])

theorem not_mem_of_elems_nil {subscribers : USet ActorAddr} (h : subscribers.elems = [])
    (a : ActorAddr) : a ∉ subscribers := by
  rw [USet.mem_def, h]
  exact List.not_mem_nil

theorem elems_ne_nil {subscribers : USet ActorAddr} {a : ActorAddr} (h : a ∈ subscribers) :
    subscribers.elems ≠ [] := fun he => not_mem_of_elems_nil he a h

/-- A subscription, and the join that may follow from it. -/
theorem Tracked.subscribe (h : Tracked s) (who : ActorAddr) : Tracked (s.subscribe who) := by
  obtain ⟨hv, hp⟩ := h
  rcases s.subscribe_cases who with he | ⟨-, hempty, he⟩ | ⟨hne, he⟩
  · rw [he]
    exact ⟨hv, hp⟩
  · -- the first subscriber: the proxy is not about to join, or about to leave
    rw [he]
    refine ⟨hv, ?_⟩
    have hwho : who ∈ s.subscribers.insert who := USet.mem_insert.mpr (.inl rfl)
    dsimp only
    generalize s.unsent = unsent at hp ⊢
    cases hp with
    | nothing hj => exact .join hwho (hj.trans (by simp [hempty]))
    | join hy _ => exact absurd hy (not_mem_of_elems_nil hempty _)
    | leave _ hj => exact .both hwho hj
    | both hy _ => exact absurd hy (not_mem_of_elems_nil hempty _)
  · -- there were subscribers before
    rw [he]
    refine ⟨hv, ?_⟩
    dsimp only
    generalize s.unsent = unsent at hp ⊢
    cases hp with
    | nothing hj =>
      have hne' : (s.subscribers.insert who).elems ≠ [] :=
        elems_ne_nil (USet.mem_insert.mpr (.inl rfl))
      exact .nothing (hj.trans (by simp [hne, hne']))
    | join hy hj => exact .join (USet.mem_insert.mpr (.inr hy)) hj
    | leave hn _ => exact absurd hn hne
    | both hy hj => exact .both (USet.mem_insert.mpr (.inr hy)) hj

/-- The end of a subscription, and the leave that may follow from it. -/
theorem Tracked.unsubscribe (h : Tracked s) (hc : s.calling who = false) :
    Tracked (s.unsubscribe who) := by
  obtain ⟨hv, hp⟩ := h
  -- the subscriptions of calls in progress are not erased
  have hkeep : ∀ {y n}, (y, n) ∈ s.unsent → y ∈ s.subscribers → y ∈ s.subscribers.erase who := by
    intro y n hu hy
    refine USet.mem_erase.mpr ⟨fun he => ?_, hy⟩
    subst he
    have : s.calling y = true := by
      rw [calling, List.contains_iff_mem]
      exact List.mem_map.mpr ⟨_, hu, rfl⟩
    rw [this] at hc
    exact Bool.noConfusion hc
  rcases s.unsubscribe_cases who with ⟨hwho, hempty, he⟩ | ⟨hno, he⟩
  · -- it was the last one
    rw [he]
    refine ⟨hv, ?_⟩
    dsimp only
    have hlast : ∀ {y n}, (y, n) ∈ s.unsent → y ∉ s.subscribers := fun hu hy =>
      not_mem_of_elems_nil hempty _ (hkeep hu hy)
    generalize s.unsent = unsent at hp hlast ⊢
    cases hp with
    | nothing hj => exact .leave hempty (hj.trans (by simp [elems_ne_nil hwho]))
    | join hy _ => exact absurd hy (hlast List.mem_cons_self)
    | leave hn _ => exact absurd hwho (not_mem_of_elems_nil hn _)
    | both hy _ => exact absurd hy (hlast (List.mem_cons_of_mem _ List.mem_cons_self))
  · -- there are others, or it was none
    rw [he]
    refine ⟨hv, ?_⟩
    dsimp only
    generalize s.unsent = unsent at hp hkeep ⊢
    cases hp with
    | nothing hj =>
      refine .nothing (hj.trans ?_)
      rcases hno with hno | hno
      · rw [USet.erase_of_not_mem hno]
      · have hne : s.subscribers.elems ≠ [] := fun hn => hno (by simp [USet.erase, hn])
        simp [hne, hno]
    | join hy hj => exact .join (hkeep List.mem_cons_self hy) hj
    | leave hn hj => exact .leave (by simp [USet.erase, hn]) hj
    | both hy hj => exact .both (hkeep (List.mem_cons_of_mem _ List.mem_cons_self) hy) hj

/-- A notice is put on its way. -/
theorem Tracked.transmit {n : Notice} (h : Tracked s) (hu : (who, n) ∈ s.unsent)
    (hok : leavesFirst s (.transmit who n)) :
    Tracked { s with unsent := s.unsent.erase (who, n), channel := s.channel ++ [n] } := by
  obtain ⟨hv, hp⟩ := h
  refine ⟨hv, ?_⟩
  have hw := fun unsent => willBeJoined_transmit (s := s) unsent n
  unfold leavesFirst at hok
  dsimp only
  generalize s.unsent = unsent at hp hu hok ⊢
  cases hp with
  | nothing _ => exact absurd hu List.not_mem_nil
  | join hy _ =>
    cases List.mem_singleton.mp hu
    rw [List.erase_cons_head]
    exact .nothing (by simp [hw, elems_ne_nil hy])
  | leave hn _ =>
    cases List.mem_singleton.mp hu
    rw [List.erase_cons_head]
    exact .nothing (by simp [hw, hn])
  | both hy _ =>
    rcases List.mem_cons.mp hu with hu | hu
    · cases hu
      rw [List.erase_cons_head]
      exact .join hy (by simp [hw])
    · -- the join must not be overtaken by the leave
      cases List.mem_singleton.mp hu
      exact absurd rfl (hok rfl _ List.mem_cons_self)

/-- Every step keeps track of subscribers. -/
theorem Tracked.step {m : Move} (h : Tracked s) (hok : leavesFirst s m)
    (hs : s.step m = some s') : Tracked s' := by
  cases m with
  | subscribe who =>
    simp only [RemoteGroup.step] at hs
    split at hs
    · cases hs
    · cases hs
      exact h.subscribe who
  | unsubscribe who =>
    simp only [RemoteGroup.step] at hs
    split at hs
    · cases hs
    · next hc =>
      cases hs
      exact h.unsubscribe (by simpa using hc)
  | transmit who n =>
    simp only [RemoteGroup.step] at hs
    split at hs
    · next hu =>
      cases hs
      exact h.transmit hu hok
    · cases hs
  | handle =>
    cases hc : s.channel with
    | nil => simp [RemoteGroup.step, hc] at hs
    | cons n channel =>
      simp only [RemoteGroup.step, hc, Option.some.injEq] at hs
      subst hs
      exact ⟨h.valid, h.pending.congr rfl (willBeJoined_handle h.valid hc)⟩
  | handleOther other n =>
    simp only [RemoteGroup.step] at hs
    split at hs
    · cases hs
    · next hne =>
      cases n with
      | join =>
        cases hs
        exact ⟨h.valid, h.pending.congr rfl (willBeJoined_of_other (mem_join_other hne))⟩
      | leave =>
        cases hs
        exact ⟨h.valid, h.pending.congr rfl (willBeJoined_of_other (mem_leave_other hne))⟩

/-- In runs in which leaves come first, subscribers are tracked. -/
theorem Tracked.reachable (h : Reachable leavesFirst s) : Tracked s := by
  refine Reach.invariant (fun s hs => ?_) (fun _ _ _ hI hok hs => hI.step hok hs) h
  obtain ⟨hv, hno, hsub, hun, hch⟩ := hs
  refine ⟨hv, ?_⟩
  rw [hun]
  exact .nothing (by simp [willBeJoined, hch, hno, hsub, USet.empty])

/-- In every run in which leave messages are sent before later join messages, a quiescent proxy
has joined the remote broker iff it has subscribers. -/
theorem joined_iff_subscribers (h : Reachable leavesFirst s) (hq : s.quiescent) :
    s.proxyBroker ∈ s.broker.acquaintances ↔ s.subscribers.elems ≠ [] := by
  have hp := (Tracked.reachable h).pending
  rw [hq.1] at hp
  cases hp with
  | nothing hj =>
    rw [willBeJoined, hq.2, List.foldl_nil] at hj
    exact decide_eq_decide.mp hj

/-- A proxy without subscribers, with the broker of a group that nobody has joined. -/
def fresh : RemoteGroup where
  proxyBroker := .proxy 7
  subscribers := .empty
  unsent := []
  channel := []
  broker := ⟨.empty, fun _ => 0, ExitReason.notExited⟩

theorem fresh_isInitial : isInitial fresh := ⟨nofun, by decide, rfl, rfl, rfl⟩

/-- The last subscriber leaves and another actor subscribes; the leave message is sent before
the join message. -/
theorem joined_iff_subscribers_again : ∃ s, Reachable leavesFirst s ∧ s.quiescent ∧
    s.proxyBroker ∈ s.broker.acquaintances := by
  obtain ⟨s, hr, hs⟩ := exists_run
    (fun s m => if leavesFirst s m then step s m else none) fresh
    [.subscribe (.localActor 1), .transmit (.localActor 1) .join, .handle,
      .unsubscribe (.localActor 1), .subscribe (.localActor 2),
      .transmit (.localActor 1) .leave, .transmit (.localActor 2) .join, .handle, .handle]
    (fun s => decide ((s.unsent = [] ∧ s.channel = []) ∧ s.subscribers.elems ≠ [])) (by decide)
  have h : Reachable leavesFirst s := reach_of_checked_run (.init fresh_isInitial) hr
  obtain ⟨hq, hne⟩ := of_decide_eq_true hs
  exact ⟨s, h, hq, (joined_iff_subscribers h hq).mpr hne⟩

/-- The same calls, with the messages the other way around: the proxy has a subscriber and the
remote broker has removed it. -/
theorem subscriber_not_joined : ∃ s, Reachable anyStep s ∧ s.quiescent ∧
    ¬ (s.proxyBroker ∈ s.broker.acquaintances ↔ s.subscribers.elems ≠ []) := by
  obtain ⟨s, hr, hs⟩ := exists_run step fresh
    [.subscribe (.localActor 1), .transmit (.localActor 1) .join, .handle,
      .unsubscribe (.localActor 1), .subscribe (.localActor 2),
      .transmit (.localActor 2) .join, .transmit (.localActor 1) .leave, .handle, .handle]
    (fun s => decide ((s.unsent = [] ∧ s.channel = []) ∧ s.subscribers.elems ≠ [] ∧
      s.proxyBroker ∉ s.broker.acquaintances)) (by decide)
  obtain ⟨hq, hne, hno⟩ := of_decide_eq_true hs
  exact ⟨s, reach_of_run (.init fresh_isInitial) hr, hq, fun h => hno (h.mpr hne)⟩

end RemoteGroup

end BoostActor
