import BoostActor.Lib.Run
import BoostActor.Lib.UnorderedMap
import BoostActor.Lib.UnorderedSet
import BoostActor.Core.Message
import BoostActor.Core.MailboxElement

/-!
# The config server

The actor behind `ConfigServ`: a key-value store that tells subscribers about updates. It
keeps the subscribers of each key and the topics of each subscriber, and monitors an actor
when it makes an entry for it.

The mailbox is a queue to which anyone adds messages. An actor that terminates adds a down
message for every monitor of the server; a monitor on a terminated actor fires at once.

* `Mirrored` — the two maps agree;
* `subscribers_monitored` — subscribers are monitored, in every run in which only actors
  that have an entry unsubscribe.
-/

namespace BoostActor

open Lib

/-- The messages that the config server handles. -/
inductive ConfigRequest where
  | put (key : Bytes) (msg : Message)
  | get (key : Bytes)
  | subscribe (key : Bytes)
  | unsubscribe (key : Bytes)
  | down (source : ActorAddr)
  | others
deriving DecidableEq, Repr

def ConfigRequest.isUnsubscribe : ConfigRequest → Bool
  | .unsubscribe _ => true
  | _ => false

/-- What handlers return, other than nothing. -/
inductive ConfigReply where
  | ok (key : Bytes) (msg : Message)
  | error (what : Bytes)
deriving DecidableEq, Repr

/-- The config server and its surroundings. -/
structure ConfigServer where
  data : UMap Bytes (Message × USet ActorAddr)
  subscribers : UMap ActorAddr (USet Bytes)
  mailbox : List (ActorAddr × ConfigRequest)
  exited : USet ActorAddr
  /-- the number of monitors that the server has on a live actor -/
  monitors : ActorAddr → Nat
  /-- the updates that were sent, with the receiver; as the code has it, they carry the
  subscribers of the key -/
  updates : List (ActorAddr × Bytes × USet ActorAddr)

namespace ConfigServer

def initial : ConfigServer where
  data := UMap.empty
  subscribers := UMap.empty
  mailbox := []
  exited := .empty
  monitors _ := 0
  updates := []

/-- `data[key]` creates what is missing. -/
def entry (s : ConfigServer) (key : Bytes) : Message × USet ActorAddr :=
  (s.data.find? key).getD (emptyMessage, .empty)

/-- The subscriber set of a key. -/
def subscribersOf (s : ConfigServer) (key : Bytes) : USet ActorAddr := (s.entry key).2

/-- The topic set of an actor. -/
def topicsOf (s : ConfigServer) (a : ActorAddr) : USet Bytes :=
  (s.subscribers.find? a).getD .empty

/-- Changes the subscriber set of a key. -/
def setSubscribers (s : ConfigServer) (key : Bytes) (subscribers : USet ActorAddr) :
    ConfigServer :=
  { s with data := s.data.set key ((s.entry key).1, subscribers) }

/-- `monitor`. -/
def monitor (s : ConfigServer) (a : ActorAddr) : ConfigServer :=
  if a ∈ s.exited then { s with mailbox := s.mailbox ++ [(a, .down a)] }
  else { s with monitors := Function.update s.monitors a (s.monitors a + 1) }

-- -------------------------
-- Handlers
-- -------------------------

/-- `put_atom`. Messages are equal if they have the same elements; `message::operator==` also
asks the types of the program, and tells a NaN from itself. -/
def put (s : ConfigServer) (sender : ActorAddr) (key : Bytes) (msg : Message) : ConfigServer :=
  let vp := s.entry key
  if vp.1 = msg then { s with data := s.data.set key vp }
  else
    { s with
      data := s.data.set key (msg, vp.2)
      updates := s.updates ++ (vp.2.elems.filter (· ≠ sender)).map fun a => (a, key, vp.2) }

/-- `subscribe_atom`. -/
def subscribe (s : ConfigServer) (subscriber : ActorAddr) (key : Bytes) : ConfigServer :=
  if subscriber = .invalid then s
  else
    let s := s.setSubscribers key ((s.subscribersOf key).insert subscriber)
    match s.subscribers.find? subscriber with
    | some topics => { s with subscribers := s.subscribers.set subscriber (topics.insert key) }
    | none =>
      let s := s.monitor subscriber
      { s with subscribers := s.subscribers.emplace subscriber (USet.empty.insert key) }

/-- `unsubscribe_atom`. -/
def unsubscribe (s : ConfigServer) (subscriber : ActorAddr) (key : Bytes) : ConfigServer :=
  if subscriber = .invalid then s
  else
    let s := { s with
      subscribers := s.subscribers.set subscriber ((s.topicsOf subscriber).erase key) }
    s.setSubscribers key ((s.subscribersOf key).erase subscriber)

/-- `down_msg`. -/
def down (s : ConfigServer) (subscriber : ActorAddr) : ConfigServer :=
  if subscriber = .invalid then s
  else match s.subscribers.find? subscriber with
    | none => s
    | some topics =>
      let s := topics.elems.foldl
        (fun s key => s.setSubscribers key ((s.subscribersOf key).erase subscriber)) s
      { s with subscribers := s.subscribers.erase subscriber }

/-- The behavior of the config server: what it answers, and its state afterwards. -/
def kvstore (s : ConfigServer) (sender : ActorAddr) :
    ConfigRequest → Option ConfigReply × ConfigServer
  | .put key msg => (none, s.put sender key msg)
  | .get key => (some (.ok key (((s.data.find? key).map (·.1)).getD emptyMessage)), s)
  | .subscribe key => (none, s.subscribe sender key)
  | .unsubscribe key => (none, s.unsubscribe sender key)
  | .down source => (none, s.down source)
  | .others => (some (.error (ascii "unsupported operation")), s)

-- -------------------------
-- Steps
-- -------------------------

/-- What can happen: someone sends a message, the server handles the next one, or an actor
terminates. -/
inductive Move where
  | send (sender : ActorAddr) (msg : ConfigRequest)
  | handle
  | exit (a : ActorAddr)
deriving DecidableEq, Repr

/-- An actor terminates, and the monitors on it fire. -/
def exit (s : ConfigServer) (a : ActorAddr) : ConfigServer :=
  { s with
    exited := s.exited.insert a
    mailbox := s.mailbox ++ List.replicate (s.monitors a) (a, .down a)
    monitors := Function.update s.monitors a 0 }

def step (s : ConfigServer) : Move → Option ConfigServer
  | .send sender msg => some { s with mailbox := s.mailbox ++ [(sender, msg)] }
  | .handle =>
    match s.mailbox with
    | [] => none
    | (sender, msg) :: mailbox => some ({ s with mailbox }.kvstore sender msg).2
  | .exit a => some (s.exit a)

/-- The states of runs whose steps all meet a condition. -/
def Reachable (ok : ConfigServer → Move → Prop) : ConfigServer → Prop :=
  Reach (· = initial) step ok

-- -------------------------
-- The two maps
-- -------------------------

variable {s s' : ConfigServer} {a : ActorAddr} {key : Bytes}

/-- The server will learn that an actor has terminated. -/
def monitored (s : ConfigServer) (a : ActorAddr) : Prop :=
  0 < s.monitors a ∨ ∃ sender, (sender, .down a) ∈ s.mailbox

/-- An actor unsubscribes only when the server has an entry for it. -/
def knownUnsubscribes (s : ConfigServer) (m : Move) : Prop :=
  m = .handle → ∀ e ∈ s.mailbox.head?, e.2.isUnsubscribe = true → e.1 ≠ .invalid →
    s.subscribers.contains e.1 = true

instance (s : ConfigServer) (m : Move) : Decidable (knownUnsubscribes s m) :=
  inferInstanceAs (Decidable (_ → _))

/-- Only the subscribers of one key are changed. -/
theorem subscribersOf_setSubscribers (s : ConfigServer) (key k : Bytes)
    (subscribers : USet ActorAddr) : (s.setSubscribers key subscribers).subscribersOf k =
      if key = k then subscribers else s.subscribersOf k := by
  unfold subscribersOf entry setSubscribers
  dsimp only
  rw [UMap.find?_set]
  by_cases hk : key = k
  · simp [hk]
  · simp [hk]

/-- Only the entries of the data matter to subscriber sets. -/
theorem subscribersOf_congr {s s' : ConfigServer} (h : s'.data = s.data) (k : Bytes) :
    s'.subscribersOf k = s.subscribersOf k := by
  unfold subscribersOf entry
  rw [h]

/-- Only the topics of one subscriber are changed. -/
theorem topicsOf_set {subscribers : UMap ActorAddr (USet Bytes)} {topics : USet Bytes}
    (h : s'.subscribers = subscribers.set a topics) (hs : s.subscribers = subscribers)
    (b : ActorAddr) : s'.topicsOf b = if a = b then topics else s.topicsOf b := by
  unfold topicsOf
  rw [h, hs, UMap.find?_set]
  by_cases hb : a = b
  · simp [hb]
  · simp [hb]

/-- What the config server keeps: the maps mirror each other, and actors with an entry are
monitored. -/
structure Mirrored (s : ConfigServer) : Prop where
  agree : ∀ a k, a ∈ s.subscribersOf k ↔ k ∈ s.topicsOf a
  monitored : ∀ {a}, s.subscribers.contains a = true → s.monitored a
  invalid : s.subscribers.find? .invalid = none

/-- Only a few parts of the state matter. -/
theorem Mirrored.congr (h : Mirrored s) (hd : ∀ k, s'.subscribersOf k = s.subscribersOf k)
    (hs : s'.subscribers = s.subscribers) (hm : ∀ b, s.monitored b → s'.monitored b) :
    Mirrored s' := by
  refine ⟨fun a k => ?_, fun ha => ?_, by rw [hs, h.invalid]⟩
  · rw [hd, topicsOf, hs]
    exact h.agree a k
  · rw [hs] at ha
    exact hm _ (h.monitored ha)

theorem monitored_monitor (s : ConfigServer) (a : ActorAddr) : (s.monitor a).monitored a := by
  unfold monitor
  split
  · exact .inr ⟨a, by simp⟩
  · exact .inl (by simp)

/-- Whoever was monitored before still is. -/
theorem monitored_monitor_of (s : ConfigServer) (a : ActorAddr) {b : ActorAddr}
    (h : s.monitored b) : (s.monitor a).monitored b := by
  unfold monitor
  split
  · rcases h with h | ⟨x, h⟩
    · exact .inl h
    · exact .inr ⟨x, List.mem_append_left _ h⟩
  · rcases h with h | h
    · refine .inl ?_
      show 0 < Function.update s.monitors a (s.monitors a + 1) b
      rw [Function.update_apply]
      split
      · omega
      · exact h
    · exact .inr h

/-- Putting a value leaves the subscriber sets alone. -/
theorem put_eq (s : ConfigServer) (sender : ActorAddr) (key : Bytes) (msg : Message) :
    ∃ m updates, s.put sender key msg =
      { s with data := s.data.set key (m, s.subscribersOf key), updates } := by
  unfold ConfigServer.put
  dsimp only
  split
  · exact ⟨_, _, rfl⟩
  · exact ⟨_, _, rfl⟩

/-- Storing a value moves no subscriber. -/
theorem Mirrored.put (h : Mirrored s) (sender : ActorAddr) (key : Bytes) (msg : Message) :
    Mirrored (s.put sender key msg) := by
  obtain ⟨m, updates, he⟩ := s.put_eq sender key msg
  rw [he]
  refine h.congr (fun k => ?_) rfl fun b hb => hb
  unfold subscribersOf entry
  dsimp only
  rw [UMap.find?_set]
  by_cases hk : key = k
  · simp [hk]
  · simp [hk]

/-- Monitoring changes neither map. -/
theorem monitor_frame (s : ConfigServer) (a : ActorAddr) :
    (s.monitor a).data = s.data ∧ (s.monitor a).subscribers = s.subscribers := by
  unfold monitor
  split
  · exact ⟨rfl, rfl⟩
  · exact ⟨rfl, rfl⟩

/-- An actor among the subscribers of a key, with the key among its topics. -/
theorem Mirrored.agree_insert (h : Mirrored s) {s' : ConfigServer} {a : ActorAddr} {key : Bytes}
    (hdata : s'.data = (s.setSubscribers key ((s.subscribersOf key).insert a)).data)
    (htop : ∀ b, s'.topicsOf b = if a = b then (s.topicsOf a).insert key else s.topicsOf b)
    (b : ActorAddr) (k : Bytes) : b ∈ s'.subscribersOf k ↔ k ∈ s'.topicsOf b := by
  rw [subscribersOf_congr hdata, subscribersOf_setSubscribers, htop]
  by_cases hk : key = k
  · subst hk
    by_cases hb : a = b
    · simp [hb]
    · simp [hb, Ne.symm hb, h.agree]
  · by_cases hb : a = b
    · subst hb
      simp [hk, Ne.symm hk, h.agree]
    · simp [hk, hb, h.agree]

/-- A subscription is entered into both maps, and a new subscriber is monitored. -/
theorem Mirrored.subscribe (h : Mirrored s) (a : ActorAddr) (key : Bytes) :
    Mirrored (s.subscribe a key) := by
  unfold ConfigServer.subscribe
  split
  · exact h
  next hval =>
  let s₁ := s.setSubscribers key ((s.subscribersOf key).insert a)
  dsimp only
  split
  · -- a subscriber of other keys is monitored already
    next topics ht =>
    replace ht : s.subscribers.find? a = some topics := ht
    refine ⟨h.agree_insert rfl fun b => ?_, fun {b} hb => ?_, ?_⟩
    · rw [topicsOf_set (s := s) rfl rfl]
      simp [topicsOf, ht]
    · have hb' : s.subscribers.contains b = true := by
        replace hb : (s.subscribers.set a (topics.insert key)).contains b = true := hb
        rw [UMap.contains, UMap.find?_set] at hb
        by_cases hab : a = b
        · subst hab
          simp [UMap.contains, ht]
        · simpa [UMap.contains, hab] using hb
      exact h.monitored hb'
    · show (s.subscribers.set a (topics.insert key)).find? .invalid = none
      rw [UMap.find?_set, h.invalid]
      simp [hval]
  · -- a new one is monitored now
    next ht =>
    replace ht : s.subscribers.find? a = none := ht
    obtain ⟨hdata, hsubs⟩ := monitor_frame s₁ a
    have hfind : ∀ b, ((s₁.monitor a).subscribers.emplace a (USet.empty.insert key)).find? b =
        if a = b then some (USet.empty.insert key) else s.subscribers.find? b := by
      intro b
      rw [hsubs]
      show (s.subscribers.emplace a (USet.empty.insert key)).find? b = _
      rw [UMap.find?_emplace_of_none ht]
      by_cases hb : a = b
      · simp [hb]
      · simp only [beq_eq_false_iff_ne.mpr hb, hb]
        rfl
    refine ⟨h.agree_insert hdata fun b => ?_, fun {b} hb => ?_, ?_⟩
    · unfold topicsOf
      rw [hfind]
      by_cases hb : a = b
      · simp [hb, hb ▸ ht]
      · simp [hb]
    · rw [UMap.contains, hfind] at hb
      by_cases hab : a = b
      · rw [← hab]
        exact monitored_monitor s₁ a
      · rw [if_neg hab] at hb
        have hold : s₁.monitored b := h.monitored hb
        exact monitored_monitor_of s₁ a hold
    · rw [hfind, if_neg hval, h.invalid]

/-- An entry is removed from both maps. -/
theorem Mirrored.unsubscribe (h : Mirrored s) (a : ActorAddr) (key : Bytes)
    (hk : a ≠ .invalid → s.subscribers.contains a = true) : Mirrored (s.unsubscribe a key) := by
  unfold ConfigServer.unsubscribe
  split
  · exact h
  next hval =>
  dsimp only
  let s₁ := { s with subscribers := s.subscribers.set a ((s.topicsOf a).erase key) }
  have hsub : ∀ k, (s₁.setSubscribers key ((s₁.subscribersOf key).erase a)).subscribersOf k =
      if key = k then (s.subscribersOf key).erase a else s.subscribersOf k :=
    fun k => subscribersOf_setSubscribers s₁ key k _
  have htop : ∀ b, (s₁.setSubscribers key ((s₁.subscribersOf key).erase a)).topicsOf b =
      if a = b then (s.topicsOf a).erase key else s.topicsOf b :=
    fun b => topicsOf_set (s := s) rfl rfl b
  refine ⟨fun b k => ?_, fun {b} hb => ?_, ?_⟩
  · rw [hsub, htop]
    by_cases hkey : key = k
    · subst hkey
      by_cases hb : a = b
      · simp [hb]
      · simp [hb, Ne.symm hb, h.agree]
    · by_cases hb : a = b
      · subst hb
        simp [hkey, Ne.symm hkey, h.agree]
      · simp [hkey, hb, h.agree]
  · -- the subscriber was known before, so that the entry for its topics is not a new one
    have hb' : s.subscribers.contains b = true := by
      replace hb : (s.subscribers.set a ((s.topicsOf a).erase key)).contains b = true := hb
      rw [UMap.contains, UMap.find?_set] at hb
      by_cases hab : a = b
      · exact hab ▸ hk hval
      · simpa [UMap.contains, hab] using hb
    exact h.monitored hb'
  · show (s.subscribers.set a ((s.topicsOf a).erase key)).find? .invalid = none
    rw [UMap.find?_set, h.invalid]
    simp [hval]

/-- Erasing an actor from the subscriber sets of some keys. -/
theorem mem_subscribersOf_foldl (a : ActorAddr) (keys : List Bytes) (s : ConfigServer)
    (b : ActorAddr) (k : Bytes) :
    b ∈ (keys.foldl (fun s key => s.setSubscribers key ((s.subscribersOf key).erase a))
      s).subscribersOf k ↔ b ∈ s.subscribersOf k ∧ ¬ (b = a ∧ k ∈ keys) := by
  induction keys generalizing s with
  | nil => simp
  | cons key keys ih =>
    rw [List.foldl_cons, ih, subscribersOf_setSubscribers]
    by_cases hk : key = k
    · subst hk
      simp only [if_true, USet.mem_erase, List.mem_cons, true_or, and_true]
      tauto
    · simp [hk, Ne.symm hk]

/-- Only subscribers of keys change. -/
theorem foldl_setSubscribers (a : ActorAddr) (keys : List Bytes) (s : ConfigServer) :
    ∃ data, keys.foldl (fun s key => s.setSubscribers key ((s.subscribersOf key).erase a)) s =
      { s with data } := by
  induction keys generalizing s with
  | nil => exact ⟨_, rfl⟩
  | cons key keys ih =>
    obtain ⟨data, hd⟩ := ih (s.setSubscribers key ((s.subscribersOf key).erase a))
    exact ⟨data, by rw [List.foldl_cons, hd]; rfl⟩

/-- After its down message, an actor has no entry and is in no subscriber set. -/
theorem down_spec (hagree : ∀ a k, a ∈ s.subscribersOf k ↔ k ∈ s.topicsOf a)
    (hinv : s.subscribers.find? .invalid = none) (a : ActorAddr) :
    (∀ b k, b ∈ (s.down a).subscribersOf k ↔ b ∈ s.subscribersOf k ∧ b ≠ a) ∧
    (∀ b, (s.down a).subscribers.find? b = if a = b then none else s.subscribers.find? b) ∧
    (s.down a).monitors = s.monitors ∧ (s.down a).mailbox = s.mailbox := by
  -- nothing changes for an actor without topics
  have hnone : s.subscribers.find? a = none → (∀ b k, b ∈ s.subscribersOf k ↔
      b ∈ s.subscribersOf k ∧ b ≠ a) ∧
      ∀ b, s.subscribers.find? b = if a = b then none else s.subscribers.find? b := by
    intro ha
    refine ⟨fun b k => ⟨fun hb => ⟨hb, fun he => ?_⟩, fun hb => hb.1⟩, fun b => ?_⟩
    · rw [he, hagree, topicsOf, ha] at hb
      exact USet.not_mem_empty k hb
    · split
      · next hb => rw [← hb, ha]
      · rfl
  unfold ConfigServer.down
  split
  · next hval =>
    obtain ⟨h₁, h₂⟩ := hnone (by rw [hval, hinv])
    exact ⟨h₁, h₂, rfl, rfl⟩
  · cases ha : s.subscribers.find? a with
    | none =>
      obtain ⟨h₁, h₂⟩ := hnone ha
      exact ⟨h₁, h₂, rfl, rfl⟩
    | some topics =>
      dsimp only
      -- the subscriber is removed from every key in its topics, and these are all its keys
      have hmem := mem_subscribersOf_foldl a topics.elems s
      obtain ⟨data, he⟩ := foldl_setSubscribers a topics.elems s
      rw [he] at hmem ⊢
      refine ⟨fun b k => ?_, fun b => ?_, rfl, rfl⟩
      · refine (hmem b k).trans (and_congr_right fun hb => ?_)
        refine ⟨fun hnot hba => hnot ⟨hba, ?_⟩, fun hne hba => hne hba.1⟩
        rw [hba, hagree, topicsOf, ha] at hb
        exact hb
      · show (s.subscribers.erase a).find? b = _
        rw [UMap.find?_erase]
        by_cases hb : a = b
        · simp [hb]
        · simp [hb]

/-- The server forgets about an actor only when it takes its down message. -/
theorem monitored_tail {sender : ActorAddr} {msg : ConfigRequest}
    {mailbox : List (ActorAddr × ConfigRequest)} (hm : s.mailbox = (sender, msg) :: mailbox)
    (h : s.monitored a) (hne : msg ≠ .down a) : { s with mailbox }.monitored a := by
  rcases h with h | ⟨x, hx⟩
  · exact .inl h
  · rw [hm, List.mem_cons] at hx
    rcases hx with hx | hx
    · exact absurd (Prod.mk.inj hx).2.symm hne
    · exact .inr ⟨x, hx⟩

/-- Handling a down message. -/
theorem Mirrored.down {sender c : ActorAddr} {mailbox : List (ActorAddr × ConfigRequest)}
    (h : Mirrored s) (hm : s.mailbox = (sender, .down c) :: mailbox) :
    Mirrored ({ s with mailbox }.down c) := by
  obtain ⟨hsub, hfind, hmon, hbox⟩ :=
    down_spec (s := { s with mailbox }) h.agree h.invalid c
  refine ⟨fun b k => ?_, fun {b} hb => ?_, ?_⟩
  · have hold : b ∈ { s with mailbox }.subscribersOf k ↔ k ∈ s.topicsOf b := h.agree b k
    rw [hsub, hold, topicsOf, topicsOf, hfind]
    by_cases hb : c = b
    · simp [hb]
    · simp [hb, Ne.symm hb]
  · rw [UMap.contains, hfind] at hb
    by_cases hcb : c = b
    · simp [hcb] at hb
    · -- the down message of another subscriber is still to come
      rw [if_neg hcb] at hb
      have hne : ConfigRequest.down c ≠ .down b := fun he => hcb (by cases he; rfl)
      have hold := monitored_tail hm (h.monitored hb) hne
      unfold ConfigServer.monitored at hold ⊢
      rw [hmon, hbox]
      exact hold
  · rw [hfind]
    split
    · rfl
    · exact h.invalid

/-- When a subscriber exits, its down message is sent. -/
theorem Mirrored.exit (h : Mirrored s) (a : ActorAddr) : Mirrored (s.exit a) := by
  refine h.congr (fun k => rfl) rfl fun b hb => ?_
  rcases hb with hb | ⟨x, hx⟩
  · by_cases hab : a = b
    · subst hab
      refine .inr ⟨a, List.mem_append_right _ ?_⟩
      exact List.mem_replicate.mpr ⟨by omega, rfl⟩
    · refine .inl ?_
      show 0 < Function.update s.monitors a 0 b
      rw [Function.update_of_ne (Ne.symm hab)]
      exact hb
  · exact .inr ⟨x, List.mem_append_left _ hx⟩

/-- Every step keeps the maps in agreement, when those who unsubscribe have an entry. -/
theorem Mirrored.step {m : Move} (h : Mirrored s) (hok : knownUnsubscribes s m)
    (hs : s.step m = some s') : Mirrored s' := by
  cases m with
  | send sender msg =>
    cases hs
    refine h.congr (fun k => rfl) rfl fun b hb => ?_
    exact hb.imp_right fun ⟨x, hx⟩ => ⟨x, List.mem_append_left _ hx⟩
  | exit a =>
    cases hs
    exact h.exit a
  | handle =>
    unfold ConfigServer.step at hs
    cases hm : s.mailbox with
    | nil => simp [hm] at hs
    | cons head mailbox =>
      obtain ⟨sender, msg⟩ := head
      simp only [hm, Option.some.injEq] at hs
      subst hs
      -- all messages but down messages leave the monitors alone
      have hrest : (∀ b, msg ≠ .down b) → Mirrored { s with mailbox } := fun hne =>
        h.congr (fun k => rfl) rfl fun b hb => monitored_tail hm hb (hne b)
      cases msg with
      | put key msg => exact (hrest fun b hb => nomatch hb).put sender key msg
      | get key => exact hrest fun b hb => nomatch hb
      | subscribe key => exact (hrest fun b hb => nomatch hb).subscribe sender key
      | unsubscribe key =>
        refine (hrest fun b hb => nomatch hb).unsubscribe sender key fun hval => ?_
        exact hok rfl (sender, .unsubscribe key) (by rw [hm]; rfl) rfl hval
      | down c => exact h.down hm
      | others => exact hrest fun b hb => nomatch hb

theorem Mirrored.initial : Mirrored initial :=
  ⟨fun a k => ⟨fun h => absurd h (USet.not_mem_empty a), fun h => absurd h (USet.not_mem_empty k)⟩,
    fun h => by simp [ConfigServer.initial, UMap.contains] at h, rfl⟩

/-- In runs with known unsubscribes, the maps mirror each other. -/
theorem Mirrored.reachable (h : Reachable knownUnsubscribes s) : Mirrored s := by
  refine Reach.invariant (fun s hs => ?_) (fun _ _ _ hI hok hs => hI.step hok hs) h
  rw [hs]
  exact Mirrored.initial

/-- An actor in a subscriber set has an entry. -/
theorem Mirrored.contains (h : Mirrored s) (ha : a ∈ s.subscribersOf key) :
    s.subscribers.contains a = true := by
  rw [h.agree, topicsOf] at ha
  unfold UMap.contains
  cases ht : s.subscribers.find? a with
  | none =>
    rw [ht] at ha
    exact absurd ha (USet.not_mem_empty key)
  | some topics => rfl

/-- In every run in which only actors with an entry unsubscribe: the subscriber sets and the
topic sets agree, subscribers are monitored, and after the down message of an actor it is in
no subscriber set. -/
theorem subscribers_monitored (h : Reachable knownUnsubscribes s) :
    (∀ a k, a ∈ s.subscribersOf k ↔ k ∈ s.topicsOf a) ∧
    (∀ a k, a ∈ s.subscribersOf k → s.monitored a) ∧
    (∀ sender a s', s.mailbox.head? = some (sender, .down a) → s.step .handle = some s' →
      ∀ k, a ∉ s'.subscribersOf k) := by
  have hI := Mirrored.reachable h
  refine ⟨hI.agree, fun a k ha => hI.monitored (hI.contains ha), ?_⟩
  intro sender a s' hhead hs k ha
  cases hm : s.mailbox with
  | nil => simp [hm] at hhead
  | cons head mailbox =>
    rw [hm, List.head?_cons, Option.some.injEq] at hhead
    subst hhead
    simp only [ConfigServer.step, hm, Option.some.injEq] at hs
    subst hs
    obtain ⟨hsub, -⟩ := down_spec (s := { s with mailbox }) hI.agree hI.invalid a
    exact ((hsub a k).mp ha).2 rfl

/-- An actor unsubscribes, subscribes again and terminates. -/
theorem subscribers_monitored_again : ∃ s, Reachable knownUnsubscribes s ∧
    ActorAddr.localActor 1 ∈ s.subscribersOf [7] ∧ s.monitored (.localActor 1) := by
  obtain ⟨s, hr, hsub⟩ := exists_run
    (fun s m => if knownUnsubscribes s m then step s m else none) initial
    [.send (.localActor 1) (.subscribe [7]), .handle,
      .send (.localActor 1) (.unsubscribe [7]), .handle,
      .send (.localActor 1) (.subscribe [7]), .handle, .exit (.localActor 1)]
    (fun s => decide (ActorAddr.localActor 1 ∈ s.subscribersOf [7])) (by decide)
  have h : Reachable knownUnsubscribes s := reach_of_checked_run (.init rfl) hr
  have hmem := of_decide_eq_true hsub
  exact ⟨s, h, hmem, (subscribers_monitored h).2.1 _ _ hmem⟩

/-- An actor that unsubscribes first gets an entry without being monitored. When it then
subscribes, the server does not monitor it, and it remains a subscriber forever. -/
theorem unmonitored_subscriber : ∃ s, Reachable anyStep s ∧
    ActorAddr.localActor 1 ∈ s.subscribersOf [7] ∧ ¬ s.monitored (.localActor 1) := by
  obtain ⟨s, hr, hs⟩ := exists_run step initial
    [.send (.localActor 1) (.unsubscribe [7]), .handle,
      .send (.localActor 1) (.subscribe [7]), .handle, .exit (.localActor 1)]
    (fun s => decide (ActorAddr.localActor 1 ∈ s.subscribersOf [7] ∧
      s.monitors (.localActor 1) = 0 ∧ s.mailbox = [])) (by decide)
  obtain ⟨hmem, hmon, hbox⟩ := of_decide_eq_true hs
  refine ⟨s, reach_of_run (.init rfl) hr, hmem, ?_⟩
  rintro (h | ⟨x, h⟩)
  · omega
  · rw [hbox] at h
    exact List.not_mem_nil h

end ConfigServer

end BoostActor
