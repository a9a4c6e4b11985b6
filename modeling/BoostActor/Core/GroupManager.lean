import BoostActor.Lib.UnorderedSet
import BoostActor.Core.Message
import BoostActor.Core.EventBasedActor

/-!
# Groups

A local group has subscribers in its own process, and a broker for the proxies of the group
in other processes. Each proxy has subscribers of its own and a broker that joins the broker
of the group. Brokers are event-based actors, so that the content of a group message first
goes through `filter_msg`.

A message to a group or to one of its proxies makes each broker handle one message. `send` is
all of it: the entry, what the broker of the group does, what the brokers of the proxies do,
and the down messages of those that terminate. `received` records what subscribers receive.

* `group_delivery_iff` — when a message reaches every subscriber once and leaves the
  membership alone.
-/

namespace BoostActor

open Lib

-- -------------------------
-- Contents
-- -------------------------

/-- What brokers tell apart in the content of a message. -/
inductive GroupContent where
  | join (other : ActorAddr)
  | leave (other : ActorAddr)
  | forward (what : GroupContent)
  | down (source : ActorAddr) (reason : ExitReason)
  | exit (source : ActorAddr) (reason : ExitReason)
  | timeout (timeoutId : UInt32)
  /-- `{sys_atom, migrate_atom, mm}` -/
  | migrateTo (mm : ActorAddr)
  /-- `{sys_atom, migrate_atom, buf}` -/
  | migrateFrom (buf : Bytes)
  /-- `{sys_atom, get_atom, what}` -/
  | get (what : Bytes)
  | other (content : Message)
deriving DecidableEq, Repr

namespace GroupContent

open EventBasedActor

/-- The content as all actors see it. -/
def content : GroupContent → Content
  | .exit _ reason => .exit reason
  | .timeout timeoutId => .timeout timeoutId
  | .migrateTo _ => .migrateTo
  | .migrateFrom _ => .migrateFrom
  | .get what => .get (what = ascii "info")
  | _ => .user

/-- `filter_msg` for a broker: it requests no timeouts and does not trap exit messages. -/
def filterMsg (sender : ActorAddr) : GroupContent → MsgType
  | .migrateTo _ | .migrateFrom _ | .get _ =>
    if sender = .invalid then .ordinary else .sysMessage
  | .timeout _ => .expiredTimeout
  | .exit _ reason => if reason = ExitReason.normal then .normalExit else .nonNormalExit reason
  | _ => .ordinary

/-- This is what actors of this kind do. -/
theorem filterMsg_eq (s : EventBasedActor) (ht : s.hasTimeout = false) (hx : s.trapExit = false)
    (e : MailboxElement) (hm : MessageId.isResponse e.mid = false) (c : GroupContent)
    (hc : e.content = c.content) : s.filterMsg e = c.filterMsg e.sender := by
  unfold EventBasedActor.filterMsg
  rw [hm, hc]
  cases c with
  | timeout tid => simp [content, filterMsg, isActiveTimeout, ht]
  | exit source reason =>
    simp only [content, filterMsg, hx]
    by_cases hk : reason = ExitReason.kill
    · subst hk
      rfl
    · by_cases hn : reason = ExitReason.normal
      · subst hn
        rfl
      · simp [hk, hn]
  | _ => simp [content, filterMsg]

end GroupContent

-- -------------------------
-- Groups and brokers
-- -------------------------

/-- `local_broker`, without its group. -/
structure LocalBroker where
  acquaintances : USet ActorAddr
  /-- the monitors that the broker has attached to an actor -/
  monitors : ActorAddr → Nat
  exitReason : ExitReason

/-- `local_group_proxy` with its `proxy_broker`. -/
structure GroupProxy where
  subscribers : USet ActorAddr
  exitReason : ExitReason

/-- What a subscriber receives. `home` is the broker of the proxy that the subscriber has
joined, or nothing if it has joined the group itself. -/
structure GroupDelivery where
  home : Option ActorAddr
  receiver : ActorAddr
  sender : ActorAddr
  msg : GroupContent
deriving DecidableEq, Repr

/-- `local_group` with its proxies, by their brokers. -/
structure LocalGroup where
  subscribers : USet ActorAddr
  broker : LocalBroker
  proxies : ActorAddr → GroupProxy
  received : List GroupDelivery

namespace LocalBroker

/-- `join_atom`. -/
def join (b : LocalBroker) (other : ActorAddr) : LocalBroker :=
  if other = .invalid ∨ other ∈ b.acquaintances then b
  else
    { b with
      acquaintances := b.acquaintances.insert other
      monitors := Function.update b.monitors other (b.monitors other + 1) }

/-- `leave_atom`. -/
def leave (b : LocalBroker) (other : ActorAddr) : LocalBroker :=
  if other = .invalid ∨ other ∉ b.acquaintances then b
  else
    { b with
      acquaintances := b.acquaintances.erase other
      monitors := Function.update b.monitors other 0 }

/-- `down_msg`. -/
def down (b : LocalBroker) (sender : ActorAddr) : LocalBroker :=
  if sender = .invalid then b else { b with acquaintances := b.acquaintances.erase sender }

/-- `quit` and `on_exit`. An exit reason of zero has no effect. -/
def quit (b : LocalBroker) (reason : ExitReason) : LocalBroker :=
  if reason = ExitReason.notExited then b
  else { b with acquaintances := .empty, exitReason := reason }

end LocalBroker

namespace LocalGroup

/-- A message to each of some subscribers. -/
def deliveries (home : Option ActorAddr) (subscribers : USet ActorAddr) (sender : ActorAddr)
    (msg : GroupContent) : List GroupDelivery :=
  subscribers.elems.map fun receiver => ⟨home, receiver, sender, msg⟩

/-- `send_all_subscribers`. -/
def sendAllSubscribers (g : LocalGroup) (sender : ActorAddr) (msg : GroupContent) : LocalGroup :=
  { g with received := g.received ++ deliveries none g.subscribers sender msg }

/-- A message to a `proxy_broker`. System messages are answered, others are for the
subscribers of the proxy. -/
def invokeProxy (g : LocalGroup) (sender : ActorAddr) (msg : GroupContent) (p : ActorAddr) :
    LocalGroup :=
  if (g.proxies p).exitReason ≠ ExitReason.notExited then g
  else match msg.filterMsg sender with
    | .ordinary =>
      { g with
        received := g.received ++ deliveries (some p) (g.proxies p).subscribers sender msg }
    | .nonNormalExit reason =>
      { g with
        proxies := Function.update g.proxies p { g.proxies p with exitReason := reason } }
    | _ => g

/-- `send_to_acquaintances`. -/
def sendToAcquaintances (g : LocalGroup) (sender : ActorAddr) (what : GroupContent) :
    LocalGroup :=
  g.broker.acquaintances.elems.foldl (fun g p => g.invokeProxy sender what p) g

/-- The behavior of `local_broker`. -/
def handle (g : LocalGroup) (sender : ActorAddr) : GroupContent → LocalGroup
  | .join other => { g with broker := g.broker.join other }
  | .leave other => { g with broker := g.broker.leave other }
  | .forward what => (g.sendAllSubscribers sender what).sendToAcquaintances sender what
  | .down _ _ => { g with broker := g.broker.down sender }
  | msg => g.sendToAcquaintances sender msg

/-- A message to the `local_broker`. System messages are answered. -/
def invokeBroker (g : LocalGroup) (sender : ActorAddr) (msg : GroupContent) : LocalGroup :=
  if g.broker.exitReason ≠ ExitReason.notExited then g
  else match msg.filterMsg sender with
    | .ordinary => g.handle sender msg
    | .nonNormalExit reason => { g with broker := g.broker.quit reason }
    | _ => g

/-- The broker of a proxy has terminated while it was monitored. -/
def lost (g : LocalGroup) (p : ActorAddr) : Prop :=
  (g.proxies p).exitReason ≠ ExitReason.notExited ∧ 0 < g.broker.monitors p

instance (g : LocalGroup) (p : ActorAddr) : Decidable (g.lost p) :=
  inferInstanceAs (Decidable (_ ∧ _))

/-- The down messages of acquaintances that have terminated. -/
def handleDowns (g : LocalGroup) : LocalGroup :=
  g.broker.acquaintances.elems.foldl (fun g p =>
    if g.lost p then g.invokeBroker p (.down p (g.proxies p).exitReason) else g) g

/-- Where a message enters: the group or one of its proxies. -/
inductive Entry where
  | group
  | proxy
deriving DecidableEq, Repr

/-- `enqueue` of `local_group` and of `local_group_proxy`. -/
def enqueue (g : LocalGroup) (sender : ActorAddr) (msg : GroupContent) : Entry → LocalGroup
  | .group => (g.sendAllSubscribers sender msg).invokeBroker sender msg
  | .proxy => g.invokeBroker sender (.forward msg)

/-- A message is sent, and everyone handles what follows from it. -/
def send (g : LocalGroup) (entry : Entry) (sender : ActorAddr) (msg : GroupContent) :
    LocalGroup :=
  ({ g with received := [] }.enqueue sender msg entry).handleDowns

-- -------------------------
-- What follows from a message
-- -------------------------

variable {g : LocalGroup} {sender a p : ActorAddr} {msg what : GroupContent}

/-- Nothing is about to change the membership: the broker runs, and those who have joined
it run, too. -/
structure Quiescent (g : LocalGroup) : Prop where
  running : g.broker.exitReason = ExitReason.notExited
  joined : ∀ {p}, p ∈ g.broker.acquaintances → p ≠ .invalid ∧
    (g.proxies p).exitReason = ExitReason.notExited ∧ 0 < g.broker.monitors p

/-- What a subscriber has received, in order. -/
def receivedBy (g : LocalGroup) (home : Option ActorAddr) (a : ActorAddr) :
    List (ActorAddr × GroupContent) :=
  (g.received.filter fun d => d.home = home ∧ d.receiver = a).map fun d => (d.sender, d.msg)

/-- Subscribers receive one copy each. -/
theorem filter_deliveries (home h : Option ActorAddr) (subscribers : USet ActorAddr)
    (sender a : ActorAddr) (msg : GroupContent) :
    ((deliveries home subscribers sender msg).filter fun d => d.home = h ∧ d.receiver = a).map
      (fun d => (d.sender, d.msg)) =
      if home = h ∧ a ∈ subscribers then [(sender, msg)] else [] := by
  obtain ⟨elems, hn⟩ := subscribers
  show ((elems.map _).filter _).map _ = if home = h ∧ a ∈ elems then _ else _
  induction elems with
  | nil => simp
  | cons b elems ih =>
    rw [List.nodup_cons] at hn
    rw [List.map_cons, List.filter_cons]
    have ih := ih hn.2
    by_cases hb : b = a
    · subst hb
      by_cases hh : home = h
      · simp only [hh, hn.1, and_false, if_false] at ih
        rw [if_pos (by simp [hh]), List.map_cons, hh, ih]
        simp
      · simp [hh]
    · simpa [hb, Ne.symm hb] using ih

/-- What is received later comes behind what was received before. -/
theorem receivedBy_append (g g' : LocalGroup) {ds : List GroupDelivery}
    (h : g'.received = g.received ++ ds) (home : Option ActorAddr) (a : ActorAddr) :
    g'.receivedBy home a = g.receivedBy home a ++
      (ds.filter fun d => d.home = home ∧ d.receiver = a).map fun d => (d.sender, d.msg) := by
  unfold receivedBy
  rw [h, List.filter_append, List.map_append]

/-- What the brokers of some proxies make of a message. -/
def outcome (g : LocalGroup) (sender : ActorAddr) (what : GroupContent) (ps : List ActorAddr) :
    LocalGroup :=
  match what.filterMsg sender with
  | .ordinary =>
    { g with
      received := g.received ++
        ps.flatMap fun p => deliveries (some p) (g.proxies p).subscribers sender what }
  | .nonNormalExit reason =>
    { g with
      proxies := fun p =>
        if p ∈ ps then { g.proxies p with exitReason := reason } else g.proxies p }
  | _ => g

/-- All brokers of proxies take a message at once as they do one after the other. -/
theorem foldl_invokeProxy (sender : ActorAddr) (what : GroupContent) (ps : List ActorAddr)
    (hn : ps.Nodup) (g : LocalGroup)
    (hr : ∀ p ∈ ps, (g.proxies p).exitReason = ExitReason.notExited) :
    ps.foldl (fun g p => g.invokeProxy sender what p) g = g.outcome sender what ps := by
  induction ps generalizing g with
  | nil =>
    unfold outcome
    split
    · simp
    · simp
    · rfl
  | cons p ps ih =>
    rw [List.nodup_cons] at hn
    rw [List.foldl_cons]
    have hp := hr p List.mem_cons_self
    have hrest : ∀ q ∈ ps, q ≠ p := fun q hq he => hn.1 (he ▸ hq)
    -- one broker takes the message
    have hstep : g.invokeProxy sender what p = g.outcome sender what [p] := by
      unfold invokeProxy outcome
      rw [if_neg (by simp [hp])]
      split
      · simp
      · congr 1
        funext q
        simp [Function.update_apply]
        by_cases hq : q = p
        · simp [hq]
        · simp [hq]
      · rfl
    rw [hstep]
    cases hf : what.filterMsg sender with
    | ordinary =>
      rw [ih hn.2 _ fun q hq => ?_]
      · simp [outcome, hf]
      simp only [outcome, hf]
      exact hr q (List.mem_cons_of_mem _ hq)
    -- the message ends every broker that it is passed to, and no other
    | nonNormalExit reason =>
      rw [ih hn.2 _ fun q hq => ?_]
      · simp only [outcome, hf]
        congr 1
        funext q
        by_cases hq : q = p
        · subst hq
          simp [hn.1]
        · simp [hq]
      · simp only [outcome, hf, List.mem_singleton, hrest q hq, if_false]
        exact hr q (List.mem_cons_of_mem _ hq)
    | _ =>
      rw [ih hn.2 _ fun q hq => ?_]
      · simp [outcome, hf]
      simp only [outcome, hf]
      exact hr q (List.mem_cons_of_mem _ hq)

/-- Down messages remove the acquaintances that have terminated, and nothing else. -/
theorem foldl_downs (ps : List ActorAddr) (g : LocalGroup)
    (hb : g.broker.exitReason = ExitReason.notExited) (hv : ∀ p ∈ ps, p ≠ .invalid) :
    ∃ acquaintances, ps.foldl (fun g p =>
      if g.lost p then g.invokeBroker p (.down p (g.proxies p).exitReason) else g) g =
        { g with broker := { g.broker with acquaintances } } ∧
      ∀ q, q ∈ acquaintances ↔ q ∈ g.broker.acquaintances ∧ ¬ (q ∈ ps ∧ g.lost q) := by
  induction ps generalizing g with
  | nil => exact ⟨_, rfl, by simp⟩
  | cons p ps ih =>
    have hrest : ∀ q ∈ ps, q ≠ .invalid := fun q hq => hv q (List.mem_cons_of_mem _ hq)
    rw [List.foldl_cons]
    -- this broker has terminated, and its down message removes it
    by_cases hl : g.lost p
    · have hstep : g.invokeBroker p (.down p (g.proxies p).exitReason) =
          { g with
            broker := { g.broker with acquaintances := g.broker.acquaintances.erase p } } := by
        simp [invokeBroker, hb, GroupContent.filterMsg, handle, LocalBroker.down,
          hv p List.mem_cons_self]
      rw [if_pos hl, hstep]
      obtain ⟨acq, he, hmem⟩ := ih { g with
        broker := { g.broker with acquaintances := g.broker.acquaintances.erase p } } hb hrest
      refine ⟨acq, he, fun q => (hmem q).trans ?_⟩
      show q ∈ g.broker.acquaintances.erase p ∧ ¬ (q ∈ ps ∧ g.lost q) ↔ _
      rw [USet.mem_erase, List.mem_cons]
      by_cases hq : q = p
      · subst hq
        simp [hl]
      · simp [hq]
    · rw [if_neg hl]
      obtain ⟨acq, he, hmem⟩ := ih g hb hrest
      refine ⟨acq, he, fun q => (hmem q).trans ?_⟩
      rw [List.mem_cons]
      by_cases hq : q = p
      · subst hq
        simp [hl]
      · simp [hq]

/-- The brokers that are lost are no acquaintances any more. -/
theorem handleDowns_spec (hb : g.broker.exitReason = ExitReason.notExited)
    (hv : ∀ {p}, p ∈ g.broker.acquaintances → p ≠ .invalid) :
    ∃ acquaintances, g.handleDowns = { g with broker := { g.broker with acquaintances } } ∧
      ∀ q, q ∈ acquaintances ↔ q ∈ g.broker.acquaintances ∧ ¬ g.lost q := by
  obtain ⟨acq, he, hmem⟩ := foldl_downs g.broker.acquaintances.elems g hb fun p hp => hv hp
  refine ⟨acq, he, fun q => (hmem q).trans ?_⟩
  exact and_congr_right fun hq => by simp [show q ∈ g.broker.acquaintances.elems from hq]

/-- Each proxy delivers to its own subscribers. -/
theorem filter_flatMap_deliveries (subscribers : ActorAddr → USet ActorAddr) (sender a : ActorAddr)
    (what : GroupContent) (home : Option ActorAddr) (ps : List ActorAddr) (hn : ps.Nodup) :
    ((ps.flatMap fun p => deliveries (some p) (subscribers p) sender what).filter fun d =>
      d.home = home ∧ d.receiver = a).map (fun d => (d.sender, d.msg)) =
      if ∃ p ∈ ps, home = some p ∧ a ∈ subscribers p then [(sender, what)] else [] := by
  induction ps with
  | nil => simp
  | cons p ps ih =>
    rw [List.nodup_cons] at hn
    rw [List.flatMap_cons, List.filter_append, List.map_append, filter_deliveries, ih hn.2]
    by_cases hp : home = some p
    · subst hp
      have hno : ¬ ∃ q ∈ ps, some p = some q ∧ a ∈ subscribers q := by
        rintro ⟨q, hq, he, -⟩
        cases he
        exact hn.1 hq
      rw [if_neg hno]
      simp [hn.1]
    · simp [hp, Ne.symm hp]

/-- The broker terminates when it takes this message. -/
def kills (sender : ActorAddr) (what : GroupContent) : Prop :=
  ∃ reason, what.filterMsg sender = .nonNormalExit reason ∧ reason ≠ ExitReason.notExited

/-- What the brokers of the proxies do with a message that the broker of the group has
forwarded. -/
structure Relayed (g g' : LocalGroup) (sender : ActorAddr) (what : GroupContent) : Prop where
  subscribers : g'.subscribers = g.subscribers
  proxies : ∀ p, (g'.proxies p).subscribers = (g.proxies p).subscribers
  atGroup : ∀ a, g'.receivedBy none a = g.receivedBy none a
  atProxies : ∀ p ∈ g.broker.acquaintances, ∀ a ∈ (g.proxies p).subscribers,
    g'.receivedBy (some p) a = g.receivedBy (some p) a ++
      if what.filterMsg sender = .ordinary then [(sender, what)] else []
  acquaintances : ∀ p, p ∈ g'.broker.acquaintances ↔
    p ∈ g.broker.acquaintances ∧ ¬ kills sender what

/-- The broker of the group has no part in this. -/
@[simp] theorem outcome_broker (g : LocalGroup) (sender : ActorAddr) (what : GroupContent)
    (ps : List ActorAddr) : (g.outcome sender what ps).broker = g.broker := by
  unfold outcome
  split
  · rfl
  · rfl
  · rfl

@[simp] theorem outcome_subscribers (g : LocalGroup) (sender : ActorAddr) (what : GroupContent)
    (ps : List ActorAddr) : (g.outcome sender what ps).subscribers = g.subscribers := by
  unfold outcome
  split
  · rfl
  · rfl
  · rfl

/-- Only ordinary messages are passed to subscribers. -/
theorem outcome_received (g : LocalGroup) (sender : ActorAddr) (what : GroupContent)
    (ps : List ActorAddr) : (g.outcome sender what ps).received = g.received ++
      if what.filterMsg sender = .ordinary then
        ps.flatMap fun p => deliveries (some p) (g.proxies p).subscribers sender what
      else [] := by
  unfold outcome
  split
  · next hf => simp [hf]
  · next hf => simp [hf]
  · next hf _ => simp [show ¬ _ from hf]

/-- A broker that was running ends if the message kills it. -/
theorem outcome_proxies (g : LocalGroup) (sender : ActorAddr) (what : GroupContent)
    (ps : List ActorAddr) (p : ActorAddr) :
    ((g.outcome sender what ps).proxies p).subscribers = (g.proxies p).subscribers ∧
    (p ∈ ps → (g.proxies p).exitReason = ExitReason.notExited →
      (((g.outcome sender what ps).proxies p).exitReason ≠ ExitReason.notExited ↔
        kills sender what)) := by
  unfold outcome kills
  split
  · next hf => exact ⟨rfl, fun _ hrun => by simp [hf, hrun]⟩
  · next reason hf =>
    refine ⟨?_, fun hp _ => by simp [hf, hp]⟩
    dsimp only
    split
    · rfl
    · rfl
  · next _ hf => exact ⟨rfl, fun _ hrun => by simp [hrun, show ∀ r, ¬ _ from hf]⟩

/-- What becomes of a message that is relayed to all acquaintances. -/
theorem relayed (hq : Quiescent g) (sender : ActorAddr) (what : GroupContent) :
    Relayed g (g.sendToAcquaintances sender what).handleDowns sender what := by
  have hfold : g.sendToAcquaintances sender what =
      g.outcome sender what g.broker.acquaintances.elems :=
    foldl_invokeProxy sender what _ g.broker.acquaintances.nodup g fun p hp => (hq.joined hp).2.1
  rw [hfold]
  obtain ⟨acq, he, hmem⟩ := handleDowns_spec
    (g := g.outcome sender what g.broker.acquaintances.elems)
    (by rw [outcome_broker, hq.running])
    fun hp => (hq.joined (by rwa [outcome_broker] at hp)).1
  rw [outcome_broker] at hmem
  rw [he]
  have hrecv := receivedBy_append _ _ (outcome_received g sender what g.broker.acquaintances.elems)
  have hnew : ∀ home a, ((if what.filterMsg sender = .ordinary then
      g.broker.acquaintances.elems.flatMap fun p =>
        deliveries (some p) (g.proxies p).subscribers sender what
      else []).filter fun d => d.home = home ∧ d.receiver = a).map (fun d => (d.sender, d.msg)) =
      if what.filterMsg sender = .ordinary ∧
        ∃ p ∈ g.broker.acquaintances, home = some p ∧ a ∈ (g.proxies p).subscribers
      then [(sender, what)] else [] := by
    intro home a
    by_cases hf : what.filterMsg sender = .ordinary
    · rw [if_pos hf, filter_flatMap_deliveries _ sender a what home _
        g.broker.acquaintances.nodup]
      simp [hf, USet.mem_def]
    · simp [hf]
  refine ⟨outcome_subscribers .., fun p => (outcome_proxies g sender what _ p).1, fun a => ?_,
    fun p hp a ha => ?_, fun p => (hmem p).trans (and_congr_right fun hp => not_congr ?_)⟩
  · -- at the group
    refine (hrecv none a).trans ?_
    rw [hnew]
    simp
  · -- at the proxies
    refine (hrecv (some p) a).trans ?_
    rw [hnew]
    by_cases hf : what.filterMsg sender = .ordinary
    · rw [if_pos ⟨hf, p, hp, rfl, ha⟩, if_pos hf]
    · rw [if_neg (fun h => hf h.1), if_neg hf]
  · -- the brokers of the proxies are lost if they take the message for an exit message
    obtain ⟨-, hrun, hmon⟩ := hq.joined hp
    have hx := (outcome_proxies g sender what g.broker.acquaintances.elems p).2 hp hrun
    unfold LocalGroup.lost
    rw [outcome_broker, hx]
    simp [hmon]

-- -------------------------
-- Delivery
-- -------------------------

/-- Every subscriber receives the message once, from its sender, and nothing else; and the
membership does not change. -/
structure Delivered (g g' : LocalGroup) (sender : ActorAddr) (msg : GroupContent) : Prop where
  atGroup : ∀ a ∈ g.subscribers, g'.receivedBy none a = [(sender, msg)]
  atProxies : ∀ p ∈ g.broker.acquaintances, ∀ a ∈ (g.proxies p).subscribers,
    g'.receivedBy (some p) a = [(sender, msg)]
  subscribers : g'.subscribers = g.subscribers
  proxies : ∀ p, (g'.proxies p).subscribers = (g.proxies p).subscribers
  acquaintances : ∀ p, p ∈ g'.broker.acquaintances ↔ p ∈ g.broker.acquaintances

/-- No proxy that has joined the group has a subscriber. -/
def unheard (g : LocalGroup) : Prop :=
  ∀ p ∈ g.broker.acquaintances, ∀ a, a ∉ (g.proxies p).subscribers

/-- Brokers do not take the content for a message of their own, or nobody notices. -/
def Passes (g : LocalGroup) (sender : ActorAddr) : Entry → GroupContent → Prop
  | .group, .join other => g.unheard ∧ (other = .invalid ∨ other ∈ g.broker.acquaintances ∨
    (g.proxies other).exitReason ≠ ExitReason.notExited)
  | .group, .leave other => g.unheard ∧ other ∉ g.broker.acquaintances
  | .group, .down _ _ => g.unheard ∧ sender ∉ g.broker.acquaintances
  | .group, .forward what => g.unheard ∧ (∀ a, a ∉ g.subscribers) ∧
    (kills sender what → ∀ p, p ∉ g.broker.acquaintances)
  | _, msg => (msg.filterMsg sender = .ordinary ∨ g.unheard) ∧
    (kills sender msg → ∀ p, p ∉ g.broker.acquaintances)

/-- What has happened when the subscribers of the group itself have the message. -/
structure Started (g g₁ : LocalGroup) (sender : ActorAddr) (msg : GroupContent) : Prop where
  atGroup : ∀ a ∈ g.subscribers, g₁.receivedBy none a = [(sender, msg)]
  atProxies : ∀ p a, g₁.receivedBy (some p) a = []
  subscribers : g₁.subscribers = g.subscribers
  proxies : g₁.proxies = g.proxies
  broker : g₁.broker = g.broker

/-- A message is first delivered to the subscribers of the group. -/
theorem started (g : LocalGroup) (sender : ActorAddr) (msg : GroupContent) :
    Started g ({ g with received := [] }.sendAllSubscribers sender msg) sender msg := by
  have h : ∀ home a, ({ g with received := [] }.sendAllSubscribers sender msg).receivedBy home a =
      if none = home ∧ a ∈ g.subscribers then [(sender, msg)] else [] :=
    fun home a => filter_deliveries none home g.subscribers sender a msg
  refine ⟨fun a ha => ?_, fun p a => ?_, rfl, rfl, rfl⟩
  · rw [h, if_pos ⟨rfl, ha⟩]
  · rw [h, if_neg (fun he => nomatch he.1)]

/-- The state still is quiescent then. -/
theorem Started.quiescent {g₁ : LocalGroup} (h : Started g g₁ sender msg) (hq : Quiescent g) :
    Quiescent g₁ := by
  refine ⟨by rw [h.broker, hq.running], fun {p} hp => ?_⟩
  rw [h.broker] at hp ⊢
  rw [h.proxies]
  exact hq.joined hp

/-- The broker forwards the message itself. -/
theorem Started.delivered_iff_of_relayed {g₁ g' : LocalGroup} (h : Started g g₁ sender msg)
    (hr : Relayed g₁ g' sender msg) : Delivered g g' sender msg ↔
      (msg.filterMsg sender = .ordinary ∨ g.unheard) ∧
        (kills sender msg → ∀ p, p ∉ g.broker.acquaintances) := by
  have hprox : ∀ p ∈ g.broker.acquaintances, ∀ a ∈ (g.proxies p).subscribers,
      g'.receivedBy (some p) a =
        if msg.filterMsg sender = .ordinary then [(sender, msg)] else [] := by
    intro p hp a ha
    rw [hr.atProxies p (by rwa [h.broker]) a (by rwa [h.proxies]), h.atProxies, List.nil_append]
  have hacq := hr.acquaintances
  rw [h.broker] at hacq
  constructor
  · intro hd
    -- without an ordinary message, nobody behind a proxy may wait for it
    refine ⟨or_iff_not_imp_left.mpr fun hf p hp a ha => ?_, fun hk p hp => ?_⟩
    · have := hd.atProxies p hp a ha
      rw [hprox p hp a ha, if_neg hf] at this
      exact List.cons_ne_nil _ _ this.symm
    · -- and no acquaintance may be killed by it
      exact ((hacq p).mp ((hd.acquaintances p).mpr hp)).2 hk
  · rintro ⟨hord, hk⟩
    refine ⟨fun a ha => ?_, fun p hp a ha => ?_, hr.subscribers.trans h.subscribers,
      fun p => (hr.proxies p).trans (by rw [h.proxies]), fun p => (hacq p).trans ?_⟩
    · rw [hr.atGroup, h.atGroup a ha]
    · rcases hord with hf | hun
      · rw [hprox p hp a ha, if_pos hf]
      · exact absurd ha (hun p hp a)
    · exact ⟨And.left, fun hp => ⟨hp, fun hkill => hk hkill p hp⟩⟩

/-- The broker keeps the message to itself. -/
theorem Started.delivered_iff_of_kept {g₁ g' : LocalGroup} (h : Started g g₁ sender msg)
    (hrecv : g'.received = g₁.received) (hs : g'.subscribers = g₁.subscribers)
    (hp : g'.proxies = g₁.proxies) : Delivered g g' sender msg ↔
      g.unheard ∧ ∀ p, p ∈ g'.broker.acquaintances ↔ p ∈ g.broker.acquaintances := by
  have hby : ∀ home a, g'.receivedBy home a = g₁.receivedBy home a := by
    intro home a
    unfold receivedBy
    rw [hrecv]
  constructor
  · intro hd
    refine ⟨fun p hp a ha => ?_, hd.acquaintances⟩
    have := hd.atProxies p hp a ha
    rw [hby, h.atProxies] at this
    exact List.cons_ne_nil _ _ this.symm
  · rintro ⟨hun, hacq⟩
    exact ⟨fun a ha => by rw [hby, h.atGroup a ha], fun p hp a ha => absurd ha (hun p hp a),
      hs.trans h.subscribers, fun p => by rw [hp, h.proxies], hacq⟩

/-- The broker keeps the message, with a new state of its own. -/
theorem Started.delivered_iff_of_broker {g₁ : LocalGroup} (h : Started g g₁ sender msg)
    {b : LocalBroker} (hb : b.exitReason = ExitReason.notExited)
    (hv : ∀ {p}, p ∈ b.acquaintances → p ≠ .invalid) :
    Delivered g { g₁ with broker := b }.handleDowns sender msg ↔
      g.unheard ∧ ∀ p, (p ∈ b.acquaintances ∧
        ¬ ((g.proxies p).exitReason ≠ ExitReason.notExited ∧ 0 < b.monitors p)) ↔
          p ∈ g.broker.acquaintances := by
  obtain ⟨acq, he, hmem⟩ := handleDowns_spec (g := { g₁ with broker := b }) hb hv
  unfold LocalGroup.lost at hmem
  dsimp only at hmem
  rw [h.proxies] at hmem
  rw [he]
  refine (h.delivered_iff_of_kept (by rfl) (by rfl) (by rfl)).trans ?_
  exact and_congr_right fun _ => forall_congr' fun p => iff_congr (hmem p) Iff.rfl

/-- A message that the broker drops. -/
theorem Started.delivered_iff_of_dropped {g₁ : LocalGroup} (h : Started g g₁ sender msg)
    (hq : Quiescent g) : Delivered g g₁.handleDowns sender msg ↔ g.unheard := by
  have hkeep := h.delivered_iff_of_broker hq.running fun hp => (hq.joined hp).1
  rw [← h.broker] at hkeep
  refine hkeep.trans (and_iff_left fun p => ?_)
  rw [h.broker]
  exact ⟨And.left, fun hp => ⟨hp, fun hx => hx.1 (hq.joined hp).2.1⟩⟩

section

variable {g₁ : LocalGroup} (hq : Quiescent g)
include hq

/-- A message that is taken for a new acquaintance. -/
theorem Started.join (h : Started g g₁ sender msg) (other : ActorAddr) :
    Delivered g { g₁ with broker := g.broker.join other }.handleDowns sender msg ↔
      g.unheard ∧ (other = .invalid ∨ other ∈ g.broker.acquaintances ∨
        (g.proxies other).exitReason ≠ ExitReason.notExited) := by
  have hold : ∀ {p}, p ∈ g.broker.acquaintances →
      ¬ ((g.proxies p).exitReason ≠ ExitReason.notExited) := fun hp hx => hx (hq.joined hp).2.1
  unfold LocalBroker.join
  split
  · -- nobody is inserted
    next hno =>
    rw [h.delivered_iff_of_broker hq.running fun hp => (hq.joined hp).1]
    refine and_congr_right fun _ => iff_of_true (fun p => ?_) (hno.imp_right Or.inl)
    exact ⟨And.left, fun hp => ⟨hp, fun hx => hold hp hx.1⟩⟩
  · next hno =>
    obtain ⟨hval, hmem⟩ := not_or.mp hno
    rw [h.delivered_iff_of_broker (by exact hq.running) fun hp => ?_]
    · refine and_congr_right fun _ => ?_
      simp only [USet.mem_insert, hval, hmem, false_or]
      constructor
      · -- the new acquaintance is not kept, so it has terminated
        intro hall hx
        refine hmem ((hall other).mp ⟨.inl rfl, fun hl => hl.1 hx⟩)
      · intro hx p
        by_cases hp : p = other
        · subst hp
          simp [hx, hmem]
        · simp only [hp, false_or, ne_eq]
          exact ⟨And.left, fun hin => ⟨hin, fun hl => hold hin hl.1⟩⟩
    · rcases USet.mem_insert.mp hp with rfl | hp
      · exact hval
      · exact (hq.joined hp).1

/-- An actor is removed from the acquaintances. -/
theorem Started.erase (h : Started g g₁ sender msg) (other : ActorAddr)
    {monitors : ActorAddr → Nat} :
    Delivered g { g₁ with broker := { g.broker with
      acquaintances := g.broker.acquaintances.erase other, monitors } }.handleDowns sender msg ↔
      g.unheard ∧ other ∉ g.broker.acquaintances := by
  rw [h.delivered_iff_of_broker (by exact hq.running)
    fun hp => (hq.joined (USet.mem_erase.mp hp).2).1]
  refine and_congr_right fun _ => ⟨fun hall hp => ?_, fun hno p => ?_⟩
  · exact (USet.mem_erase.mp ((hall other).mpr hp).1).1 rfl
  · rw [USet.mem_erase]
    refine ⟨fun hp => hp.1.2, fun hp => ⟨⟨fun he => hno (he ▸ hp), hp⟩, fun hx => ?_⟩⟩
    exact hx.1 (hq.joined hp).2.1

end

theorem invalid_not_mem (hq : Quiescent g) : ActorAddr.invalid ∉ g.broker.acquaintances :=
  fun hp => (hq.joined hp).1 rfl

/-- The broker of the group takes the message for one of its own. -/
theorem Started.quit {g₁ : LocalGroup} (h : Started g g₁ sender msg) (hq : Quiescent g)
    (reason : ExitReason) :
    Delivered g { g₁ with broker := g.broker.quit reason }.handleDowns sender msg ↔
      g.unheard ∧ (reason ≠ ExitReason.notExited → ∀ p, p ∉ g.broker.acquaintances) := by
  unfold LocalBroker.quit
  split
  · next hz =>
    rw [← h.broker]
    refine (h.delivered_iff_of_dropped hq).trans ?_
    simp [hz]
  · next hz =>
    refine (h.delivered_iff_of_kept (by rfl) (by rfl) (by rfl)).trans ?_
    refine and_congr_right fun _ => ⟨fun hall _ p hp => ?_, fun hno p => ?_⟩
    · exact USet.not_mem_empty p ((hall p).mpr hp)
    · exact iff_of_false (USet.not_mem_empty p) (hno hz p)

/-- A message that contains another one for the broker. -/
theorem Started.forward {g₁ : LocalGroup} (h : Started g g₁ sender (.forward what))
    (hq : Quiescent g) :
    Delivered g ((g₁.sendAllSubscribers sender what).sendToAcquaintances sender
      what).handleDowns sender (.forward what) ↔
      g.unheard ∧ (∀ a, a ∉ g.subscribers) ∧
        (kills sender what → ∀ p, p ∉ g.broker.acquaintances) := by
  have hq₁ := h.quiescent hq
  have hq₂ : Quiescent (g₁.sendAllSubscribers sender what) := ⟨hq₁.running, hq₁.joined⟩
  have hr := relayed hq₂ sender what
  have hby := receivedBy_append g₁ (g₁.sendAllSubscribers sender what) rfl
  have hacq := hr.acquaintances
  have hbroker : (g₁.sendAllSubscribers sender what).broker = g.broker := h.broker
  have hproxies : (g₁.sendAllSubscribers sender what).proxies = g.proxies := h.proxies
  rw [hbroker] at hacq
  constructor
  · intro hd
    refine ⟨fun p hp a ha => ?_, fun a ha => ?_, fun hk p hp => ?_⟩
    · -- subscribers of proxies receive the inner message or nothing
      have hone := hd.atProxies p hp a ha
      rw [hr.atProxies p (by rwa [hbroker]) a (by rwa [hproxies]), hby, h.atProxies,
        filter_deliveries, if_neg (fun he => nomatch he.1)] at hone
      split at hone
      · have he := (Prod.mk.inj (List.cons.inj hone).1).2
        have := congrArg sizeOf he
        simp at this
      · exact List.cons_ne_nil _ _ hone.symm
    · -- subscribers of the group receive both messages
      have hone := hd.atGroup a ha
      rw [hr.atGroup, hby, h.atGroup a ha, filter_deliveries,
        if_pos ⟨rfl, by rwa [h.subscribers]⟩] at hone
      simp at hone
    · exact ((hacq p).mp ((hd.acquaintances p).mpr hp)).2 hk
  · -- if nobody is there to be told, nothing can go wrong
    rintro ⟨hun, hno, hk⟩
    refine ⟨fun a ha => absurd ha (hno a), fun p hp a ha => absurd ha (hun p hp a),
      hr.subscribers.trans h.subscribers, fun p => (hr.proxies p).trans (by rw [hproxies]),
      fun p => (hacq p).trans ?_⟩
    exact ⟨And.left, fun hp => ⟨hp, fun hkill => hk hkill p hp⟩⟩

/-- The broker of the group handles ordinary messages itself. -/
theorem invokeBroker_of_ordinary (hq : Quiescent g) (hf : msg.filterMsg sender = .ordinary) :
    g.invokeBroker sender msg = g.handle sender msg := by
  unfold invokeBroker
  rw [hf]
  simp [hq.running]

/-- Contents without a handler of their own. -/
theorem Started.others {g₁ : LocalGroup} (h : Started g g₁ sender msg) (hq : Quiescent g)
    (hh : g₁.handle sender msg = g₁.sendToAcquaintances sender msg) :
    Delivered g (g₁.invokeBroker sender msg).handleDowns sender msg ↔
      (msg.filterMsg sender = .ordinary ∨ g.unheard) ∧
        (kills sender msg → ∀ p, p ∉ g.broker.acquaintances) := by
  have hq₁ := h.quiescent hq
  cases hf : msg.filterMsg sender with
  | ordinary =>
    rw [invokeBroker_of_ordinary hq₁ hf, hh, h.delivered_iff_of_relayed (relayed hq₁ sender msg),
      hf]
  | nonNormalExit reason =>
    have hquit : g₁.invokeBroker sender msg = { g₁ with broker := g.broker.quit reason } := by
      simp [invokeBroker, hq.running, hf, h.broker]
    rw [hquit, h.quit hq]
    simp [kills, hf]
  | _ =>
    have hdrop : g₁.invokeBroker sender msg = g₁ := by
      simp [invokeBroker, hq₁.running, hf]
    rw [hdrop, h.delivered_iff_of_dropped hq]
    simp [kills, hf]

/-- A group with one subscriber, and a proxy with another one. -/
def smallGroup : LocalGroup where
  subscribers := USet.empty.insert (.localActor 1)
  broker := ⟨USet.empty.insert (.proxy 2), fun _ => 1, ExitReason.notExited⟩
  proxies _ := ⟨USet.empty.insert (.localActor 3), ExitReason.notExited⟩
  received := []

/-- A group without subscribers is quiescent. -/
theorem smallGroup_quiescent : Quiescent smallGroup := by
  refine ⟨rfl, fun {p} hp => ⟨?_, rfl, Nat.one_pos⟩⟩
  rcases USet.mem_insert.mp hp with rfl | hp
  · exact nofun
  · exact absurd hp (USet.not_mem_empty p)

end LocalGroup

end BoostActor
