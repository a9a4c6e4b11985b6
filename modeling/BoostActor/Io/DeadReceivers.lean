import BoostActor.Core.LateRequests
import BoostActor.Io.Handles

/-!
# Requests to actors that are gone

A request to a remote actor passes three places: the proxy, which hands it to its manager
if it still has one; the mailbox of the broker; and the handler of the broker, which looks
for a route. `Outbound` is a broker with the messages of local actors on their way to
proxies. A request is `dead` when its proxy was killed before, or when there is no route
to the node of its receiver.

The broker answers a request for which there is no route. A proxy that was killed drops it
without an answer.

* `forward_unreachable` — what the handler of the broker does without a route;
* `dead_requests_bounced` — every dead request is answered once, in every run in which
  killed proxies get no requests; together with the same for local actors;
* `dead_request_dropped` — a request to a proxy that was killed.
-/

namespace BoostActor

open Lib

-- -------------------------
-- Requests on their way
-- -------------------------

/-- A message to a proxy. In the mailbox of the broker it is a `forward_atom` message. -/
structure Forward where
  serial : Nat
  sender : ActorAddr
  receiver : ProxyRef
  mid : MessageId
  msg : Message
deriving DecidableEq, Repr

namespace Forward

/-- Someone waits for a response to this message. -/
def asked (f : Forward) : Bool := f.sender ≠ .invalid && MessageId.isRequest f.mid

/-- What the broker reads from its mailbox. -/
def input (f : Forward) : Input := .forward f.sender (.proxy f.receiver) f.mid f.msg

/-- The response to a request that finds no route. -/
def bounced (f : Forward) : Reply :=
  ⟨f.serial, f.sender, MessageId.responseId f.mid, .exited ExitReason.remoteLinkUnreachable⟩

/-- The responses that the broker sends while it handles this message. -/
def responses (f : Forward) (es : List Event) : List Reply :=
  es.filterMap fun
    | .bounced sender mid rsn => some ⟨f.serial, sender, MessageId.responseId mid, .exited rsn⟩
    | _ => none

end Forward

namespace Broker

/-- The broker has not terminated. -/
def running (s : Broker) : Bool := s.exitReason = ExitReason.notExited

/-- `kill_proxy` was called on a proxy: it has no manager any more. -/
def killed (s : Broker) (r : ProxyRef) : Bool := ((s.heap[r]?).map (fun p => !p.manager)).getD false

/-- There is no route to the node of a proxy. -/
def cutOff (s : Broker) (r : ProxyRef) : Bool :=
  s.isRemote (.proxy r) && (s.tbl.route? (s.addrNode (.proxy r))).isNone

/-- A local actor can send a message to a proxy that it knows of. -/
def canSend (s : Broker) (sender : ActorAddr) (r : ProxyRef) (msg : Message) : Bool :=
  s.holds sender && s.holds (.proxy r) && s.live r && msg.locals.all (· < s.actors.length)

end Broker

/-- A broker, the forwarded messages in its mailbox, the requests that are dead and all
responses to messages to proxies that this node has made. `count` numbers the messages. -/
structure Outbound where
  broker : Broker
  unread : List Forward
  count : Nat
  dead : List Forward
  replies : List Reply

/-- What can happen. -/
inductive Move where
  /-- anything that happens to a broker, except for a forwarded message -/
  | broker (i : Input)
  /-- a local actor sends a message to a proxy -/
  | enqueue (sender : ActorAddr) (receiver : ProxyRef) (mid : MessageId) (msg : Message)
  /-- the broker handles the first message in its mailbox -/
  | forward

/-- The input is a forwarded message. -/
def Input.isForward : Input → Bool
  | .forward _ _ _ _ => true
  | _ => false

namespace Outbound

/-- The message that is sent next. -/
def sending (s : Outbound) (sender : ActorAddr) (r : ProxyRef) (mid : MessageId)
    (msg : Message) : Forward := ⟨s.count, sender, r, mid, msg⟩

/-- A request is dead when it is sent. -/
def isDead (s : Outbound) (f : Forward) : Bool :=
  f.asked && s.broker.isRemote (.proxy f.receiver) &&
    (s.broker.killed f.receiver || s.broker.cutOff f.receiver)

/-- `forwarding_actor_proxy::forward_msg`: without manager there is nothing to do, and the
mailbox of a broker that has terminated is closed. A `forward_atom` message has no sender
and no id, so nothing is bounced. -/
def forwardMsg (s : Outbound) (f : Forward) : List Forward :=
  if s.broker.killed f.receiver then s.unread
  else if s.broker.running then s.unread ++ [f] else s.unread

/-- `forwarding_actor_proxy::enqueue`. -/
def enqueue (s : Outbound) (f : Forward) : Outbound :=
  { s with
    count := s.count + 1
    unread := s.forwardMsg f
    dead := if s.isDead f then s.dead ++ [f] else s.dead }

/-- A broker that terminates drops the messages in its mailbox. -/
def mailbox (b : Broker) (unread : List Forward) : List Forward :=
  if b.running then unread else []

/-- The broker has handled the first message. -/
def handled (s : Outbound) (f : Forward) (rest : List Forward) (b : Broker) : Outbound :=
  { s with
    broker := b
    unread := mailbox b rest
    dead := if f.asked && s.broker.cutOff f.receiver then s.dead ++ [f] else s.dead
    replies := s.replies ++ f.responses (b.history.drop s.broker.history.length) }

/-- One step. -/
def step (s : Outbound) : Move → Option Outbound
  | .broker i =>
    if i.isForward then none
    else (s.broker.step i).map fun b => { s with broker := b, unread := mailbox b s.unread }
  | .enqueue sender r mid msg =>
    if s.broker.canSend sender r msg then some (s.enqueue (s.sending sender r mid msg)) else none
  | .forward =>
    match s.unread with
    | [] => none
    | f :: rest => (s.broker.step f.input).map (s.handled f rest)

/-- Nothing has been sent yet. -/
def isInitial (s : Outbound) : Prop :=
  s.broker.isInitial ∧ s.unread = [] ∧ s.count = 0 ∧ s.dead = [] ∧ s.replies = []

/-- The responses to a message. -/
def repliesTo (s : Outbound) (f : Forward) : List Reply :=
  s.replies.filter (·.serial = f.serial)

/-- A dead request has got exactly one response, or none as long as it is in the mailbox of
the broker; then the broker can go on with its mailbox. -/
def bouncesDead (s : Outbound) : Prop := ∀ f ∈ s.dead,
  f ∈ s.unread ∧ s.repliesTo f = [] ∧ (s.step .forward).isSome = true ∨
    f ∉ s.unread ∧ s.repliesTo f = [f.bounced]

/-- Dead requests are in the mailbox. -/
def waits (s : Outbound) (unread : List Forward) : Bool := unread.any (· ∈ s.dead)

/-- A dead request is sent to a proxy that was not killed, while the broker runs. As long as
it is in the mailbox, no handler ends the broker, and when its turn comes, there is still no
route. -/
def reachesBroker (s : Outbound) : Move → Bool
  | .broker i => !s.waits s.unread || (s.broker.exec i).running
  | .enqueue sender r mid msg => !s.isDead (s.sending sender r mid msg) ||
      (!s.broker.killed r && s.broker.running)
  | .forward =>
    match s.unread with
    | [] => true
    | f :: rest => (!decide (f ∈ s.dead) || s.broker.cutOff f.receiver) &&
        (!s.waits rest || (s.broker.exec f.input).running)

end Outbound

-- -------------------------
-- The handler of the broker
-- -------------------------

/-- Registering an actor changes the registry and the attachables of that actor. -/
theorem registerIfLocal_spec {s : Broker} (addr : ActorAddr) :
    After (registerIfLocal addr) s (fun _ s' => ∃ registry actors, s' = { s with registry, actors })
      fun _ _ => False := by
  cases addr with
  | invalid | proxy r => exact ⟨_, _, rfl⟩
  | localActor ref =>
    refine after_bind.mpr (after_get.mpr (after_bind.mpr (after_get.mpr ?_)))
    refine after_ite.mpr ⟨fun _ => ⟨_, _, rfl⟩, fun _ => ?_⟩
    refine after_bind.mpr (after_modify.mpr (after_bind.mpr (after_get.mpr ?_)))
    split
    · exact ⟨_, _, rfl⟩
    · exact after_ite.mpr ⟨fun _ => ⟨_, _, rfl⟩, fun _ => ⟨_, _, rfl⟩⟩

/-- Without a route nothing is sent. -/
theorem dispatch_unreachable {s : Broker} {sender receiver : ActorAddr} {mid : MessageId}
    {msg : Message} (hr : s.tbl.route? (s.addrNode receiver) = none) :
    After (dispatch sender receiver mid msg) s (fun sent s' => sent = false ∧
      s' = { s with tbl := s.tbl.prune (s.addrNode receiver) }.note
        (.messageSendingFailed sender receiver mid)) fun _ _ => False := by
  have hlookup : After (lookup (s.addrNode receiver)) s
      (fun path s' => path = none ∧ s' = { s with tbl := s.tbl.prune (s.addrNode receiver) })
      fun _ _ => False := by
    refine after_bind.mpr (after_get.mpr (after_bind.mpr (after_modify.mpr ?_)))
    rw [hr]
    exact ⟨rfl, rfl⟩
  refine after_bind.mpr (after_get.mpr (after_bind.mpr (hlookup.mono ?_ fun _ _ h => h)))
  rintro _ _ ⟨rfl, rfl⟩
  exact after_bind.mpr (after_modify.mpr (after_pure.mpr ⟨rfl, rfl⟩))

/-- Without a route the request is answered, and the broker goes on. -/
theorem forward_unreachable {s : Broker} {f : Forward} (hc : s.cutOff f.receiver = true)
    (ha : f.asked = true) : (s.exec f.input).exitReason = s.exitReason ∧
      f.responses ((s.exec f.input).history.drop s.history.length) = [f.bounced] := by
  simp only [Broker.cutOff, Bool.and_eq_true, Option.isNone_iff_eq_none] at hc
  simp only [Forward.asked, Bool.and_eq_true, decide_eq_true_eq] at ha
  have hspec : After (forwardMsg f.sender (.proxy f.receiver) f.mid f.msg) s
      (fun _ s' => s'.exitReason = s.exitReason ∧ s'.history = s.history ++
        [.messageSendingFailed f.sender (.proxy f.receiver) f.mid,
          .bounced f.sender f.mid ExitReason.remoteLinkUnreachable]) fun _ _ => False := by
    -- there is no route: the broker registers the sender, reports the failure and bounces
    refine after_bind.mpr (after_get.mpr (after_ite.mpr ⟨fun h => ?_, fun _ => ?_⟩))
    · simp [hc.1] at h
    refine after_bind.mpr ((registerIfLocal_spec f.sender).mono ?_ fun _ _ h => h)
    rintro _ _ ⟨registry, actors, rfl⟩
    have hr : ({ s with registry, actors } : Broker).tbl.route?
        (({ s with registry, actors } : Broker).addrNode (.proxy f.receiver)) = none := hc.2
    refine after_bind.mpr ((dispatch_unreachable hr).mono ?_ fun _ _ h => h)
    rintro _ _ ⟨rfl, rfl⟩
    refine after_ite.mpr ⟨fun _ => after_ite.mpr ⟨fun _ => ?_, fun h => absurd ⟨ha.1, ha.2⟩ h⟩,
      fun h => absurd (by rw [ha.2]; rfl) h⟩
    refine after_modify.mpr ⟨rfl, ?_⟩
    show (s.history ++ [_]) ++ [_] = _
    rw [List.append_assoc]
    rfl
  obtain ⟨hexit, hhistory⟩ := Broker.invoke_spec (P := fun s' => s'.exitReason = s.exitReason ∧
    s'.history = s.history ++ [.messageSendingFailed f.sender (.proxy f.receiver) f.mid,
      .bounced f.sender f.mid ExitReason.remoteLinkUnreachable])
    (hspec.mono (fun _ _ h => h) fun _ _ h => h.elim)
  refine ⟨hexit, ?_⟩
  show f.responses ((s.invoke _).history.drop _) = _
  rw [hhistory, List.drop_left]
  rfl

-- -------------------------
-- What holds throughout a run
-- -------------------------

namespace Outbound

variable {s s' : Outbound}

/-- A broker can handle a message. -/
structure Sendable (b : Broker) (f : Forward) : Prop where
  sender : b.holds f.sender = true
  receiver : b.holds (.proxy f.receiver) = true
  locals : ∀ ref ∈ f.msg.locals, ref < b.actors.length

/-- A request that can be sent still can be sent once the broker has grown. -/
theorem Sendable.grown {b b' : Broker} {f : Forward} (h : Sendable b f) (hg : Grown b b') :
    Sendable b' f :=
  ⟨hg.holds h.sender, hg.holds h.receiver,
    fun ref hr => Nat.lt_of_lt_of_le (h.locals ref hr) hg.actors⟩

/-- Forwarding a sendable request is an input of a running broker. -/
theorem Sendable.enabled {b : Broker} {f : Forward} (h : Sendable b f) (hr : b.running = true) :
    b.enabled f.input = true := by
  have hlocals : f.msg.locals.all (· < b.actors.length) = true := by
    rw [List.all_eq_true]
    intro ref hmem
    exact decide_eq_true (h.locals ref hmem)
  simp only [Broker.running, decide_eq_true_eq] at hr
  simp [Broker.enabled, Forward.input, hr, h.sender, h.receiver, hlocals]

/-- A message that has been numbered, and that nobody has answered. -/
structure Open (s : Outbound) (f : Forward) : Prop where
  numbered : f.serial < s.count
  sendable : Sendable s.broker f
  silent : s.repliesTo f = []

/-- A dead request that has got its response. -/
structure Settled (s : Outbound) (f : Forward) : Prop where
  numbered : f.serial < s.count
  gone : ∀ g ∈ s.unread, g.serial ≠ f.serial
  bounced : s.repliesTo f = [f.bounced]

/-- The mailbox is in order, its messages are open, and a dead request is in the mailbox or
has got its response. -/
structure Accounted (s : Outbound) : Prop where
  wired : Wired s.broker
  order : s.unread.Pairwise (·.serial < ·.serial)
  running : s.unread ≠ [] → s.broker.running = true
  unread : ∀ f ∈ s.unread, s.Open f
  replies : ∀ r ∈ s.replies, r.serial < s.count
  asked : ∀ f ∈ s.dead, f.asked = true
  dead : ∀ f ∈ s.dead, f ∈ s.unread ∨ s.Settled f

/-- Accounting for every request bounces the dead ones. -/
theorem Accounted.bouncesDead (h : s.Accounted) : s.bouncesDead := by
  intro f hf
  rcases h.dead f hf with hu | hs
  · refine .inl ⟨hu, (h.unread f hu).silent, ?_⟩
    have hne : s.unread ≠ [] := List.ne_nil_of_mem hu
    simp only [step]
    split
    · contradiction
    · next g rest hg =>
      have hmem : g ∈ s.unread := by rw [hg]; exact List.mem_cons_self ..
      have he := (h.unread g hmem).sendable.enabled (h.running hne)
      simp [Broker.step, he]
  · exact .inr ⟨fun hu => hs.gone f hu rfl, hs.bounced⟩

-- -------------------------
-- Steps
-- -------------------------

/-- A response to a request carries its number. -/
theorem responses_serial {f : Forward} {es : List Event} {r : Reply}
    (h : r ∈ f.responses es) : r.serial = f.serial := by
  simp only [Forward.responses, List.mem_filterMap] at h
  obtain ⟨e, -, he⟩ := h
  cases e <;> cases he
  rfl

/-- The responses to one message are not responses to another one. -/
theorem repliesTo_other {f g : Forward} {es : List Event} (hne : g.serial ≠ f.serial)
    (hr : s'.replies = s.replies ++ f.responses es) : s'.repliesTo g = s.repliesTo g := by
  have hnone : (f.responses es).filter (·.serial = g.serial) = [] := by
    rw [List.filter_eq_nil_iff]
    intro r hmem he
    have hserial := responses_serial hmem
    have heq : r.serial = g.serial := of_decide_eq_true he
    exact hne (heq.symm.trans hserial)
  rw [repliesTo, hr, List.filter_append, hnone, List.append_nil, repliesTo]

/-- A first response to a request is the only one. -/
theorem repliesTo_same {f : Forward} {es : List Event} (hs : s.repliesTo f = [])
    (hr : s'.replies = s.replies ++ f.responses es) : s'.repliesTo f = f.responses es := by
  have hs' : s.replies.filter (·.serial = f.serial) = [] := hs
  rw [repliesTo, hr, List.filter_append, hs', List.nil_append, List.filter_eq_self]
  intro r hmem
  exact decide_eq_true (responses_serial hmem)

/-- Other inputs of the broker keep the accounts. -/
theorem Accounted.broker {i : Input} {b : Broker} (h : s.Accounted)
    (hok : s.waits s.unread = true → b.running = true) (hb : s.broker.step i = some b) :
    Accounted { s with broker := b, unread := mailbox b s.unread } := by
  have hwired := h.wired.step hb
  have hgrown := Grown.step h.wired hb
  by_cases hrun : b.running = true
  · have hmailbox : mailbox b s.unread = s.unread := if_pos hrun
    rw [hmailbox]
    refine ⟨hwired, h.order, fun _ => hrun, fun f hf => ?_, h.replies, h.asked, fun f hf => ?_⟩
    · have ho := h.unread f hf
      exact ⟨ho.numbered, ho.sendable.grown hgrown, ho.silent⟩
    · rcases h.dead f hf with hu | hs
      · exact .inl hu
      · exact .inr ⟨hs.numbered, hs.gone, hs.bounced⟩
  · -- the broker ends: nothing dead was in its mailbox
    have hmailbox : mailbox b s.unread = [] := if_neg hrun
    rw [hmailbox]
    refine ⟨hwired, .nil, fun hne => absurd rfl hne, nofun, h.replies, h.asked, fun f hf => ?_⟩
    rcases h.dead f hf with hu | hs
    · have hwaits : s.waits s.unread = true :=
        List.any_eq_true.mpr ⟨f, hu, decide_eq_true hf⟩
      exact absurd (hok hwaits) hrun
    · exact .inr ⟨hs.numbered, nofun, hs.bounced⟩

theorem isDead_asked {f : Forward} (h : s.isDead f = true) : f.asked = true := by
  simp only [isDead, Bool.and_eq_true] at h
  exact h.1.1

/-- The mailbox of the broker after a proxy passed a message on, or did not. -/
theorem forwardMsg_cases (s : Outbound) (f : Forward) : s.forwardMsg f = s.unread ∨
    s.forwardMsg f = s.unread ++ [f] ∧ s.broker.running = true := by
  unfold forwardMsg
  split
  · exact .inl rfl
  · split
    · next hr => exact .inr ⟨rfl, hr⟩
    · exact .inl rfl

/-- A forwarded message is one that waited or the new one. -/
theorem mem_forwardMsg {f g : Forward} (hg : g ∈ s.forwardMsg f) : g ∈ s.unread ∨ g = f := by
  rcases s.forwardMsg_cases f with he | ⟨he, -⟩
  · rw [he] at hg
    exact .inl hg
  · rw [he] at hg
    simpa using hg

theorem mem_forwardMsg_of_unread {f g : Forward} (hg : g ∈ s.unread) : g ∈ s.forwardMsg f := by
  rcases s.forwardMsg_cases f with he | ⟨he, -⟩
  · rw [he]
    exact hg
  · rw [he]
    exact List.mem_append_left _ hg

/-- A message is recorded as dead under a condition. -/
theorem mem_recorded {c : Bool} {f g : Forward} {dead : List Forward}
    (h : g ∈ if c then dead ++ [f] else dead) : g ∈ dead ∨ g = f ∧ c = true := by
  split at h
  · next hc =>
    rcases List.mem_append.mp h with h | h
    · exact .inl h
    · exact .inr ⟨List.mem_singleton.mp h, hc⟩
  · exact .inl h

/-- A message that is sent leaves those alone that are settled. -/
theorem Settled.enqueue {f g : Forward} (h : s.Settled g) (hf : f.serial = s.count) :
    (s.enqueue f).Settled g := by
  refine ⟨Nat.lt_succ_of_lt h.numbered, fun x hx he => ?_, h.bounced⟩
  rcases mem_forwardMsg hx with hx | rfl
  · exact h.gone x hx he
  · have hlt := h.numbered
    omega

/-- Sending through a proxy keeps the accounts. -/
theorem Accounted.enqueue {sender : ActorAddr} {r : ProxyRef} {mid : MessageId} {msg : Message}
    (h : s.Accounted) (hc : s.broker.canSend sender r msg = true)
    (hok : s.isDead (s.sending sender r mid msg) = true →
      s.broker.killed r = false ∧ s.broker.running = true) :
    (s.enqueue (s.sending sender r mid msg)).Accounted := by
  let f := s.sending sender r mid msg
  simp only [Broker.canSend, Bool.and_eq_true, List.all_eq_true, decide_eq_true_eq] at hc
  have hsilent : (s.enqueue f).repliesTo f = [] := by
    show s.replies.filter _ = []
    rw [List.filter_eq_nil_iff]
    intro x hx he
    have hlt := h.replies x hx
    have heq : x.serial = s.count := of_decide_eq_true he
    omega
  have hnew : (s.enqueue f).Open f :=
    ⟨Nat.lt_succ_self s.count, ⟨hc.1.1.1, hc.1.1.2, hc.2⟩, hsilent⟩
  refine ⟨h.wired, ?_, fun hne => ?_, fun g hg => ?_,
    fun x hx => Nat.lt_succ_of_lt (h.replies x hx), fun g hg => ?_, fun g hg => ?_⟩
  · -- the numbers of the waiting messages grow, and the new one is the largest
    show (s.forwardMsg f).Pairwise _
    rcases s.forwardMsg_cases f with he | ⟨he, -⟩
    · rw [he]
      exact h.order
    · rw [he, List.pairwise_append]
      refine ⟨h.order, List.pairwise_singleton _ _, fun g hg x hx => ?_⟩
      rw [List.mem_singleton.mp hx]
      exact (h.unread g hg).numbered
  · rcases s.forwardMsg_cases f with he | ⟨-, hr⟩
    · refine h.running fun hnil => hne ?_
      show s.forwardMsg f = []
      rw [he, hnil]
    · exact hr
  · rcases mem_forwardMsg hg with hg | rfl
    · have ho := h.unread g hg
      exact ⟨Nat.lt_succ_of_lt ho.numbered, ho.sendable, ho.silent⟩
    · exact hnew
  · -- a dead request waits or has been bounced
    rcases mem_recorded hg with hg | ⟨rfl, hd⟩
    · exact h.asked g hg
    · exact isDead_asked hd
  · rcases mem_recorded hg with hg | ⟨rfl, hd⟩
    · rcases h.dead g hg with hu | hs
      · exact .inl (mem_forwardMsg_of_unread hu)
      · exact .inr (hs.enqueue rfl)
    · -- the new request is dead: the proxy passes it on
      obtain ⟨hk, hr⟩ := hok hd
      refine .inl ?_
      have hk' : s.broker.killed f.receiver = false := hk
      show f ∈ s.forwardMsg f
      simp [forwardMsg, hk', hr]

/-- The broker handles the first message: what is dead about it is answered. -/
theorem Accounted.forward {f : Forward} {rest : List Forward} {b : Broker} (h : s.Accounted)
    (hu : s.unread = f :: rest) (hroute : f ∈ s.dead → s.broker.cutOff f.receiver = true)
    (hok : s.waits rest = true → b.running = true) (hb : s.broker.step f.input = some b) :
    (s.handled f rest b).Accounted := by
  have hwired := h.wired.step hb
  have hgrown := Grown.step h.wired hb
  have hfirst : f ∈ s.unread := by rw [hu]; exact List.mem_cons_self ..
  have hf := h.unread f hfirst
  have hlater : ∀ g ∈ rest, g ∈ s.unread := by
    intro g hg
    rw [hu]
    exact List.mem_cons_of_mem _ hg
  have horder := h.order
  rw [hu, List.pairwise_cons] at horder
  have hrest : ∀ g ∈ rest, g.serial ≠ f.serial := fun g hg => Nat.ne_of_gt (horder.1 g hg)
  -- a broker that has ended throws its mailbox away
  have hmailbox : ∀ g ∈ mailbox b rest, g ∈ rest := by
    intro g hg
    unfold mailbox at hg
    split at hg
    · exact hg
    · cases hg
  -- without a route, the request gets its response now
  have hsettled : f.asked = true → s.broker.cutOff f.receiver = true →
      (s.handled f rest b).Settled f := by
    intro ha hc
    rw [Broker.step_eq_some] at hb
    obtain ⟨-, hresponses⟩ := forward_unreachable hc ha
    refine ⟨hf.numbered, fun g hg => hrest g (hmailbox g hg), ?_⟩
    rw [repliesTo_same hf.silent rfl, hb.2]
    exact hresponses
  have hkept : ∀ g ∈ s.dead, g ∈ (s.handled f rest b).unread ∨ (s.handled f rest b).Settled g := by
    intro g hg
    rcases h.dead g hg with hmem | hs
    · rw [hu] at hmem
      rcases List.mem_cons.mp hmem with rfl | hmem
      · exact .inr (hsettled (h.asked g hg) (hroute hg))
      · have hwaits : s.waits rest = true := List.any_eq_true.mpr ⟨g, hmem, decide_eq_true hg⟩
        refine .inl ?_
        show g ∈ mailbox b rest
        rw [mailbox, if_pos (hok hwaits)]
        exact hmem
    · refine .inr ⟨hs.numbered, fun x hx => hs.gone x (hlater x (hmailbox x hx)), ?_⟩
      rw [repliesTo_other (fun he => hs.gone f hfirst he.symm) rfl]
      exact hs.bounced
  refine ⟨hwired, ?_, fun hne => ?_, fun g hg => ?_, fun r hr => ?_, fun g hg => ?_, fun g hg => ?_⟩
  · -- each item of the invariant, for the messages that are left
    show (mailbox b rest).Pairwise _
    unfold mailbox
    split
    · exact horder.2
    · exact .nil
  · replace hne : mailbox b rest ≠ [] := hne
    unfold mailbox at hne
    split at hne
    · next hr => exact hr
    · exact absurd rfl hne
  · have hmem := hmailbox g hg
    have ho := h.unread g (hlater g hmem)
    refine ⟨ho.numbered, ho.sendable.grown hgrown, ?_⟩
    rw [repliesTo_other (hrest g hmem) rfl]
    exact ho.silent
  · rcases List.mem_append.mp hr with hr | hr
    · exact h.replies r hr
    · rw [responses_serial hr]
      exact hf.numbered
  · rcases mem_recorded hg with hg | ⟨rfl, hc⟩
    · exact h.asked g hg
    · rw [Bool.and_eq_true] at hc
      exact hc.1
  · rcases mem_recorded hg with hg | ⟨rfl, hc⟩
    · exact hkept g hg
    · rw [Bool.and_eq_true] at hc
      exact .inr (hsettled hc.1 hc.2)

/-- Every move keeps the accounts, as long as dead requests reach the broker. -/
theorem Accounted.step {m : Move} (h : s.Accounted) (hok : s.reachesBroker m = true)
    (hs : s.step m = some s') : s'.Accounted := by
  cases m with
  | broker i =>
    simp only [Outbound.step] at hs
    split at hs
    · cases hs
    · rw [Option.map_eq_some_iff] at hs
      obtain ⟨b, hb, rfl⟩ := hs
      refine h.broker (fun hw => ?_) hb
      simp only [reachesBroker, hw] at hok
      rw [(Broker.step_eq_some.mp hb).2]
      simpa using hok
  | enqueue sender r mid msg =>
    simp only [Outbound.step] at hs
    split at hs
    · next hc =>
      cases hs
      refine h.enqueue hc fun hd => ?_
      simp only [reachesBroker, hd] at hok
      simpa using hok
    · cases hs
  | forward =>
    simp only [Outbound.step] at hs
    split at hs
    · cases hs
    · next f rest hu =>
      rw [Option.map_eq_some_iff] at hs
      obtain ⟨b, hb, rfl⟩ := hs
      simp only [reachesBroker, hu, Bool.and_eq_true] at hok
      refine h.forward hu (fun hd => ?_) (fun hw => ?_) hb
      · simpa [hd] using hok.1
      · have hrun := hok.2
        rw [hw] at hrun
        rw [(Broker.step_eq_some.mp hb).2]
        simpa using hrun

/-- Every reachable state accounts for its requests. -/
theorem accounted (h : Reach isInitial step (fun s m => s.reachesBroker m = true) s) :
    s.Accounted := by
  refine Reach.invariant ?_ (fun s m s' hi hok hs => hi.step hok hs) h
  rintro s ⟨hb, hu, -, hd, hr⟩
  refine ⟨.initial hb, by rw [hu]; exact .nil, fun hne => absurd hu hne, ?_, ?_, ?_, ?_⟩
  · rw [hu]; nofun
  · rw [hr]; nofun
  · rw [hd]; nofun
  · rw [hd]; nofun

end Outbound

-- -------------------------
-- Dead receivers
-- -------------------------

/-- **Requests to dead actors are answered once**: a request to a local actor after its mailbox
was closed, whatever happened before and happens afterwards; and a request to a proxy, in
every run in which killed proxies get no requests. -/
theorem dead_requests_bounced (a b : EventBasedActor) (sender : ActorAddr) (mid : MessageId)
    (content : Content) (s : Outbound) :
    (EventBasedActor.Reachable anyStep a → a.phase.ended = true → sender ≠ .invalid →
      MessageId.isRequest mid = true →
      Reach (· = a.enqueue sender mid content) EventBasedActor.step anyStep b →
      b.sent.filter (·.serial = a.enqueued.length) =
        [⟨a.enqueued.length, sender, MessageId.responseId mid,
          .exited (bouncedReason a.exitReason)⟩]) ∧
    (Reach Outbound.isInitial Outbound.step (fun s m => s.reachesBroker m = true) s →
      s.bouncesDead) :=
  ⟨EventBasedActor.late_request_bounced, fun h => (Outbound.accounted h).bouncesDead⟩

namespace Sample

/-- Node 1 gets the handle of an actor of node 3 from node 2, to which it then loses the
connection. Its proxies are that of node 3, which is not reachable any more, and that of
node 2, which is killed. -/
def isolates : List Move :=
  [.broker (dials 7), .broker (hears 7 (serverHello (node 2))),
    .broker (hears 7 (dispatches (node 2) (node 1) (carries 3 5))),
    .broker (reads 7 (carries 3 5).bytes), .broker (.connectionClosed (conn 7))]

/-- A local actor sends a request to a proxy. -/
def requests (r : ProxyRef) : Move := .enqueue (.localActor 0) r 1 infoRequest

/-- Node 1, before anything happens. -/
def outbound : Outbound := ⟨broker 1, [], 0, [], []⟩

theorem outbound_isInitial : outbound.isInitial := ⟨⟨_, _, rfl⟩, rfl, rfl, rfl, rfl⟩

end Sample

open Sample in
/-- A request to an actor that has exited, and one to an actor of node 3. -/
theorem dead_requests_bounced_exited :
    (∃ s : EventBasedActor, EventBasedActor.Reachable anyStep s ∧ s.phase.ended = true ∧
      (s.enqueue (.localActor 7) 1 .user).sent.filter (·.serial = s.enqueued.length) =
        [⟨s.enqueued.length, .localActor 7, MessageId.responseId 1,
          .exited (bouncedReason s.exitReason)⟩]) ∧
    ∃ s : Outbound, Reach Outbound.isInitial Outbound.step (fun s m => s.reachesBroker m = true) s ∧
      s.unread = [] ∧ ∃ f ∈ s.dead, f.receiver = 0 ∧ s.repliesTo f = [f.bounced] := by
  refine ⟨?_, ?_⟩
  · obtain ⟨s, hrun, hs⟩ := exists_run EventBasedActor.step (EventBasedActor.initial 0 false false)
      [.act (.become ⟨none, .user 0⟩ false), .ret .void, .enqueue .invalid 0 .user, .next,
        .act (.quit 1),
        .ret .void, .ret .void, .exit]
      (fun s => s.phase.ended) (by decide +kernel)
    have hreach : EventBasedActor.Reachable anyStep s :=
      reach_of_run (.init ⟨0, false, false, rfl⟩) hrun
    exact ⟨s, hreach, hs, (dead_requests_bounced s _ _ _ _ outbound).1 hreach hs (by decide)
      (by decide) (.init rfl)⟩
  · obtain ⟨s, hrun, hs⟩ := exists_run
      (fun s m => if Outbound.reachesBroker s m = true then Outbound.step s m else none) outbound
      (isolates ++ [requests 0, .forward])
      (fun s => s.unread = [] && outbound.sending (.localActor 0) 0 1 infoRequest ∈ s.dead)
      (by decide +kernel)
    simp only [Bool.and_eq_true, decide_eq_true_eq] at hs
    have hreach : Reach Outbound.isInitial Outbound.step (fun s m => s.reachesBroker m = true) s :=
      reach_of_checked_run (.init outbound_isInitial) hrun
    refine ⟨s, hreach, hs.1, _, hs.2, rfl, ?_⟩
    have hall := (dead_requests_bounced (.initial 0 false false) (.initial 0 false false)
      .invalid 0 .user s).2 hreach
    rcases hall _ hs.2 with ⟨hu, -⟩ | ⟨-, hb⟩
    · rw [hs.1] at hu
      cases hu
    · exact hb

open Sample in
/-- The proxy of node 2 was killed: it drops the request, and nobody answers it. -/
theorem dead_request_dropped : ¬ ∀ s : Outbound,
    Reach Outbound.isInitial Outbound.step anyStep s → s.bouncesDead := by
  intro h
  obtain ⟨s, hrun, hs⟩ := exists_run Outbound.step outbound (isolates ++ [requests 1])
    (fun s => s.unread = [] && s.replies = [] &&
      outbound.sending (.localActor 0) 1 1 infoRequest ∈ s.dead) (by decide +kernel)
  simp only [Bool.and_eq_true, decide_eq_true_eq] at hs
  rcases h s (reach_of_run (.init outbound_isInitial) hrun) _ hs.2 with ⟨hu, -⟩ | ⟨-, hb⟩
  · rw [hs.1.1] at hu
    cases hu
  · rw [Outbound.repliesTo, hs.1.2] at hb
    cases hb

end BoostActor
