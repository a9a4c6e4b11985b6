import BoostActor.Io.Emissions
import BoostActor.Io.Link

/-!
# A network of brokers

Any number of nodes that all run this code, with any number of connections between them. A
connection has two ends. What one end has handed to the network arrives at the other one in the
same order, at any time and in the pieces that the scribe there is configured for; ends close at
any time. Everything else that happens to a broker happens in any order.

* `awaits_of_new` — how a broker gets a connection;
* `acts_of_act` — what happens to the ends of a node when its broker goes on.
-/

namespace BoostActor

open Lib

/-! ## Ends of connections -/

/-- Where an end of a connection is. -/
inductive EndState where
  /-- the broker has yet to get the connection that its node has asked for -/
  | connecting
  /-- a doorman has yet to accept the connection -/
  | accepting
  | isOpen (hdl : ConnectionHandle)
  | closed
deriving DecidableEq, Repr

/-- One end of a connection. -/
structure ConnectionEnd where
  node : Nat
  /-- the other end -/
  peer : Nat
  state : EndState
  /-- the messages that the network has been given at this end -/
  sent : List Packet
  /-- how many bytes of what the other end has sent have been read -/
  received : Nat
  /-- the messages that have been processed -/
  messages : List (Header × Bytes)
deriving DecidableEq, Repr

structure BrokerNetwork where
  brokers : Nat → Broker
  ends : List ConnectionEnd

/-- What can happen. The messages `last` are some of those that a broker wrote to connections in
the step in which it closed them. -/
inductive NetworkAction where
  /-- a node connects to a port of another one -/
  | establish (client server : Nat)
  /-- the broker of the client gets the connection -/
  | connect (k : Nat) (hdl : ConnectionHandle) (port : UInt16)
  /-- a doorman of the server accepts it -/
  | accept (k : Nat) (hdl : ConnectionHandle) (source : AcceptHandle)
  /-- the scribe of an end has read its next piece -/
  | read (k : Nat) (last : List (ConnectionHandle × Packet))
  /-- anything else that happens to a broker -/
  | other (i : Nat) (input : Input) (last : List (ConnectionHandle × Packet))

/-- Whether an input is about what comes from the network. -/
def Input.fromNetwork : Input → Bool
  | .newData _ => true
  | .newConnection _ _ => true
  | .connect _ _ none => true
  | _ => false

/-- What a scribe has handed to its socket. -/
def Broker.sentOn (s : Broker) (hdl : ConnectionHandle) : List Packet :=
  ((s.scribes.find? hdl).map (·.sent)).getD []

/-- The handle of an end that is open. -/
def EndState.handle? : EndState → Option ConnectionHandle
  | .isOpen hdl => some hdl
  | _ => none

/-- The broker of an end does not have it yet. -/
def EndState.unused : EndState → Bool
  | .connecting => true
  | .accepting => true
  | _ => false

/-- What becomes of an end when its broker goes from `s` to `s'`. -/
def ConnectionEnd.follow (s s' : Broker) (last : List (ConnectionHandle × Packet))
    (e : ConnectionEnd) : ConnectionEnd :=
  match e.state with
  | .isOpen hdl =>
    if s'.scribes.contains hdl then
      { e with sent := e.sent ++ (s'.sentOn hdl).drop (s.sentOn hdl).length }
    else
      { e with state := .closed, sent := e.sent ++ (last.filter (·.1 = hdl)).map (·.2) }
  | _ => e

/-- What becomes of it when node `i` is the one of that broker. -/
def ConnectionEnd.move (i : Nat) (s s' : Broker) (last : List (ConnectionHandle × Packet))
    (e : ConnectionEnd) : ConnectionEnd :=
  if e.node = i then e.follow s s' last else e

namespace BrokerNetwork

/-- Something happens to the broker of node `i`. -/
def act (n : BrokerNetwork) (i : Nat) (input : Input) (last : List (ConnectionHandle × Packet)) :
    Option BrokerNetwork := do
  let s' ← (n.brokers i).step input
  if last.all fun w => .wrote w.1 w.2 ∈ s'.history.drop (n.brokers i).history.length then
    return ⟨Function.update n.brokers i s', n.ends.map (ConnectionEnd.move i (n.brokers i) s' last)⟩
  else none

/-- The broker of an end has got the connection, unless it has terminated. -/
def attach (n : BrokerNetwork) (k : Nat) (hdl : ConnectionHandle) : BrokerNetwork :=
  { n with
    ends := n.ends.modify k fun e =>
      if (n.brokers e.node).scribes.contains hdl then
        { e with state := .isOpen hdl, sent := (n.brokers e.node).sentOn hdl }
      else { e with state := .closed } }

/-- The end `k` has received `len` bytes more. -/
def receive (n : BrokerNetwork) (k len : Nat) (messages : List (Header × Bytes)) :
    BrokerNetwork :=
  { n with
    ends := n.ends.modify k fun e =>
      { e with received := e.received + len, messages := e.messages ++ messages } }

/-- The bytes that are on their way to an end, whose peer is `peer`. -/
def wire (e peer : ConnectionEnd) : Bytes := (bytesOf peer.sent).drop e.received

/-- A scribe reads as many bytes as it was configured for. -/
def read (n : BrokerNetwork) (k : Nat) (last : List (ConnectionHandle × Packet)) :
    Option BrokerNetwork := do
  let e ← n.ends[k]?
  let peer ← n.ends[e.peer]?
  let hdl ← e.state.handle?
  let len ← (n.brokers e.node).rdSize? hdl
  if len ≤ (wire e peer).length then
    -- the next message of the peer is the one that the piece belongs to
    let via := ((peer.sent[e.messages.length]?).map (·.via)).getD []
    let dm : NewData := ⟨hdl, (wire e peer).take len, via⟩
    let n' ← n.act e.node (.newData dm) last
    return n'.receive k len ((n.brokers e.node).processed dm)
  else none

def step (n : BrokerNetwork) : NetworkAction → Option BrokerNetwork
  | .establish client server => some { n with
      ends := n.ends ++ [⟨client, n.ends.length + 1, .connecting, [], 0, []⟩,
        ⟨server, n.ends.length, .accepting, [], 0, []⟩] }
  | .connect k hdl port => do
    let e ← n.ends[k]?
    if e.state = .connecting then
      let n' ← n.act e.node (.connect hdl port none) []
      return n'.attach k hdl
    else none
  | .accept k hdl source => do
    let e ← n.ends[k]?
    if e.state = .accepting then
      let n' ← n.act e.node (.newConnection hdl source) []
      return n'.attach k hdl
    else none
  | .read k last => n.read k last
  | .other i input last => if input.fromNetwork then none else n.act i input last

/-- All brokers have just been started. -/
def isInitial (n : BrokerNetwork) : Prop := (∀ i, (n.brokers i).isInitial) ∧ n.ends = []

/-- The length of a payload fits into a header. -/
def Fits (n : BrokerNetwork) : Prop := ∀ e ∈ n.ends, ∀ p ∈ e.sent, p.payload.length < 2 ^ 32

instance (n : BrokerNetwork) : Decidable n.Fits :=
  inferInstanceAs (Decidable (∀ e ∈ n.ends, ∀ p ∈ e.sent, _))

/-- No broker sends a message with a payload of `2 ^ 32` bytes or more. -/
def fits (n : BrokerNetwork) (a : NetworkAction) : Prop := ∀ n' ∈ n.step a, n'.Fits

instance (n : BrokerNetwork) (a : NetworkAction) : Decidable (n.fits a) :=
  match h : n.step a with
  | none => isTrue fun n' hn' => by rw [h] at hn'; cases hn'
  | some n' => decidable_of_iff n'.Fits (by rw [fits, h]; simp)

end BrokerNetwork

/-! ## Handles -/

variable {hdl : ConnectionHandle} {s s' : Broker} {p : Packet}

/-- A connection has a read size exactly while its scribe is there. -/
theorem Broker.rdSize?_isSome : (s.rdSize? hdl).isSome = s.scribes.contains hdl := Option.isSome_map

/-- A broker of a node gets a connection from the network only, and waits for a header then. -/
theorem awaits_of_new {i : Input} (hw : Wired s) (hs : s.step i = some s')
    (hold : s.scribes.contains hdl = false) (hnew : s'.scribes.contains hdl = true) :
    (s'.contextOf hdl).cstate = .awaitHeader ∧
      ((∃ source, i = .newConnection hdl source) ∨ ∃ port, i = .connect hdl port none) := by
  rw [← Broker.rdSize?_isSome] at hold hnew
  -- a step that leaves the handle alone does not explain the new scribe
  have hsame : s'.rdSize? hdl ≠ s.rdSize? hdl := by
    intro he
    rw [he, hold] at hnew
    cases hnew
  have hempty : s'.scribes ≠ UMap.empty := by
    intro he
    rw [Broker.rdSize?, he] at hnew
    cases hnew
  have hctx : s.ctx.find? hdl = none := by
    cases hc : s.ctx.find? hdl with
    | none => rfl
    | some c =>
      rw [(hw.opened hc).1] at hold
      cases hold
  have hopened {hdl' : ConnectionHandle} {s₁ : Broker} (h : s₁.rdSize? hdl ≠ s.rdSize? hdl)
      (ho : s₁.rdSize? hdl = (s.opened hdl').rdSize? hdl) : hdl' = hdl := by
    by_contra hne
    rw [ho, Broker.opened_rdSize?, if_neg hne, Option.or_none] at h
    exact h rfl
  -- configuring one scribe leaves the others alone
  have hconfigure {s₁ : Broker} {hdl' : ConnectionHandle} (n : Nat) (hne : hdl' ≠ hdl) :
      (s₁.configure hdl' n).rdSize? hdl = s₁.rdSize? hdl := by
    rw [Broker.rdSize?, Broker.configure, UMap.find?_adjust, if_neg (by simpa using hne)]
    rfl
  have herase {hdl' : ConnectionHandle} (he : s'.scribes = s.scribes.erase hdl') :
      (s'.rdSize? hdl).isSome = false := by
    rw [Broker.rdSize?, he, UMap.find?_erase]
    split
    · rfl
    · exact hold
  cases step_cases hw hs with
  | other ho => exact absurd (ho.calm.rdSize? hdl) hsame
  | ended => exact absurd Broker.terminate_scribes hempty
  | @data dm _ ho hd =>
    by_cases he : dm.handle = hdl
    · rw [he, hold] at ho
      cases ho
    · rcases hd.othersKept hw ho with hk | he'
      · exact absurd (hk.rdSize? hdl (Ne.symm he)) hsame
      · exact absurd he' hempty
  -- both ways to a new scribe name the handle that they open
  | @accepted hdl' source s₁ _ _ hq =>
    have he : hdl' = hdl := by
      by_contra hne
      refine hne (hopened hsame ?_)
      rw [hconfigure _ hne, hq.rdSize?]
    subst he
    refine ⟨?_, .inl ⟨source, rfl⟩⟩
    have hctx' : (s₁.configure hdl' headerSize).ctx.find? hdl' = none :=
      (congrArg (UMap.find? · hdl') hq.untouched.ctx).trans hctx
    rw [Broker.contextOf, hctx']
    rfl
  | @requested hdl' port failure =>
    have he : hdl' = hdl := by
      by_contra hne
      exact hne (hopened hsame (hconfigure _ hne))
    subst he
    refine ⟨?_, .inr ⟨port, ?_⟩⟩
    · show ConnectionContext.cstate (((s.ctx.set hdl' _).find? hdl').getD _) = _
      rw [UMap.find?_set_self]
      rfl
    · cases failure with
      | none => rfl
      | some what =>
        -- nothing is opened then
        obtain ⟨-, he⟩ := Broker.step_eq_some.mp hs
        rw [he] at hsame
        exact absurd rfl hsame
  | refused => exact absurd rfl hsame
  | lost => exact absurd hnew (by rw [herase rfl]; exact Bool.false_ne_true)
  | lostNode => exact absurd hnew (by rw [herase rfl]; exact Bool.false_ne_true)

/-- The inputs that use a handle. -/
theorem uses_cases {i : Input} (hs : s.step i = some s') (hu : i.uses hdl = true) :
    (∃ dm, i = .newData dm ∧ dm.handle = hdl) ∨ s.scribes.contains hdl = false := by
  obtain ⟨he, -⟩ := Broker.step_eq_some.mp hs
  cases i with
  | newData dm => exact .inl ⟨dm, rfl, of_decide_eq_true hu⟩
  | newConnection hdl' source =>
    simp only [Broker.enabled, Bool.and_eq_true, Bool.not_eq_true'] at he
    exact .inr (of_decide_eq_true hu ▸ he.2.2)
  | connect hdl' port failure =>
    simp only [Broker.enabled, Bool.and_eq_true, Bool.not_eq_true'] at he
    exact .inr (of_decide_eq_true hu ▸ he.2.2)
  | _ => cases hu

/-! ## One broker -/

namespace BrokerNetwork

variable {n n' : BrokerNetwork} {i k : Nat} {input : Input} {e e' f : ConnectionEnd}
  {last : List (ConnectionHandle × Packet)}

/-- How an end changes when node `i` goes on, with the broker `s'`. -/
structure Moves (i : Nat) (s' : Broker) (last : List (ConnectionHandle × Packet))
    (e e' : ConnectionEnd) : Prop where
  node : e'.node = e.node
  peer : e'.peer = e.peer
  received : e'.received = e.received
  messages : e'.messages = e.messages
  sent : ∃ more, e'.sent = e.sent ++ more ∧
    ∀ p ∈ more, e.node = i ∧ ∃ hdl, p ∈ s'.stream hdl ∨ (hdl, p) ∈ last
  isOpen : ∀ hdl, e'.state = .isOpen hdl ↔
    e.state = .isOpen hdl ∧ (e.node = i → s'.scribes.contains hdl = true)
  unused : e.state.unused = true ∨ e'.state.unused = true → e' = e

/-- What a scribe has sent is in the stream of its connection. -/
theorem sentOn_subset (h : p ∈ s.sentOn hdl) : p ∈ s.stream hdl := by
  unfold Broker.sentOn at h
  unfold Broker.stream
  cases hf : s.scribes.find? hdl with
  | none =>
    rw [hf] at h
    cases h
  | some c =>
    rw [hf] at h
    exact List.mem_append_left _ h

/-- A step of the broker moves each end as it may move. -/
theorem moves_move : Moves i s' last e (e.move i s s' last) := by
  unfold ConnectionEnd.move
  split
  · next hn =>
    unfold ConnectionEnd.follow
    split
    · next hdl hst =>
      split
      · -- the broker still has the connection: its scribe has sent what is new in `sent`
        next hc =>
        refine ⟨rfl, rfl, rfl, rfl, ⟨_, rfl, fun p hp => ⟨hn, hdl, .inl ?_⟩⟩, fun hdl' => ?_, ?_⟩
        · exact sentOn_subset (List.mem_of_mem_drop hp)
        · refine ⟨fun h => ⟨h, fun _ => ?_⟩, fun h => h.1⟩
          rw [show e.state = .isOpen hdl' from h] at hst
          cases hst
          exact hc
        · intro hu
          rw [or_self, hst] at hu
          cases hu
      · -- the connection is closed
        next hc =>
        refine ⟨rfl, rfl, rfl, rfl, ⟨_, rfl, fun p hp => ⟨hn, hdl, .inr ?_⟩⟩, fun hdl' => ?_, ?_⟩
        · obtain ⟨w, hw, rfl⟩ := List.mem_map.mp hp
          obtain ⟨hw, he⟩ := List.mem_filter.mp hw
          rw [← of_decide_eq_true he]
          exact hw
        · refine ⟨nofun, fun h => ?_⟩
          rw [h.1] at hst
          cases hst
          exact absurd (h.2 hn) hc
        · rintro (hu | hu)
          · rw [hst] at hu
            cases hu
          · cases hu
    · -- an end that is not open does not follow the broker
      next hst =>
      exact ⟨rfl, rfl, rfl, rfl, ⟨[], (List.append_nil _).symm, nofun⟩,
        fun hdl => ⟨fun h => absurd h (hst hdl), fun h => h.1⟩, fun _ => rfl⟩
  · -- the end belongs to another broker
    next hn =>
    exact ⟨rfl, rfl, rfl, rfl, ⟨[], (List.append_nil _).symm, nofun⟩,
      fun hdl => ⟨fun h => ⟨h, fun he => absurd he hn⟩, fun h => h.1⟩, fun _ => rfl⟩

/-- Node `i` has gone on. -/
structure Acts (n n' : BrokerNetwork) (i : Nat) (input : Input)
    (last : List (ConnectionHandle × Packet)) : Prop where
  step : (n.brokers i).step input = some (n'.brokers i)
  others : ∀ j, j ≠ i → n'.brokers j = n.brokers j
  written : ∀ hdl p, (hdl, p) ∈ last → Event.wrote hdl p ∈ (n'.brokers i).history
  before : ∀ (k : Nat) e', n'.ends[k]? = some e' →
    ∃ e, n.ends[k]? = some e ∧ Moves i (n'.brokers i) last e e'
  after : ∀ (k : Nat) e, n.ends[k]? = some e →
    ∃ e', n'.ends[k]? = some e' ∧ Moves i (n'.brokers i) last e e'

/-- An action of one broker moves the ends of its connections. -/
theorem acts_of_act (h : n.act i input last = some n') : Acts n n' i input last := by
  unfold act at h
  obtain ⟨s', hs, h⟩ := Option.bind_eq_some_iff.mp h
  split_ifs at h with hlast
  cases h
  have hself : Function.update n.brokers i s' i = s' := Function.update_self ..
  refine ⟨?_, fun j hj => Function.update_of_ne hj .., fun hdl p hp => ?_, fun k e' he' => ?_,
    fun k e he => ?_⟩
  · show _ = some (Function.update n.brokers i s' i)
    rw [hself, hs]
  · show _ ∈ (Function.update n.brokers i s' i).history
    rw [hself]
    have hw := List.all_eq_true.mp hlast _ hp
    exact List.mem_of_mem_drop (of_decide_eq_true hw)
  · dsimp only at he' ⊢
    rw [List.getElem?_map, Option.map_eq_some_iff] at he'
    obtain ⟨e, he, rfl⟩ := he'
    rw [hself]
    exact ⟨e, he, moves_move⟩
  · dsimp only
    rw [List.getElem?_map, he, hself]
    exact ⟨_, rfl, moves_move⟩

end BrokerNetwork

end BoostActor
