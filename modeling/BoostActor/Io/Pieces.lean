import BoostActor.Io.Streams

/-!
# What data does, piece by piece

An invariant of the broker has to survive everything that data can cause. Here this is
cut once into pieces: side activities of one of a few turns, a handshake that binds the
connection, the loss of its direct route, a message that kills a proxy, bookkeeping about
contexts and connections, and the end of the broker.

* `Caused` — the turns that a message causes;
* `Piece` — a piece;
* `DataStep.pieces`, `DataStep.preserves` — data is handled in pieces, so what every piece
  preserves is preserved.
-/

namespace BoostActor

open Lib

variable {dm : NewData} {hdl : ConnectionHandle} {hdr : Header} {payload : Option Bytes}
  {s s' a b : Broker}

-- -------------------------
-- Pieces
-- -------------------------

/-- The turns that data causes: the message it completes is dispatched, passed on, announces
a proxy, introduces its source or publishes an actor. -/
inductive Caused (dm : NewData) (s : Broker) : Turn → Prop where
  | dispatched {hdr : Header} {payload : Option Bytes} (hm : s.completed dm = some (hdr, payload))
      (hv : hdr.valid = true) (ho : hdr.operation = .dispatchMessage)
      (hp : payloadValid hdr payload = true) (hd : hdr.destNode.equals s.thisNode = true) :
      Caused dm s (Turn.dispatched s.process dm.handle hdr payload)
  | relayed {hdr : Header} {payload : Option Bytes} (hm : s.completed dm = some (hdr, payload))
      (hv : hdr.valid = true) (hh : hdr.isHandshake = false)
      (hd : hdr.destNode.equals s.thisNode = false) :
      Caused dm s (Turn.relayed s dm.handle hdr payload dm.via)
  | announced {hdr : Header} {payload : Option Bytes} (hm : s.completed dm = some (hdr, payload))
      (hv : hdr.valid = true) (ho : hdr.operation = .announceProxyInstance)
      (hd : hdr.destNode.equals s.thisNode = true) :
      Caused dm s (Turn.announced dm.handle hdr)
  | introduced {hdr : Header} {payload : Option Bytes} (hm : s.completed dm = some (hdr, payload))
      (hb : Binding hdr payload s) : Caused dm s (Turn.introduced dm.handle hdr)
  | published {hdr : Header} {payload : Option Bytes} (aid : ActorId)
      (hm : s.completed dm = some (hdr, payload)) (hv : hdr.valid = true)
      (hh : hdr.isHandshake = true) :
      Caused dm s (Turn.published s.process dm.handle hdr.sourceNode aid)
  | plain : Caused dm s { hdl := dm.handle }

/-- Contexts and connections change, nothing is written, and at most a connect request is
answered. A header that is stored is the initial one or was read from the data. -/
structure Bookkept (dm : NewData) (a b : Broker) : Prop where
  eq : ∃ ctx thisContext scribes history, b = { a with ctx, thisContext, scribes, history }
  stream : ∀ hdl, b.stream hdl ⊆ a.stream hdl
  hdr : ∀ hdl c', b.ctx.find? hdl = some c' → (∃ c, a.ctx.find? hdl = some c ∧ c'.hdr = c.hdr) ∨
    c'.hdr = Header.initial ∨ parse readHdr dm.buf = .ok c'.hdr
  history : ∃ es, b.history = a.history ++ es ∧ ∀ e ∈ es, ∃ p r, e = Event.answered p r

/-- A piece of what happens to a broker in the state `s` when data arrives. -/
inductive Piece (dm : NewData) (s : Broker) : Broker → Broker → Prop where
  | act {T : Turn} {a b : Broker} (hT : Caused dm s T) (ha : Act T a b) : Piece dm s a b
  | bind {hdr : Header} {payload : Option Bytes} {a : Broker}
      (hm : s.completed dm = some (hdr, payload)) (hb : Binding hdr payload s) :
      Piece dm s a (a.bindDirect dm.handle hdr.sourceNode)
  | unbind {a : Broker} : Piece dm s a (a.eraseDirect dm.handle)
  | kill {hdr : Header} {payload : Option Bytes} {a : Broker}
      (hm : s.completed dm = some (hdr, payload)) (hv : hdr.valid = true)
      (ho : hdr.operation = .killProxyInstance) (hd : hdr.destNode.equals s.thisNode = true) :
      Piece dm s a (a.eraseProxy hdr.sourceNode hdr.sourceActor hdr.operationData.toUInt32)
  | book {a b : Broker} (hb : Bookkept dm a b) : Piece dm s a b
  | terminate {a : Broker} : Piece dm s a a.terminate

/-- Any number of pieces. -/
def Pieces (dm : NewData) (s : Broker) : Broker → Broker → Prop :=
  Relation.ReflTransGen (Piece dm s)

theorem Piece.pieces (h : Piece dm s a b) : Pieces dm s a b := Relation.ReflTransGen.single h

theorem Pieces.refl : Pieces dm s a a := Relation.ReflTransGen.refl

theorem Pieces.trans {c : Broker} (h : Pieces dm s a b) (h' : Pieces dm s b c) :
    Pieces dm s a c := Relation.ReflTransGen.trans h h'

/-- Quiet steps of a turn that the data causes are pieces. -/
theorem Pieces.quiet {T : Turn} (hT : Caused dm s T) (h : Quiet T a b) : Pieces dm s a b :=
  Relation.ReflTransGen.mono (fun _ _ ha => .act hT ha) _ _ h

-- -------------------------
-- Bookkeeping
-- -------------------------

namespace Bookkept

/-- Only contexts change, and they keep their headers. -/
theorem modifyCtx {f : ConnectionContext → ConnectionContext} (hf : ∀ c, (f c).hdr = c.hdr) :
    Bookkept dm a (a.modifyCtx hdl f) := by
  refine ⟨⟨_, _, _, _, rfl⟩, fun _ => List.Subset.refl _, fun hdl' c' hc => ?_, [], ?_, ?_⟩
  · rw [Broker.find?_modifyCtx] at hc
    split at hc
    · rw [Option.map_eq_some_iff] at hc
      obtain ⟨c, hc, rfl⟩ := hc
      exact .inl ⟨c, hc, hf c⟩
    · exact .inl ⟨c', hc, rfl⟩
  · simp [Broker.modifyCtx]
  · simp

/-- Storing a header is bookkeeping. -/
theorem storeHdr (hr : parse readHdr dm.buf = .ok hdr) : Bookkept dm a (a.storeHdr hdl hdr) := by
  refine ⟨⟨_, _, _, _, rfl⟩, fun _ => List.Subset.refl _, fun hdl' c' hc => ?_, [], ?_, ?_⟩
  · rw [Broker.storeHdr, Broker.find?_modifyCtx] at hc
    split at hc
    · rw [Option.map_eq_some_iff] at hc
      obtain ⟨c, -, rfl⟩ := hc
      exact .inr (.inr hr)
    · exact .inl ⟨c', hc, rfl⟩
  · simp [Broker.storeHdr, Broker.modifyCtx]
  · simp

/-- Entering a connection is bookkeeping. -/
theorem enter : Bookkept dm a (a.enter hdl) := by
  refine ⟨⟨_, _, _, _, rfl⟩, fun _ => List.Subset.refl _, fun hdl' c' hc => ?_, [], ?_, ?_⟩
  · replace hc : (a.ctx.emplace hdl _).find? hdl' = some c' := hc
    rw [UMap.find?_emplace] at hc
    cases hf : a.ctx.find? hdl' with
    | some c =>
      rw [hf] at hc
      cases hc
      exact .inl ⟨c', rfl, rfl⟩
    | none =>
      rw [hf, Option.none_or] at hc
      split at hc
      · cases hc
        exact .inr (.inl rfl)
      · cases hc
  · simp [Broker.enter]
  · simp

/-- Connections change, and contexts may be erased. -/
theorem scribes {ctx : UMap ConnectionHandle ConnectionContext}
    {scribes : UMap ConnectionHandle Scribe}
    (hs : ∀ hdl, ({ a with ctx, scribes } : Broker).stream hdl ⊆ a.stream hdl)
    (hc : ∀ hdl c, ctx.find? hdl = some c → a.ctx.find? hdl = some c) :
    Bookkept dm a { a with ctx, scribes } :=
  ⟨⟨_, _, _, _, rfl⟩, hs, fun hdl c' hc' => .inl ⟨c', hc hdl c' hc', rfl⟩, [], by simp, by simp⟩

/-- Dropping a connection is bookkeeping. -/
theorem drop : Bookkept dm a (a.drop hdl) := by
  refine scribes (Silent.drop : Silent a (a.drop hdl)).stream fun hdl' c hc => ?_
  rw [UMap.find?_erase] at hc
  split at hc
  · cases hc
  · exact hc

theorem flush : Bookkept dm a (a.flush hdl) :=
  scribes (Silent.flush : Silent a (a.flush hdl)).stream fun _ _ hc => hc

theorem configure (n : Nat) : Bookkept dm a (a.configure hdl n) :=
  scribes (Silent.configure n : Silent a (a.configure hdl n)).stream fun _ _ hc => hc

theorem answered (p : Promise) (r : Response) : Bookkept dm a (a.note (.answered p r)) := by
  refine ⟨⟨_, _, _, _, rfl⟩, fun _ => List.Subset.refl _, fun _ c' hc => .inl ⟨c', hc, rfl⟩,
    [.answered p r], rfl, fun e he => ?_⟩
  exact ⟨p, r, List.mem_singleton.mp he⟩

end Bookkept

/-- Going on to the next state is made of pieces. -/
theorem Pieces.settle (next : ConnectionState) : Pieces dm s a (a.settle hdl next) := by
  unfold Broker.settle
  split
  · exact .refl
  · split
    · next c _ _ =>
      let rdSize := if next = .awaitPayload then c.hdr.payloadLen.toNat else headerSize
      have h₁ : Piece dm s a (a.configure hdl rdSize) := .book (.configure _)
      have h₂ : Piece dm s (a.configure hdl rdSize) ((a.configure hdl rdSize).modifyCtx hdl
          fun c => { c with cstate := next }) := .book (.modifyCtx fun _ => rfl)
      exact h₁.pieces.trans h₂.pieces
    · exact .refl

-- -------------------------
-- Data
-- -------------------------

/-- Reading a header or payload is made of pieces. -/
theorem Arrived.pieces {s₁ : Broker} (h : Arrived dm (s.enter dm.handle) s₁ hdr payload) :
    Pieces dm s s s₁ := by
  have henter : Piece dm s s (s.enter dm.handle) := .book .enter
  cases h with
  | payload => exact henter.pieces
  | header _ _ hr => exact henter.pieces.trans (Piece.book (.storeHdr hr)).pieces

section

variable {s₁ : Broker}

/-- The turn of a message that has no pieces of its own. -/
theorem Side.caused {T : Turn} (h : Side dm.handle hdr payload dm.via s₁ T)
    (ha : Arrived dm (s.enter dm.handle) s₁ hdr payload) (hv : hdr.valid = true) :
    Caused dm s T := by
  obtain ⟨htbl, hproc⟩ := ha.tbl
  replace htbl : s₁.tbl = s.tbl := htbl
  replace hproc : s₁.process = s.process := hproc
  have hnode : s₁.thisNode = s.thisNode := congrArg Process.id hproc
  cases h with
  | dispatched ho hp hd =>
    rw [hproc]
    rw [hnode] at hd
    exact .dispatched ha.completes hv ho hp hd
  | relayed hh hd =>
    rw [hnode] at hd
    have hT : Turn.relayed s₁ dm.handle hdr payload dm.via =
        Turn.relayed s dm.handle hdr payload dm.via := by
      rw [Turn.relayed, hnode, htbl]
      rfl
    rw [hT]
    exact .relayed ha.completes hv hh hd
  | announced ho hd =>
    rw [hnode] at hd
    exact .announced ha.completes hv ho hd
  | ignored | unreadable => exact .plain

/-- The condition of a handshake that binds looks at the table and the node only. -/
theorem Arrived.binding (ha : Arrived dm (s.enter dm.handle) s₁ hdr payload)
    (hb : Binding hdr payload s₁) : Binding hdr payload s := by
  obtain ⟨htbl, hproc⟩ := ha.tbl
  replace htbl : s₁.tbl = s.tbl := htbl
  have hnode : s₁.thisNode = s.thisNode := congrArg Process.id hproc
  cases hb with
  | server hv ho hi hn hk =>
    rw [hnode] at hn
    rw [htbl] at hk
    exact .server hv ho hi hn hk
  | client hv ho hk =>
    rw [htbl] at hk
    exact .client hv ho hk

/-- A message that binds its source is a valid handshake. -/
theorem Binding.isHandshake (h : Binding hdr payload s) :
    hdr.valid = true ∧ hdr.isHandshake = true := by
  cases h with
  | server hv ho => exact ⟨hv, by simp [Header.isHandshake, ho]⟩
  | client hv ho => exact ⟨hv, by simp [Header.isHandshake, ho]⟩

theorem Piece.identify (nid : NodeId) : Piece dm s a (a.identify hdl nid) :=
  .book (.modifyCtx fun _ => rfl)

theorem Piece.takeCallback : Piece dm s a (a.takeCallback hdl) := .book (.modifyCtx fun _ => rfl)

/-- The actor of a handshake is published in the process of this node. -/
theorem Pieces.published {aid : ActorId} (hm : s.completed dm = some (hdr, payload))
    (hv : hdr.valid = true) (hh : hdr.isHandshake = true) (hp : a.process = s.process)
    (hq : Quiet (Turn.published a.process dm.handle hdr.sourceNode aid)
      ((a.identify dm.handle hdr.sourceNode).takeCallback dm.handle) b) : Pieces dm s a b := by
  rw [hp] at hq
  exact ((Piece.identify _).pieces.trans Piece.takeCallback.pieces).trans
    (.quiet (.published aid hm hv hh) hq)

/-- The end of a handshake is made of pieces. -/
theorem Pieces.finalized {aid : ActorId} (hm : s.completed dm = some (hdr, payload))
    (hv : hdr.valid = true) (hh : hdr.isHandshake = true) (hp : a.process = s.process)
    (hf : Finalized dm.handle hdr.sourceNode aid a b) : Pieces dm s a b := by
  cases hf with
  | silent => exact (Piece.identify _).pieces
  | answer addr sigs _ _ hq =>
    exact (Pieces.published hm hv hh hp hq).trans (Piece.book (.answered _ _)).pieces

/-- Processing a message is made of pieces. -/
theorem Processed.pieces {next : ConnectionState}
    (h : Processed dm.handle hdr payload dm.via s₁ next s')
    (ha : Arrived dm (s.enter dm.handle) s₁ hdr payload) : Pieces dm s s₁ s' := by
  have hm := ha.completes
  have hproc : s₁.process = s.process := ha.tbl.2
  have hbind : Binding hdr payload s₁ → Pieces dm s s₁ (s₁.bindDirect dm.handle hdr.sourceNode) :=
    fun hb => (Piece.bind hm (ha.binding hb)).pieces
  have hproc₁ : ∀ {b}, Quiet (Turn.introduced dm.handle hdr)
      (s₁.bindDirect dm.handle hdr.sourceNode) b → b.process = s.process := by
    intro b hq
    rw [hq.untouched.process, Broker.bindDirect_eq]
    exact hproc
  cases h with
  | reject => exact Piece.unbind.pieces
  | side hv hT hq => exact .quiet (hT.caused ha hv) hq
  | kill hv ho hd =>
    have hnode : s₁.thisNode = s.thisNode := congrArg Process.id hproc
    rw [hnode] at hd
    exact (Piece.kill hm hv ho hd).pieces
  | refuse hv ho _ _ hf =>
    have hh : hdr.isHandshake = true := by simp [Header.isHandshake, ho]
    exact (Pieces.finalized hm hv hh hproc hf).trans Piece.unbind.pieces
  -- binding comes first, then the turn of the introduction and the end of the handshake
  | server hv ho hi hn hk hq hf hq' =>
    have hb : Binding hdr payload s₁ := .server hv ho hi hn hk
    have hT := Caused.introduced hm (ha.binding hb)
    have h₁ := (hbind hb).trans (.quiet hT hq)
    exact (h₁.trans (.finalized hm hv hb.isHandshake.2 (hproc₁ hq) hf)).trans (.quiet hT hq')
  | noRoute hv ho hi hn hk hq =>
    have hb : Binding hdr payload s₁ := .server hv ho hi hn hk
    have h₁ := (hbind hb).trans (.quiet (.introduced hm (ha.binding hb)) hq)
    exact h₁.trans Piece.unbind.pieces
  | client hv ho hk hq =>
    have hb : Binding hdr payload s₁ := .client hv ho hk
    exact (hbind hb).trans (.quiet (.introduced hm (ha.binding hb)) hq)

/-- A message that is broken off is made of pieces. -/
theorem Aborted.pieces (h : Aborted dm.handle hdr payload dm.via s₁ s')
    (ha : Arrived dm (s.enter dm.handle) s₁ hdr payload) : Pieces dm s s₁ s' := by
  have hm := ha.completes
  have hproc : s₁.process = s.process := ha.tbl.2
  have hbound : Binding hdr payload s₁ → ∀ {b}, Quiet (Turn.introduced dm.handle hdr)
      (s₁.bindDirect dm.handle hdr.sourceNode) b →
      Pieces dm s s₁ b ∧ b.process = s.process := by
    intro hb b hq
    have hbind : Pieces dm s s₁ (s₁.bindDirect dm.handle hdr.sourceNode) :=
      (Piece.bind hm (ha.binding hb)).pieces
    refine ⟨hbind.trans (.quiet (.introduced hm (ha.binding hb)) hq), ?_⟩
    rw [hq.untouched.process, Broker.bindDirect_eq]
    exact hproc
  cases h with
  | side hv hT hq => exact .quiet (hT.caused ha hv) hq
  | refuse hv ho _ hq =>
    have hh : hdr.isHandshake = true := by simp [Header.isHandshake, ho]
    exact .published hm hv hh hproc hq
  | bound hb hq => exact (hbound hb hq).1
  | answering hb hq hq' =>
    obtain ⟨h₁, hproc₁⟩ := hbound hb hq
    exact h₁.trans (.published hm hb.isHandshake.1 hb.isHandshake.2 hproc₁ hq')
  | finalized hb hq hf hq' =>
    obtain ⟨h₁, hproc₁⟩ := hbound hb hq
    have h₂ := h₁.trans (.finalized hm hb.isHandshake.1 hb.isHandshake.2 hproc₁ hf)
    exact h₂.trans (.quiet (.introduced hm (ha.binding hb)) hq')

end

/-- Data is handled in pieces. -/
theorem DataStep.pieces (h : DataStep dm s s') : Pieces dm s s s' := by
  have henter : Pieces dm s s (s.enter dm.handle) := (Piece.book .enter).pieces
  have hhandled : ∀ {next s₁}, Handled dm (s.enter dm.handle) next s₁ → Pieces dm s s s₁ := by
    intro next s₁ hh
    cases hh with
    | mismatch => exact henter.trans Piece.unbind.pieces
    | await _ _ hr => exact henter.trans (Piece.book (.storeHdr hr)).pieces
    | message ha hp => exact ha.pieces.trans (hp.pieces ha)
  cases h with
  | closed hh =>
    exact ((hhandled hh).trans (Piece.book .drop).pieces).trans (Piece.book .flush).pieces
  | «open» _ hh =>
    exact ((hhandled hh).trans (.settle _)).trans (Piece.book .flush).pieces
  | terminated hf =>
    refine Pieces.trans ?_ Piece.terminate.pieces
    cases hf with
    | unreadable => exact henter
    | message ha hp => exact ha.pieces.trans (hp.pieces ha)

/-- What every piece preserves, data preserves. -/
theorem DataStep.preserves {P : Broker → Prop} (h : DataStep dm s s')
    (hpiece : ∀ {a b}, P a → Piece dm s a b → P b) (hs : P s) : P s' := by
  have hp : Pieces dm s s s' := h.pieces
  clear h
  induction hp with
  | refl => exact hs
  | tail _ hlast ih => exact hpiece ih hlast

end BoostActor
