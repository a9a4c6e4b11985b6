import BoostActor.Io.Wiring

/-!
# Framing

A connection is read in pieces: a header, then its payload if it has one. The
read size of a scribe and the state of its context always fit together
(`Framed`), so a receiver cuts the byte stream of a connection exactly where the
sender put the pieces together.

* `framed_of_reachable` — read sizes fit the contexts in every reachable state;
* `DataStep.frame` — the context after a piece;
* `feed_writes` — a receiver sees the messages that were written.
-/

namespace BoostActor

open Lib

variable {hdl : ConnectionHandle} {hdr : Header} {payload : Option Bytes} {s s' : Broker}

/-! ## Read sizes -/

/-- The number of bytes that a context waits for. -/
def ConnectionContext.expects (c : ConnectionContext) (n : Nat) : Prop :=
  c.cstate = .awaitHeader ∧ n = headerSize ∨
    c.cstate = .awaitPayload ∧ n = c.hdr.payloadLen.toNat ∧ 0 < c.hdr.payloadLen

/-- The context of a handle, or the one that `set_context` would create. -/
def Broker.contextOf (s : Broker) (hdl : ConnectionHandle) : ConnectionContext :=
  (s.ctx.find? hdl).getD (ConnectionContext.initial hdl)

/-- Every open connection reads what its context waits for. -/
def Framed (s : Broker) : Prop :=
  ∀ hdl n, s.rdSize? hdl = some n → (s.contextOf hdl).expects n

/-- A connection that waits for a header reads a header. -/
theorem Framed.size_of_awaitHeader {n : Nat} (h : Framed s) (hn : s.rdSize? hdl = some n)
    (hst : (s.contextOf hdl).cstate = .awaitHeader) : n = headerSize := by
  rcases h hdl n hn with ⟨-, hsize⟩ | ⟨hst', -⟩
  · exact hsize
  · rw [hst] at hst'
    cases hst'

/-- A connection that waits for a payload reads as many bytes as its header says. -/
theorem Framed.size_of_awaitPayload {n : Nat} (h : Framed s) (hn : s.rdSize? hdl = some n)
    (hst : (s.contextOf hdl).cstate = .awaitPayload) :
    n = (s.contextOf hdl).hdr.payloadLen.toNat := by
  rcases h hdl n hn with ⟨hst', -⟩ | ⟨-, hsize, -⟩
  · rw [hst] at hst'
    cases hst'
  · exact hsize

/-- Entering a connection leaves its context as it is found. -/
theorem Broker.contextOf_enter : (s.enter hdl).ctx.find? hdl = some (s.contextOf hdl) := by
  show (s.ctx.emplace hdl _).find? hdl = _
  rw [UMap.find?_emplace, if_pos BEq.rfl, contextOf]
  cases s.ctx.find? hdl <;> rfl

/-- How the context changes while data is handled that leaves the connection open. -/
theorem Handled.frame {dm : NewData} {next : ConnectionState} {c : ConnectionContext}
    (h : Handled dm s next s') (hn : next ≠ .closeConnection)
    (hc : s.ctx.find? dm.handle = some c) :
    ∃ c', s'.ctx.find? dm.handle = some c' ∧ c'.cstate = c.cstate ∧
      (next = .awaitPayload ∧ c.cstate ≠ .awaitPayload ∧ parse readHdr dm.buf = .ok c'.hdr ∧
          0 < c'.hdr.payloadLen ∨
        next = .awaitHeader ∧ (s.completed dm).isSome = true) := by
  cases h with
  | mismatch => exact absurd rfl hn
  | @await c₀ hdr hc₀ hs hr hl =>
    rw [hc] at hc₀
    cases hc₀
    refine ⟨{ c with hdr := hdr }, ?_, rfl, Or.inl ⟨rfl, hs, hr, hl⟩⟩
    rw [Broker.storeHdr, Broker.find?_modifyCtx, if_pos rfl, hc]
    rfl
  | message ha hp =>
    obtain ⟨c₀, c₁, hc₀, hc₁, -, rfl, -⟩ := ha.ctx
    rw [hc] at hc₀
    cases hc₀
    have hnext : next = .awaitHeader := by
      cases hp with
      | reject | refuse | noRoute => exact absurd rfl hn
      | side | kill | server | client => rfl
    subst hnext
    obtain ⟨⟨c', hc', hsame⟩, -⟩ := hp.ctx hc₁
    exact ⟨c', hc', hsame.1, Or.inr ⟨rfl, by rw [ha.completed]; rfl⟩⟩

/-- An open connection reads as much as it was configured to. -/
theorem Broker.rdSize?_configure (n : Nat) (ho : (s.rdSize? hdl).isSome = true) :
    (s.configure hdl n).rdSize? hdl = some n := by
  rw [rdSize?, Option.isSome_map, Option.isSome_iff_exists] at ho
  obtain ⟨d, hd⟩ := ho
  show ((s.scribes.adjust hdl _).find? hdl).map _ = _
  rw [UMap.find?_adjust, if_pos BEq.rfl, hd]
  rfl

theorem Broker.rdSize?_flush (hdl' : ConnectionHandle) :
    (s.flush hdl').rdSize? hdl = s.rdSize? hdl :=
  (Act.flush (T := Turn.registering) hdl').rdSize? hdl

/-- The context of a connection that is still open after a piece of data: a header
whose payload is still to come, or a complete message. -/
theorem DataStep.frame {dm : NewData} (hd : DataStep dm s s')
    (ho : (s'.rdSize? dm.handle).isSome = true) :
    ∃ c, s'.ctx.find? dm.handle = some c ∧
      (c.cstate = .awaitPayload ∧ (s.contextOf dm.handle).cstate ≠ .awaitPayload ∧
          parse readHdr dm.buf = .ok c.hdr ∧ 0 < c.hdr.payloadLen ∧
          s'.rdSize? dm.handle = some c.hdr.payloadLen.toNat ∨
        c.cstate = .awaitHeader ∧ (s.completed dm).isSome = true ∧
          s'.rdSize? dm.handle = if (s.contextOf dm.handle).cstate = .awaitHeader then
            s.rdSize? dm.handle else some headerSize) := by
  cases hd with
  | closed =>
    rw [Broker.rdSize?_flush] at ho
    replace ho : (((_ : UMap ConnectionHandle Scribe).erase dm.handle).find? dm.handle |>.map
      (·.rdSize)).isSome = true := ho
    rw [UMap.find?_erase_self] at ho
    cases ho
  | terminated =>
    rw [Broker.rdSize?, Broker.terminate_scribes] at ho
    cases ho
  | @«open» s₁ next hn hh =>
    -- the state afterwards depends on what the data completed
    obtain ⟨c, hc, hst, hcase⟩ := hh.frame hn Broker.contextOf_enter
    have hrd : s₁.rdSize? dm.handle = s.rdSize? dm.handle := hh.kept.rdSize? dm.handle
    rw [Broker.rdSize?_flush] at ho ⊢
    rw [Broker.completed_enter] at hcase
    -- the connection is configured anew when the state changes
    have hsettle : next ≠ c.cstate → ∃ c',
      (s₁.settle dm.handle next).ctx.find? dm.handle = some c' ∧
        c' = { c with cstate := next } ∧ ((s₁.rdSize? dm.handle).isSome = true →
          (s₁.settle dm.handle next).rdSize? dm.handle =
            some (if next = .awaitPayload then c.hdr.payloadLen.toNat else headerSize)) := by
      intro hne
      rw [Broker.settle, hc]
      dsimp only
      rw [if_pos hne]
      refine ⟨_, ?_, rfl, fun ho => Broker.rdSize?_configure _ ho⟩
      rw [Broker.find?_modifyCtx, if_pos rfl]
      show (s₁.ctx.find? dm.handle).map _ = _
      rw [hc]
      rfl
    have hopen : (s₁.rdSize? dm.handle).isSome = true := by
      rw [Broker.settle, hc] at ho
      dsimp only at ho
      split at ho
      · replace ho : (((s₁.scribes.adjust dm.handle _).find? dm.handle).map _).isSome = true := ho
        rw [UMap.find?_adjust, if_pos BEq.rfl, Option.isSome_map, Option.isSome_map] at ho
        rw [Broker.rdSize?, Option.isSome_map]
        exact ho
      · exact ho
    rcases hcase with ⟨rfl, hnot, hparse, hlen⟩ | ⟨rfl, hm⟩
    · obtain ⟨c', hc', rfl, hrd'⟩ := hsettle (by rw [hst]; exact Ne.symm hnot)
      exact ⟨_, hc', Or.inl ⟨rfl, hnot, hparse, hlen, hrd' hopen⟩⟩
    · by_cases hsame : (s.contextOf dm.handle).cstate = .awaitHeader
      · rw [if_pos hsame, ← hrd]
        have heq : s₁.settle dm.handle .awaitHeader = s₁ := by
          rw [Broker.settle, hc]
          dsimp only
          rw [if_neg (by rw [hst, hsame]; simp)]
        rw [show ((s₁.settle dm.handle .awaitHeader).flush dm.handle).ctx = s₁.ctx by rw [heq]; rfl,
          heq]
        exact ⟨c, hc, Or.inr ⟨hst.trans hsame, hm, rfl⟩⟩
      · rw [if_neg hsame]
        obtain ⟨c', hc', rfl, hrd'⟩ := hsettle (by rw [hst]; exact Ne.symm hsame)
        exact ⟨_, hc', Or.inr ⟨rfl, hm, hrd' hopen⟩⟩

namespace Framed

/-- Only the connection that data arrives on is concerned. -/
theorem data {dm : NewData} (h : Framed s) (hw : Wired s)
    (ho : (s.rdSize? dm.handle).isSome = true) (hd : DataStep dm s s') : Framed s' := by
  intro hdl n hrd
  by_cases hne : hdl = dm.handle
  · subst hne
    obtain ⟨c, hc, hcase⟩ := hd.frame (by rw [hrd]; rfl)
    rw [Broker.contextOf, hc]
    rcases hcase with ⟨hst, -, -, hlen, hrd'⟩ | ⟨hst, -, hrd'⟩
    · rw [hrd] at hrd'
      cases hrd'
      exact Or.inr ⟨hst, rfl, hlen⟩
    · refine Or.inl ⟨hst, ?_⟩
      split at hrd'
      · next hbefore =>
        rw [hrd'] at hrd
        rcases h dm.handle n hrd with ⟨-, hn⟩ | ⟨hst', -⟩
        · exact hn
        · rw [hbefore] at hst'
          cases hst'
      · rw [hrd] at hrd'
        cases hrd'
        rfl
  · have hothers : OthersKept dm.handle s s' ∨ s'.scribes = UMap.empty := by
      -- the other connections are untouched, unless the broker has ended
      cases hd with
      | closed hh =>
        exact Or.inl (((OthersKept.enter.trans (.handled (hw.enter ho) hh)).trans .drop).trans
          (.flush _))
      | «open» _ hh =>
        exact Or.inl (((OthersKept.enter.trans (.handled (hw.enter ho) hh)).trans (.settle _)).trans
          (.flush _))
      | terminated => exact Or.inr Broker.terminate_scribes
    rcases hothers with hothers | hempty
    · rw [hothers.rdSize? hdl hne] at hrd
      rw [Broker.contextOf, hothers.ctx hdl hne]
      exact h hdl n hrd
    · rw [Broker.rdSize?, hempty] at hrd
      cases hrd

/-- Contexts and read sizes decide about the frames. -/
theorem of_eq (h : Framed s) (hc : s'.ctx = s.ctx)
    (hr : ∀ hdl, s'.rdSize? hdl = s.rdSize? hdl) : Framed s' := by
  intro hdl n hrd
  rw [hr] at hrd
  rw [Broker.contextOf, hc]
  exact h hdl n hrd

theorem terminated : Framed s.terminate := by
  intro hdl n hrd
  rw [Broker.rdSize?, Broker.terminate_scribes] at hrd
  cases hrd

/-- A new connection waits for a header. -/
theorem configured (h : ∀ other n, other ≠ hdl → s.rdSize? other = some n →
      (s.contextOf other).expects n) (hc : (s.contextOf hdl).cstate = .awaitHeader) :
    Framed (s.configure hdl headerSize) := by
  intro other n hrd
  replace hrd : ((s.scribes.adjust hdl _).find? other).map (·.rdSize) = some n := hrd
  rw [UMap.find?_adjust] at hrd
  by_cases he : hdl = other
  · subst he
    rw [if_pos BEq.rfl, Option.map_map, Option.map_eq_some_iff] at hrd
    obtain ⟨d, -, rfl⟩ := hrd
    exact Or.inl ⟨hc, rfl⟩
  · rw [if_neg (by simpa using he)] at hrd
    exact h other n (Ne.symm he) hrd

/-- Losing a connection. -/
theorem lost (h : Framed s) (hs : s'.scribes = s.scribes.erase hdl)
    (hc : s'.ctx = s.ctx.erase hdl) : Framed s' := by
  intro other n hrd
  rw [Broker.rdSize?, hs, UMap.find?_erase] at hrd
  split at hrd
  · cases hrd
  · next he =>
    rw [Broker.contextOf, hc, UMap.find?_erase, if_neg he]
    exact h other n hrd

/-- Every step keeps each connection reading a header or the payload that it awaits. -/
theorem step {i : Input} (h : Framed s) (hw : Wired s) (hs : s.step i = some s') : Framed s' := by
  -- a closed connection has no context
  have hclosed : ∀ {hdl}, s.rdSize? hdl = none → s.ctx.find? hdl = none := by
    intro hdl hrd
    cases hc : s.ctx.find? hdl with
    | none => rfl
    | some c =>
      have := (hw.opened hc).1
      rw [hrd] at this
      cases this
  cases step_cases hw hs with
  | other ho => exact h.of_eq ho.calm.ctx ho.calm.rdSize?
  | ended => exact terminated
  | data ho hd => exact h.data hw ho hd
  | @accepted hdl _ s₁ _ ho hq =>
    have hctx : s₁.ctx = s.ctx := hq.untouched.ctx
    refine configured (fun other n hne hrd => ?_) ?_
    · rw [hq.rdSize?, Broker.opened_rdSize?, if_neg (Ne.symm hne), Option.or_none] at hrd
      rw [Broker.contextOf, hctx]
      exact h other n hrd
    · rw [Broker.contextOf, hctx, hclosed ho]
      rfl
  | @requested hdl port _ _ ho =>
    have hfind : ∀ other, ((s.opened hdl).requested hdl port).ctx.find? other =
        if hdl == other then some _ else s.ctx.find? other := fun other => UMap.find?_set _ _ _ _
    refine configured (fun other n hne hrd => ?_) ?_
    · replace hrd : (s.opened hdl).rdSize? other = some n := hrd
      rw [Broker.opened_rdSize?, if_neg (Ne.symm hne), Option.or_none] at hrd
      rw [Broker.contextOf, hfind, if_neg (by simpa using Ne.symm hne)]
      exact h other n hrd
    · rw [Broker.contextOf, hfind, if_pos BEq.rfl]
      rfl
  | refused => exact h.of_eq rfl fun _ => rfl
  | lost => exact h.lost rfl rfl
  | lostNode => exact h.lost rfl rfl

end Framed

/-- Read sizes fit the contexts in every reachable state. -/
theorem framed_of_reachable {ok : Broker → Input → Prop} (h : Broker.Reachable ok s) :
    Framed s := by
  have hinv : Wired s ∧ Framed s := by
    refine h.invariant (I := fun s => Wired s ∧ Framed s) (fun s hi => ⟨.initial hi, ?_⟩)
      fun _ _ _ hi _ hs => ⟨hi.1.step hs, hi.2.step hi.1 hs⟩
    obtain ⟨process, order, rfl⟩ := hi
    intro hdl n hrd
    cases hrd
  exact hinv.2

/-! ## A stream of messages -/

/-- A call of `instance::write`: node ids are invalid or not all zero, and the payload
writer produces fewer than `2 ^ 32` bytes. `placeholder` is what the bytes reserved
for the header hold before they are overwritten. -/
structure WriteCall where
  hdr : Header
  payload : Option Bytes
  placeholder : Bytes
  sourceNode_ok : hdr.sourceNode.valid = true → hdr.sourceNode.allZero = false
  destNode_ok : hdr.destNode.valid = true → hdr.destNode.allZero = false
  payload_lt : (payload.getD []).length < 2 ^ 32
  placeholder_size : placeholder.length = headerSize

namespace WriteCall

/-- The header on the wire. -/
def header (w : WriteCall) : Header := w.hdr.withPayload w.payload

/-- The payload on the wire. -/
def body (w : WriteCall) : Bytes := w.payload.getD []

/-- What the receiver is meant to see. -/
def message (w : WriteCall) : Header × Bytes := (w.header, w.body)

/-- A header that is written stays what it is when it is read. -/
theorem header_normalize (w : WriteCall) : w.header.normalize = w.header := by
  unfold Header.normalize header Header.withPayload
  simp only [NodeId.normalize_eq w.sourceNode_ok, NodeId.normalize_eq w.destNode_ok]

theorem header_payloadLen (w : WriteCall) : w.header.payloadLen.toNat = w.body.length := by
  show (castUInt32 w.body.length).toNat = _
  rw [castUInt32, UInt32.toNat_ofNat']
  exact Nat.mod_eq_of_lt w.payload_lt

end WriteCall

/-- The buffer of a connection after a sequence of writes. -/
def writeAll (ws : List WriteCall) : Bytes :=
  ws.foldl (fun buf w => writeMessage w.placeholder buf w.hdr w.payload) []

/-- The calls write header and payload one after the other. -/
theorem writeAll_eq (ws : List WriteCall) :
    writeAll ws = ws.flatMap fun w => writeHdr w.header ++ w.body := by
  have hfold : ∀ (ws : List WriteCall) (buf : Bytes),
      ws.foldl (fun buf w => writeMessage w.placeholder buf w.hdr w.payload) buf =
        buf ++ ws.flatMap fun w => writeHdr w.header ++ w.body := by
    intro ws
    induction ws with
    | nil => simp
    | cons w ws ih =>
      intro buf
      rw [List.foldl_cons, ih, writeMessage_eq w.placeholder_size, List.flatMap_cons,
        List.append_assoc]
      rfl
  exact hfold ws []

/-- What a receiver made of a byte stream. -/
structure Fed where
  messages : List (Header × Bytes)
  rest : Bytes
  state : Broker

/-- A scribe reads from a byte stream, piece by piece and as long as its connection
is open, and the broker handles each piece. `fuel` bounds the number of pieces. -/
def Broker.feed (hdl : ConnectionHandle) : (fuel : Nat) → Broker → Bytes → Fed
  | 0, s, bs => ⟨[], bs, s⟩
  | fuel + 1, s, bs =>
    match s.rdSize? hdl with
    | none => ⟨[], bs, s⟩
    | some n =>
      if n ≤ bs.length then
        let dm : NewData := ⟨hdl, bs.take n, []⟩
        let r := feed hdl fuel (s.exec (.newData dm)) (bs.drop n)
        { r with
          messages := ((s.completed dm).map fun m => (m.1, m.2.getD [])).toList ++ r.messages }
      else ⟨[], bs, s⟩

/-- A closed connection stays closed. -/
theorem Broker.feed_closed (hc : s.rdSize? hdl = none) (fuel : Nat) (bs : Bytes) :
    (s.feed hdl fuel bs).state = s := by
  cases fuel with
  | zero => rfl
  | succ fuel => rw [feed, hc]

/-- One piece. -/
theorem Broker.feed_piece {piece rest : Bytes} (hr : s.rdSize? hdl = some piece.length)
    (fuel : Nat) : s.feed hdl (fuel + 1) (piece ++ rest) =
      let r := (s.exec (.newData ⟨hdl, piece, []⟩)).feed hdl fuel rest
      { r with
        messages := ((s.completed ⟨hdl, piece, []⟩).map fun m => (m.1, m.2.getD [])).toList ++
          r.messages } := by
  rw [feed, hr]
  dsimp only
  rw [if_pos (by simp), List.take_left' rfl, List.drop_left' rfl]

/-- An open connection that waits for the header of the next message. -/
structure Boundary (hdl : ConnectionHandle) (s : Broker) : Prop where
  wired : Wired s
  framed : Framed s
  isOpen : (s.rdSize? hdl).isSome = true
  awaits : (s.contextOf hdl).cstate = .awaitHeader

theorem Boundary.rdSize? (h : Boundary hdl s) : s.rdSize? hdl = some headerSize := by
  obtain ⟨n, hn⟩ := Option.isSome_iff_exists.mp h.isOpen
  rw [hn, h.framed.size_of_awaitHeader hn h.awaits]

/-- What the call writes is read as its header. -/
theorem parse_writeHdr (w : WriteCall) : parse readHdr (writeHdr w.header) = .ok w.header := by
  have h := readHdr_writeHdr w.header []
  rw [List.append_nil] at h
  rw [parse, h, w.header_normalize]
  rfl

/-- A context that is found is the context of the connection. -/
theorem Broker.contextOf_eq {c : ConnectionContext} (h : s.ctx.find? hdl = some c) :
    s.contextOf hdl = c := by
  rw [contextOf, h]
  rfl

/-- A call has an empty payload exactly if its header says so. -/
theorem payloadLen_eq_zero_iff (w : WriteCall) : w.header.payloadLen = 0 ↔ w.body = [] := by
  rw [← UInt32.toNat_inj, w.header_payloadLen]
  exact List.length_eq_zero_iff

/-- A header arrives, and the connection stays open: a message without payload is
complete, otherwise its payload comes next. -/
theorem Boundary.header (h : Boundary hdl s) (w : WriteCall)
    (hd : DataStep ⟨hdl, writeHdr w.header, []⟩ s s') (ho : (s'.rdSize? hdl).isSome = true) :
    w.body = [] ∧ Boundary hdl s' ∧
        s.completed ⟨hdl, writeHdr w.header, []⟩ = some (w.header, none) ∨
      w.body ≠ [] ∧ s.completed ⟨hdl, writeHdr w.header, []⟩ = none ∧
        ∃ c, s'.ctx.find? hdl = some c ∧ c.cstate = .awaitPayload ∧ c.hdr = w.header := by
  have hcompl : s.completed ⟨hdl, writeHdr w.header, []⟩ =
      if w.header.payloadLen = 0 then some (w.header, none) else none := by
    show completes _ (s.contextOf hdl).hdr (decide ((s.contextOf hdl).cstate = .awaitPayload)) = _
    rw [h.awaits]
    simp only [completes, parse_writeHdr]
    rfl
  obtain ⟨c, hc, hcase⟩ := hd.frame ho
  rcases hcase with ⟨hst, -, hparse, hlen, -⟩ | ⟨hst, hm, -⟩
  · have hhdr : c.hdr = w.header := by
      replace hparse : parse readHdr (writeHdr w.header) = .ok c.hdr := hparse
      rw [parse_writeHdr] at hparse
      exact (Except.ok.inj hparse).symm
    -- the header announces a payload, so it is not empty
    have hne : ¬ w.header.payloadLen = 0 := by
      rw [hhdr] at hlen
      intro he
      rw [he] at hlen
      exact absurd hlen (by decide)
    exact Or.inr ⟨mt (payloadLen_eq_zero_iff w).mpr hne, by rw [hcompl, if_neg hne], c, hc, hst,
      hhdr⟩
  · rw [hcompl] at hm
    by_cases hz : w.header.payloadLen = 0
    · refine Or.inl ⟨(payloadLen_eq_zero_iff w).mp hz, ?_, by rw [hcompl, if_pos hz]⟩
      exact ⟨h.wired.data h.isOpen hd, h.framed.data h.wired h.isOpen hd, ho,
        by rw [Broker.contextOf_eq hc]; exact hst⟩
    · rw [if_neg hz] at hm
      cases hm

/-- A payload arrives, and the connection stays open. -/
theorem Boundary.body {w : WriteCall} {c : ConnectionContext} (hw : Wired s) (hf : Framed s)
    (hopen : (s.rdSize? hdl).isSome = true) (hc : s.ctx.find? hdl = some c)
    (hst : c.cstate = .awaitPayload) (hhdr : c.hdr = w.header)
    (hd : DataStep ⟨hdl, w.body, []⟩ s s') (ho : (s'.rdSize? hdl).isSome = true) :
    Boundary hdl s' ∧ s.completed ⟨hdl, w.body, []⟩ = some (w.header, some w.body) := by
  have hctx : s.contextOf hdl = c := Broker.contextOf_eq hc
  constructor
  · obtain ⟨c', hc', hcase⟩ := hd.frame ho
    rcases hcase with ⟨-, hnot, -⟩ | ⟨hst', -⟩
    · replace hnot : (s.contextOf hdl).cstate ≠ .awaitPayload := hnot
      rw [hctx] at hnot
      exact absurd hst hnot
    · exact ⟨hw.data hopen hd, hf.data hw hopen hd, ho, by rw [Broker.contextOf_eq hc']; exact hst'⟩
  · show completes _ (s.contextOf hdl).hdr (decide ((s.contextOf hdl).cstate = .awaitPayload)) = _
    rw [hctx, hst, hhdr]
    simp [completes, w.header_payloadLen]

/-- Feeding the bytes of the calls gives the messages of the calls, in that order. -/
theorem feed_flatMap (ws : List WriteCall) : ∀ {s : Broker} {fuel : Nat}, Boundary hdl s →
    (ws.flatMap fun w => writeHdr w.header ++ w.body).length ≤ fuel →
    ((s.feed hdl fuel (ws.flatMap fun w => writeHdr w.header ++ w.body)).state.rdSize? hdl).isSome
      = true →
    (s.feed hdl fuel (ws.flatMap fun w => writeHdr w.header ++ w.body)).messages =
        ws.map WriteCall.message ∧
      (s.feed hdl fuel (ws.flatMap fun w => writeHdr w.header ++ w.body)).rest = [] := by
  induction ws with
  | nil =>
    intro s fuel h _ _
    cases fuel with
    | zero => exact ⟨rfl, rfl⟩
    | succ fuel =>
      rw [List.flatMap_nil, Broker.feed, h.rdSize?]
      exact ⟨rfl, rfl⟩
  | cons w ws ih =>
    intro s fuel h hfuel hend
    have hsize : headerSize = 72 := rfl
    rw [List.flatMap_cons, List.append_assoc, List.length_append, length_writeHdr] at hfuel
    rw [List.flatMap_cons, List.append_assoc] at hend ⊢
    obtain ⟨fuel, rfl⟩ : ∃ n, fuel = n + 1 := ⟨fuel - 1, by omega⟩
    have hr : s.rdSize? hdl = some (writeHdr w.header).length := by
      rw [h.rdSize?, length_writeHdr]
    rw [Broker.feed_piece hr] at hend ⊢
    dsimp only at hend ⊢
    have hd := newData_cases ⟨hdl, writeHdr w.header, []⟩ h.isOpen
    generalize s.exec (.newData ⟨hdl, writeHdr w.header, []⟩) = s₁ at hd hend ⊢
    -- a connection that has been closed would stay closed
    have hopen : (s₁.rdSize? hdl).isSome = true := by
      cases hrd : s₁.rdSize? hdl with
      | some n => rfl
      | none =>
        rw [Broker.feed_closed hrd, hrd] at hend
        cases hend
    -- the header alone is the message, or its payload follows
    rcases h.header w hd hopen with ⟨hbody, hb, hm⟩ | ⟨hbody, hm, c, hc, hst, hhdr⟩
    · rw [hbody, List.nil_append] at hend ⊢
      rw [hbody, List.nil_append] at hfuel
      obtain ⟨hms, hrest⟩ := ih hb (by omega) hend
      rw [hm, hms]
      exact ⟨by simp [WriteCall.message, hbody], hrest⟩
    · have hw₁ := h.wired.data h.isOpen hd
      have hf₁ := h.framed.data h.wired h.isOpen hd
      have hr₁ : s₁.rdSize? hdl = some w.body.length := by
        obtain ⟨n, hn⟩ := Option.isSome_iff_exists.mp hopen
        rcases hf₁ hdl n hn with ⟨hst', -⟩ | ⟨-, rfl, -⟩
        · rw [Broker.contextOf_eq hc, hst] at hst'
          cases hst'
        · rw [hn, Broker.contextOf_eq hc, hhdr, w.header_payloadLen]
      have hpos := List.length_pos_iff.mpr hbody
      rw [List.length_append] at hfuel
      obtain ⟨fuel, rfl⟩ : ∃ n, fuel = n + 1 := ⟨fuel - 1, by omega⟩
      rw [Broker.feed_piece hr₁] at hend ⊢
      dsimp only at hend ⊢
      have hd₁ := newData_cases ⟨hdl, w.body, []⟩ hopen
      generalize s₁.exec (.newData ⟨hdl, w.body, []⟩) = s₂ at hd₁ hend ⊢
      have hopen₂ : (s₂.rdSize? hdl).isSome = true := by
        cases hrd : s₂.rdSize? hdl with
        | some n => rfl
        | none =>
          rw [Broker.feed_closed hrd, hrd] at hend
          cases hend
      obtain ⟨hb₂, hm₂⟩ := Boundary.body hw₁ hf₁ hopen hc hst hhdr hd₁ hopen₂
      obtain ⟨hms, hrest⟩ := ih hb₂ (by omega) hend
      rw [hm, hm₂, hms]
      exact ⟨rfl, hrest⟩

/-- **A receiver sees exactly the messages that were written**, and no bytes are left
over: any reachable broker that waits for a header on `hdl` and does not close the
connection on the way. Every piece has at least one byte, so the length of the
stream is fuel enough. -/
theorem feed_writes {ok : Broker → Input → Prop} (h : Broker.Reachable ok s)
    (ho : (s.rdSize? hdl).isSome = true) (ha : (s.contextOf hdl).cstate = .awaitHeader)
    (ws : List WriteCall) {fuel : Nat} (hf : (writeAll ws).length ≤ fuel)
    (hend : ((s.feed hdl fuel (writeAll ws)).state.rdSize? hdl).isSome = true) :
    (s.feed hdl fuel (writeAll ws)).messages = ws.map WriteCall.message ∧
      (s.feed hdl fuel (writeAll ws)).rest = [] := by
  rw [writeAll_eq] at hf hend ⊢
  exact feed_flatMap ws ⟨wired_of_reachable h, framed_of_reachable h, ho, ha⟩ hf hend

namespace Sample

/-- A server handshake, and a message to an actor that this node does not have. -/
def calls : List WriteCall :=
  [⟨serverHello (node 2), none, List.replicate headerSize 0, by decide, by decide, by decide,
      by decide⟩,
    ⟨dispatches (node 2) (node 1) infoRequest, some infoRequest.bytes,
      List.replicate headerSize 0, by decide, by decide, by decide +kernel, by decide⟩]

end Sample

open Sample in
/-- Two messages on a connection that this node has asked for. -/
theorem feed_writes_two :
    (((broker 1).exec (dials 7)).feed (conn 7) (writeAll calls).length (writeAll calls)).messages =
        calls.map WriteCall.message ∧
      (((broker 1).exec (dials 7)).feed (conn 7) (writeAll calls).length (writeAll calls)).rest =
        [] := by
  have h : Broker.Reachable anyStep ((broker 1).exec (dials 7)) :=
    (broker_reachable 1).exec trivial (by decide +kernel)
  exact feed_writes h (by decide +kernel) (by decide +kernel) calls (Nat.le_refl _)
    (by decide +kernel)

end BoostActor
