import BoostActor.Core.Binary
import BoostActor.Lib.Run

/-!
# Stream output

`network::stream` as far as it writes: bytes are collected in one buffer while an
asynchronous write works on another one, and the two are swapped when it completes.

* `Stream.write`, `Stream.flush`, `Stream.writeLoop`, `Stream.complete` — the source;
* `Stream.transmit` — `async_write` hands bytes of the buffer it was given to the socket;
* `InOrder` — where the written bytes are;
* `stream_output` — one write at a time, on a buffer that stays as it is, and what
  reaches the socket is what was written, in order.

The buffer of a write is not copied: it is read when bytes are transmitted. Whether
`async_write` completes too early is recorded (`cutShort`), not excluded.
-/

namespace BoostActor

open Lib

namespace Network

-- -------------------------
-- The stream
-- -------------------------

/-- An outstanding `async_write` on `wr_buf_`. -/
structure AsyncWrite where
  /-- the buffer when the write was started -/
  content : Bytes
  /-- bytes transmitted so far -/
  sent : Nat
deriving DecidableEq, Repr

/-- `stream<Socket>` with its socket; the last six fields are for the record. -/
structure Stream where
  writing : Bool
  wrBuf : Bytes
  wrOfflineBuf : Bytes
  pending : List AsyncWrite
  /-- bytes handed to the socket -/
  handed : Bytes
  /-- bytes passed to `async_write` -/
  started : Bytes
  /-- bytes written to the stream -/
  written : Bytes
  /-- how many had been written at the last flush -/
  flushed : Nat
  /-- a write completed with an error -/
  failed : Bool
  /-- a write completed before its whole buffer was transmitted -/
  cutShort : Bool
deriving DecidableEq, Repr

namespace Stream

/-- A new stream. -/
def initial : Stream := ⟨false, [], [], [], [], [], [], 0, false, false⟩

/-- `write`, or an insertion at the end of `wr_buf()`. -/
def write (s : Stream) (bytes : Bytes) : Stream :=
  { s with wrOfflineBuf := s.wrOfflineBuf ++ bytes, written := s.written ++ bytes }

/-- `async_write(fd_, buffer(wr_buf_), ...)`. -/
def asyncWrite (s : Stream) : Stream :=
  { s with pending := s.pending ++ [⟨s.wrBuf, 0⟩], started := s.started ++ s.wrBuf }

/-- `wr_buf_.clear(); wr_buf_.swap(wr_offline_buf_)`. -/
def swapBuffers (s : Stream) : Stream := { s with wrBuf := s.wrOfflineBuf, wrOfflineBuf := [] }

/-- `write_loop`. -/
def writeLoop (s : Stream) : Stream :=
  if s.wrOfflineBuf.isEmpty then { s with writing := false } else s.swapBuffers.asyncWrite

/-- `flush`. -/
def flush (s : Stream) : Stream :=
  let s := { s with flushed := s.written.length }
  if !s.wrOfflineBuf.isEmpty && !s.writing then { s with writing := true }.writeLoop else s

/-- The next `n` bytes of the `i`th write are transmitted, read from `wr_buf_`. -/
def transmit (s : Stream) (i n : Nat) : Option Stream :=
  match s.pending[i]? with
  | none => none
  | some op =>
    if op.sent + n ≤ op.content.length then
      some { s with
        pending := s.pending.set i { op with sent := op.sent + n }
        handed := s.handed ++ (s.wrBuf.drop op.sent).take n }
    else none

/-- The `i`th write completes, and its handler runs. What the manager does in
`io_failure` finds `writing_` still set, as if it had been done before. -/
def complete (s : Stream) (i : Nat) (ec : Bool) : Option Stream :=
  match s.pending[i]? with
  | none => none
  | some op =>
    let s := { s with
      pending := s.pending.eraseIdx i
      cutShort := s.cutShort || decide (op.sent < op.content.length) }
    some (if ec then { s with failed := true, writing := false } else s.writeLoop)

end Stream

/-- What happens to a stream. -/
inductive StreamInput where
  | write (bytes : Bytes)
  | flush
  | transmit (i n : Nat)
  | complete (i : Nat) (ec : Bool)

/-- A step of the stream. -/
def Stream.step (s : Stream) : StreamInput → Option Stream
  | .write bytes => some (s.write bytes)
  | .flush => some s.flush
  | .transmit i n => s.transmit i n
  | .complete i ec => s.complete i ec

-- -------------------------
-- Where the bytes are
-- -------------------------

namespace Stream

variable {s s' : Stream}

/-- The only write there can be. -/
def Outstanding (s : Stream) (op : AsyncWrite) : Prop :=
  s.pending = [op] ∧ s.writing = true ∧ op.content = s.wrBuf ∧ op.sent ≤ op.content.length

/-- No write is outstanding. -/
def Idle (s : Stream) : Prop := s.pending = [] ∧ s.writing = false

/-- The bytes that were passed to `async_write` and have not reached the socket. -/
def inTransit (s : Stream) : Bytes := s.pending.flatMap fun op => op.content.drop op.sent

/-- The bytes are on the socket, in transit or in the offline buffer, in this order. -/
structure InOrder (s : Stream) : Prop where
  shape : s.Idle ∨ ∃ op, s.Outstanding op
  split : s.started ++ s.wrOfflineBuf = s.written
  handed : s.cutShort = false → s.handed ++ s.inTransit = s.started
  /-- without a write to come, nothing that was flushed is left -/
  flushed : s.Idle → s.failed = false → s.flushed ≤ s.started.length

theorem not_idle_of_pending {op : AsyncWrite} (h : s.pending = [op]) : ¬ s.Idle := by
  rintro ⟨hnil, -⟩
  rw [h] at hnil
  cases hnil

namespace InOrder

theorem initial : InOrder Stream.initial := by
  refine ⟨Or.inl ⟨rfl, rfl⟩, rfl, fun _ => rfl, fun _ _ => Nat.le_refl 0⟩

theorem write (h : s.InOrder) (bytes : Bytes) : (s.write bytes).InOrder := by
  refine ⟨h.shape, ?_, h.handed, h.flushed⟩
  show s.started ++ (s.wrOfflineBuf ++ bytes) = s.written ++ bytes
  rw [← List.append_assoc, h.split]

/-- The loop is entered when no write is outstanding. It either stops, with everything
passed on, or starts the next write. -/
theorem writeLoop (hp : s.pending = []) (hw : s.writing = true)
    (hs : s.started ++ s.wrOfflineBuf = s.written)
    (hh : s.cutShort = false → s.handed = s.started) (hf : s.flushed ≤ s.written.length) :
    s.writeLoop.InOrder := by
  unfold Stream.writeLoop
  split
  · next he =>
    have hall : s.started = s.written := by
      rw [← hs, List.isEmpty_iff.mp he, List.append_nil]
    refine ⟨Or.inl ⟨hp, rfl⟩, hs, fun hc => ?_, fun _ _ => ?_⟩
    · show s.handed ++ s.pending.flatMap _ = s.started
      rw [hp, hh hc, List.flatMap_nil, List.append_nil]
    · rw [hall]
      exact hf
  · have hpend : s.swapBuffers.asyncWrite.pending = [⟨s.wrOfflineBuf, 0⟩] := by
      show s.pending ++ _ = _
      rw [hp]
      rfl
    refine ⟨Or.inr ⟨_, hpend, hw, rfl, Nat.zero_le _⟩, ?_, fun hc => ?_, fun hi => ?_⟩
    · show (s.started ++ s.wrOfflineBuf) ++ [] = s.written
      rw [List.append_nil, hs]
    · show s.handed ++ s.swapBuffers.asyncWrite.inTransit = s.started ++ s.wrOfflineBuf
      rw [inTransit, hpend, hh hc]
      simp
    · exact absurd hi (not_idle_of_pending hpend)

/-- What is left to be transmitted when nothing is in transit. -/
theorem handed_of_idle (h : s.InOrder) (hp : s.pending = []) (hc : s.cutShort = false) :
    s.handed = s.started := by
  have hh := h.handed hc
  rw [inTransit, hp, List.flatMap_nil, List.append_nil] at hh
  exact hh

/-- Flushing keeps the stream in order. -/
theorem flush (h : s.InOrder) : s.flush.InOrder := by
  unfold Stream.flush
  dsimp only
  split
  · next hgo =>
    rw [Bool.and_eq_true, Bool.not_eq_true', Bool.not_eq_true'] at hgo
    have hidle : s.pending = [] := by
      rcases h.shape with hi | ⟨op, -, hw, -⟩
      · exact hi.1
      · rw [hw] at hgo
        cases hgo.2
    exact writeLoop hidle rfl h.split (h.handed_of_idle hidle) (Nat.le_refl _)
  · next hgo =>
    refine ⟨h.shape, h.split, h.handed, fun hi _ => ?_⟩
    -- not writing, so there was nothing in the offline buffer
    have hempty : s.wrOfflineBuf = [] := by
      have hw : s.writing = false := hi.2
      simpa [hw] using hgo
    show s.written.length ≤ s.started.length
    rw [← h.split, hempty, List.append_nil]

/-- Handing bytes to the socket keeps the stream in order. -/
theorem transmit {i n : Nat} (h : s.InOrder) (hs : s.transmit i n = some s') : s'.InOrder := by
  unfold Stream.transmit at hs
  -- there is one write under way, and the bytes are its next ones
  rcases h.shape with hi | ⟨op, hop⟩
  · rw [hi.1] at hs
    cases hs
  obtain ⟨hp, hw, hcont, hsent⟩ := hop
  cases i with
  | succ i =>
    rw [hp] at hs
    cases hs
  | zero =>
    rw [hp] at hs
    dsimp only [List.getElem?_cons_zero, List.set_cons_zero] at hs
    split at hs
    · next hle =>
      cases hs
      refine ⟨Or.inr ⟨_, rfl, hw, hcont, hle⟩, h.split, fun hc => ?_, fun hi => ?_⟩
      · have hh := h.handed hc
        rw [inTransit, hp, List.flatMap_singleton] at hh
        show (s.handed ++ (s.wrBuf.drop op.sent).take n) ++ [_].flatMap _ = s.started
        rw [List.flatMap_singleton, ← hh, ← hcont, List.append_assoc]
        congr 1
        show _ ++ op.content.drop (op.sent + n) = _
        rw [← List.drop_drop, List.take_append_drop]
      · cases hi.1
    · cases hs

/-- Completing a write keeps the stream in order. -/
theorem complete {i : Nat} {ec : Bool} (h : s.InOrder) (hf : s.flushed ≤ s.written.length)
    (hs : s.complete i ec = some s') : s'.InOrder := by
  unfold Stream.complete at hs
  rcases h.shape with hi | ⟨op, hop⟩
  · rw [hi.1] at hs
    cases hs
  obtain ⟨hp, hw, -, hsent⟩ := hop
  cases i with
  | succ i =>
    rw [hp] at hs
    cases hs
  | zero =>
    rw [hp] at hs
    dsimp only [List.getElem?_cons_zero, List.eraseIdx_cons_zero] at hs
    cases hs
    -- without an early completion the whole buffer has reached the socket
    have hall : (s.cutShort || decide (op.sent < op.content.length)) = false →
        s.handed = s.started := by
      intro hc
      rw [Bool.or_eq_false_iff, decide_eq_false_iff_not, Nat.not_lt] at hc
      have hh := h.handed hc.1
      rw [inTransit, hp, List.flatMap_singleton, List.drop_of_length_le hc.2, List.append_nil] at hh
      exact hh
    cases ec with
    | true =>
      refine ⟨Or.inl ⟨rfl, rfl⟩, h.split, fun hc => ?_, fun _ hfail => by cases hfail⟩
      show s.handed ++ [] = s.started
      rw [List.append_nil, hall hc]
    | false => exact writeLoop rfl hw h.split hall hf

end InOrder

/-- A flush comes after what has been written. -/
theorem flushed_le_step {i : StreamInput} (h : s.flushed ≤ s.written.length)
    (hs : s.step i = some s') : s'.flushed ≤ s'.written.length := by
  -- the write loop changes neither what was written nor what is to be flushed
  have hloop : ∀ u : Stream, u.writeLoop.flushed = u.flushed ∧ u.writeLoop.written = u.written := by
    intro u
    unfold writeLoop
    split <;> exact ⟨rfl, rfl⟩
  cases i with
  | write bytes =>
    cases hs
    show s.flushed ≤ (s.written ++ bytes).length
    rw [List.length_append]
    omega
  | flush =>
    cases hs
    unfold flush
    dsimp only
    split
    · rw [(hloop _).1, (hloop _).2]
    · exact Nat.le_refl _
  | transmit i n =>
    unfold step transmit at hs
    dsimp only at hs
    split at hs
    · cases hs
    · split at hs
      · cases hs
        exact h
      · cases hs
  | complete i ec =>
    unfold step complete at hs
    dsimp only at hs
    split at hs
    · cases hs
    · cases hs
      split
      · exact h
      · rw [(hloop _).1, (hloop _).2]
        exact h

/-- Every step keeps the stream in order. -/
theorem InOrder.step {i : StreamInput} (h : s.InOrder) (hf : s.flushed ≤ s.written.length)
    (hs : s.step i = some s') : s'.InOrder := by
  cases i with
  | write bytes =>
    cases hs
    exact h.write bytes
  | flush =>
    cases hs
    exact h.flush
  | transmit i n => exact h.transmit hs
  | complete i ec => exact h.complete hf hs

-- -------------------------
-- Runs
-- -------------------------

/-- The states of a stream. -/
def Reachable : Stream → Prop := Reach (· = initial) step anyStep

/-- Every reachable stream is in order. -/
theorem Reachable.inOrder (h : s.Reachable) : s.InOrder := by
  have hinv : s.InOrder ∧ s.flushed ≤ s.written.length := by
    refine Reach.invariant (I := fun s => s.InOrder ∧ s.flushed ≤ s.written.length) ?_ ?_ h
    · rintro s rfl
      exact ⟨.initial, Nat.le_refl 0⟩
    · exact fun s i s' hi _ hs => ⟨hi.1.step hi.2 hs, flushed_le_step hi.2 hs⟩
  exact hinv.1

/-- **Stream output.** At most one write is outstanding, and its buffer is what it was
when the write started. What is passed to `async_write` is a prefix of what was written;
if `async_write` transmits its whole buffer before it completes, so is what reaches the
socket; and then, unless a write is outstanding or one has failed, everything that had
been written at the last flush has reached the socket. -/
theorem stream_output (h : s.Reachable) :
    s.pending.length ≤ 1 ∧
    (∀ op ∈ s.pending, s.wrBuf = op.content) ∧
    s.started <+: s.written ∧
    (s.cutShort = false → s.handed <+: s.written ∧
      (s.pending = [] → s.failed = false → s.written.take s.flushed <+: s.handed)) := by
  have hin := h.inOrder
  have hpre : s.started <+: s.written := ⟨s.wrOfflineBuf, hin.split⟩
  refine ⟨?_, fun op hop => ?_, hpre, fun hc => ⟨?_, fun hp hfail => ?_⟩⟩
  · rcases hin.shape with hi | ⟨op, hop⟩
    · rw [hi.1]
      exact Nat.zero_le 1
    · rw [hop.1]
      exact Nat.le_refl 1
  · rcases hin.shape with hi | ⟨op', hop'⟩
    · rw [hi.1] at hop
      cases hop
    · rw [hop'.1, List.mem_singleton] at hop
      rw [hop, hop'.2.2.1]
  · exact List.IsPrefix.trans ⟨s.inTransit, hin.handed hc⟩ hpre
  · have hidle : s.Idle := by
      rcases hin.shape with hi | ⟨op, hop⟩
      · exact hi
      · rw [hop.1] at hp
        cases hp
    rw [hin.handed_of_idle hp hc, List.prefix_iff_eq_take.mp hpre]
    exact List.take_prefix_take_left (hin.flushed hidle hfail)

/-- Bytes that are written and flushed while a write is outstanding follow it. -/
theorem stream_output_late : ∃ s, Reachable s ∧ s.pending = [] ∧ s.failed = false ∧
    s.flushed = 3 ∧ s.written = [1, 2, 3, 4] ∧ [1, 2, 3] <+: s.handed := by
  obtain ⟨s, hs, hc⟩ := exists_run step initial
    [.write [1, 2], .flush, .transmit 0 1, .write [3], .flush, .transmit 0 1, .complete 0 false,
      .write [4], .transmit 0 1, .complete 0 false, .transmit 0 1, .complete 0 false]
    (fun s => s.pending = [] ∧ s.failed = false ∧ s.flushed = 3 ∧ s.written = [1, 2, 3, 4] ∧
      s.cutShort = false) (by decide)
  simp only [decide_eq_true_eq] at hc
  obtain ⟨hp, hfail, hfl, hw, hcut⟩ := hc
  have hreach : Reachable s := reach_of_run (.init rfl) hs
  have hpre := ((stream_output hreach).2.2.2 hcut).2 hp hfail
  rw [hfl, hw] at hpre
  exact ⟨s, hreach, hp, hfail, hfl, hw, hpre⟩

end Stream

end Network

end BoostActor
