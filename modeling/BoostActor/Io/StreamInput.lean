import BoostActor.Core.Binary
import BoostActor.Lib.Run

/-!
# Stream input

`network::stream` as far as it reads. The receive policy says how many bytes the next call of
`consume` gets. With `at_least`, `collect_data` reads into the rest of the buffer until there
are enough bytes. The buffer gets its size when the read loop starts, but what is enough is
decided by the policy at the time when bytes arrive, and the broker may call `configure_read`
in between.

* `StreamReader.readLoop`, `StreamReader.collectData`, `StreamReader.receive` — the source;
* `consumed_step` — `consume` gets what has been received since the last call;
* `streamInput_run` — `collect_data` reads into an empty buffer too early if and only if a chunk
  fills the buffer when the policy has come to ask for more.
-/

namespace BoostActor

open Lib

namespace Network

-- -------------------------
-- The stream
-- -------------------------

inductive ReceivePolicyFlag where
  | atLeast
  | atMost
  | exactly
deriving DecidableEq, Repr

/-- What happens next. -/
inductive ReadOp where
  /-- `read_loop` is called, by `start` or by a handler after `consume` -/
  | readLoop
  /-- `async_read` of that many bytes completes -/
  | asyncRead (n : Nat)
  /-- `async_read_some` of at most that many bytes completes -/
  | asyncReadSome (n : Nat)
  /-- the `async_read_some` of `collect_data` completes -/
  | collectData (collectedBytes : Nat)
  /-- nothing, after an error -/
  | failed
deriving DecidableEq, Repr

/-- What happens on a stream. -/
inductive ReadEvent where
  /-- `collect_data` reads into a buffer with some room; the policy asks for `size` bytes -/
  | collect (collectedBytes room size : Nat)
  | receive (bytes : Bytes)
  | consume (bytes : Bytes)
deriving DecidableEq, Repr

/-- `stream<Socket>` with the read that is under way, and what has happened so far. -/
structure StreamReader where
  rdFlag : ReceivePolicyFlag
  rdSize : UInt64
  rdBuf : Bytes
  op : ReadOp
  trace : List ReadEvent
deriving DecidableEq, Repr

namespace StreamReader

/-- A new stream. -/
def initial : StreamReader := ⟨.atMost, 1024, [], .readLoop, []⟩

/-- `configure_read`. -/
def configureRead (s : StreamReader) (flag : ReceivePolicyFlag) (size : UInt64) : StreamReader :=
  { s with rdFlag := flag, rdSize := size }

/-- `rd_buf_.resize(n)` when the buffer is smaller; beyond `max_size()` it throws. -/
def reserve (s : StreamReader) (n : UInt64) : Option StreamReader :=
  if s.rdBuf.length < n.toNat then
    if n.toNat < 2 ^ 63 then
      some { s with rdBuf := s.rdBuf ++ List.replicate (n.toNat - s.rdBuf.length) 0 }
    else none
  else some s

/-- `min_size`. -/
def minSize (rdSize : UInt64) : UInt64 := rdSize + max 100 (rdSize / 10)

/-- `collect_data`. -/
def collectData (s : StreamReader) (collectedBytes : Nat) : StreamReader :=
  { s with
    op := .collectData collectedBytes
    trace := s.trace ++
      [.collect collectedBytes (s.rdBuf.length - collectedBytes) s.rdSize.toNat] }

/-- `read_loop`. -/
def readLoop (s : StreamReader) : Option StreamReader :=
  match s.rdFlag with
  | .exactly => (s.reserve s.rdSize).map fun s => { s with op := .asyncRead s.rdSize.toNat }
  | .atMost => (s.reserve s.rdSize).map fun s => { s with op := .asyncReadSome s.rdSize.toNat }
  -- read up to 10% more, but at least allow 100 bytes more
  | .atLeast => (s.reserve (minSize s.rdSize)).map fun s => s.collectData 0

/-- The socket puts bytes into the buffer. -/
def store (s : StreamReader) (pos : Nat) (bytes : Bytes) : StreamReader :=
  { s with
    rdBuf := s.rdBuf.take pos ++ bytes ++ s.rdBuf.drop (pos + bytes.length)
    trace := s.trace ++ [.receive bytes] }

/-- `mgr->consume(rd_buf_.data(), n)`; `read_loop` comes next. -/
def consume (s : StreamReader) (n : Nat) : StreamReader :=
  { s with op := .readLoop, trace := s.trace ++ [.consume (s.rdBuf.take n)] }

/-- The handlers when bytes have arrived. A read completes without bytes only if it has no
room. -/
def receive (s : StreamReader) (bytes : Bytes) : Option StreamReader :=
  match s.op with
  | .asyncRead n =>
    if bytes.length = n then some ((s.store 0 bytes).consume bytes.length) else none
  | .asyncReadSome n =>
    if bytes.length ≤ n ∧ (0 < n → bytes ≠ []) then
      some ((s.store 0 bytes).consume bytes.length)
    else none
  | .collectData collectedBytes =>
    let sum := collectedBytes + bytes.length
    if sum ≤ s.rdBuf.length ∧ (collectedBytes < s.rdBuf.length → bytes ≠ []) then
      let s := s.store collectedBytes bytes
      if s.rdSize.toNat ≤ sum then some (s.consume sum) else some (s.collectData sum)
    else none
  | _ => none

end StreamReader

/-- What happens to a stream. -/
inductive ReadInput where
  | configureRead (flag : ReceivePolicyFlag) (size : UInt64)
  | readLoop
  | receive (bytes : Bytes)
  /-- a read completes with an error -/
  | fail
  /-- the manager changes `rd_buf()` in `consume` -/
  | rdBuf (buf : Bytes)

/-- A step of the stream. -/
def StreamReader.step (s : StreamReader) : ReadInput → Option StreamReader
  | .configureRead flag size => some (s.configureRead flag size)
  | .readLoop => if s.op = .readLoop then s.readLoop else none
  | .receive bytes => s.receive bytes
  | .fail => if s.op ≠ .readLoop then some { s with op := .failed } else none
  | .rdBuf buf => if s.op = .readLoop then some { s with rdBuf := buf } else none

-- -------------------------
-- What is expected
-- -------------------------

/-- `collect_data` has room in the buffer while there are not enough bytes. -/
def ReadEvent.HasRoom : ReadEvent → Prop
  | .collect collectedBytes room size => collectedBytes < size → 0 < room
  | _ => True

/-- The bytes received since the last call of `consume`. -/
def sinceConsume (trace : List ReadEvent) : Bytes :=
  trace.foldl
    (fun bytes event =>
      match event with
      | .collect _ _ _ => bytes
      | .receive chunk => bytes ++ chunk
      | .consume _ => [])
    []

/-- Every call of `consume` gets the bytes received since the call before it. -/
def ConsumedInOrder (trace : List ReadEvent) : Prop :=
  ∀ before bytes after, trace = before ++ .consume bytes :: after → bytes = sinceConsume before

namespace StreamReader

/-- While bytes are collected, a chunk does not fill the buffer unless the configured size fits
into it; and the size of the buffer does not overflow to zero. -/
def Proper (s : StreamReader) : ReadInput → Prop
  | .readLoop => s.rdFlag = .atLeast → minSize s.rdSize ≠ 0 ∨ s.rdBuf ≠ []
  | .receive bytes =>
    match s.op with
    | .collectData collectedBytes =>
      s.rdSize.toNat ≤ s.rdBuf.length ∨ collectedBytes + bytes.length < s.rdBuf.length
    | _ => True
  | _ => True

variable {s s' : StreamReader} {i : ReadInput}

/-- `resize` changes the buffer only. -/
theorem reserve_eq {n : UInt64} (h : s.reserve n = some s') :
    ∃ buf, s' = { s with rdBuf := buf } ∧ buf.length = max s.rdBuf.length n.toNat := by
  unfold reserve at h
  split_ifs at h with hsmall
  · refine ⟨_, (Option.some.inj h).symm, ?_⟩
    rw [List.length_append, List.length_replicate]
    omega
  · refine ⟨_, (Option.some.inj h).symm, ?_⟩
    omega

-- -------------------------
-- Calls of consume
-- -------------------------

/-- The bytes at the beginning of the buffer that belong to the next call. -/
def collected (s : StreamReader) : Nat :=
  match s.op with
  | .collectData collectedBytes => collectedBytes
  | _ => 0

/-- What has been received since the last call is at the beginning of the buffer. -/
structure Consumed (s : StreamReader) : Prop where
  inOrder : ConsumedInOrder s.trace
  within : s.op ≠ .failed → s.collected ≤ s.rdBuf.length
  start : s.op ≠ .failed → s.rdBuf.take s.collected = sinceConsume s.trace

/-- The bytes since the last `consume`, after one more event. -/
theorem sinceConsume_concat (trace : List ReadEvent) (event : ReadEvent) :
    sinceConsume (trace ++ [event]) =
      match event with
      | .collect _ _ _ => sinceConsume trace
      | .receive chunk => sinceConsume trace ++ chunk
      | .consume _ => [] := by
  unfold sinceConsume
  rw [List.foldl_append]
  rfl

/-- An event that consumes what was received keeps the trace in order. -/
theorem inOrder_concat {trace : List ReadEvent} {event : ReadEvent}
    (h : ConsumedInOrder trace) (hevent : ∀ bytes, event = .consume bytes →
      bytes = sinceConsume trace) : ConsumedInOrder (trace ++ [event]) := by
  intro before bytes after hsplit
  rcases concat_eq_append_cons hsplit with ⟨rfl, rfl⟩ | ⟨rest, hrest⟩
  · exact hevent bytes rfl
  · exact h before bytes rest hrest

namespace Consumed

/-- Without bytes in the buffer. -/
theorem of_nil (h : ConsumedInOrder s.trace) (hop : s.collected = 0)
    (hnil : sinceConsume s.trace = []) : s.Consumed := by
  refine ⟨h, fun _ => ?_, fun _ => ?_⟩
  · rw [hop]
    exact Nat.zero_le _
  · rw [hop, hnil, List.take_zero]

/-- A chunk is put behind the bytes that are there. -/
theorem store {pos : Nat} (h : ConsumedInOrder s.trace) (hpos : pos ≤ s.rdBuf.length)
    (hstart : s.rdBuf.take pos = sinceConsume s.trace) (bytes : Bytes) :
    ConsumedInOrder (s.store pos bytes).trace ∧
      pos + bytes.length ≤ (s.store pos bytes).rdBuf.length ∧
      (s.store pos bytes).rdBuf.take (pos + bytes.length) =
        sinceConsume (s.store pos bytes).trace := by
  have hlen : (s.rdBuf.take pos ++ bytes).length = pos + bytes.length := by
    rw [List.length_append, List.length_take, Nat.min_eq_left hpos]
  refine ⟨inOrder_concat h (fun _ heq => nomatch heq), ?_, ?_⟩
  · show _ ≤ List.length (_ ++ _)
    rw [List.length_append, hlen]
    exact Nat.le_add_right _ _
  · show List.take _ (_ ++ _) = sinceConsume (_ ++ [_])
    rw [sinceConsume_concat, List.take_append_of_le_length (Nat.le_of_eq hlen.symm), ← hlen,
      List.take_length, hstart]

/-- `consume` gets what is in the buffer. -/
theorem consume {n : Nat} (h : ConsumedInOrder s.trace)
    (hstart : s.rdBuf.take n = sinceConsume s.trace) : (s.consume n).Consumed := by
  refine of_nil (inOrder_concat h ?_) rfl (sinceConsume_concat _ _)
  intro bytes heq
  cases heq
  exact hstart

/-- Collecting data that starts the buffer keeps the account. -/
theorem collectData {n : Nat} (h : ConsumedInOrder s.trace) (hn : n ≤ s.rdBuf.length)
    (hstart : s.rdBuf.take n = sinceConsume s.trace) : (s.collectData n).Consumed := by
  refine ⟨inOrder_concat h (fun _ heq => nomatch heq), fun _ => hn, fun _ => ?_⟩
  show _ = sinceConsume (_ ++ [_])
  rw [sinceConsume_concat]
  exact hstart

/-- Starting to read keeps the account. -/
theorem readLoop (h : s.Consumed) (hop : s.op = .readLoop) (hs : s.readLoop = some s') :
    s'.Consumed := by
  have hnil : sinceConsume s.trace = [] := by
    have hstart := h.start (by rw [hop]; exact nofun)
    unfold collected at hstart
    rw [hop] at hstart
    exact hstart.symm
  unfold StreamReader.readLoop at hs
  split at hs
  · obtain ⟨u, hu, rfl⟩ := Option.map_eq_some_iff.mp hs
    obtain ⟨buf, rfl, -⟩ := reserve_eq hu
    exact of_nil h.inOrder rfl hnil
  · obtain ⟨u, hu, rfl⟩ := Option.map_eq_some_iff.mp hs
    obtain ⟨buf, rfl, -⟩ := reserve_eq hu
    exact of_nil h.inOrder rfl hnil
  · obtain ⟨u, hu, rfl⟩ := Option.map_eq_some_iff.mp hs
    obtain ⟨buf, rfl, -⟩ := reserve_eq hu
    exact collectData h.inOrder (Nat.zero_le _) hnil.symm

/-- Receiving bytes keeps the account: what `consume` gets is what was received. -/
theorem receive {bytes : Bytes} (h : s.Consumed) (hs : s.receive bytes = some s') :
    s'.Consumed := by
  obtain ⟨hin, hwithin, hstart⟩ := h
  unfold collected at hwithin hstart
  unfold StreamReader.receive at hs
  -- a read that does not collect calls consume with its own bytes
  have hsingle : s.rdBuf.take 0 = sinceConsume s.trace →
      ((s.store 0 bytes).consume bytes.length).Consumed := by
    intro hzero
    obtain ⟨hin', -, hstart'⟩ := store hin (Nat.zero_le _) hzero bytes
    rw [Nat.zero_add] at hstart'
    exact consume hin' hstart'
  cases hop : s.op with
  | asyncRead n =>
    rw [hop] at hs hstart
    dsimp only at hs
    split_ifs at hs
    cases hs
    exact hsingle (hstart nofun)
  | asyncReadSome n =>
    rw [hop] at hs hstart
    dsimp only at hs
    split_ifs at hs
    cases hs
    exact hsingle (hstart nofun)
  -- more bytes for `collect_data`: enough now, or another read
  | collectData collectedBytes =>
    rw [hop] at hs hstart hwithin
    dsimp only at hs
    obtain ⟨hin', hle, hstart'⟩ := store hin (hwithin nofun) (hstart nofun) bytes
    split_ifs at hs
    · cases hs
      exact consume hin' hstart'
    · cases hs
      exact collectData hin' hle hstart'
  | readLoop =>
    rw [hop] at hs
    cases hs
  | failed =>
    rw [hop] at hs
    cases hs

end Consumed

/-- Every step keeps the order. -/
theorem consumed_step (h : s.Consumed) (hs : s.step i = some s') : s'.Consumed := by
  cases i with
  | configureRead flag size =>
    cases hs
    exact ⟨h.inOrder, h.within, h.start⟩
  | readLoop =>
    simp only [step] at hs
    split_ifs at hs with hop
    exact h.readLoop hop hs
  | receive bytes => exact h.receive hs
  | fail =>
    simp only [step] at hs
    split_ifs at hs
    cases hs
    exact ⟨h.inOrder, fun hne => absurd rfl hne, fun hne => absurd rfl hne⟩
  | rdBuf buf =>
    simp only [step] at hs
    split_ifs at hs with hop
    cases hs
    have hzero : s.collected = 0 := by
      unfold collected
      rw [hop]
    refine .of_nil h.inOrder hzero ?_
    have hstart := h.start (by rw [hop]; exact nofun)
    rw [hzero, List.take_zero] at hstart
    exact hstart.symm

-- -------------------------
-- Reads of collect_data
-- -------------------------

/-- `collect_data` never reads into an empty buffer too early. -/
def NoEmptyRead (s : StreamReader) : Prop := ∀ event ∈ s.trace, event.HasRoom

/-- The trace has no empty read if the old and the new events have none. -/
theorem noEmptyRead_append {more : List ReadEvent} (htrace : s'.trace = s.trace ++ more) :
    s'.NoEmptyRead ↔ s.NoEmptyRead ∧ ∀ event ∈ more, event.HasRoom := by
  unfold NoEmptyRead
  rw [htrace, List.forall_mem_append]

/-- The read loop starts to collect with room in the buffer, or with a size of zero. -/
theorem noEmptyRead_readLoop (hs : s.readLoop = some s') :
    s'.NoEmptyRead ↔ s.NoEmptyRead ∧ Proper s .readLoop := by
  unfold StreamReader.readLoop at hs
  unfold Proper
  cases hflag : s.rdFlag with
  -- only reads of at least a number of bytes collect
  | exactly =>
    rw [hflag] at hs
    obtain ⟨u, hu, rfl⟩ := Option.map_eq_some_iff.mp hs
    obtain ⟨buf, rfl, -⟩ := reserve_eq hu
    exact (and_iff_left nofun).symm
  | atMost =>
    rw [hflag] at hs
    obtain ⟨u, hu, rfl⟩ := Option.map_eq_some_iff.mp hs
    obtain ⟨buf, rfl, -⟩ := reserve_eq hu
    exact (and_iff_left nofun).symm
  | atLeast =>
    rw [hflag] at hs
    obtain ⟨u, hu, rfl⟩ := Option.map_eq_some_iff.mp hs
    obtain ⟨buf, rfl, hbuf⟩ := reserve_eq hu
    rw [noEmptyRead_append (s := s) rfl]
    refine and_congr_right fun _ => ?_
    rw [List.forall_mem_singleton]
    show (0 < s.rdSize.toNat → 0 < buf.length - 0) ↔ _
    have hmin : minSize s.rdSize ≠ 0 ↔ 0 < (minSize s.rdSize).toNat := by
      rw [Nat.pos_iff_ne_zero, ← UInt64.toNat_zero, ne_eq, ne_eq, UInt64.toNat_inj]
    have hnil : s.rdBuf ≠ [] ↔ 0 < s.rdBuf.length := List.length_pos_iff.symm
    have hzero : s.rdSize.toNat = 0 → 0 < (minSize s.rdSize).toNat := by
      intro h
      have hsize : s.rdSize = 0 := UInt64.toNat_inj.mp h
      rw [hsize]
      decide
    rw [hmin, hnil, forall_prop_of_true rfl]
    omega

/-- The buffer keeps its size. -/
theorem store_length {pos : Nat} {bytes : Bytes} (h : pos + bytes.length ≤ s.rdBuf.length) :
    (s.store pos bytes).rdBuf.length = s.rdBuf.length := by
  show List.length (s.rdBuf.take pos ++ bytes ++ s.rdBuf.drop (pos + bytes.length)) = _
  rw [List.length_append, List.length_append, List.length_take, List.length_drop]
  omega

/-- A handler that goes on collecting has room in the buffer. -/
theorem noEmptyRead_receive {bytes : Bytes} (hs : s.receive bytes = some s') :
    s'.NoEmptyRead ↔ s.NoEmptyRead ∧ Proper s (.receive bytes) := by
  unfold StreamReader.receive at hs
  unfold Proper
  -- neither the chunk nor `consume` is a read
  have hconsume : ∀ pos n, ((s.store pos bytes).consume n).NoEmptyRead ↔ s.NoEmptyRead := by
    intro pos n
    rw [noEmptyRead_append (s := s) (List.append_assoc _ _ _)]
    refine and_iff_left fun event hevent => ?_
    rcases List.mem_cons.mp hevent with rfl | hevent
    · trivial
    · rw [List.mem_singleton.mp hevent]
      trivial
  cases hop : s.op with
  | asyncRead n =>
    rw [hop] at hs
    dsimp only at hs ⊢
    split_ifs at hs
    cases hs
    rw [hconsume, and_true]
  | asyncReadSome n =>
    rw [hop] at hs
    dsimp only at hs ⊢
    split_ifs at hs
    cases hs
    rw [hconsume, and_true]
  | collectData collectedBytes =>
    rw [hop] at hs
    dsimp only at hs ⊢
    split_ifs at hs with hroom henough
    · cases hs
      rw [hconsume]
      refine (and_iff_left (Or.inl ?_)).symm
      exact Nat.le_trans henough hroom.1
    · cases hs
      rw [noEmptyRead_append (s := s) (List.append_assoc _ _ _)]
      refine and_congr_right fun _ => ?_
      rw [List.singleton_append, List.forall_mem_cons, List.forall_mem_singleton]
      show (True ∧ (_ < s.rdSize.toNat → 0 < List.length (s.store _ bytes).rdBuf - _)) ↔ _
      rw [store_length hroom.1, true_and]
      omega
  | readLoop =>
    rw [hop] at hs
    cases hs
  | failed =>
    rw [hop] at hs
    cases hs

/-- A step is exact. -/
theorem noEmptyRead_step (hs : s.step i = some s') :
    s'.NoEmptyRead ↔ s.NoEmptyRead ∧ Proper s i := by
  cases i with
  | configureRead flag size =>
    cases hs
    exact (and_iff_left trivial).symm
  | readLoop =>
    simp only [step] at hs
    split_ifs at hs
    exact noEmptyRead_readLoop hs
  | receive bytes => exact noEmptyRead_receive hs
  | fail =>
    simp only [step] at hs
    split_ifs at hs
    cases hs
    exact (and_iff_left trivial).symm
  | rdBuf buf =>
    simp only [step] at hs
    split_ifs at hs
    cases hs
    exact (and_iff_left trivial).symm

-- -------------------------
-- Runs
-- -------------------------

/-- **Stream input.** In every run `consume` gets exactly the bytes received since the last
call, in order. `collect_data` always has room in the buffer while there are not enough bytes,
if and only if all steps are proper. -/
theorem streamInput_run {is : List ReadInput} (hrun : runAll step initial is = some s) :
    ConsumedInOrder s.trace ∧ (s.NoEmptyRead ↔ AllSteps step Proper initial is) := by
  have hinitial : ConsumedInOrder initial.trace := by
    intro before bytes after hsplit
    cases before with
    | nil => cases hsplit
    | cons event before => cases hsplit
  refine ⟨?_, ?_⟩
  · have hreach : Reach (· = initial) step anyStep s := reach_of_run (.init rfl) hrun
    refine (hreach.invariant (I := Consumed) ?_ fun s i s' h _ hs => consumed_step h hs).inOrder
    rintro s rfl
    exact .of_nil hinitial rfl rfl
  · rw [runAll_iff (P := NoEmptyRead) (fun s i s' hs => noEmptyRead_step hs) hrun]
    exact and_iff_right fun event hevent => absurd hevent List.not_mem_nil

/-- Three bytes for a policy that has asked for more before. -/
theorem streamInput_less : ConsumedInOrder [.collect 0 104 4, .receive [1], .collect 1 103 4,
    .receive [2, 3], .consume [1, 2, 3]] := by
  have hrun := (rfl : runAll step initial [.configureRead .atLeast 4, .readLoop, .receive [1],
    .configureRead .atLeast 2, .receive [2, 3]] = some _)
  exact (streamInput_run hrun).1

/-- A chunk that fills the buffer, for a policy that asks for more than it has asked for when the
buffer got its size. -/
theorem streamInput_more : ¬ ∀ is s, runAll step initial is = some s → s.NoEmptyRead := by
  intro hall
  obtain ⟨s, hrun, hcheck⟩ := exists_run step initial
    [.configureRead .atLeast 10, .readLoop, .configureRead .atLeast 1000,
      .receive (List.replicate 110 7)]
    (fun s => s.trace.contains (.collect 110 0 1000)) (by decide +kernel)
  have hmem := List.contains_iff_mem.mp hcheck
  exact absurd (hall _ s hrun _ hmem (by decide)) (Nat.lt_irrefl 0)

end StreamReader

end Network

end BoostActor
