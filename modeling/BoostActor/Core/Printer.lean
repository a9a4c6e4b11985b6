import BoostActor.Core.SinkHandles
import BoostActor.Core.MailboxElement
import BoostActor.Lib.UnorderedMap

/-!
# The printer

`printer_loop` (`abstract_coordinator.cpp`) collects what actors print. Each actor has a
line and possibly a file of its own; a line is written when it is complete, when the actor
flushes it, and when the actor is down. Files can be changed at any time, for one actor or
for all.

* `Printer.handle_spec` — what the handling of a message writes and keeps;
* `printer_output` — in every run, what has been written for an actor and its line are what
  it has sent.
-/

namespace BoostActor

open Lib

/-- The content of a message to the printer. `opened` says whether the file can be opened,
and `m` where the entry for it goes. -/
inductive PrinterContent where
  /-- `add_atom` -/
  | add (str : Bytes)
  /-- `flush_atom` -/
  | flush
  /-- `down_msg` -/
  | down (source : ActorAddr)
  /-- `exit_msg` -/
  | exit
  /-- `redirect_atom` for all -/
  | redirectAll (fn : Bytes) (flag : Int) (opened : Bool) (m : SinkCache.Allocator)
  /-- `redirect_atom` for an actor -/
  | redirect (src : ActorAddr) (fn : Bytes) (flag : Int) (opened : Bool)
      (m : SinkCache.Allocator)
  | other

structure PrinterMessage where
  sender : ActorAddr
  content : PrinterContent

/-- Where output goes. -/
inductive Destination where
  | cout
  | sink (s : Sink)
deriving DecidableEq, Repr

/-- A piece of output, with the actor whose line it was. -/
structure Chunk where
  source : ActorAddr
  text : Bytes
  dest : Destination
deriving DecidableEq, Repr

/-- `actor_data`. -/
structure ActorData where
  currentLine : Bytes
  redirect : SinkHandle
deriving DecidableEq, Repr

/-- The variables of `printer_loop`. -/
structure Printer where
  fcache : SinkCache
  globalRedirect : SinkHandle
  data : UMap ActorAddr ActorData
  running : Bool

/-- The assignment of a handle that `get_sink_handle` returns. -/
def assignSinkHandle (fc : SinkCache) (h : SinkHandle) (fn : Bytes) (flag : Int) (opened : Bool)
    (m : SinkCache.Allocator) : Except Fault (SinkCache × SinkHandle) := do
  let (fc, returned) ← getSinkHandle fc fn (makeSink fn flag opened) m
  let (fc, h) ← h.assign fc returned
  return (← returned.destroy fc, h)

namespace Printer

/-- The printer at the beginning of the loop. -/
def initial : Printer := ⟨[], .empty, .empty, true⟩

/-- All handles. -/
def handles (p : Printer) : List SinkHandle :=
  p.globalRedirect :: (p.data.entries.map Prod.snd).map ActorData.redirect

/-- `data.emplace(addr, actor_data{})`. -/
def insertData (p : Printer) (addr : ActorAddr) : Printer :=
  { p with data := p.data.emplace addr ⟨[], .empty⟩ }

/-- `get_data`; a new actor is monitored. -/
def getData (p : Printer) (addr : ActorAddr) (insertMissing : Bool) :
    Printer × Option ActorData :=
  if addr = .invalid then (p, none)
  else
    let p := if insertMissing then p.insertData addr else p
    (p, p.data.find? addr)

/-- `operator bool` and `operator*` of the handles in `flush`. -/
def destination (p : Printer) (d : ActorData) : Except Fault Destination :=
  if d.redirect.cache then return .sink (← p.fcache.deref d.redirect.iter).sink
  else if p.globalRedirect.cache then return .sink (← p.fcache.deref p.globalRedirect.iter).sink
  else return .cout

/-- `flush`; `what` is the data of `addr`. -/
def flush (p : Printer) (addr : ActorAddr) (what : Option ActorData) (forced : Bool) :
    Except Fault (Printer × List Chunk) :=
  match what with
  | none => return (p, [])
  | some d =>
    if d.currentLine = [] ∨ (d.currentLine.getLast? ≠ some 10 ∧ forced = false) then
      return (p, [])
    else do
      let dest ← p.destination d
      return ({ p with data := p.data.adjust addr fun d => { d with currentLine := [] } },
        [⟨addr, d.currentLine, dest⟩])

/-- `data.erase(addr)`, with the destructor of the handle. -/
def eraseData (p : Printer) (addr : ActorAddr) : Except Fault Printer :=
  match p.data.find? addr with
  | some d => return { p with fcache := ← d.redirect.destroy p.fcache, data := p.data.erase addr }
  | none => return p

/-- The message handlers. -/
def handle (p : Printer) (msg : PrinterMessage) : Except Fault (Printer × List Chunk) :=
  match msg.content with
  | .add str =>
    if str = [] ∨ msg.sender = .invalid then return (p, [])
    else
      let p := (p.getData msg.sender true).1
      let p := { p with
        data := p.data.adjust msg.sender fun d => { d with currentLine := d.currentLine ++ str } }
      p.flush msg.sender (p.data.find? msg.sender) false
  | .flush => p.flush msg.sender (p.getData msg.sender false).2 true
  | .down source => do
    let (p, chunks) ← p.flush source (p.getData source false).2 true
    return (← p.eraseData source, chunks)
  | .exit => return ({ p with running := false }, [])
  | .redirectAll fn flag opened m => do
    let (fcache, h) ← assignSinkHandle p.fcache p.globalRedirect fn flag opened m
    return ({ p with fcache, globalRedirect := h }, [])
  | .redirect src fn flag opened m =>
    match p.getData src true with
    | (p, some d) => do
      let (fcache, h) ← assignSinkHandle p.fcache d.redirect fn flag opened m
      return ({ p with fcache, data := p.data.adjust src fun d => { d with redirect := h } }, [])
    | (p, none) => return (p, [])
  | .other => return (p, [])

/-- The loop, with the output of each message that is handled. -/
def run : Printer → List PrinterMessage →
    Except Fault (Printer × List (PrinterMessage × List Chunk))
  | p, [] => return (p, [])
  | p, msg :: msgs =>
    if p.running then do
      let (p, chunks) ← p.handle msg
      let (p, trace) ← p.run msgs
      return (p, (msg, chunks) :: trace)
    else return (p, [])

end Printer

-- -------------------------
-- What is expected
-- -------------------------

/-- The buffered line of an actor. -/
def Printer.line (p : Printer) (a : ActorAddr) : Bytes :=
  (p.data.find? a).elim [] ActorData.currentLine

/-- The output for an actor. -/
def emitted (a : ActorAddr) (chunks : List Chunk) : Bytes :=
  (chunks.filter fun c => c.source = a).flatMap Chunk.text

/-- What a message adds to the text of an actor. -/
def PrinterMessage.adds (a : ActorAddr) (msg : PrinterMessage) : Bytes :=
  match msg.content with
  | .add str => if msg.sender = a then str else []
  | _ => []

/-- A flush or down message. -/
def PrinterMessage.forces (msg : PrinterMessage) : Bool :=
  match msg.content with
  | .flush => true
  | .down _ => true
  | _ => false

/-- The messages up to the first exit message. -/
def handledMessages : List PrinterMessage → List PrinterMessage
  | [] => []
  | msg :: msgs =>
    match msg.content with
    | .exit => [msg]
    | _ => msg :: handledMessages msgs

-- -------------------------
-- Handles
-- -------------------------

/-- Assigning a sink handle gives up the old one and owns the new one. -/
theorem assignSinkHandle_owned {fc : SinkCache} {h : SinkHandle} {hs : List SinkHandle}
    (ho : Owned fc (h :: hs)) (fn : Bytes) (flag : Int) (opened : Bool)
    (m : SinkCache.Allocator) :
    ∃ fc' h', assignSinkHandle fc h fn flag opened m = .ok (fc', h') ∧ Owned fc' (h' :: hs) := by
  obtain ⟨fc₁, returned, hget, ho₁⟩ := ho.getSinkHandle fn (makeSink fn flag opened) m
  -- the handle that is returned lives until it has been assigned
  obtain ⟨fc₂, h₂, hassign, ho₂, -⟩ :=
    (ho₁.perm (List.Perm.swap h returned hs)).assign (List.mem_cons_of_mem _ List.mem_cons_self)
  obtain ⟨fc₃, hdestroy, ho₃⟩ := (ho₂.perm (List.Perm.swap returned h₂ hs)).destroy
  refine ⟨fc₃, h₂, ?_, ho₃⟩
  unfold assignSinkHandle
  simp only [hget, hassign, hdestroy, bind, Except.bind, pure, Except.pure]

-- -------------------------
-- Handles and lines
-- -------------------------

namespace Printer

variable {p : Printer} {addr a : ActorAddr} {d : ActorData}

/-- The printer has the handles that its cache counts. -/
def Sound (p : Printer) : Prop := Owned p.fcache p.handles

/-- Changing lines does not change handles. -/
theorem Sound.adjust (h : Sound p) (addr : ActorAddr) {f : ActorData → ActorData}
    (hf : ∀ d, (f d).redirect = d.redirect) :
    Sound { p with data := p.data.adjust addr f } := by
  have hhandles : handles { p with data := p.data.adjust addr f } = p.handles := by
    show _ :: ((p.data.entries.map _).map Prod.snd).map ActorData.redirect = _ :: _
    rw [List.map_map, List.map_map, List.map_map]
    refine congrArg _ (List.map_congr_left fun e _ => ?_)
    simp only [Function.comp_apply]
    unfold UMap.updateAt
    split_ifs
    · exact hf e.2
    · rfl
  unfold Sound
  rw [hhandles]
  exact h

/-- The handle of an actor, and what an update leaves of the others. -/
theorem exists_handles_perm (hfind : p.data.find? addr = some d) : ∃ rest : List SinkHandle,
    p.handles.Perm (d.redirect :: rest) ∧
    (∀ fc h, (handles { p with
      fcache := fc, data := p.data.adjust addr fun d => { d with redirect := h } }).Perm
        (h :: rest)) ∧
    ∀ fc, handles { p with fcache := fc, data := p.data.erase addr } = rest := by
  obtain ⟨rest, hvalues, hadjust, herase⟩ := UMap.exists_values_perm hfind
  refine ⟨p.globalRedirect :: rest.map ActorData.redirect, ?_, fun fc h => ?_, fun fc => ?_⟩
  · exact ((hvalues.map ActorData.redirect).cons _).trans (List.Perm.swap _ _ _)
  · exact (((hadjust _).map ActorData.redirect).cons _).trans (List.Perm.swap _ _ _)
  · show _ :: ((p.data.erase addr).entries.map Prod.snd).map ActorData.redirect = _
    rw [herase]

theorem mem_handles (hfind : p.data.find? addr = some d) : d.redirect ∈ p.handles := by
  obtain ⟨rest, hperm, -, -⟩ := exists_handles_perm hfind
  exact hperm.mem_iff.mpr List.mem_cons_self

-- -------------------------
-- Lines
-- -------------------------

theorem line_of_find (hfind : p.data.find? a = some d) : p.line a = d.currentLine := by
  unfold line
  rw [hfind]
  rfl

theorem line_of_none (hfind : p.data.find? a = none) : p.line a = [] := by
  unfold line
  rw [hfind]
  rfl

theorem line_adjust_ne (p : Printer) (f : ActorData → ActorData) (hne : addr ≠ a) :
    line { p with data := p.data.adjust addr f } a = p.line a := by
  unfold line
  rw [UMap.find?_adjust, if_neg (by simpa using hne)]

/-- Changing a handle does not change lines. -/
theorem line_adjust_eq (p : Printer) (addr a : ActorAddr) {f : ActorData → ActorData}
    (hf : ∀ d, (f d).currentLine = d.currentLine) :
    line { p with data := p.data.adjust addr f } a = p.line a := by
  unfold line
  rw [UMap.find?_adjust]
  split_ifs
  · cases p.data.find? a with
    | none => rfl
    | some d => exact hf d
  · rfl

/-- The line of the actor that is adjusted. -/
theorem line_adjust_self (f : ActorData → ActorData) (hfind : p.data.find? a = some d) :
    line { p with data := p.data.adjust a f } a = (f d).currentLine := by
  unfold line
  rw [UMap.find?_adjust, if_pos BEq.rfl, hfind]
  rfl

/-- A new actor has an empty line. -/
theorem line_insertData (p : Printer) (addr a : ActorAddr) :
    (p.insertData addr).line a = p.line a := by
  unfold line insertData
  rw [UMap.find?_emplace]
  cases p.data.find? a with
  | some d => rfl
  | none =>
    rw [Option.none_or]
    split_ifs <;> rfl

/-- And an empty handle. -/
theorem Sound.insertData (h : Sound p) (addr : ActorAddr) : Sound (p.insertData addr) := by
  unfold Sound handles Printer.insertData UMap.emplace
  split_ifs with hcontains
  · exact h
  · rw [List.map_append, List.map_append]
    have hnew := h.cons_null (rfl : SinkHandle.empty.cache = false)
    exact hnew.perm (List.perm_append_singleton _ p.handles).symm

-- -------------------------
-- The functions
-- -------------------------

/-- What a function does that only writes lines. -/
structure Writes (p p' : Printer) (forced : Bool) (chunks : List Chunk) : Prop where
  sound : Sound p'
  running : p'.running = p.running
  text : ∀ a, emitted a chunks ++ p'.line a = p.line a
  complete : ∀ c ∈ chunks, forced = true ∨ c.text.getLast? = some 10

theorem Writes.nothing (h : Sound p) (forced : Bool) : Writes p p forced [] :=
  ⟨h, rfl, fun _ => rfl, fun _ hc => absurd hc List.not_mem_nil⟩

/-- The sink of a handle that has one. -/
theorem Sound.deref (h : Sound p) {handle : SinkHandle} (hmem : handle ∈ p.handles)
    (hcache : handle.cache = true) : ∃ e, p.fcache.deref handle.iter = .ok e := by
  obtain ⟨e, he, hiter⟩ := h.valid handle hmem hcache
  rw [hiter]
  exact ⟨e, SinkCache.deref_eq h.nodes he⟩

/-- A sound printer finds the destination of each actor. -/
theorem Sound.destination (h : Sound p) (hfind : p.data.find? addr = some d) :
    ∃ dest, p.destination d = .ok dest := by
  unfold Printer.destination
  by_cases hown : d.redirect.cache = true
  · obtain ⟨e, hderef⟩ := h.deref (mem_handles hfind) hown
    rw [if_pos hown, hderef]
    exact ⟨_, rfl⟩
  · rw [if_neg hown]
    by_cases hglobal : p.globalRedirect.cache = true
    · obtain ⟨e, hderef⟩ := h.deref List.mem_cons_self hglobal
      rw [if_pos hglobal, hderef]
      exact ⟨_, rfl⟩
    · rw [if_neg hglobal]
      exact ⟨_, rfl⟩

/-- `flush` writes the whole line or nothing, and everything if it is forced. -/
theorem flush_spec (h : Sound p) (addr : ActorAddr) (forced : Bool) :
    ∃ p' chunks, p.flush addr (p.data.find? addr) forced = .ok (p', chunks) ∧
      Writes p p' forced chunks ∧ (forced = true → p'.line addr = []) := by
  unfold flush
  cases hfind : p.data.find? addr with
  | none => exact ⟨p, [], rfl, .nothing h forced, fun _ => line_of_none hfind⟩
  | some d =>
    dsimp only
    -- an incomplete line is kept unless the flush is forced
    by_cases hkeep : d.currentLine = [] ∨ (d.currentLine.getLast? ≠ some 10 ∧ forced = false)
    · rw [if_pos hkeep]
      refine ⟨p, [], rfl, .nothing h forced, fun hforced => ?_⟩
      rcases hkeep with hnil | ⟨-, hunforced⟩
      · exact (line_of_find hfind).trans hnil
      · rw [hforced] at hunforced
        cases hunforced
    · rw [if_neg hkeep]
      obtain ⟨dest, hdest⟩ := h.destination hfind
      rw [hdest]
      have hcleared := line_adjust_self (fun d => { d with currentLine := [] }) hfind
      refine ⟨_, _, rfl, ⟨h.adjust addr fun _ => rfl, rfl, fun a => ?_, fun c hc => ?_⟩,
        fun _ => hcleared⟩
      · by_cases ha : addr = a
        · subst ha
          rw [hcleared, line_of_find hfind]
          simp [emitted]
        · rw [line_adjust_ne p _ ha]
          simp [emitted, ha]
      · obtain rfl := List.mem_singleton.mp hc
        rw [not_or, not_and_or, not_not, Bool.not_eq_false] at hkeep
        exact hkeep.2.symm

/-- The entry of an actor goes with its handle. -/
theorem eraseData_spec (h : Sound p) (addr : ActorAddr) :
    ∃ p', p.eraseData addr = .ok p' ∧ Sound p' ∧ p'.running = p.running ∧
      p'.line addr = [] ∧ ∀ a, addr ≠ a → p'.line a = p.line a := by
  unfold eraseData
  cases hfind : p.data.find? addr with
  | none => exact ⟨p, rfl, h, rfl, line_of_none hfind, fun _ _ => rfl⟩
  | some d =>
    obtain ⟨rest, hperm, -, herase⟩ := exists_handles_perm hfind
    obtain ⟨fc', hdestroy, ho⟩ := (h.perm hperm).destroy
    refine ⟨{ p with fcache := fc', data := p.data.erase addr }, ?_, ?_, rfl, ?_, fun a ha => ?_⟩
    · dsimp only
      rw [hdestroy]
      rfl
    · unfold Sound
      rw [herase]
      exact ho
    · exact line_of_none (UMap.find?_erase_self p.data addr)
    · show ((p.data.erase addr).find? a).elim _ _ = _
      rw [UMap.find?_erase, if_neg (by simpa using ha)]
      rfl

/-- `get_data` inserts the data of a valid address. -/
theorem getData_insert (p : Printer) (haddr : addr ≠ .invalid) :
    p.getData addr true = (p.insertData addr, (p.insertData addr).data.find? addr) := by
  unfold getData
  rw [if_neg haddr]
  rfl

/-- `get_data` looks the address up. -/
theorem getData_lookup (p : Printer) (haddr : addr ≠ .invalid) :
    p.getData addr false = (p, p.data.find? addr) := by
  unfold getData
  rw [if_neg haddr]
  rfl

theorem exists_inserted (p : Printer) (addr : ActorAddr) :
    ∃ d, (p.insertData addr).data.find? addr = some d := by
  unfold insertData
  rw [UMap.find?_emplace, if_pos BEq.rfl]
  cases p.data.find? addr with
  | none => exact ⟨_, rfl⟩
  | some d => exact ⟨d, rfl⟩

-- -------------------------
-- Messages
-- -------------------------

/-- What the handling of a message does. -/
structure Handles (p : Printer) (msg : PrinterMessage) (p' : Printer) (chunks : List Chunk) :
    Prop where
  sound : Sound p'
  running : p'.running = match msg.content with
    | .exit => false
    | _ => p.running
  text : ∀ a, a ≠ .invalid → emitted a chunks ++ p'.line a = p.line a ++ msg.adds a
  complete : ∀ c ∈ chunks, msg.forces = true ∨ c.text.getLast? = some 10
  down : ∀ a, msg.content = .down a → p'.line a = []

/-- Nothing is written, and no line changes. -/
theorem Handles.quiet {p' : Printer} {msg : PrinterMessage} (h : Sound p')
    (hrunning : p'.running = match msg.content with
      | .exit => false
      | _ => p.running)
    (hline : ∀ a, p'.line a = p.line a) (hadds : ∀ a, a ≠ .invalid → msg.adds a = [])
    (hdown : ∀ a, msg.content ≠ .down a) : Handles p msg p' [] where
  sound := h
  running := hrunning
  text := fun a ha => by
    rw [hline, hadds a ha, List.append_nil]
    rfl
  complete := fun _ hc => absurd hc List.not_mem_nil
  down := fun a ha => absurd ha (hdown a)

/-- A complete line is written at once. -/
theorem handle_add (h : Sound p) (sender : ActorAddr) (str : Bytes) :
    ∃ p' chunks, p.handle ⟨sender, .add str⟩ = .ok (p', chunks) ∧
      Handles p ⟨sender, .add str⟩ p' chunks := by
  have hadds : ∀ a, PrinterMessage.adds a ⟨sender, .add str⟩ = if sender = a then str else [] :=
    fun _ => rfl
  unfold handle
  dsimp only
  -- empty strings and messages without a sender are dropped
  by_cases hskip : str = [] ∨ sender = .invalid
  · rw [if_pos hskip]
    refine ⟨p, [], rfl, .quiet h rfl (fun _ => rfl) (fun a ha => ?_) fun a ha => nomatch ha⟩
    rw [hadds]
    rcases hskip with hnil | hinvalid
    · rw [hnil, ite_self]
    · rw [hinvalid, if_neg (Ne.symm ha)]
  · rw [if_neg hskip]
    obtain ⟨d, hfind⟩ := exists_inserted p sender
    rw [getData_insert p (not_or.mp hskip).2]
    dsimp only
    -- the string is put at the end of the line, which is written if it is complete now
    have hsound := (h.insertData sender).adjust sender
      (f := fun d => { d with currentLine := d.currentLine ++ str }) fun _ => rfl
    obtain ⟨p', chunks, hflush, hwrites, -⟩ := flush_spec hsound sender false
    refine ⟨p', chunks, hflush, hwrites.sound, hwrites.running, fun a ha => ?_, fun c hc => ?_,
      fun a ha => nomatch ha⟩
    · rw [hwrites.text, hadds]
      by_cases hsame : sender = a
      · subst hsame
        rw [line_adjust_self _ hfind, if_pos rfl, ← line_of_find hfind, line_insertData]
      · rw [line_adjust_ne _ _ hsame, line_insertData, if_neg hsame, List.append_nil]
    · exact .inr ((hwrites.complete c hc).resolve_left Bool.false_ne_true)

/-- A flush writes the whole line of the sender. -/
theorem handle_flush (h : Sound p) (sender : ActorAddr) :
    ∃ p' chunks, p.handle ⟨sender, .flush⟩ = .ok (p', chunks) ∧
      Handles p ⟨sender, .flush⟩ p' chunks := by
  unfold handle
  dsimp only
  by_cases hsender : sender = .invalid
  · rw [hsender]
    exact ⟨p, [], rfl, .quiet h rfl (fun _ => rfl) (fun _ _ => rfl) fun a ha => nomatch ha⟩
  · rw [getData_lookup p hsender]
    obtain ⟨p', chunks, hflush, hwrites, -⟩ := flush_spec h sender true
    refine ⟨p', chunks, hflush, hwrites.sound, hwrites.running, fun a _ => ?_, fun _ _ => .inl rfl,
      fun a ha => nomatch ha⟩
    rw [hwrites.text]
    exact (List.append_nil _).symm

/-- What is left of the line is written before the entry goes. -/
theorem handle_down (h : Sound p) (sender source : ActorAddr) :
    ∃ p' chunks, p.handle ⟨sender, .down source⟩ = .ok (p', chunks) ∧
      Handles p ⟨sender, .down source⟩ p' chunks := by
  -- the line of the actor that terminated is flushed before its data goes
  have hflushed : ∃ p₁ chunks, p.flush source (p.getData source false).2 true = .ok (p₁, chunks) ∧
      Writes p p₁ true chunks ∧ (source ≠ .invalid → p₁.line source = []) := by
    by_cases hsource : source = .invalid
    · have hnone : (p.getData source false).2 = none := by
        unfold getData
        rw [if_pos hsource]
      rw [hnone]
      exact ⟨p, [], rfl, .nothing h true, fun hne => absurd hsource hne⟩
    · rw [getData_lookup p hsource]
      obtain ⟨p₁, chunks, hflush, hwrites, hcleared⟩ := flush_spec h source true
      exact ⟨p₁, chunks, hflush, hwrites, fun _ => hcleared rfl⟩
  obtain ⟨p₁, chunks, hflush, hwrites, hcleared⟩ := hflushed
  obtain ⟨p', herase, hsound, hrunning, hnil, hothers⟩ := eraseData_spec hwrites.sound source
  refine ⟨p', chunks, ?_, hsound, hrunning.trans hwrites.running, fun a ha => ?_,
    fun _ _ => .inl rfl, fun a ha => ?_⟩
  · unfold handle
    dsimp only
    rw [hflush]
    show (do return (← p₁.eraseData source, chunks) : Except Fault _) = _
    rw [herase]
    rfl
  · -- the line that goes is empty
    have hline : p'.line a = p₁.line a := by
      by_cases hsame : source = a
      · rw [← hsame, hnil, hcleared (hsame ▸ ha)]
      · exact hothers a hsame
    rw [hline, hwrites.text]
    exact (List.append_nil _).symm
  · cases ha
    exact hnil

/-- Redirection changes handles, but no line. -/
theorem handle_redirect (h : Sound p) (sender src : ActorAddr) (fn : Bytes) (flag : Int)
    (opened : Bool) (m : SinkCache.Allocator) :
    ∃ p' chunks, p.handle ⟨sender, .redirect src fn flag opened m⟩ = .ok (p', chunks) ∧
      Handles p ⟨sender, .redirect src fn flag opened m⟩ p' chunks := by
  unfold handle
  dsimp only
  by_cases hsrc : src = .invalid
  · rw [hsrc]
    exact ⟨p, [], rfl, .quiet h rfl (fun _ => rfl) (fun _ _ => rfl) fun a ha => nomatch ha⟩
  · obtain ⟨d, hfind⟩ := exists_inserted p src
    obtain ⟨rest, hperm, hadjust, -⟩ := exists_handles_perm hfind
    obtain ⟨fc', h', hassign, ho⟩ :=
      assignSinkHandle_owned ((h.insertData src).perm hperm) fn flag opened m
    rw [getData_insert p hsrc, hfind]
    dsimp only
    rw [hassign]
    refine ⟨_, [], rfl, .quiet (ho.perm (hadjust fc' h').symm) rfl (fun a => ?_)
      (fun _ _ => rfl) fun a ha => nomatch ha⟩
    have hline := line_adjust_eq { p.insertData src with fcache := fc' } src a
      (f := fun d => { d with redirect := h' }) fun _ => rfl
    exact hline.trans (line_insertData p src a)

/-- Every message is handled without the use of an invalid iterator. -/
theorem handle_spec (h : Sound p) (msg : PrinterMessage) :
    ∃ p' chunks, p.handle msg = .ok (p', chunks) ∧ Handles p msg p' chunks := by
  obtain ⟨sender, content⟩ := msg
  cases content with
  | add str => exact handle_add h sender str
  | flush => exact handle_flush h sender
  | down source => exact handle_down h sender source
  | exit =>
    exact ⟨_, [], rfl, .quiet h rfl (fun _ => rfl) (fun _ _ => rfl) fun a ha => nomatch ha⟩
  | redirectAll fn flag opened m =>
    obtain ⟨fc', h', hassign, ho⟩ := assignSinkHandle_owned h fn flag opened m
    refine ⟨{ p with fcache := fc', globalRedirect := h' }, [], ?_,
      .quiet ho rfl (fun _ => rfl) (fun _ _ => rfl) fun a ha => nomatch ha⟩
    unfold handle
    dsimp only
    rw [hassign]
    rfl
  | redirect src fn flag opened m => exact handle_redirect h sender src fn flag opened m
  | other =>
    exact ⟨p, [], rfl, .quiet h rfl (fun _ => rfl) (fun _ _ => rfl) fun a ha => nomatch ha⟩

-- -------------------------
-- Runs
-- -------------------------

theorem emitted_append (a : ActorAddr) (cs ds : List Chunk) :
    emitted a (cs ++ ds) = emitted a cs ++ emitted a ds := by
  unfold emitted
  rw [List.filter_append, List.flatMap_append]

/-- All output of a run. -/
def output (trace : List (PrinterMessage × List Chunk)) : List Chunk := trace.flatMap Prod.snd

/-- All that an actor has sent in a run. -/
def sent (a : ActorAddr) (trace : List (PrinterMessage × List Chunk)) : Bytes :=
  trace.flatMap fun step => step.1.adds a

/-- What is expected of a run from `p` to `p'`. -/
structure Prints (p : Printer) (msgs : List PrinterMessage) (p' : Printer)
    (trace : List (PrinterMessage × List Chunk)) : Prop where
  handled : trace.map Prod.fst = if p.running then handledMessages msgs else []
  text : ∀ a, a ≠ .invalid → emitted a (output trace) ++ p'.line a = p.line a ++ sent a trace
  complete : ∀ step ∈ trace, ∀ c ∈ step.2, step.1.forces = true ∨ c.text.getLast? = some 10
  down : ∀ step, trace.getLast? = some step → ∀ a, step.1.content = .down a → p'.line a = []
  same : trace = [] → p' = p

/-- A printer that is done prints nothing. -/
theorem Prints.nothing {msgs : List PrinterMessage} (h : p.running = true → msgs = []) :
    Prints p msgs p [] where
  handled := by
    split_ifs with hrunning
    · rw [h hrunning]
      rfl
    · rfl
  text := fun a _ => (List.append_nil _).symm
  complete := fun _ hstep => absurd hstep List.not_mem_nil
  down := fun _ hlast => nomatch hlast
  same := fun _ => rfl

/-- The messages that are handled after a message. -/
theorem handledMessages_cons {p' : Printer} {msg : PrinterMessage} {chunks : List Chunk}
    (h : Handles p msg p' chunks) (hrunning : p.running = true) (msgs : List PrinterMessage) :
    handledMessages (msg :: msgs) = msg :: if p'.running then handledMessages msgs else [] := by
  rw [h.running, handledMessages]
  cases msg.content with
  | exit => rfl
  | _ =>
    dsimp only
    rw [if_pos hrunning]

/-- A sound printer handles every list of messages and stays sound. -/
theorem run_sound (h : Sound p) (msgs : List PrinterMessage) :
    ∃ p' trace, p.run msgs = .ok (p', trace) ∧ Sound p' ∧ Prints p msgs p' trace := by
  induction msgs generalizing p with
  | nil => exact ⟨p, [], rfl, h, .nothing fun _ => rfl⟩
  | cons msg msgs ih =>
    unfold run
    -- the printer handles the first message, the rest is the induction
    by_cases hrunning : p.running = true
    · obtain ⟨p₁, chunks, hhandle, hspec⟩ := handle_spec h msg
      obtain ⟨p₂, trace, hrun, hsound, hprints⟩ := ih hspec.sound
      rw [if_pos hrunning, hhandle]
      refine ⟨p₂, (msg, chunks) :: trace, ?_, hsound, ?_, fun a ha => ?_, ?_, ?_, fun hnil => ?_⟩
      · show (do
          let (p, trace) ← p₁.run msgs
          return (p, (msg, chunks) :: trace) : Except Fault _) = _
        rw [hrun]
        rfl
      · rw [List.map_cons, hprints.handled, if_pos hrunning, handledMessages_cons hspec hrunning]
      · show emitted a (chunks ++ output trace) ++ _ = _ ++ (msg.adds a ++ sent a trace)
        rw [emitted_append, List.append_assoc, hprints.text a ha, ← List.append_assoc,
          hspec.text a ha, List.append_assoc]
      · intro step hstep
        rcases List.mem_cons.mp hstep with rfl | hstep
        · exact hspec.complete
        · exact hprints.complete step hstep
      · intro step hlast a ha
        cases trace with
        | nil =>
          -- the last message that is handled
          cases hlast
          rw [hprints.same rfl]
          exact hspec.down a ha
        | cons next trace => exact hprints.down step hlast a ha
      · exact absurd hnil (List.cons_ne_nil _ _)
    · rw [if_neg hrunning]
      exact ⟨p, [], rfl, h, .nothing fun h => absurd h hrunning⟩

end Printer

/-- For all messages: no invalid iterator is used, and of the messages up to the first exit
message, the output for an actor and its line are all strings that it has sent, in order; every
piece of output is written for a flush or down message or ends with a newline; and nothing is
left of the line of an actor after its down message. -/
theorem printer_output (msgs : List PrinterMessage) :
    ∃ p trace, Printer.initial.run msgs = .ok (p, trace) ∧
      trace.map Prod.fst = handledMessages msgs ∧
      (∀ a, a ≠ .invalid →
        emitted a (Printer.output trace) ++ p.line a = Printer.sent a trace) ∧
      (∀ step ∈ trace, ∀ c ∈ step.2, step.1.forces = true ∨ c.text.getLast? = some 10) ∧
      ∀ step, trace.getLast? = some step → ∀ a, step.1.content = .down a → p.line a = [] := by
  have h : Printer.Sound .initial := by
    refine ⟨⟨List.nodup_nil, List.nodup_nil, ?_, ?_⟩, ?_⟩
    · exact fun e he => absurd he List.not_mem_nil
    · intro handle hmem hcache
      obtain rfl := List.mem_singleton.mp hmem
      cases hcache
    · exact fun e he => absurd he List.not_mem_nil
  obtain ⟨p, trace, hrun, -, hprints⟩ := Printer.run_sound h msgs
  exact ⟨p, trace, hrun, hprints.handled, hprints.text, hprints.complete, hprints.down⟩

end BoostActor
