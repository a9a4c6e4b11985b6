import BoostActor.Io.Broker
import BoostActor.Io.Kept

/-!
# What data does

Inversion of the handler for `new_data_msg`: a header or a payload arrives, the
message is processed once it is complete, and the connection is closed or
configured for what comes next. An exception ends the broker.

* `handle_spec` — `instance::handle`;
* `newData_cases` — the whole step.
-/

namespace BoostActor

open Lib

variable {hdl : ConnectionHandle} {hdr : Header} {payload : Option Bytes} {s : Broker}

/-! ## Data -/

/-- `set_context`. -/
def Broker.enter (s : Broker) (hdl : ConnectionHandle) : Broker :=
  { s with
    ctx := s.ctx.emplace hdl (ConnectionContext.initial hdl)
    thisContext := some hdl }

/-- The header of a context. -/
def Broker.storeHdr (s : Broker) (hdl : ConnectionHandle) (hdr : Header) : Broker :=
  s.modifyCtx hdl fun c => { c with hdr := hdr }

/-- Data completes a message: its payload, or a header without payload. -/
inductive Arrived (dm : NewData) (s : Broker) : Broker → Header → Option Bytes → Prop where
  | payload {c : ConnectionContext} (hc : s.ctx.find? dm.handle = some c)
      (hs : c.cstate = .awaitPayload) (hl : dm.buf.length = c.hdr.payloadLen.toNat) :
      Arrived dm s s c.hdr (some dm.buf)
  | header {c : ConnectionContext} {hdr : Header}
      (hc : s.ctx.find? dm.handle = some c) (hs : c.cstate ≠ .awaitPayload)
      (hr : parse readHdr dm.buf = .ok hdr) (hl : hdr.payloadLen = 0) :
      Arrived dm s (s.storeHdr dm.handle hdr) hdr none

/-- Data that has arrived has changed no more than the header of its connection. -/
theorem Arrived.kept {dm : NewData} {s₁ : Broker} (h : Arrived dm s s₁ hdr payload) :
    Kept s s₁ := by
  cases h with
  | payload => exact .refl s
  | header => exact Broker.modifyCtx_kept _

/-- The context in which a complete message is processed. -/
theorem Arrived.ctx {dm : NewData} {s₁ : Broker} (h : Arrived dm s s₁ hdr payload) :
    ∃ c c₁, s.ctx.find? dm.handle = some c ∧ s₁.ctx.find? dm.handle = some c₁ ∧
      c₁.hdr = hdr ∧ c₁ = { c with hdr := hdr } ∧
      ∀ hdl', hdl' ≠ dm.handle → s₁.ctx.find? hdl' = s.ctx.find? hdl' := by
  cases h with
  | payload hc => exact ⟨_, _, hc, hc, rfl, rfl, fun _ _ => rfl⟩
  | header hc =>
    refine ⟨_, _, hc, ?_, rfl, rfl, fun hdl' hne => ?_⟩
    · rw [Broker.storeHdr, Broker.find?_modifyCtx, if_pos rfl, hc]
      rfl
    · rw [Broker.storeHdr, Broker.find?_modifyCtx, if_neg (Ne.symm hne)]

/-- The header and the payload of the message that data completes. -/
def completes (dm : NewData) (hdr : Header) (isPayload : Bool) : Option (Header × Option Bytes) :=
  if isPayload then
    if dm.buf.length = hdr.payloadLen.toNat then some (hdr, some dm.buf) else none
  else match parse readHdr dm.buf with
    | .ok hdr => if hdr.payloadLen = 0 then some (hdr, none) else none
    | .error _ => none

/-- The message that data completes: the header is that of the context, unless the
data is a header itself. -/
def Broker.completed (s : Broker) (dm : NewData) : Option (Header × Option Bytes) :=
  let c := (s.ctx.find? dm.handle).getD (ConnectionContext.initial dm.handle)
  completes dm c.hdr (c.cstate = .awaitPayload)

/-- A message arrives in the sense of `Arrived` when data completes it. -/
theorem Arrived.completed {dm : NewData} {s₁ : Broker} (h : Arrived dm s s₁ hdr payload) :
    s.completed dm = some (hdr, payload) := by
  unfold Broker.completed
  cases h with
  | payload hc hs hl => simp [hc, completes, hs, hl]
  | header hc hs hr hl => simp [hc, completes, hs, hr, hl]

/-- The table and the node do not change while a message arrives. -/
theorem Arrived.tbl {dm : NewData} {s₁ : Broker} (h : Arrived dm s s₁ hdr payload) :
    s₁.tbl = s.tbl ∧ s₁.process = s.process := by
  cases h with
  | payload => exact ⟨rfl, rfl⟩
  | header => exact ⟨rfl, rfl⟩

/-- How data is handled when nothing is thrown. -/
inductive Handled (dm : NewData) (s : Broker) : ConnectionState → Broker → Prop where
  /-- the payload does not have the size that its header promised -/
  | mismatch {c : ConnectionContext} (hc : s.ctx.find? dm.handle = some c)
      (hs : c.cstate = .awaitPayload) (hl : dm.buf.length ≠ c.hdr.payloadLen.toNat) :
      Handled dm s .closeConnection (s.eraseDirect dm.handle)
  /-- a header whose payload is still to come -/
  | await {c : ConnectionContext} {hdr : Header}
      (hc : s.ctx.find? dm.handle = some c) (hs : c.cstate ≠ .awaitPayload)
      (hr : parse readHdr dm.buf = .ok hdr) (hl : 0 < hdr.payloadLen) :
      Handled dm s .awaitPayload (s.storeHdr dm.handle hdr)
  | message {s₁ s' : Broker} {hdr : Header} {payload : Option Bytes} {next : ConnectionState}
      (ha : Arrived dm s s₁ hdr payload) (hp : Processed dm.handle hdr payload dm.via s₁ next s') :
      Handled dm s next s'

/-- The states in which an exception can end the handling of data. -/
inductive Failed (dm : NewData) (s : Broker) : Broker → Prop where
  | unreadable {c : ConnectionContext} (hc : s.ctx.find? dm.handle = some c)
      (hs : c.cstate ≠ .awaitPayload) {e : Fault} (hr : parse readHdr dm.buf = .error e) :
      Failed dm s s
  | message {s₁ s' : Broker} {hdr : Header} {payload : Option Bytes}
      (ha : Arrived dm s s₁ hdr payload) (hp : Aborted dm.handle hdr payload dm.via s₁ s') :
      Failed dm s s'

/-- What handling data does: by state, by what could be read and by what the message does. -/
theorem handle_spec (dm : NewData) {c : ConnectionContext} (ht : s.thisContext = some dm.handle)
    (hc : s.ctx.find? dm.handle = some c) :
    After (handle dm (c.cstate = .awaitPayload)) s (Handled dm s) (fun _ => Failed dm s) := by
  have hctx : s.context? = some c := by rw [Broker.context?_eq ht, hc]
  refine after_ite.mpr ⟨fun hs => ?_, fun hs => ?_⟩
  · -- the payload has to be as long as the header said
    rw [decide_eq_true_iff] at hs
    refine after_bind.mpr ((after_context hctx).mpr (after_ite.mpr ⟨fun hl => ?_, fun hl => ?_⟩))
    · exact .mismatch hc hs hl
    · have ha : Arrived dm s s c.hdr (some dm.buf) := .payload hc hs (by simpa using hl)
      exact (processMessage_spec ht hc).mono (fun _ _ h => .message ha h) fun _ _ h => .message ha h
  · rw [decide_eq_true_iff] at hs
    refine after_bind.mpr ((ofExcept_spec (parse readHdr dm.buf)).mono ?_ ?_)
    · rintro hdr s' ⟨hs', hr⟩
      rw [hs']
      refine after_bind.mpr ((after_modifyContext ht).mpr ?_)
      -- a header with a payload is stored until the payload has arrived
      refine after_ite.mpr ⟨fun hl => .await hc hs hr hl, fun hl => ?_⟩
      have hl0 : hdr.payloadLen = 0 := by
        apply UInt32.toNat_inj.mp
        have := UInt32.lt_iff_toNat_lt.not.mp hl
        simpa using this
      have ha : Arrived dm s (s.storeHdr dm.handle hdr) hdr none := .header hc hs hr hl0
      have hc₁ : (s.storeHdr dm.handle hdr).ctx.find? dm.handle = some { c with hdr := hdr } := by
        rw [Broker.storeHdr, Broker.find?_modifyCtx, if_pos rfl, hc]
        rfl
      have ht₁ : (s.storeHdr dm.handle hdr).thisContext = some dm.handle := ht
      exact (processMessage_spec ht₁ hc₁).mono (fun _ _ h => .message ha h)
        fun _ _ h => .message ha h
    · rintro e _ ⟨rfl, hr⟩
      exact .unreadable hc hs hr

/-- Handling data keeps what stays throughout a turn. -/
theorem Handled.kept {dm : NewData} {next : ConnectionState} {s' : Broker}
    (h : Handled dm s next s') : Kept s s' := by
  cases h with
  | mismatch => exact Broker.eraseDirect_kept
  | await => exact Broker.modifyCtx_kept _
  | message ha hp => exact ha.kept.trans hp.kept

/-- The context of a connection that stays open. -/
theorem Handled.ctx {dm : NewData} {next : ConnectionState} {s' : Broker}
    (h : Handled dm s next s') (hn : next ≠ .closeConnection) :
    ∃ c', s'.ctx.find? dm.handle = some c' := by
  cases h with
  | mismatch => exact absurd rfl hn
  | await hc =>
    rw [Broker.storeHdr, Broker.find?_modifyCtx, if_pos rfl, hc]
    exact ⟨_, rfl⟩
  | message ha hp =>
    obtain ⟨_, _, _, hc₁, -⟩ := ha.ctx
    cases next with
    | closeConnection => exact absurd rfl hn
    | awaitPayload => cases hp
    | awaitHeader =>
      obtain ⟨⟨c', hc', -⟩, -⟩ := hp.ctx hc₁
      exact ⟨c', hc'⟩

/-- The end of the handler for new data, when the connection stays open. -/
def Broker.settle (s : Broker) (hdl : ConnectionHandle) (next : ConnectionState) : Broker :=
  match s.ctx.find? hdl with
  | none => s
  | some c =>
    if next ≠ c.cstate then
      let rdSize := if next = .awaitPayload then c.hdr.payloadLen.toNat else headerSize
      (s.configure hdl rdSize).modifyCtx hdl fun c => { c with cstate := next }
    else s

/-- The connection is closed and its context erased. -/
def Broker.drop (s : Broker) (hdl : ConnectionHandle) : Broker :=
  { s with scribes := s.scribes.erase hdl, ctx := s.ctx.erase hdl }

/-- The broker after data was handled. -/
inductive DataStep (dm : NewData) (s : Broker) : Broker → Prop where
  | closed {s₁ : Broker} (h : Handled dm (s.enter dm.handle) .closeConnection s₁) :
      DataStep dm s ((s₁.drop dm.handle).flush dm.handle)
  | open {s₁ : Broker} {next : ConnectionState} (hn : next ≠ .closeConnection)
      (h : Handled dm (s.enter dm.handle) next s₁) :
      DataStep dm s ((s₁.settle dm.handle next).flush dm.handle)
  | terminated {s₁ : Broker} (h : Failed dm (s.enter dm.handle) s₁) :
      DataStep dm s s₁.terminate

/-- After entering, the connection has a context. -/
theorem Broker.enter_ctx (hdl : ConnectionHandle) : ∃ c, (s.enter hdl).ctx.find? hdl = some c := by
  refine ⟨(s.ctx.find? hdl).getD (ConnectionContext.initial hdl), ?_⟩
  show (s.ctx.emplace hdl _).find? hdl = _
  rw [UMap.find?_emplace, if_pos BEq.rfl]
  cases s.ctx.find? hdl <;> rfl

/-- Entering a context does not change which message data completes. -/
theorem Broker.completed_enter (dm : NewData) :
    (s.enter dm.handle).completed dm = s.completed dm := by
  have hc : (s.enter dm.handle).ctx.find? dm.handle =
      (s.ctx.find? dm.handle).or (some (ConnectionContext.initial dm.handle)) := by
    show (s.ctx.emplace dm.handle _).find? dm.handle = _
    rw [UMap.find?_emplace, if_pos BEq.rfl]
  unfold completed
  rw [hc]
  cases s.ctx.find? dm.handle <;> rfl

/-- A message that arrives is the one that the data completes. -/
theorem Arrived.completes {dm : NewData} {s₁ : Broker}
    (h : Arrived dm (s.enter dm.handle) s₁ hdr payload) :
    s.completed dm = some (hdr, payload) := by
  have hm := h.completed
  rwa [Broker.completed_enter] at hm

/-- The handler throws only while the data is handled; `H` is anything else that is known
about `handle`. -/
theorem newDataMsg_spec {dm : NewData} {H : ConnectionState → Broker → Prop}
    {E : Fault → Broker → Prop} (ho : (s.rdSize? dm.handle).isSome = true)
    (hh : ∀ c, (s.enter dm.handle).ctx.find? dm.handle = some c →
      After (handle dm (c.cstate = .awaitPayload)) (s.enter dm.handle)
        (fun next s₁ => Handled dm (s.enter dm.handle) next s₁ ∧ H next s₁) E) :
    After (newDataMsg dm) s
      (fun _ s' => ∃ next s₁, (Handled dm (s.enter dm.handle) next s₁ ∧ H next s₁) ∧
        s' = if next = .closeConnection then s₁.drop dm.handle else s₁.settle dm.handle next)
          E := by
  obtain ⟨c, hc⟩ := Broker.enter_ctx (s := s) dm.handle
  have ht : (s.enter dm.handle).thisContext = some dm.handle := rfl
  have hctx : (s.enter dm.handle).context? = some c := by rw [Broker.context?_eq ht, hc]
  refine after_bind.mpr (after_modify.mpr ?_)
  refine after_bind.mpr ((after_context hctx).mpr ?_)
  refine after_bind.mpr ((hh c hc).mono ?_ fun _ _ h => h)
  intro next s₁ hpost
  have h := hpost.1
  -- the scribe is still there
  have hopen : ∃ d, s₁.scribes.find? dm.handle = some d := by
    have hk := h.kept.rdSize? dm.handle
    have hr : (s₁.rdSize? dm.handle).isSome = true := by
      rw [hk]
      exact ho
    rw [Broker.rdSize?, Option.isSome_map, Option.isSome_iff_exists] at hr
    exact hr
  obtain ⟨d, hd⟩ := hopen
  -- a connection that is to be closed is dropped, the others go on reading
  refine after_ite.mpr ⟨fun hn => ?_, fun hn => ?_⟩
  · refine after_bind.mpr (after_bind.mpr ((after_byId hd).mpr (after_modify.mpr ?_)))
    refine after_modify.mpr ?_
    exact ⟨next, s₁, hpost, by rw [if_pos hn]; rfl⟩
  · obtain ⟨c', hc'⟩ := h.ctx hn
    have ht' : s₁.thisContext = some dm.handle := h.kept.thisContext
    have hctx' : s₁.context? = some c' := by rw [Broker.context?_eq ht', hc']
    refine after_bind.mpr ((after_context hctx').mpr (after_ite.mpr ⟨fun hs => ?_, fun hs => ?_⟩))
    · refine after_bind.mpr (after_bind.mpr ((after_byId hd).mpr (after_modify.mpr ?_)))
      have ht₂ : ∀ n, (s₁.configure dm.handle n).thisContext = some dm.handle := fun _ => ht'
      refine (after_modifyContext (ht₂ _)).mpr ?_
      refine ⟨next, s₁, hpost, ?_⟩
      rw [if_neg hn, Broker.settle, hc']
      dsimp only
      rw [if_pos hs]
    · refine ⟨next, s₁, hpost, ?_⟩
      rw [if_neg hn, Broker.settle, hc']
      dsimp only
      rw [if_neg hs]

/-- Data arrives on open connections only. -/
theorem rdSize?_of_enabled {dm : NewData} (he : s.enabled (.newData dm) = true) :
    (s.rdSize? dm.handle).isSome = true := by
  simp only [Broker.enabled, Bool.and_eq_true] at he
  rw [Broker.rdSize?, Option.isSome_map]
  revert he
  cases s.scribes.find? dm.handle <;> simp

/-- What the broker does with data. -/
theorem newData_cases (dm : NewData) (ho : (s.rdSize? dm.handle).isSome = true) :
    DataStep dm s (s.exec (.newData dm)) := by
  have h := newDataMsg_spec (H := fun _ _ => True) ho fun _ hc =>
    (handle_spec dm rfl hc).mono (fun _ _ h => ⟨h, trivial⟩) fun _ _ h => h
  unfold After at h
  unfold Broker.exec Broker.invoke
  dsimp only
  split
  · next hok =>
    rw [hok] at h
    obtain ⟨next, s₁, ⟨hh, -⟩, rfl⟩ := h
    split
    · next hn =>
      subst hn
      exact .closed hh
    · next hn => exact .open hn hh
  · next herr =>
    rw [herr] at h
    exact .terminated h

end BoostActor
