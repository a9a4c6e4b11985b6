import BoostActor.Io.Turns

/-!
# What a message leaves alone

Frame conditions: losing a node only kills proxies and forgets its context, and
whatever a message does, the connections with their read sizes, the published
actors and the promises stay as they are (`Processed.kept`).
-/

namespace BoostActor

open Lib

variable {hdl : ConnectionHandle} {hdr : Header} {payload : Option Bytes} {via : List NodeId}
  {s : Broker}

/-! ## Losing a node -/

/-- Killing proxies changes the proxies, the namespace and the posted tasks only. -/
structure KillsOnly (s s' : Broker) : Prop where
  eq : ∃ heap tasks proxies, s' = { s with heap, tasks, proxies }

theorem KillsOnly.refl (s : Broker) : KillsOnly s s := ⟨_, _, _, rfl⟩

/-- Killing proxies twice is killing proxies only. -/
theorem KillsOnly.trans {a b c : Broker} (h : KillsOnly a b) (h' : KillsOnly b c) :
    KillsOnly a c := by
  obtain ⟨_, _, _, rfl⟩ := h
  obtain ⟨_, _, _, rfl⟩ := h'
  exact ⟨_, _, _, rfl⟩

/-- Resetting an anchor kills a proxy. -/
theorem Broker.reset_killsOnly (r : ProxyRef) (rsn : ExitReason) : KillsOnly s (s.reset r rsn) := by
  unfold reset
  split
  · exact .refl s
  · split
    · exact .refl s
    · exact ⟨_, _, _, rfl⟩

/-- Resetting an entry kills a proxy. -/
theorem Broker.resetEntry_killsOnly (e : Option ProxyRef) (rsn : ExitReason) :
    KillsOnly s (s.resetEntry e rsn) := by
  cases e with
  | none => exact .refl s
  | some r => exact reset_killsOnly r rsn

/-- Resetting all entries of a node kills proxies. -/
theorem Broker.resetAll_killsOnly (es : List (ActorId × Option ProxyRef)) :
    KillsOnly s (s.resetAll es) := by
  induction es generalizing s with
  | nil => exact .refl s
  | cons e es ih => exact (resetEntry_killsOnly e.2 _).trans ih

theorem Broker.eraseNode_killsOnly (nid : NodeId) : KillsOnly s (s.eraseNode nid) := by
  unfold eraseNode
  split
  · exact .refl s
  · exact (resetAll_killsOnly _).trans ⟨_, _, _, rfl⟩

/-- Erasing a proxy kills it. -/
theorem Broker.eraseProxy_killsOnly (nid : NodeId) (aid : ActorId) (rsn : ExitReason) :
    KillsOnly s (s.eraseProxy nid aid rsn) := by
  unfold eraseProxy
  split
  · exact .refl s
  · split
    · exact .refl s
    · exact (resetEntry_killsOnly _ rsn).trans ⟨_, _, _, rfl⟩

/-- What `purge_state` does: it kills the proxies of the node and forgets the
context of its connection. -/
theorem Broker.purgeState_eq {nid : NodeId} (hk : s.tbl.connected nid = true) :
    ∃ heap tasks proxies, s.purgeState nid =
      { s with
        heap, tasks, proxies
        ctx := s.ctx.erase (s.tbl.lookupDirect nid)
        knownRemotes := s.knownRemotes.erase nid } := by
  have hne : s.tbl.lookupDirect nid ≠ ConnectionHandle.invalid := by
    simpa [RoutingTable.connected] using hk
  obtain ⟨heap, tasks, proxies, he⟩ := (eraseNode_killsOnly (s := s) nid).eq
  exact ⟨heap, tasks, proxies, by rw [purgeState, if_neg hne, he]⟩

/-- A node that is not connected is not purged. -/
theorem Broker.purgeState_of_not_connected {nid : NodeId} (hk : s.tbl.connected nid = false) :
    s.purgeState nid = s := by
  have he : s.tbl.lookupDirect nid = ConnectionHandle.invalid := by
    simpa [RoutingTable.connected] using hk
  rw [purgeState, if_pos he]

/-- What `erase_direct` does on a bound connection. -/
theorem Broker.eraseDirect_eq {nid : NodeId} (hb : s.tbl.directByHdl.find? hdl = some nid) :
    s.eraseDirect hdl =
      { s.purgeState nid with
        tbl := s.tbl.removeDirect hdl nid
        history := s.history ++ [.connectionLost nid] } := by
  have hkeep : (s.purgeState nid).tbl = s.tbl ∧ (s.purgeState nid).history = s.history := by
    cases hk : s.tbl.connected nid with
    | true =>
      obtain ⟨_, _, _, he⟩ := purgeState_eq hk
      rw [he]
      exact ⟨rfl, rfl⟩
    | false =>
      rw [purgeState_of_not_connected hk]
      exact ⟨rfl, rfl⟩
  rw [eraseDirect, hb]
  dsimp only [note]
  rw [hkeep.1, hkeep.2]

/-- A handle without a node has no direct route to erase. -/
theorem Broker.eraseDirect_of_unbound (hb : s.tbl.directByHdl.find? hdl = none) :
    s.eraseDirect hdl = s := by
  rw [eraseDirect, hb]

/-- Purging opens, closes and configures no connection. -/
theorem Broker.purgeState_scribes (nid : NodeId) : (s.purgeState nid).scribes = s.scribes := by
  cases hk : s.tbl.connected nid with
  | true =>
    obtain ⟨_, _, _, he⟩ := purgeState_eq hk
    rw [he]
  | false => rw [purgeState_of_not_connected hk]

/-! ## What a message leaves alone -/

/-- The parts of a broker that no message changes. -/
structure Kept (s s' : Broker) : Prop where
  process : s'.process = s.process
  order : s'.tbl.order = s.tbl.order
  thisContext : s'.thisContext = s.thisContext
  publishedActors : s'.publishedActors = s.publishedActors
  doormen : s'.doormen = s.doormen
  promises : s'.promises = s.promises
  exitReason : s'.exitReason = s.exitReason
  rdSize? : ∀ hdl, s'.rdSize? hdl = s.rdSize? hdl

namespace Kept

theorem refl (s : Broker) : Kept s s := by constructor <;> intros <;> rfl

/-- Keeping composes. -/
theorem trans {a b c : Broker} (h : Kept a b) (h' : Kept b c) : Kept a c where
  process := h'.process.trans h.process
  order := h'.order.trans h.order
  thisContext := h'.thisContext.trans h.thisContext
  publishedActors := h'.publishedActors.trans h.publishedActors
  doormen := h'.doormen.trans h.doormen
  promises := h'.promises.trans h.promises
  exitReason := h'.exitReason.trans h.exitReason
  rdSize? hdl := (h'.rdSize? hdl).trans (h.rdSize? hdl)

theorem thisNode {a b : Broker} (h : Kept a b) : b.thisNode = a.thisNode := by
  rw [Broker.thisNode, h.process, Broker.thisNode]

end Kept

/-- Quiet steps keep what a turn leaves alone. -/
theorem Quiet.kept {T : Turn} {s' : Broker} (h : Quiet T s s') : Kept s s' where
  process := h.untouched.process
  order := h.untouched.order
  thisContext := h.untouched.thisContext
  publishedActors := h.untouched.publishedActors
  doormen := h.untouched.doormen
  promises := h.untouched.promises
  exitReason := h.untouched.exitReason
  rdSize? := h.rdSize?

theorem KillsOnly.kept {s' : Broker} (h : KillsOnly s s') : Kept s s' := by
  obtain ⟨_, _, _, rfl⟩ := h
  constructor <;> intros <;> rfl

theorem Broker.modifyCtx_kept (f : ConnectionContext → ConnectionContext) :
    Kept s (s.modifyCtx hdl f) := by
  constructor <;> intros <;> rfl

theorem Broker.note_kept (e : Event) : Kept s (s.note e) := by
  constructor <;> intros <;> rfl

theorem Broker.bindDirect_kept (nid : NodeId) : Kept s (s.bindDirect hdl nid) := by
  rw [bindDirect_eq]
  constructor <;> intros <;> rfl

/-- So does purging a node. -/
theorem Broker.purgeState_kept (nid : NodeId) : Kept s (s.purgeState nid) := by
  cases hk : s.tbl.connected nid with
  | true =>
    obtain ⟨_, _, _, he⟩ := purgeState_eq hk
    rw [he]
    constructor <;> intros <;> rfl
  | false =>
    rw [purgeState_of_not_connected hk]
    exact .refl s

/-- So does erasing a direct route. -/
theorem Broker.eraseDirect_kept : Kept s (s.eraseDirect hdl) := by
  cases hb : s.tbl.directByHdl.find? hdl with
  | none =>
    rw [eraseDirect_of_unbound hb]
    exact .refl s
  | some nid =>
    rw [eraseDirect_eq hb]
    refine (purgeState_kept nid).trans ?_
    have ht := (purgeState_kept (s := s) nid).order
    exact ⟨rfl, ht.symm, rfl, rfl, rfl, rfl, rfl, fun _ => rfl⟩

/-- So does the end of a handshake. -/
theorem Finalized.kept {nid : NodeId} {aid : ActorId} {s' : Broker}
    (h : Finalized hdl nid aid s s') : Kept s s' := by
  cases h with
  | silent => exact Broker.modifyCtx_kept _
  | answer _ _ _ _ hq =>
    refine Kept.trans ?_ (hq.kept.trans (Broker.note_kept _))
    exact (Broker.modifyCtx_kept _).trans (Broker.modifyCtx_kept _)

/-- The end of a handshake leaves the bound handles alone. -/
theorem Finalized.directByHdl {nid : NodeId} {aid : ActorId} {s' : Broker}
    (h : Finalized hdl nid aid s s') : s'.tbl.directByHdl = s.tbl.directByHdl := by
  cases h with
  | silent => rfl
  | answer _ _ _ _ hq => exact hq.untouched.directByHdl

/-- Processing a message keeps what a turn leaves alone. -/
theorem Processed.kept {next : ConnectionState} {s' : Broker}
    (h : Processed hdl hdr payload via s next s') : Kept s s' := by
  cases h with
  | reject => exact Broker.eraseDirect_kept
  | side _ _ hq => exact hq.kept
  | kill => exact (Broker.eraseProxy_killsOnly _ _ _).kept
  | refuse _ _ _ _ hf => exact hf.kept.trans Broker.eraseDirect_kept
  | server _ _ _ _ _ hq hf hq' =>
    exact (Broker.bindDirect_kept _).trans (hq.kept.trans (hf.kept.trans hq'.kept))
  | noRoute _ _ _ _ _ hq =>
    exact (Broker.bindDirect_kept _).trans (hq.kept.trans Broker.eraseDirect_kept)
  | client _ _ _ hq => exact (Broker.bindDirect_kept _).trans hq.kept

/-- A context after a message: only the node id and the callback can change. -/
def ConnectionContext.SameFrame (c c' : ConnectionContext) : Prop :=
  c'.cstate = c.cstate ∧ c'.hdr = c.hdr ∧ c'.hdl = c.hdl ∧ c'.remotePort = c.remotePort

/-- The end of a handshake changes the context of its connection only. -/
theorem Finalized.ctx {nid : NodeId} {aid : ActorId} {s' : Broker}
    (h : Finalized hdl nid aid s s') : ∃ c, s.ctx.find? hdl = some c ∧
      s'.ctx.find? hdl = some { c with id := nid, callback := none } ∧
      ∀ hdl', hdl' ≠ hdl → s'.ctx.find? hdl' = s.ctx.find? hdl' := by
  cases h with
  | silent hc hcb =>
    refine ⟨_, hc, ?_, fun hdl' hne => ?_⟩
    · rw [Broker.identify, Broker.find?_modifyCtx, if_pos rfl, hc, ← hcb]
      rfl
    · rw [Broker.identify, Broker.find?_modifyCtx, if_neg (Ne.symm hne)]
  | answer _ _ hc hcb hq =>
    refine ⟨_, hc, ?_, fun hdl' hne => ?_⟩
    · rw [Broker.note_ctx, hq.untouched.ctx, Broker.takeCallback, Broker.find?_modifyCtx,
        if_pos rfl,
        Broker.identify, Broker.find?_modifyCtx, if_pos rfl, hc]
      rfl
    · rw [Broker.note_ctx, hq.untouched.ctx, Broker.takeCallback, Broker.find?_modifyCtx,
        if_neg (Ne.symm hne),
        Broker.identify, Broker.find?_modifyCtx, if_neg (Ne.symm hne)]

/-- Processing a message keeps how each connection reads. -/
theorem Processed.ctx {s' : Broker} {c : ConnectionContext}
    (h : Processed hdl hdr payload via s .awaitHeader s') (hc : s.ctx.find? hdl = some c) :
    (∃ c', s'.ctx.find? hdl = some c' ∧ c.SameFrame c') ∧
      ∀ hdl', hdl' ≠ hdl → s'.ctx.find? hdl' = s.ctx.find? hdl' := by
  have hsame : ∀ {s' : Broker}, s'.ctx = s.ctx →
      (∃ c', s'.ctx.find? hdl = some c' ∧ c.SameFrame c') ∧
        ∀ hdl', hdl' ≠ hdl → s'.ctx.find? hdl' = s.ctx.find? hdl' := by
    intro s' he
    rw [he]
    exact ⟨⟨c, hc, rfl, rfl, rfl, rfl⟩, fun _ _ => rfl⟩
  have hbind : (s.bindDirect hdl hdr.sourceNode).ctx = s.ctx := by rw [Broker.bindDirect_eq]
  -- the cases in which the connection goes on with a header
  cases h with
  | side _ _ hq => exact hsame hq.untouched.ctx
  | kill =>
    obtain ⟨_, _, _, he⟩ := (Broker.eraseProxy_killsOnly (s := s) hdr.sourceNode hdr.sourceActor
      hdr.operationData.toUInt32).eq
    exact hsame (by rw [he])
  | server _ _ _ _ _ hq hf hq' =>
    obtain ⟨c₁, hc₁, hc₂, hother⟩ := hf.ctx
    rw [hq.untouched.ctx, hbind, hc] at hc₁
    cases hc₁
    rw [hq'.untouched.ctx]
    refine ⟨⟨_, hc₂, rfl, rfl, rfl, rfl⟩, fun hdl' hne => ?_⟩
    rw [hother hdl' hne, hq.untouched.ctx, hbind]
  | client _ _ _ hq => exact hsame (hq.untouched.ctx.trans hbind)

end BoostActor
