import BoostActor.Io.NoFaults

/-!
# Proxies and their successors

A proxy that is killed posts a callback to the multiplexer that erases its entry of the
namespace, and its destructor may send a `delete_atom` message. Both name the entry by node
and actor id only, so they can hit another proxy that was created for the same actor in the
meantime.

* `Tidy` — what an erase callback that is still posted names has no proxy;
* `erasedFirst` — no message looks up an actor whose erase callback is still posted;
* `proxy_stays` — under this condition, in every run, a proxy leaves the namespace only
  because a message kills it, its node is lost or the broker ends.
-/

namespace BoostActor

open Lib

variable {dm : NewData} {hdl : ConnectionHandle} {hdr : Header} {payload : Option Bytes}
  {s s' a b : Broker} {nid : NodeId} {aid : ActorId} {r : ProxyRef}

-- -------------------------
-- Callbacks that are still posted
-- -------------------------

/-- The callback that erases the entry of an actor is still posted. -/
def Broker.erasePosted (s : Broker) (nid : NodeId) (aid : ActorId) : Bool :=
  s.tasks.any fun
    | .eraseProxy res n _ => n == nid && s.addrId (.proxy res) == aid
    | _ => false

/-- The actors that data makes the node look up in its namespace: the sender of a message
for this node and the handles in it, or the published actor of a server handshake that a
connect request waits for. -/
def Broker.lookups (s : Broker) (dm : NewData) : List (NodeId × ActorId) :=
  match s.completed dm with
  | none => []
  | some (hdr, payload) =>
    if hdr.valid = false then []
    else match hdr.operation with
    | .dispatchMessage =>
      if hdr.destNode.equals s.thisNode then
        (hdr.sourceNode, hdr.sourceActor) ::
          (Message.deserialize s.process.types (payload.getD [])).addrs.map fun a => (a.node, a.aid)
      else []
    | .serverHandshake =>
      match (s.ctx.find? dm.handle).bind (·.callback), handshakePayload hdr payload with
      | some _, .ok (aid, _) => [(hdr.sourceNode, aid)]
      | _, _ => []
    | _ => []

/-- The erase callback of a proxy has run before a message looks its actor up again. -/
def erasedFirst (s : Broker) : Input → Bool
  | .newData dm => (s.lookups dm).all fun k => !s.erasePosted k.1 k.2
  | _ => true

-- -------------------------
-- The invariant
-- -------------------------

/-- Entries hold proxies of their own actor that have not been killed, and an erase callback
that is still posted finds no proxy in the entry it names. -/
structure Tidy (s : Broker) : Prop where
  anchored : ∀ {nid aid r}, s.anchor nid aid = some r → ∃ p, s.heap[r]? = some p ∧
    (p.nid == nid) = true ∧ p.aid = aid ∧ p.functor = true ∧ p.destroyed = false
  managed : ∀ {r : ProxyRef} {p : Proxy}, s.heap[r]? = some p → p.manager = true → p.functor = true
  posted : ∀ {res nid rsn}, Task.eraseProxy res nid rsn ∈ s.tasks → ∃ p, s.heap[res]? = some p ∧
    p.nid = nid ∧ s.anchor nid p.aid = none
  deletes : ∀ {nid aid}, Task.deleteProxy nid aid ∉ s.tasks

/-- The proxies of other entries stay in the namespace as they are. -/
structure Spares (lost : NodeId → ActorId → Prop) (a b : Broker) : Prop where
  kept : ∀ {nid aid r}, a.anchor nid aid = some r → ¬ lost nid aid →
    b.anchor nid aid = some r ∧ b.heap[r]? = a.heap[r]?

namespace Spares

variable {lost : NodeId → ActorId → Prop}

theorem refl (lost : NodeId → ActorId → Prop) (s : Broker) : Spares lost s s :=
  ⟨fun ha _ => ⟨ha, rfl⟩⟩

theorem trans {c : Broker} (h : Spares lost a b) (h' : Spares lost b c) : Spares lost a c := by
  refine ⟨fun ha hl => ?_⟩
  obtain ⟨hb, hheap⟩ := h.kept ha hl
  obtain ⟨hc, hheap'⟩ := h'.kept hb hl
  exact ⟨hc, hheap'.trans hheap⟩

/-- Nothing happens to proxies and entries. -/
theorem same (hp : b.proxies = a.proxies) (hh : b.heap = a.heap) : Spares lost a b :=
  ⟨fun ha _ => ⟨by rw [Broker.anchor_of_proxies hp, ha], by rw [hh]⟩⟩

/-- Only proxies and entries matter. -/
theorem congr {a' b' : Broker} (h : Spares lost a b) (hp : a'.proxies = a.proxies)
    (hh : a'.heap = a.heap) (hp' : b'.proxies = b.proxies) (hh' : b'.heap = b.heap) :
    Spares lost a' b' :=
  (same hp.symm hh.symm : Spares lost a' a).trans (h.trans (same hp' hh'))

theorem weaken {lost' : NodeId → ActorId → Prop} (h : Spares lost a b)
    (hl : ∀ nid aid, lost nid aid → lost' nid aid) : Spares lost' a b :=
  ⟨fun ha hn => h.kept ha fun hlost => hn (hl _ _ hlost)⟩

end Spares

namespace Tidy

/-- Nothing happens to proxies, entries and tasks. -/
theorem same (h : Tidy a) (hp : b.proxies = a.proxies) (hh : b.heap = a.heap)
    (ht : b.tasks = a.tasks) : Tidy b := by
  refine ⟨fun ha => ?_, fun hr => ?_, fun hmem => ?_, fun hmem => ?_⟩
  · rw [Broker.anchor_of_proxies hp] at ha
    rw [hh]
    exact h.anchored ha
  · rw [hh] at hr
    exact h.managed hr
  · rw [ht] at hmem
    obtain ⟨p, hr, hn, hnone⟩ := h.posted hmem
    exact ⟨p, by rw [hh, hr], hn, by rw [Broker.anchor_of_proxies hp, hnone]⟩
  · rw [ht] at hmem
    exact h.deletes hmem

/-- The proxy of an entry belongs to no other one. -/
theorem anchor_unique {nid' : NodeId} {aid' : ActorId} (h : Tidy s)
    (ha : s.anchor nid aid = some r) (ha' : s.anchor nid' aid' = some r) :
    (nid == nid') = true ∧ aid = aid' := by
  obtain ⟨p, hp, hn, haid, -⟩ := h.anchored ha
  obtain ⟨p', hp', hn', haid', -⟩ := h.anchored ha'
  rw [hp] at hp'
  cases hp'
  exact ⟨BEq.trans (BEq.symm hn) hn', haid.symm.trans haid'⟩

/-- Killing proxies whose entries are erased. -/
theorem kills {keys : NodeId → ActorId → Prop} (h : Tidy a) (hk : Kills keys a b)
    (hc : ∀ {n n' aid}, (n == n') = true → keys n aid → keys n' aid) :
    Tidy b ∧ Spares keys a b := by
  have hspare : Spares keys a b := by
    refine ⟨fun {nid aid r} ha hn => ?_⟩
    refine ⟨by rw [hk.kept hn, ha], ?_⟩
    rcases hk.heap r with he | ⟨n', aid', _, _, hkey, ha', -⟩
    · exact he
    · obtain ⟨hn', rfl⟩ := h.anchor_unique ha' ha
      exact absurd (hc hn' hkey) hn
  have hafter : ∀ {r : ProxyRef} {p : Proxy}, a.heap[r]? = some p →
      ∃ p', b.heap[r]? = some p' ∧ p'.nid = p.nid ∧ p'.aid = p.aid := by
    intro r p hp
    rcases hk.heap r with he | ⟨_, _, p₀, p', -, -, hp₀, hp', hkill⟩
    · exact ⟨p, by rw [he, hp], rfl, rfl⟩
    · rw [hp] at hp₀
      cases hp₀
      exact ⟨p', hp', hkill.nid, hkill.aid⟩
  refine ⟨⟨fun {nid aid r} ha => ?_, fun {r p} hp hm => ?_, fun {res n rsn} hmem => ?_,
    fun {nid aid} hmem => ?_⟩, hspare⟩
  · -- an anchor that is left was not killed, so its proxy is as it was
    by_cases hkey : keys nid aid
    · rw [hk.gone hkey] at ha
      cases ha
    · rw [hk.kept hkey] at ha
      rw [(hspare.kept ha hkey).2]
      exact h.anchored ha
  · rcases hk.heap r with he | ⟨_, _, _, p', -, -, -, hp', hkill⟩
    · rw [he] at hp
      exact h.managed hp hm
    · rw [hp] at hp'
      cases hp'
      rw [hkill.manager] at hm
      cases hm
  · obtain ⟨ts, ht, hts⟩ := hk.tasks
    rw [ht, List.mem_append] at hmem
    rcases hmem with hmem | hmem
    · obtain ⟨p, hp, hn, hnone⟩ := h.posted hmem
      obtain ⟨p', hp', hn', haid'⟩ := hafter hp
      refine ⟨p', hp', hn'.trans hn, ?_⟩
      rw [haid']
      by_cases hkey : keys n p.aid
      · -- the posted callback finds its entry erased, as before or by this kill
        exact hk.gone hkey
      · rw [hk.kept hkey, hnone]
    · -- a callback that has just been posted: the entry of its proxy is erased
      obtain ⟨r, p, rsn', he, hp, n', aid', hkey, ha⟩ := hts _ hmem
      cases he
      obtain ⟨p₀, hp₀, hn, rfl, -⟩ := h.anchored ha
      rw [hp] at hp₀
      cases hp₀
      obtain ⟨p', hp', hn', haid'⟩ := hafter hp
      refine ⟨p', hp', hn', ?_⟩
      rw [haid']
      exact hk.gone (hc (BEq.symm hn) hkey)
  · obtain ⟨ts, ht, hts⟩ := hk.tasks
    rw [ht, List.mem_append] at hmem
    rcases hmem with hmem | hmem
    · exact h.deletes hmem
    · obtain ⟨_, _, _, he, -⟩ := hts _ hmem
      cases he

/-- A new proxy that is not in the namespace yet. -/
theorem addProxy (h : Tidy a) (n : NodeId) (i : ActorId) : Tidy (a.addProxy n i) := by
  have hkeep : ∀ {r : ProxyRef} {p : Proxy}, a.heap[r]? = some p →
      (a.addProxy n i).heap[r]? = some p := by
    intro r p hp
    have hlt := (List.getElem?_eq_some_iff.mp hp).1
    show (a.heap ++ [_])[r]? = _
    rw [List.getElem?_append_left hlt, hp]
  refine ⟨fun ha => ?_, fun {r p} hp hm => ?_, fun hmem => ?_, fun hmem => h.deletes hmem⟩
  · obtain ⟨p, hp, hrest⟩ := h.anchored ha
    exact ⟨p, hkeep hp, hrest⟩
  · replace hp : (a.heap ++ [⟨n, i, true, ExitReason.notExited, true, false⟩])[r]? = some p := hp
    rw [List.getElem?_append] at hp
    split at hp
    · exact h.managed hp hm
    · have hmem := List.mem_of_getElem? hp
      rw [List.mem_singleton] at hmem
      rw [hmem]
  · obtain ⟨p, hp, hrest⟩ := h.posted hmem
    exact ⟨p, hkeep hp, hrest⟩

end Tidy

-- -------------------------
-- Side activities
-- -------------------------

/-- An erase callback that is posted, in terms of the tasks. -/
theorem Broker.erasePosted_of_mem {n : NodeId} {res : ProxyRef} {rsn : ExitReason} {p : Proxy}
    (hmem : Task.eraseProxy res n rsn ∈ s.tasks) (hp : s.heap[res]? = some p)
    (hn : (n == nid) = true) : s.erasePosted nid p.aid = true := by
  rw [erasePosted, List.any_eq_true]
  exact ⟨_, hmem, by simp [hn, addrId, hp]⟩

/-- A proxy takes an entry that no callback names. -/
theorem Tidy.adopted {hdl' : ConnectionHandle} (h : Tidy a)
    (hl : a.liveProxy nid aid = none) (hp : a.erasePosted nid aid = false) :
    Tidy (a.adopted hdl hdl' nid aid) ∧
      Spares (fun _ _ => False) a (a.adopted hdl hdl' nid aid) := by
  -- entries never hold a proxy that was destroyed, so the entry is free
  have hfree : a.anchor nid aid = none := by
    cases ha : a.anchor nid aid with
    | none => rfl
    | some r =>
      obtain ⟨p, hp, -, -, -, hd⟩ := h.anchored ha
      have hlive : a.live r = true := by simp [Broker.live, hp, hd]
      rw [Broker.liveProxy_eq_some.mpr ⟨ha, hlive⟩] at hl
      cases hl
  have hspare : Spares (fun _ _ => False) a (a.adopted hdl hdl' nid aid) := by
    refine ⟨fun {n i r} ha _ => ?_⟩
    have hlt : r < a.heap.length := by
      obtain ⟨p, hp, -⟩ := h.anchored ha
      exact (List.getElem?_eq_some_iff.mp hp).1
    refine ⟨?_, List.getElem?_append_left hlt⟩
    rw [Broker.anchor_adopted, if_neg, ha]
    rintro ⟨hn, rfl, -⟩
    rw [← Broker.anchor_congr hn, hfree] at ha
    cases ha
  have hnew : Tidy (a.addProxy nid aid) := h.addProxy nid aid
  refine ⟨⟨fun {n i r} ha => ?_, hnew.managed, fun {res n rsn} hmem => ?_, h.deletes⟩, hspare⟩
  · rw [Broker.anchor_adopted] at ha
    split at ha
    · next hk =>
      cases ha
      refine ⟨_, List.getElem?_concat_length, hk.1, hk.2.1, rfl, rfl⟩
    · exact hnew.anchored ha
  · obtain ⟨p, hp₁, hn, hnone⟩ := hnew.posted hmem
    refine ⟨p, hp₁, hn, ?_⟩
    rw [Broker.anchor_adopted, if_neg]
    · exact hnone
    rintro ⟨hk, rfl, -⟩
    obtain ⟨p₀, hp₀, -, -⟩ := h.posted hmem
    have hsame : p₀ = p := by
      have hlt := (List.getElem?_eq_some_iff.mp hp₀).1
      replace hp₁ : (a.heap ++ [_])[res]? = some p := hp₁
      rw [List.getElem?_append_left hlt, hp₀] at hp₁
      exact Option.some.inj hp₁
    rw [← hsame, Broker.erasePosted_of_mem (s := a) hmem hp₀ (BEq.symm hk)] at hp
    cases hp

/-- A side activity of a turn that names no actor with a posted callback. -/
theorem Tidy.act {T : Turn} (h : Tidy a) (ha : Act T a b)
    (hT : ∀ {nid aid}, T.names nid aid → a.erasePosted nid aid = false) :
    Tidy b ∧ Spares (fun _ _ => False) a b := by
  cases ha with
  | @addProxy nid aid =>
    refine ⟨h.addProxy nid aid, ⟨fun {n i r} ha _ => ⟨ha, ?_⟩⟩⟩
    obtain ⟨p, hp, -⟩ := h.anchored ha
    exact List.getElem?_append_left (List.getElem?_eq_some_iff.mp hp).1
  | reserve _ nid aid =>
    have hsame : ∀ n i, (a.reserve nid aid).anchor n i = a.anchor n i :=
      fun n i => Broker.anchor_reserve nid n aid i
    refine ⟨⟨fun ha => ?_, h.managed, fun hmem => ?_, h.deletes⟩, ⟨fun ha _ => ⟨?_, rfl⟩⟩⟩
    · rw [hsame] at ha
      exact h.anchored ha
    · obtain ⟨p, hp, hn, hnone⟩ := h.posted hmem
      exact ⟨p, hp, hn, by rw [hsame, hnone]⟩
    · rw [hsame, ha]
  | adopt _ _ hn _ _ hl => exact h.adopted hl (hT hn)
  | _ => exact ⟨h.same rfl rfl rfl, .same rfl rfl⟩

/-- Posted callbacks name no other actors as long as proxies are only added. -/
theorem Tidy.erasePosted_grown (h : Tidy a) (ht : b.tasks = a.tasks) (hh : a.heap <+: b.heap)
    (hp : a.erasePosted nid aid = false) : b.erasePosted nid aid = false := by
  rw [Broker.erasePosted, List.any_eq_false] at hp ⊢
  intro t hmem
  rw [ht] at hmem
  have hold := hp t hmem
  cases t with
  | eraseProxy res n rsn =>
    obtain ⟨p, hp₀, -⟩ := h.posted hmem
    obtain ⟨rest, hrest⟩ := hh
    have hp₁ : b.heap[res]? = some p := by
      rw [← hrest, List.getElem?_append_left (List.getElem?_eq_some_iff.mp hp₀).1, hp₀]
    simp only [Broker.addrId, hp₀, hp₁] at hold ⊢
    exact hold
  | sendKillProxyInstance | deleteProxy => exact hold

/-- Quiet steps spare every anchor if no callback is posted for what they name. -/
theorem Tidy.quiet {T : Turn} (h : Tidy a) (hq : Quiet T a b)
    (hT : ∀ {nid aid}, T.names nid aid → a.erasePosted nid aid = false) :
    Tidy b ∧ Spares (fun _ _ => False) a b := by
  have hall : Tidy b ∧ Spares (fun _ _ => False) a b ∧ Quiet T a b := by
    refine hq.preserves (P := fun b => Tidy b ∧ Spares (fun _ _ => False) a b ∧ Quiet T a b) ?_
      ⟨h, Spares.refl _ a, .refl⟩
    rintro b c ⟨hb, hspare, hq⟩ hact
    obtain ⟨hc, hspare'⟩ := hb.act hact fun hn =>
      h.erasePosted_grown hq.untouched.tasks hq.heap (hT hn)
    exact ⟨hc, hspare.trans hspare', hq.trans hact.quiet⟩
  exact ⟨hall.1, hall.2.1⟩

-- -------------------------
-- Data
-- -------------------------

/-- Data completes a message that kills the proxy of an actor. -/
def Broker.killedBy (s : Broker) (dm : NewData) (nid : NodeId) (aid : ActorId) : Prop :=
  ∃ hdr payload, s.completed dm = some (hdr, payload) ∧ hdr.valid = true ∧
    hdr.operation = .killProxyInstance ∧ hdr.destNode.equals s.thisNode = true ∧
    (hdr.sourceNode == nid) = true ∧ hdr.sourceActor = aid

/-- A connection is the direct route to a node. -/
def Broker.peerOf (s : Broker) (hdl : ConnectionHandle) (nid : NodeId) : Prop :=
  ∃ n, s.tbl.directByHdl.find? hdl = some n ∧ (n == nid) = true

/-- Erasing a direct route spares the anchors of other nodes. -/
theorem Tidy.eraseDirect (h : Tidy a) (hdl : ConnectionHandle) :
    Tidy (a.eraseDirect hdl) ∧ Spares (fun n _ => a.peerOf hdl n) a (a.eraseDirect hdl) := by
  cases hb : a.tbl.directByHdl.find? hdl with
  | none =>
    rw [Broker.eraseDirect_of_unbound hb]
    exact ⟨h, .refl _ a⟩
  | some nid =>
    cases hk : a.tbl.connected nid with
    | true =>
      obtain ⟨htidy, hspare⟩ := h.kills (Kills.eraseDirect hb hk)
        fun hn hkey => BEq.trans hkey hn
      exact ⟨htidy, hspare.weaken fun n _ hn => ⟨nid, hb, hn⟩⟩
    | false =>
      rw [Broker.eraseDirect_eq hb, Broker.purgeState_of_not_connected hk]
      exact ⟨h.same rfl rfl rfl, .same rfl rfl⟩

theorem Tidy.bindDirect (h : Tidy a) (hdl : ConnectionHandle) (nid : NodeId) :
    Tidy (a.bindDirect hdl nid) ∧ Spares (fun _ _ => False) a (a.bindDirect hdl nid) := by
  rw [Broker.bindDirect_eq]
  exact ⟨h.same rfl rfl rfl, .same rfl rfl⟩

/-- The end of a server handshake: its published actor gets a proxy if a request waits. -/
theorem Tidy.finalized (h : Tidy a) (hf : Finalized hdl nid aid a b)
    (hT : ∀ cb, (a.ctx.find? hdl).bind (·.callback) = some cb →
      a.erasePosted nid aid = false) : Tidy b ∧ Spares (fun _ _ => False) a b := by
  cases hf with
  | silent => exact ⟨h.same rfl rfl rfl, .same rfl rfl⟩
  | @answer c cb s₁ addr sigs hc hcb hq =>
    have hnone : a.erasePosted nid aid = false := hT cb (by rw [hc, Option.bind_some, hcb])
    have hentered : Tidy ((a.identify hdl nid).takeCallback hdl) := h.same rfl rfl rfl
    obtain ⟨htidy, hspare⟩ := hentered.quiet hq fun {n i} hn => by
      obtain ⟨rfl, rfl, -⟩ := hn
      exact hnone
    exact ⟨htidy.same rfl rfl rfl, hspare.congr rfl rfl rfl rfl⟩

/-- The actors that a message for this node names are looked up. -/
theorem Broker.mem_lookups_of_named (hm : s.completed dm = some (hdr, payload))
    (hv : hdr.valid = true) (ho : hdr.operation = .dispatchMessage)
    (hd : hdr.destNode.equals s.thisNode = true)
    (hn : BoostActor.named s.process hdr payload nid aid) :
    (nid, aid) ∈ s.lookups dm := by
  unfold lookups
  simp only [hm, hv, ho, hd, Bool.true_eq_false, if_false, if_true]
  rcases hn with ⟨rfl, rfl, -⟩ | ⟨a, ha, -, rfl, rfl⟩
  · exact List.mem_cons_self ..
  · exact List.mem_cons_of_mem _ (List.mem_map.mpr ⟨a, ha, rfl⟩)

/-- The published actor of a server handshake is looked up if a request waits for it. -/
theorem Broker.mem_lookups_of_published {cb : Promise} {sigs : List Bytes}
    (hm : s.completed dm = some (hdr, payload)) (hv : hdr.valid = true)
    (ho : hdr.operation = .serverHandshake) (hi : handshakePayload hdr payload = .ok (aid, sigs))
    (hcb : (s.ctx.find? dm.handle).bind (·.callback) = some cb) :
    (hdr.sourceNode, aid) ∈ s.lookups dm := by
  unfold lookups
  simp [hm, hv, ho, hi, hcb]

/-- A message arrives in the context that waited for it. -/
theorem Arrived.callback {s₁ : Broker} {cb : Promise}
    (h : Arrived dm (s.enter dm.handle) s₁ hdr payload)
    (hcb : (s₁.ctx.find? dm.handle).bind (·.callback) = some cb) :
    (s.ctx.find? dm.handle).bind (·.callback) = some cb := by
  obtain ⟨c, c₁, hc, hc₁, -, rfl, -⟩ := h.ctx
  rw [hc₁, Option.bind_some] at hcb
  replace hc : (s.ctx.emplace dm.handle _).find? dm.handle = some c := hc
  rw [UMap.find?_emplace, if_pos BEq.rfl] at hc
  cases hs : s.ctx.find? dm.handle with
  | none =>
    rw [hs, Option.none_or] at hc
    cases hc
    cases hcb
  | some c₀ =>
    rw [hs, Option.some_or] at hc
    cases hc
    exact hcb

section

variable {s₁ : Broker} {next : ConnectionState}

/-- A complete message removes the proxy it kills, or those of the peer of a connection that
is closed. -/
theorem Tidy.processed (h : Tidy s) (hw : Wired s₁)
    (ha : Arrived dm (s.enter dm.handle) s₁ hdr payload)
    (hp : Processed dm.handle hdr payload dm.via s₁ next s')
    (hok : ∀ k ∈ s.lookups dm, s.erasePosted k.1 k.2 = false) :
    Tidy s' ∧ Spares (fun n i => s.killedBy dm n i ∨
      next = .closeConnection ∧ s.peerOf dm.handle n) s₁ s' := by
  have hm := ha.completes
  obtain ⟨htbl, hproc⟩ := ha.tbl
  replace htbl : s₁.tbl = s.tbl := htbl
  replace hproc : s₁.process = s.process := hproc
  have hnode : s₁.thisNode = s.thisNode := congrArg Process.id hproc
  -- most messages kill nothing
  have hnone : ∀ {a b : Broker}, Spares (fun _ _ => False) a b →
      Spares (fun n i => s.killedBy dm n i ∨ next = .closeConnection ∧ s.peerOf dm.handle n) a b :=
    fun hs => hs.weaken fun _ _ hf => hf.elim
  have h₁ : Tidy s₁ := by
    cases ha with
    | payload => exact h.same rfl rfl rfl
    | header => exact h.same rfl rfl rfl
  have hsame₁ : s₁.tasks = s.tasks ∧ s₁.heap = s.heap := by
    cases ha with
    | payload => exact ⟨rfl, rfl⟩
    | header => exact ⟨rfl, rfl⟩
  -- no callback is posted for what the message looks up
  have hok₁ : ∀ {b : Broker} {n i}, b.tasks = s₁.tasks → s₁.heap <+: b.heap →
      (n, i) ∈ s.lookups dm → b.erasePosted n i = false := by
    intro b n i ht hh hmem
    rw [hsame₁.1] at ht
    rw [hsame₁.2] at hh
    exact h.erasePosted_grown ht hh (hok _ hmem)
  have hpeer : ∀ {b : Broker} {n}, b.tbl.directByHdl = s.tbl.directByHdl → b.peerOf dm.handle n →
      s.peerOf dm.handle n := by
    rintro b n hd ⟨n', hb, hn⟩
    exact ⟨n', by rw [← hd, hb], hn⟩
  cases hp with
  | reject =>
    obtain ⟨htidy, hspare⟩ := h₁.eraseDirect dm.handle
    exact ⟨htidy, hspare.weaken fun n _ hn => .inr ⟨rfl, hpeer (by rw [htbl]) hn⟩⟩
  | side hv hT hq =>
    obtain ⟨htidy, hspare⟩ := h₁.quiet hq fun {n i} hn => by
      cases hT with
      | dispatched ho _ hd =>
        rw [hnode] at hd
        replace hn : named s₁.process hdr payload n i := hn
        rw [hproc] at hn
        exact hok₁ rfl List.prefix_rfl (Broker.mem_lookups_of_named hm hv ho hd hn)
      | relayed | announced | ignored | unreadable => exact hn.elim
    exact ⟨htidy, hnone hspare⟩
  | kill hv ho hd =>
    rw [hnode] at hd
    obtain ⟨htidy, hspare⟩ := h₁.kills (Kills.eraseProxy hdr.sourceNode hdr.sourceActor
      hdr.operationData.toUInt32) fun hn hkey => ⟨BEq.trans hkey.1 hn, hkey.2⟩
    refine ⟨htidy, hspare.weaken fun n i hkey => .inl ?_⟩
    exact ⟨hdr, payload, hm, hv, ho, hd, hkey.1, hkey.2⟩
  | refuse hv ho hi _ hf =>
    obtain ⟨hfin, hspare⟩ := h₁.finalized hf fun _ hcb => hok₁ rfl List.prefix_rfl
      (Broker.mem_lookups_of_published hm hv ho hi (ha.callback hcb))
    obtain ⟨htidy, hspare'⟩ := hfin.eraseDirect dm.handle
    refine ⟨htidy, (hnone hspare).trans (hspare'.weaken fun n _ hn => .inr ⟨rfl, ?_⟩)⟩
    exact hpeer (by rw [hf.directByHdl, htbl]) hn
  -- the handshake binds the node, greets it and looks up the published actor
  | server hv ho hi _ _ hq hf hq' =>
    obtain ⟨hbound, hspare₁⟩ := h₁.bindDirect dm.handle hdr.sourceNode
    obtain ⟨hgreeted, hspare₂⟩ := hbound.quiet hq fun hn => hn.elim
    have hbind := Broker.bindDirect_eq (s := s₁) dm.handle hdr.sourceNode
    obtain ⟨hfin, hspare₃⟩ := hgreeted.finalized hf fun _ hcb => by
      have hheap := hq.heap
      rw [hbind] at hheap
      rw [hq.untouched.ctx, hbind] at hcb
      refine hok₁ ?_ hheap (Broker.mem_lookups_of_published hm hv ho hi (ha.callback hcb))
      rw [hq.untouched.tasks, hbind]
    obtain ⟨htidy, hspare₄⟩ := hfin.quiet hq' fun hn => hn.elim
    exact ⟨htidy, hnone (((hspare₁.trans hspare₂).trans hspare₃).trans hspare₄)⟩
  | noRoute hv ho _ _ hk hq hr =>
    -- the node has just been bound, so there is a route to it
    obtain ⟨_, _, _, hc, -⟩ := ha.ctx
    have hval := hdr.sourceNode_valid hv (by simp [Header.isHandshake, ho])
    have hroute := hq.route (hw.route_of_bind hc hval hk)
    rw [hr] at hroute
    cases hroute
  | client _ _ _ hq =>
    obtain ⟨hbound, hspare⟩ := h₁.bindDirect dm.handle hdr.sourceNode
    obtain ⟨htidy, hspare'⟩ := hbound.quiet hq fun hn => hn.elim
    exact ⟨htidy, hnone (hspare.trans hspare')⟩

/-- Handling data spares what it neither kills nor disconnects. -/
theorem Tidy.handled (h : Tidy s) (hw : Wired (s.enter dm.handle))
    (hh : Handled dm (s.enter dm.handle) next s')
    (hok : ∀ k ∈ s.lookups dm, s.erasePosted k.1 k.2 = false) :
    Tidy s' ∧ Spares (fun n i => s.killedBy dm n i ∨
      next = .closeConnection ∧ s.peerOf dm.handle n) s s' := by
  have hentered : Tidy (s.enter dm.handle) := h.same rfl rfl rfl
  cases hh with
  | mismatch =>
    obtain ⟨htidy, hspare⟩ := hentered.eraseDirect dm.handle
    refine ⟨htidy, Spares.congr (hspare.weaken fun n _ hn => ?_) rfl rfl rfl rfl⟩
    exact .inr ⟨rfl, hn⟩
  | await => exact ⟨h.same rfl rfl rfl, .same rfl rfl⟩
  | @message s₁ _ _ _ _ ha hp =>
    obtain ⟨htidy, hspare⟩ := h.processed (hw.arrived ha) ha hp hok
    have hsame : s.proxies = s₁.proxies ∧ s.heap = s₁.heap := by
      cases ha with
      | payload => exact ⟨rfl, rfl⟩
      | header => exact ⟨rfl, rfl⟩
    exact ⟨htidy, hspare.congr hsame.1 hsame.2 rfl rfl⟩

end

/-- What comes next on a connection does not matter to proxies. -/
theorem Broker.settle_proxies (hdl : ConnectionHandle) (next : ConnectionState) :
    (s.settle hdl next).proxies = s.proxies ∧ (s.settle hdl next).heap = s.heap ∧
      (s.settle hdl next).tasks = s.tasks := by
  unfold settle
  split
  · exact ⟨rfl, rfl, rfl⟩
  · split
    · exact ⟨rfl, rfl, rfl⟩
    · exact ⟨rfl, rfl, rfl⟩

/-- Data that does not end the broker. -/
theorem Tidy.data (h : Tidy s) (hw : Wired s) (ho : (s.rdSize? dm.handle).isSome = true)
    (hd : DataStep dm s s') (hok : ∀ k ∈ s.lookups dm, s.erasePosted k.1 k.2 = false)
    (he : s'.exitReason = ExitReason.notExited) :
    Tidy s' ∧ Spares (fun n i => s.killedBy dm n i ∨
      s'.scribes.contains dm.handle = false ∧ s.peerOf dm.handle n) s s' := by
  have hw₁ := hw.enter ho
  cases hd with
  | closed hh =>
    obtain ⟨htidy, hspare⟩ := h.handled hw₁ hh hok
    refine ⟨htidy.same rfl rfl rfl, Spares.congr (hspare.weaken fun n i hl => ?_) rfl rfl rfl rfl⟩
    refine hl.imp_right fun hp => ⟨?_, hp.2⟩
    show (((_ : UMap ConnectionHandle Scribe).erase dm.handle).adjust dm.handle _).contains _ = _
    simp [UMap.contains, UMap.find?_adjust]
  | @«open» s₁ next hn hh =>
    obtain ⟨htidy, hspare⟩ := h.handled hw₁ hh hok
    obtain ⟨hp, hheap, ht⟩ := Broker.settle_proxies (s := s₁) dm.handle next
    refine ⟨htidy.same hp hheap ht, Spares.congr (hspare.weaken fun n i hl => ?_) rfl rfl hp hheap⟩
    exact hl.imp_right fun hp => absurd hp.1 hn
  | terminated =>
    rw [Broker.terminate_exitReason] at he
    cases he

-- -------------------------
-- Steps
-- -------------------------

/-- Why a proxy leaves the namespace: a message kills it, the connection to its node is
closed, or the broker ends. -/
inductive Removed (s : Broker) (nid : NodeId) (aid : ActorId) (s' : Broker) : Input → Prop where
  | killed {dm : NewData} (hk : s.killedBy dm nid aid) : Removed s nid aid s' (.newData dm)
  | disconnected {dm : NewData} (hp : s.peerOf dm.handle nid)
      (hc : s'.scribes.contains dm.handle = false) : Removed s nid aid s' (.newData dm)
  | lost {hdl : ConnectionHandle} (hp : s.peerOf hdl nid) :
      Removed s nid aid s' (.connectionClosed hdl)
  | ended {i : Input} (he : s'.exitReason ≠ ExitReason.notExited) : Removed s nid aid s' i

/-- Running a task other than an erase callback for an actor that has a proxy. -/
theorem Tidy.task {index : Nat} {t : Task} (h : Tidy s) (ht : s.tasks[index]? = some t)
    (hd : TaskDone { s with tasks := s.tasks.eraseIdx index } t s') :
    Tidy s' ∧ Spares (fun _ _ => False) s s' := by
  have hrest : Tidy { s with tasks := s.tasks.eraseIdx index } :=
    ⟨h.anchored, h.managed, fun hmem => h.posted (List.mem_of_mem_eraseIdx hmem),
      fun hmem => h.deletes (List.mem_of_mem_eraseIdx hmem)⟩
  have hmem := List.mem_of_getElem? ht
  cases hd with
  | eraseProxy res n rsn =>
    obtain ⟨p, hp, -, hnone⟩ := h.posted hmem
    have haddr : Broker.addrId { s with tasks := s.tasks.eraseIdx index } (.proxy res) = p.aid := by
      simp [Broker.addrId, hp]
    rw [haddr]
    obtain ⟨htidy, hspare⟩ := hrest.kills (Kills.eraseProxy n p.aid rsn)
      fun hn hkey => ⟨BEq.trans hkey.1 hn, hkey.2⟩
    -- the entry that the callback erases is empty
    refine ⟨htidy, ⟨fun {nid aid r} ha _ => hspare.kept ha ?_⟩⟩
    rintro ⟨hn, rfl⟩
    rw [← Broker.anchor_congr hn, hnone] at ha
    cases ha
  | sendKillProxyInstance hq =>
    obtain ⟨htidy, hspare⟩ := hrest.quiet hq fun hn => hn.elim
    exact ⟨htidy, hspare.congr rfl rfl rfl rfl⟩
  | deleteProxy => exact absurd hmem h.deletes

/-- A proxy is destroyed only after it was killed, so it is in no entry and sends nothing. -/
theorem Tidy.destroy {p : Proxy} (h : Tidy s) (hp : s.heap[r]? = some p)
    (hr : s.referenced r = false) :
    Tidy (s.destroyProxy r) ∧ Spares (fun _ _ => False) s (s.destroyProxy r) := by
  have hfun : p.functor = false := by
    simp only [Broker.referenced, Bool.or_eq_false_iff, hp] at hr
    exact hr.1.1
  have hman : p.manager = false := by
    cases hm : p.manager with
    | false => rfl
    | true =>
      rw [h.managed hp hm] at hfun
      cases hfun
  have heq : s.destroyProxy r = { s with heap := s.heap.set r { p with destroyed := true } } := by
    simp [Broker.destroyProxy, hp, hman]
  have hne : ∀ {nid aid r'}, s.anchor nid aid = some r' → r ≠ r' := by
    rintro nid aid r' ha rfl
    obtain ⟨p', hp', -, -, hfun', -⟩ := h.anchored ha
    rw [hp] at hp'
    cases hp'
    rw [hfun] at hfun'
    cases hfun'
  have hlt := (List.getElem?_eq_some_iff.mp hp).1
  rw [heq]
  refine ⟨⟨fun ha => ?_, fun {r' p'} hp' hm => ?_, fun {res n rsn} hmem => ?_, h.deletes⟩,
    ⟨fun ha _ => ⟨ha, List.getElem?_set_ne (hne ha)⟩⟩⟩
  · obtain ⟨p', hp', hrest⟩ := h.anchored ha
    exact ⟨p', by rw [← hp']; exact List.getElem?_set_ne (hne ha), hrest⟩
  · replace hp' : (s.heap.set r { p with destroyed := true })[r']? = some p' := hp'
    rw [List.getElem?_set] at hp'
    split at hp'
    · next he =>
      subst he
      cases hp'
      rw [hman] at hm
      cases hm
    · exact h.managed hp' hm
  · obtain ⟨p', hp', hn, hnone⟩ := h.posted hmem
    by_cases he : r = res
    · subst he
      rw [hp] at hp'
      cases hp'
      exact ⟨_, List.getElem?_set_self hlt, hn, hnone⟩
    · exact ⟨p', by rw [← hp']; exact List.getElem?_set_ne he, hn, hnone⟩

/-- Calling an attachable spares every anchor. -/
theorem Tidy.callAttachable (h : Tidy s) (ref : ActorRef) :
    Tidy (s.callAttachable ref) ∧ Spares (fun _ _ => False) s (s.callAttachable ref) := by
  unfold Broker.callAttachable
  split
  · exact ⟨h, .refl _ s⟩
  · split
    · exact ⟨h, .refl _ s⟩
    · split
      · exact ⟨h.same rfl rfl rfl, .same rfl rfl⟩
      · refine ⟨⟨h.anchored, h.managed, fun hmem => ?_, fun hmem => ?_⟩, .same rfl rfl⟩
        · rcases List.mem_append.mp hmem with hmem | hmem
          · exact h.posted hmem
          · cases List.mem_singleton.mp hmem
        · rcases List.mem_append.mp hmem with hmem | hmem
          · exact h.deletes hmem
          · cases List.mem_singleton.mp hmem

/-- Every other input spares every anchor. -/
theorem Tidy.other {i : Input} (h : Tidy s) (ho : Other s i s') :
    Tidy s' ∧ Spares (fun _ _ => False) s s' := by
  cases ho with
  | ports _ hp =>
    obtain ⟨_, _, _, _, rfl⟩ := hp.eq
    exact ⟨h.same rfl rfl rfl, .same rfl rfl⟩
  | @publish _ _ _ _ _ s₁ _ _ _ hp hq =>
    have hsame : s₁.proxies = s.proxies ∧ s₁.heap = s.heap ∧ s₁.tasks = s.tasks := by
      obtain ⟨_, _, _, _, rfl⟩ := hp.eq
      exact ⟨rfl, rfl, rfl⟩
    have h₁ : Tidy s₁ := h.same hsame.1 hsame.2.1 hsame.2.2
    obtain ⟨htidy, hspare⟩ := h₁.quiet hq fun hn => hn.elim
    exact ⟨htidy.same rfl rfl rfl, hspare.congr hsame.1.symm hsame.2.1.symm rfl rfl⟩
  | forward _ _ hq => exact h.quiet hq fun hn => hn.elim
  | task ht hd => exact h.task ht hd
  | spawn => exact ⟨h.same rfl rfl rfl, .same rfl rfl⟩
  | exit => exact ⟨h.same rfl rfl rfl, .same rfl rfl⟩
  | attachable ref => exact h.callAttachable ref
  | destroy hp _ hr => exact h.destroy hp hr

/-- One step: proxies stay unless there is a reason, and the invariant holds as long as the
broker runs. -/
theorem Tidy.step {i : Input} (h : Tidy s) (hw : Wired s) (hok : erasedFirst s i = true)
    (hs : s.step i = some s') (he : s'.exitReason = ExitReason.notExited) :
    Tidy s' ∧ Spares (fun n a => Removed s n a s' i) s s' := by
  have hnone : ∀ {b : Broker}, Spares (fun _ _ => False) s b →
      Spares (fun n a => Removed s n a b i) s b := fun hs => hs.weaken fun _ _ hf => hf.elim
  cases step_cases hw hs with
  | other ho =>
    obtain ⟨htidy, hspare⟩ := h.other ho
    exact ⟨htidy, hnone hspare⟩
  | ended =>
    rw [Broker.terminate_exitReason] at he
    cases he
  | @data dm _ ho hd =>
    have hfresh : ∀ k ∈ s.lookups dm, s.erasePosted k.1 k.2 = false := by
      intro k hmem
      have hk := List.all_eq_true.mp hok k hmem
      rwa [Bool.not_eq_true'] at hk
    -- the data looks up only handles without a posted callback
    obtain ⟨htidy, hspare⟩ := h.data hw ho hd hfresh he
    refine ⟨htidy, hspare.weaken fun n a hl => ?_⟩
    rcases hl with hk | ⟨hc, hp⟩
    · exact .killed hk
    · exact .disconnected hp hc
  | @accepted hdl _ _ _ _ hq =>
    have h₁ : Tidy (s.opened hdl) := h.same rfl rfl rfl
    obtain ⟨htidy, hspare⟩ := h₁.quiet hq fun hn => hn.elim
    exact ⟨htidy.same rfl rfl rfl, hnone (hspare.congr rfl rfl rfl rfl)⟩
  | requested => exact ⟨h.same rfl rfl rfl, .same rfl rfl⟩
  | refused => exact ⟨h.same rfl rfl rfl, .same rfl rfl⟩
  | lost => exact ⟨h.same rfl rfl rfl, .same rfl rfl⟩
  | lostNode hb hk =>
    -- the connection was the route to the node whose anchors are lost
    obtain ⟨htidy, hspare⟩ := h.kills hk fun hn hkey => BEq.trans hkey hn
    refine ⟨htidy.same rfl rfl rfl, Spares.congr (hspare.weaken fun n _ hn => ?_) rfl rfl rfl rfl⟩
    exact .lost ⟨_, hb, hn⟩

/-- A broker that takes a step has not ended. -/
theorem Broker.running_of_step {i : Input} (hs : s.step i = some s') :
    s.exitReason = ExitReason.notExited := by
  obtain ⟨he, -⟩ := Broker.step_eq_some.mp hs
  unfold enabled at he
  rw [Bool.and_eq_true, decide_eq_true_iff] at he
  exact he.1

theorem Tidy.initial (h : s.isInitial) : Tidy s := by
  obtain ⟨process, order, rfl⟩ := h
  refine ⟨fun ha => ?_, fun hp => ?_, fun hmem => ?_, fun hmem => ?_⟩
  · simp [Broker.anchor, Broker.initial] at ha
  · simp [Broker.initial] at hp
  · cases hmem
  · cases hmem

/-- Every running broker is tidy. -/
theorem tidy_of_reachable (h : Broker.Reachable (fun s i => erasedFirst s i = true) s)
    (he : s.exitReason = ExitReason.notExited) : Tidy s := by
  have hinv : Wired s ∧ (s.exitReason = ExitReason.notExited → Tidy s) := by
    refine h.invariant (I := fun s => Wired s ∧ (s.exitReason = ExitReason.notExited → Tidy s))
      (fun s hs => ⟨.initial hs, fun _ => .initial hs⟩) ?_
    intro s i s' hs hok hstep
    refine ⟨hs.1.step hstep, fun he => ?_⟩
    exact ((hs.2 (Broker.running_of_step hstep)).step hs.1 hok hstep he).1
  exact hinv.2 he

/-- In a run in which no message looks up an actor whose erase callback is still posted, a
proxy leaves the namespace or changes only for a reason of its own. -/
theorem proxy_stays {i : Input} (h : Broker.Reachable (fun s i => erasedFirst s i = true) s)
    (hok : erasedFirst s i = true) (hs : s.step i = some s') (ha : s.anchor nid aid = some r) :
    s'.anchor nid aid = some r ∧ s'.heap[r]? = s.heap[r]? ∨ Removed s nid aid s' i := by
  by_cases he : s'.exitReason = ExitReason.notExited
  · have htidy := tidy_of_reachable h (Broker.running_of_step hs)
    by_cases hr : Removed s nid aid s' i
    · exact .inr hr
    · exact .inl ((htidy.step (wired_of_reachable h) hok hs he).2.kept ha hr)
  · exact .inr (.ended he)

open Sample in
/-- Node 2 sends the handle of an actor of node 3, and the proxy of the sender is killed. Its
erase callback leaves the other proxy alone. -/
theorem proxy_stays_other : ∃ s s', Broker.Reachable (fun s i => erasedFirst s i = true) s ∧
    Task.eraseProxy 1 (node 2) 1 ∈ s.tasks ∧ s.step (.runTask 0) = some s' ∧
    (s'.anchor (node 3) 5 = some 0 ∧ s'.heap[0]? = s.heap[0]? ∨
      Removed s (node 3) 5 s' (.runTask 0)) := by
  let msg := carries 3 5
  obtain ⟨s, hrun, hs⟩ := exists_run
    (fun s i => if erasedFirst s i = true then Broker.step s i else none) (broker 1)
    [dials 7, hears 7 (serverHello (node 2)), hears 7 (dispatches (node 2) (node 1) msg),
      reads 7 msg.bytes, hears 7 ⟨.killProxyInstance, 0, 1, node 2, node 1, 4, 0⟩]
    (fun s => s.tasks = [Task.eraseProxy 1 (node 2) 1] ∧ s.anchor (node 3) 5 = some 0 ∧
      s.enabled (.runTask 0) = true) (by decide +kernel)
  rw [decide_eq_true_iff] at hs
  have hreach : Broker.Reachable (fun s i => erasedFirst s i = true) s :=
    reach_of_checked_run (broker_reachable 1) hrun
  have hstep : s.step (.runTask 0) = some (s.exec (.runTask 0)) :=
    Broker.step_eq_some.mpr ⟨hs.2.2, rfl⟩
  refine ⟨s, _, hreach, ?_, hstep, proxy_stays hreach rfl hstep hs.2.1⟩
  rw [hs.1]
  exact List.mem_singleton.mpr rfl

open Sample in
/-- The sender of a message has a proxy, which is killed. It sends another message before the
erase callback runs: the callback then kills and erases its new proxy. -/
theorem successor_erased : ¬ ∀ (s s' : Broker) (i : Input) (nid : NodeId) (aid : ActorId)
    (r : ProxyRef), Broker.Reachable anyStep s → s.step i = some s' → s.anchor nid aid = some r →
    s'.anchor nid aid = some r ∧ s'.heap[r]? = s.heap[r]? ∨ Removed s nid aid s' i := by
  intro h
  let hdr := dispatches (node 2) (node 1) infoRequest
  obtain ⟨s, hrun, hs⟩ := exists_run Broker.step (broker 1)
    [dials 7, hears 7 (serverHello (node 2)), hears 7 hdr, reads 7 infoRequest.bytes,
      hears 7 ⟨.killProxyInstance, 0, 1, node 2, node 1, 4, 0⟩, hears 7 hdr,
      reads 7 infoRequest.bytes]
    (fun s => s.enabled (.runTask 0) = true ∧ s.anchor (node 2) 4 = some 1 ∧
      (s.exec (.runTask 0)).anchor (node 2) 4 = none ∧
      (s.exec (.runTask 0)).exitReason = ExitReason.notExited) (by decide +kernel)
  rw [decide_eq_true_iff] at hs
  obtain ⟨he, ha, hgone, hrunning⟩ := hs
  rcases h s _ (.runTask 0) (node 2) 4 1 (reach_of_run (broker_reachable 1) hrun)
    (Broker.step_eq_some.mpr ⟨he, rfl⟩) ha with hkept | hr
  · rw [hgone] at hkept
    cases hkept.1
  · cases hr with
    | ended hend => exact hend hrunning

end BoostActor
