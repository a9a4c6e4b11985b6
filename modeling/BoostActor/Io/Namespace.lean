import BoostActor.Io.Kept

/-!
# The actor namespace

What the operations of `actor_namespace` do to the proxies it holds, stated with
`anchor` (the proxy of an entry) and `heap` (the proxies themselves).

* `anchor_setAnchor`, `anchor_eraseProxy`, `anchor_eraseNode` — the entries after
  an update;
* `Kills` — the proxies of some keys are killed and erased, the others stay;
* `Quiet.liveProxy` — side activities never lose a live proxy.
-/

namespace BoostActor

open Lib

variable {s s' : Broker}

namespace Broker

/-- The anchor of an entry of one node. -/
def entry (submap : Option (UMap ActorId (Option ProxyRef))) (aid : ActorId) : Option ProxyRef :=
  (submap.bind (·.find? aid)).join

/-- The anchor of a handle is the entry of its node's submap. -/
theorem anchor_eq (nid : NodeId) (aid : ActorId) :
    s.anchor nid aid = entry (s.proxies.find? nid) aid := rfl

theorem anchor_congr {nid nid' : NodeId} (h : (nid == nid') = true) (aid : ActorId) :
    s.anchor nid aid = s.anchor nid' aid := by
  rw [anchor_eq, anchor_eq, UMap.find?_congr _ h]

theorem anchor_of_proxies (h : s'.proxies = s.proxies) (nid : NodeId) (aid : ActorId) :
    s'.anchor nid aid = s.anchor nid aid := by
  rw [anchor_eq, anchor_eq, h]

/-- Creating an entry without anchor. -/
theorem anchor_reserve (nid nid' : NodeId) (aid aid' : ActorId) :
    (s.reserve nid aid).anchor nid' aid' = s.anchor nid' aid' := by
  rw [anchor_eq, anchor_eq]
  show entry ((s.proxies.set nid _).find? nid') aid' = _
  rw [UMap.find?_set]
  split
  · next hk =>
    rw [← UMap.find?_congr _ hk]
    simp only [entry, Option.bind_some, UMap.find?_emplace]
    cases hsub : s.proxies.find? nid with
    | none =>
      simp only [Option.getD_none, UMap.find?_empty, Option.none_or, Option.bind_none]
      split <;> rfl
    | some submap =>
      simp only [Option.getD_some, Option.bind_some]
      cases submap.find? aid' with
      | some e => rfl
      | none =>
        rw [Option.none_or]
        split <;> rfl
  · rfl

/-- Storing a proxy in its entry. -/
theorem anchor_setAnchor (nid nid' : NodeId) (aid aid' : ActorId) (r : ProxyRef) :
    (s.setAnchor nid aid r).anchor nid' aid' =
      if (nid == nid') = true ∧ aid = aid' ∧ s.proxies.contains nid = true then some r
      else s.anchor nid' aid' := by
  rw [anchor_eq, anchor_eq]
  show entry ((s.proxies.adjust nid _).find? nid') aid' = _
  rw [UMap.find?_adjust]
  by_cases hk : (nid == nid') = true
  · rw [if_pos hk, UMap.contains, UMap.find?_congr _ hk]
    cases s.proxies.find? nid' with
    | none => simp [entry]
    | some submap =>
      simp only [Option.map_some, entry, Option.bind_some, UMap.find?_set, beq_iff_eq]
      by_cases ha : aid = aid'
      · simp [ha, hk]
      · simp [ha]
  · rw [if_neg hk, if_neg fun h => hk h.1]

/-- Resetting an anchor leaves the map alone. -/
theorem reset_proxies (r : ProxyRef) (rsn : ExitReason) : (s.reset r rsn).proxies = s.proxies := by
  unfold reset
  split
  · rfl
  · split <;> rfl

/-- Resetting an entry leaves the map alone. -/
theorem resetEntry_proxies (e : Option ProxyRef) (rsn : ExitReason) :
    (s.resetEntry e rsn).proxies = s.proxies := by
  cases e with
  | none => rfl
  | some r => exact reset_proxies r rsn

/-- Resetting all entries of a node leaves the map alone. -/
theorem resetAll_proxies (es : List (ActorId × Option ProxyRef)) :
    (s.resetAll es).proxies = s.proxies := by
  induction es generalizing s with
  | nil => rfl
  | cons e es ih => exact ih.trans (resetEntry_proxies e.2 _)

/-- Erasing an entry. -/
theorem anchor_eraseProxy (nid nid' : NodeId) (aid aid' : ActorId) (rsn : ExitReason) :
    (s.eraseProxy nid aid rsn).anchor nid' aid' =
      if (nid == nid') = true ∧ aid = aid' then none else s.anchor nid' aid' := by
  unfold eraseProxy
  cases hsub : s.proxies.find? nid with
  | none =>
    dsimp only
    split
    · next hk => rw [anchor_eq, ← UMap.find?_congr _ hk.1, hsub]; rfl
    · rfl
  | some submap =>
    dsimp only
    cases hent : submap.find? aid with
    | none =>
      dsimp only
      split
      · next hk =>
        rw [anchor_eq, ← UMap.find?_congr _ hk.1, hsub, ← hk.2]
        simp [entry, hent]
      · rfl
    | some e =>
      dsimp only
      rw [anchor_eq, anchor_eq]
      dsimp only
      rw [resetEntry_proxies]
      -- an emptied submap is erased along with its node
      have hfind : (if (submap.erase aid).entries.isEmpty = true then s.proxies.erase nid
          else s.proxies.set nid (submap.erase aid)).find? nid' =
          if (nid == nid') = true then
            if (submap.erase aid).entries.isEmpty = true then none else some (submap.erase aid)
          else s.proxies.find? nid' := by
        split
        · rw [UMap.find?_erase]
        · rw [UMap.find?_set]
      rw [hfind]
      by_cases hk : (nid == nid') = true
      · rw [if_pos hk, ← UMap.find?_congr _ hk, hsub]
        have hsub' : entry (if (submap.erase aid).entries.isEmpty = true then none
            else some (submap.erase aid)) aid' = ((submap.erase aid).find? aid').join := by
          split
          · next hempty =>
            rw [UMap.find?_of_isEmpty hempty]
            rfl
          · rfl
        rw [hsub', UMap.find?_erase]
        by_cases ha : aid = aid'
        · rw [if_pos (beq_iff_eq.mpr ha), if_pos ⟨hk, ha⟩]
          rfl
        · rw [if_neg (by simpa using ha), if_neg fun h => ha h.2]
          rfl
      · rw [if_neg hk, if_neg fun h => hk h.1]

/-- Erasing all entries of a node. -/
theorem anchor_eraseNode (nid nid' : NodeId) (aid' : ActorId) :
    (s.eraseNode nid).anchor nid' aid' =
      if (nid == nid') = true then none else s.anchor nid' aid' := by
  unfold eraseNode
  cases hsub : s.proxies.find? nid with
  | none =>
    dsimp only
    split
    · next hk => rw [anchor_eq, ← UMap.find?_congr _ hk, hsub]; rfl
    · rfl
  | some submap =>
    dsimp only
    rw [anchor_eq, anchor_eq]
    dsimp only
    rw [resetAll_proxies, UMap.find?_erase]
    split <;> rfl

end Broker

/-! ## Killing proxies -/

/-- A proxy after it was killed. -/
structure Proxy.Killed (p p' : Proxy) : Prop where
  nid : p'.nid = p.nid
  aid : p'.aid = p.aid
  destroyed : p'.destroyed = p.destroyed
  manager : p'.manager = false

/-- Killing a proxy changes nothing but that it is killed. -/
theorem Proxy.killed_kill (p : Proxy) (rsn : ExitReason) : p.Killed (p.kill rsn) := by
  unfold kill
  split <;> exact ⟨rfl, rfl, rfl, rfl⟩

/-- Some of the proxies `refs` are killed; those that exit post their callback. -/
structure Resets (refs : ProxyRef → Prop) (s s' : Broker) : Prop where
  proxies : s'.proxies = s.proxies
  heap : ∀ r, s'.heap[r]? = s.heap[r]? ∨
    ∃ p p', refs r ∧ s.heap[r]? = some p ∧ s'.heap[r]? = some p' ∧ p.Killed p'
  tasks : ∃ ts, s'.tasks = s.tasks ++ ts ∧ ∀ t ∈ ts, ∃ r p rsn,
    t = .eraseProxy r p.nid rsn ∧ refs r ∧ s.heap[r]? = some p

namespace Resets

variable {refs : ProxyRef → Prop}

theorem refl (refs : ProxyRef → Prop) (s : Broker) : Resets refs s s :=
  ⟨rfl, fun _ => Or.inl rfl, [], by simp, by simp⟩

/-- A killed proxy was there before, with the same node. -/
theorem before (h : Resets refs s s') {r : ProxyRef} {p' : Proxy} (hp : s'.heap[r]? = some p') :
    ∃ p, s.heap[r]? = some p ∧ p'.nid = p.nid := by
  rcases h.heap r with he | ⟨p, p₁, -, hp₀, hp₁, hk⟩
  · exact ⟨p', by rw [← he, hp], rfl⟩
  · rw [hp] at hp₁
    cases hp₁
    exact ⟨p, hp₀, hk.nid⟩

/-- Resetting twice is resetting. -/
theorem trans {a b c : Broker} (h : Resets refs a b) (h' : Resets refs b c) :
    Resets refs a c := by
  refine ⟨h'.proxies.trans h.proxies, fun r => ?_, ?_⟩
  · rcases h'.heap r with he' | ⟨p₁, p₂, hr, hp₁, hp₂, hk'⟩
    · rw [he']
      exact h.heap r
    · rcases h.heap r with he | ⟨p, p₁', -, hp, hp₁', hk⟩
      · exact Or.inr ⟨p₁, p₂, hr, by rw [← he, hp₁], hp₂, hk'⟩
      · -- killed twice
        rw [hp₁] at hp₁'
        cases hp₁'
        exact Or.inr ⟨p, p₂, hr, hp, hp₂, hk'.nid.trans hk.nid, hk'.aid.trans hk.aid,
          hk'.destroyed.trans hk.destroyed, hk'.manager⟩
  · obtain ⟨ts, ht, hts⟩ := h.tasks
    obtain ⟨ts', ht', hts'⟩ := h'.tasks
    refine ⟨ts ++ ts', by rw [ht', ht, List.append_assoc], fun t hmem => ?_⟩
    rcases List.mem_append.mp hmem with hmem | hmem
    · exact hts t hmem
    · obtain ⟨r, p', rsn, rfl, hr, hp'⟩ := hts' t hmem
      obtain ⟨p, hp, hnid⟩ := h.before hp'
      exact ⟨r, p, rsn, by rw [hnid], hr, hp⟩

/-- Fewer proxies may have been reset than the frame allows. -/
theorem weaken {refs' : ProxyRef → Prop} (h : Resets refs s s') (hr : ∀ r, refs r → refs' r) :
    Resets refs' s s' := by
  obtain ⟨ts, ht, hts⟩ := h.tasks
  refine ⟨h.proxies, fun r => ?_, ts, ht, fun t hmem => ?_⟩
  · rcases h.heap r with he | ⟨p, p', hr', hp⟩
    · exact Or.inl he
    · exact Or.inr ⟨p, p', hr r hr', hp⟩
  · obtain ⟨r, p, rsn, ht, hr', hp⟩ := hts t hmem
    exact ⟨r, p, rsn, ht, hr r hr', hp⟩

/-- Resetting an anchor kills its proxy. -/
theorem reset (r : ProxyRef) (rsn : ExitReason) : Resets (· = r) s (s.reset r rsn) := by
  unfold Broker.reset
  split
  · exact refl _ s
  · next p hp =>
    split
    · exact refl _ s
    · refine ⟨rfl, fun r' => ?_, ?_⟩
      · show (s.heap.set r _)[r']? = _ ∨ _
        by_cases he : r = r'
        · subst he
          have hlt := (List.getElem?_eq_some_iff.mp hp).1
          refine Or.inr ⟨p, p.kill rsn, rfl, hp, ?_, p.killed_kill rsn⟩
          show (s.heap.set r _)[r]? = _
          rw [List.getElem?_set_self hlt]
        · exact Or.inl (by rw [List.getElem?_set_ne he])
      · refine ⟨_, rfl, fun t hmem => ?_⟩
        split at hmem
        · exact ⟨r, p, rsn, List.mem_singleton.mp hmem, rfl, hp⟩
        · cases hmem

/-- Resetting an entry kills the proxy that it refers to. -/
theorem resetEntry (e : Option ProxyRef) (rsn : ExitReason) :
    Resets (fun r => e = some r) s (s.resetEntry e rsn) := by
  cases e with
  | none => exact refl _ s
  | some r => exact (reset r rsn).weaken fun _ h => by rw [h]

/-- Resetting all entries kills the proxies that they refer to. -/
theorem resetAll (es : List (ActorId × Option ProxyRef)) :
    Resets (fun r => ∃ aid, (aid, some r) ∈ es) s (s.resetAll es) := by
  induction es generalizing s with
  | nil => exact refl _ s
  | cons e es ih =>
    let s₁ := s.resetEntry e.2 ExitReason.remoteLinkUnreachable
    have h₁ : Resets (fun r => ∃ aid, (aid, some r) ∈ e :: es) s s₁ :=
      (resetEntry e.2 _).weaken fun r hr => ⟨e.1, by rw [← hr]; exact List.mem_cons_self ..⟩
    have h₂ : Resets (fun r => ∃ aid, (aid, some r) ∈ e :: es) s₁ (s₁.resetAll es) :=
      ih.weaken fun _ ⟨aid, hmem⟩ => ⟨aid, List.mem_cons_of_mem _ hmem⟩
    exact h₁.trans h₂

end Resets

/-- The proxies under the given keys are killed and their entries erased; the rest
of the namespace stays. -/
structure Kills (keys : NodeId → ActorId → Prop) (s s' : Broker) : Prop where
  gone : ∀ {nid aid}, keys nid aid → s'.anchor nid aid = none
  kept : ∀ {nid aid}, ¬ keys nid aid → s'.anchor nid aid = s.anchor nid aid
  heap : ∀ r, s'.heap[r]? = s.heap[r]? ∨ ∃ nid aid p p', keys nid aid ∧
    s.anchor nid aid = some r ∧ s.heap[r]? = some p ∧ s'.heap[r]? = some p' ∧ p.Killed p'
  tasks : ∃ ts, s'.tasks = s.tasks ++ ts ∧ ∀ t ∈ ts, ∃ r p rsn,
    t = .eraseProxy r p.nid rsn ∧ s.heap[r]? = some p ∧
      ∃ nid aid, keys nid aid ∧ s.anchor nid aid = some r

namespace Kills

variable {keys : NodeId → ActorId → Prop}

/-- Only the namespace, the proxies and the tasks matter. -/
theorem congr {t : Broker} (h : Kills keys s s') (hp : t.proxies = s'.proxies)
    (hh : t.heap = s'.heap) (ht : t.tasks = s'.tasks) : Kills keys s t := by
  refine ⟨fun hk => ?_, fun hk => ?_, ?_, ?_⟩
  · rw [Broker.anchor_of_proxies hp]
    exact h.gone hk
  · rw [Broker.anchor_of_proxies hp]
    exact h.kept hk
  · rw [hh]
    exact h.heap
  · rw [ht]
    exact h.tasks

/-- Killing the proxies of some entries, which are erased then. -/
theorem of_resets {refs : ProxyRef → Prop} {s₁ : Broker} (h : Resets refs s s₁)
    (hrefs : ∀ r, refs r → ∃ nid aid, keys nid aid ∧ s.anchor nid aid = some r)
    (hh : s'.heap = s₁.heap) (ht : s'.tasks = s₁.tasks)
    (hgone : ∀ {nid aid}, keys nid aid → s'.anchor nid aid = none)
    (hkept : ∀ {nid aid}, ¬ keys nid aid → s'.anchor nid aid = s.anchor nid aid) :
    Kills keys s s' := by
  obtain ⟨ts, hts, hts'⟩ := h.tasks
  refine ⟨hgone, hkept, fun r => ?_, ts, by rw [ht, hts], fun t hmem => ?_⟩
  · rw [hh]
    rcases h.heap r with he | ⟨p, p', hr, hp, hp', hk⟩
    · exact Or.inl he
    · obtain ⟨nid, aid, hkey, ha⟩ := hrefs r hr
      exact Or.inr ⟨nid, aid, p, p', hkey, ha, hp, hp', hk⟩
  · obtain ⟨r, p, rsn, ht, hr, hp⟩ := hts' t hmem
    exact ⟨r, p, rsn, ht, hp, hrefs r hr⟩

/-- Erasing a proxy kills its handle. -/
theorem eraseProxy (nid : NodeId) (aid : ActorId) (rsn : ExitReason) :
    Kills (fun n a => (nid == n) = true ∧ aid = a) s (s.eraseProxy nid aid rsn) := by
  have hgone : ∀ {n a}, (nid == n) = true ∧ aid = a →
      (s.eraseProxy nid aid rsn).anchor n a = none := by
    intro n a hk
    rw [Broker.anchor_eraseProxy, if_pos hk]
  have hkept : ∀ {n a}, ¬ ((nid == n) = true ∧ aid = a) →
      (s.eraseProxy nid aid rsn).anchor n a = s.anchor n a := by
    intro n a hk
    rw [Broker.anchor_eraseProxy, if_neg hk]
  have hnone : s.eraseProxy nid aid rsn = s →
      Kills (fun n a => (nid == n) = true ∧ aid = a) s (s.eraseProxy nid aid rsn) := by
    intro he
    rw [he] at hgone hkept ⊢
    exact of_resets (Resets.refl (fun _ => False) s) (fun _ h => h.elim) rfl rfl hgone hkept
  -- there may be nothing to erase, in which case nothing is killed
  cases hsub : s.proxies.find? nid with
  | none => exact hnone (by rw [Broker.eraseProxy, hsub])
  | some submap =>
    cases hent : submap.find? aid with
    | none =>
      apply hnone
      rw [Broker.eraseProxy, hsub]
      dsimp only
      rw [hent]
    | some e =>
      refine of_resets (Resets.resetEntry e rsn) (fun r hr => ⟨nid, aid, ⟨BEq.rfl, rfl⟩, ?_⟩)
        ?_ ?_ hgone hkept
      · rw [Broker.anchor_eq, hsub, Broker.entry, Option.bind_some, hent, hr]
        rfl
      · rw [Broker.eraseProxy, hsub]
        dsimp only
        rw [hent]
      · rw [Broker.eraseProxy, hsub]
        dsimp only
        rw [hent]

/-- Erasing a node kills the handles of that node. -/
theorem eraseNode (nid : NodeId) : Kills (fun n _ => (nid == n) = true) s (s.eraseNode nid) := by
  have hgone : ∀ {n : NodeId} {a : ActorId}, (nid == n) = true →
      (s.eraseNode nid).anchor n a = none := by
    intro n a hk
    rw [Broker.anchor_eraseNode, if_pos hk]
  have hkept : ∀ {n : NodeId} {a : ActorId}, ¬ (nid == n) = true →
      (s.eraseNode nid).anchor n a = s.anchor n a := by
    intro n a hk
    rw [Broker.anchor_eraseNode, if_neg hk]
  cases hsub : s.proxies.find? nid with
  | none =>
    have he : s.eraseNode nid = s := by rw [Broker.eraseNode, hsub]
    rw [he] at hgone hkept ⊢
    exact of_resets (Resets.refl (fun _ => False) s) (fun _ h => h.elim) rfl rfl hgone hkept
  | some submap =>
    refine of_resets (Resets.resetAll submap.entries) (fun r ⟨aid, hmem⟩ =>
      ⟨nid, aid, BEq.rfl, ?_⟩) ?_ ?_ hgone hkept
    · rw [Broker.anchor_eq, hsub, Broker.entry, Option.bind_some, UMap.find?_of_mem hmem]
      rfl
    · rw [Broker.eraseNode, hsub]
    · rw [Broker.eraseNode, hsub]

/-- Killing the same keys again does nothing. -/
theorem trans {a b c : Broker} (h : Kills keys a b) (h' : Kills keys b c) : Kills keys a c := by
  have hempty : ∀ {nid aid r}, keys nid aid → b.anchor nid aid ≠ some r := by
    intro nid aid r hk he
    rw [h.gone hk] at he
    cases he
  refine ⟨h'.gone, fun hk => (h'.kept hk).trans (h.kept hk), fun r => ?_, ?_⟩
  · rcases h'.heap r with he | ⟨nid, aid, _, _, hk, ha, -⟩
    · rw [he]
      exact h.heap r
    · exact absurd ha (hempty hk)
  · obtain ⟨ts, ht, hts⟩ := h.tasks
    obtain ⟨ts', ht', hts'⟩ := h'.tasks
    refine ⟨ts ++ ts', by rw [ht', ht, List.append_assoc], fun t hmem => ?_⟩
    rcases List.mem_append.mp hmem with hmem | hmem
    · exact hts t hmem
    · obtain ⟨_, _, _, -, -, nid, aid, hk, ha⟩ := hts' t hmem
      exact absurd ha (hempty hk)

/-- Purging a connected node kills the handles of that node. -/
theorem purgeState {nid : NodeId} (hk : s.tbl.connected nid = true) :
    Kills (fun n _ => (nid == n) = true) s (s.purgeState nid) := by
  have hne : s.tbl.lookupDirect nid ≠ ConnectionHandle.invalid := by
    simpa [RoutingTable.connected] using hk
  rw [Broker.purgeState, if_neg hne]
  exact (eraseNode nid).congr rfl rfl rfl

/-- Erasing the direct route to a connected node kills the handles of that node. -/
theorem eraseDirect {nid : NodeId} {hdl : ConnectionHandle}
    (hb : s.tbl.directByHdl.find? hdl = some nid) (hk : s.tbl.connected nid = true) :
    Kills (fun n _ => (nid == n) = true) s (s.eraseDirect hdl) := by
  rw [Broker.eraseDirect_eq hb]
  exact (purgeState hk).congr rfl rfl rfl

end Kills

/-! ## Live proxies -/

theorem Broker.liveProxy_eq_some {nid : NodeId} {aid : ActorId} {r : ProxyRef} :
    s.liveProxy nid aid = some r ↔ s.anchor nid aid = some r ∧ s.live r = true := by
  rw [liveProxy, Option.filter_eq_some_iff]

theorem Broker.liveProxy_congr {nid nid' : NodeId} (h : (nid == nid') = true) (aid : ActorId) :
    s.liveProxy nid aid = s.liveProxy nid' aid := by
  rw [liveProxy, anchor_congr h, liveProxy]

/-- The entries after a new proxy was adopted. -/
theorem Broker.anchor_adopted (hdl hdl' : ConnectionHandle) (nid nid' : NodeId)
    (aid aid' : ActorId) : (s.adopted hdl hdl' nid aid).anchor nid' aid' =
      if (nid == nid') = true ∧ aid = aid' ∧ s.proxies.contains nid = true then
        some s.heap.length
      else s.anchor nid' aid' :=
  anchor_setAnchor nid nid' aid aid' s.heap.length

/-- A new proxy is not destroyed. -/
theorem Broker.live_of_append {p : Proxy} {r : ProxyRef} (hh : s'.heap = s.heap ++ [p])
    (hp : p.destroyed = false) (hl : s.live r = true) : s'.live r = true := by
  rw [live, hh, List.getElem?_append]
  split
  · exact hl
  · cases r - s.heap.length with
    | zero => simp [hp]
    | succ n => rfl

/-- An act keeps every live proxy. -/
theorem Act.liveProxy {T : Turn} (h : Act T s s') {nid : NodeId} {aid : ActorId} {r : ProxyRef}
    (hl : s.liveProxy nid aid = some r) : s'.liveProxy nid aid = some r := by
  have hl' := Broker.liveProxy_eq_some.mp hl
  have hsame : s'.anchor nid aid = s.anchor nid aid → s'.heap = s.heap →
      s'.liveProxy nid aid = some r := by
    intro ha hh
    refine Broker.liveProxy_eq_some.mpr ⟨by rw [ha, hl'.1], ?_⟩
    rw [Broker.live, hh]
    exact hl'.2
  cases h with
  | addProxy =>
    exact Broker.liveProxy_eq_some.mpr ⟨hl'.1, Broker.live_of_append rfl rfl hl'.2⟩
  | reserve => exact hsame (Broker.anchor_reserve _ _ _ _) rfl
  | @adopt n a _ _ _ _ _ _ hnone =>
    -- the entry of the new proxy was free
    have hk : ¬ ((n == nid) = true ∧ a = aid ∧ s.proxies.contains n = true) := by
      rintro ⟨hn, rfl, -⟩
      rw [Broker.liveProxy_congr hn, hl] at hnone
      cases hnone
    refine Broker.liveProxy_eq_some.mpr ⟨?_, Broker.live_of_append rfl rfl hl'.2⟩
    rw [Broker.anchor_adopted, if_neg hk, hl'.1]
  | _ => exact hsame rfl rfl

/-- A live proxy stays where it is. -/
theorem Quiet.liveProxy_kept {T : Turn} (h : Quiet T s s') {nid : NodeId} {aid : ActorId}
    {r : ProxyRef} (hl : s.liveProxy nid aid = some r) : s'.liveProxy nid aid = some r :=
  h.preserves (P := fun b => b.liveProxy nid aid = some r) (fun _ _ hp ha => ha.liveProxy hp) hl

/-- Side activities never lose a live proxy. -/
theorem Quiet.liveProxy {T : Turn} (h : Quiet T s s') {nid : NodeId} {aid : ActorId}
    (hl : s'.liveProxy nid aid = none) : s.liveProxy nid aid = none := by
  cases hs : s.liveProxy nid aid with
  | none => rfl
  | some r =>
    rw [h.liveProxy_kept hs] at hl
    cases hl

end BoostActor
