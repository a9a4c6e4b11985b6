import BoostActor.Lib.Run
import BoostActor.Lib.UnorderedMap
import BoostActor.Core.NodeId
import BoostActor.Core.MailboxElement
import BoostActor.Io.Header

/-!
# The proxy table

`actor_namespace` on its own (`actor_namespace.cpp`), with any backend: `make_proxy` may return
a null pointer for any request. The table holds anchors, which do not keep a proxy alive: a
proxy expires when its last reference goes away, at any time.

* `Tracks` — the table holds the proxies that were created and not removed since;
* `sound_of_inOrder` — what the operations rely on, in every run in which no proxy that cannot
  be made is asked for, and `get` leaves a proxy of its node behind.
-/

namespace BoostActor

open Lib

/-- A proxy that was created for an actor. -/
structure StoredProxy where
  node : NodeId
  aid : ActorId
  ref : ProxyRef
deriving DecidableEq, Repr

/-- A `proxy_map`. An entry may lack an anchor. The source has an ordered map here; no operation
depends on the order. -/
abbrev ProxyMap := UMap ActorId (Option ProxyRef)

/-- An `actor_namespace`, with the proxies that have expired or were killed by it. -/
structure ActorNamespace where
  proxies : UMap NodeId ProxyMap
  expired : List ProxyRef
  killed : List (ProxyRef × ExitReason)
  /-- the proxies that were created and not removed since -/
  stored : List StoredProxy

/-- A call of a member function, or the end of a proxy. -/
inductive NamespaceCall where
  | get (node : NodeId) (aid : ActorId)
  /-- `get_or_put`, with what `make_proxy` returns if it is called -/
  | getOrPut (node : NodeId) (aid : ActorId) (made : Option ProxyRef)
  | countProxies (node : NodeId)
  | eraseNode (node : NodeId)
  | eraseProxy (node : NodeId) (aid : ActorId) (rsn : ExitReason)
  | clear
  | expire (ref : ProxyRef)
deriving DecidableEq, Repr

-- -------------------------
-- Operations of the source
-- -------------------------

namespace StoredProxy

/-- The proxy was created for this actor. -/
def isFor (node : NodeId) (aid : ActorId) (p : StoredProxy) : Bool :=
  p.node == node && p.aid == aid

/-- A proxy is created: in place of the one for the same actor, if there is one. -/
def put (node : NodeId) (aid : ActorId) (ref : ProxyRef) (ps : List StoredProxy) :
    List StoredProxy :=
  if ps.any (isFor node aid) then ps.map fun p => if p.isFor node aid then { p with ref } else p
  else ps ++ [⟨node, aid, ref⟩]

/-- The proxy for an actor is removed. -/
def remove (node : NodeId) (aid : ActorId) (ps : List StoredProxy) : List StoredProxy :=
  ps.filter fun p => !p.isFor node aid

/-- The proxies of a node. -/
def ofNode (node : NodeId) (ps : List StoredProxy) : List StoredProxy :=
  ps.filter fun p => p.node == node

end StoredProxy

namespace ActorNamespace

def initial : ActorNamespace where
  proxies := UMap.empty
  expired := []
  killed := []
  stored := []

/-- `proxies_[node]`, which creates what is missing. -/
def submap (s : ActorNamespace) (node : NodeId) : ProxyMap :=
  (s.proxies.find? node).getD UMap.empty

/-- `proxy_entry::reset` -/
def reset (s : ActorNamespace) (entry : Option ProxyRef) (rsn : ExitReason) : ActorNamespace :=
  match entry with
  | none => s
  | some r => if r ∈ s.expired then s else { s with killed := s.killed ++ [(r, rsn)] }

/-- `~proxy_entry` for each entry of a submap. -/
def resetAll (s : ActorNamespace) (entries : List (ActorId × Option ProxyRef)) :
    ActorNamespace :=
  entries.foldl (fun s e => s.reset e.2 ExitReason.remoteLinkUnreachable) s

/-- `count_proxies` -/
def countProxies (s : ActorNamespace) (node : NodeId) : Nat :=
  match s.proxies.find? node with
  | some submap => submap.entries.length
  | none => 0

/-- `get`; no result means that a null anchor is dereferenced. -/
def get (s : ActorNamespace) (node : NodeId) (aid : ActorId) :
    Option (Option ProxyRef × ActorNamespace) :=
  let submap := s.submap node
  match submap.find? aid with
  | none => some (none, { s with proxies := s.proxies.set node submap })
  | some none => none
  | some (some r) =>
    if r ∈ s.expired then
      -- instance is expired
      some (none, { s with
        proxies := s.proxies.set node (submap.erase aid)
        stored := StoredProxy.remove node aid s.stored })
    else some (some r, { s with proxies := s.proxies.set node submap })

/-- `get_or_put`, where `make_proxy` returns `made`. -/
def getOrPut (s : ActorNamespace) (node : NodeId) (aid : ActorId) (made : Option ProxyRef) :
    Option ProxyRef × ActorNamespace :=
  let submap := (s.submap node).emplace aid none
  match (submap.find? aid).join.filter (· ∉ s.expired) with
  | some r => (some r, { s with proxies := s.proxies.set node submap })
  | none =>
    -- replace anchor if we've created one using the default ctor or if we've found an expired one
    match made with
    | some r => (some r, { s with
        proxies := s.proxies.set node (submap.set aid (some r))
        stored := StoredProxy.put node aid r s.stored })
    | none => (none, { s with proxies := s.proxies.set node submap })

/-- `empty` -/
def empty (s : ActorNamespace) : Bool := s.proxies.entries.isEmpty

/-- `erase(inf)` -/
def eraseNode (s : ActorNamespace) (node : NodeId) : ActorNamespace :=
  { s.resetAll (s.submap node).entries with
    proxies := s.proxies.erase node
    stored := s.stored.filter fun p => !(p.node == node) }

/-- `erase(inf, aid, rsn)` -/
def eraseProxy (s : ActorNamespace) (node : NodeId) (aid : ActorId) (rsn : ExitReason) :
    ActorNamespace :=
  match s.proxies.find? node with
  | none => s
  | some submap =>
    match submap.find? aid with
    | none => s
    | some entry =>
      { s.reset entry rsn with
        proxies := if (submap.erase aid).entries.isEmpty then s.proxies.erase node
          else s.proxies.set node (submap.erase aid)
        stored := StoredProxy.remove node aid s.stored }

/-- `clear` -/
def clear (s : ActorNamespace) : ActorNamespace :=
  { s.resetAll (s.proxies.entries.flatMap fun e => e.2.entries) with
    proxies := UMap.empty
    stored := [] }

/-- A proxy that is returned to the caller has not expired. -/
def step (s : ActorNamespace) : NamespaceCall → Option ActorNamespace
  | .get node aid => (s.get node aid).map (·.2)
  | .getOrPut node aid made =>
    if made.all (· ∉ s.expired) then some (s.getOrPut node aid made).2 else none
  | .countProxies _ => some s
  | .eraseNode node => some (s.eraseNode node)
  | .eraseProxy node aid rsn => some (s.eraseProxy node aid rsn)
  | .clear => some s.clear
  | .expire r => some { s with expired := r :: s.expired }

/-- What the operations rely on and what they tell. -/
structure Sound (s : ActorNamespace) : Prop where
  anchors : ∀ node submap, s.proxies.find? node = some submap → ∀ e ∈ submap.entries, e.2 ≠ none
  submaps : ∀ node submap, s.proxies.find? node = some submap → submap.entries ≠ []
  get : ∀ node aid, (s.get node aid).isSome = true
  count : ∀ node, s.countProxies node = (StoredProxy.ofNode node s.stored).length
  empty : s.empty = true ↔ s.stored = []

/-- The node keeps a proxy after `get` has removed an expired one, and `get_or_put` finds a
proxy or can make one. -/
def InOrder (s : ActorNamespace) : NamespaceCall → Prop
  | .get node aid =>
    ∃ p ∈ s.stored, (p.node == node) = true ∧ (p.aid = aid → p.ref ∉ s.expired)
  | .getOrPut node aid made => s.stored.any (StoredProxy.isFor node aid) = true ∨ made ≠ none
  | _ => True

instance (s : ActorNamespace) : ∀ c, Decidable (s.InOrder c)
  | .get node aid => inferInstanceAs (Decidable
      (∃ p ∈ s.stored, (p.node == node) = true ∧ (p.aid = aid → p.ref ∉ s.expired)))
  | .getOrPut _ _ _ => inferInstanceAs (Decidable (_ ∨ _))
  | .countProxies _ | .eraseNode _ | .eraseProxy _ _ _ | .clear | .expire _ => isTrue trivial

-- -------------------------
-- Entries
-- -------------------------

variable {s s' : ActorNamespace} {node : NodeId} {aid : ActorId}

/-- The entries of a node. -/
def rows (m : UMap NodeId ProxyMap) (node : NodeId) : List (ActorId × Option ProxyRef) :=
  ((m.find? node).map (·.entries)).getD []

/-- The entries of a node, if its proxies are the only ones. -/
def expected (ps : List StoredProxy) (node : NodeId) : List (ActorId × Option ProxyRef) :=
  (StoredProxy.ofNode node ps).map fun p => (p.aid, some p.ref)

/-- No node without entries. -/
def Full (m : UMap NodeId ProxyMap) : Prop :=
  ∀ node submap, m.find? node = some submap → submap.entries ≠ []

/-- Assigning the submap of a node sets the entries of that node. -/
theorem rows_set (m : UMap NodeId ProxyMap) (node k : NodeId) (submap : ProxyMap) :
    rows (m.set node submap) k =
      if (node == k) = true then submap.entries else rows m k := by
  rw [rows, UMap.find?_set]
  by_cases hk : (node == k) = true
  · simp [hk]
  · simp [hk, rows]

/-- Erasing a node erases its entries. -/
theorem rows_erase (m : UMap NodeId ProxyMap) (node k : NodeId) :
    rows (m.erase node) k = if (node == k) = true then [] else rows m k := by
  rw [rows, UMap.find?_erase]
  by_cases hk : (node == k) = true
  · simp [hk]
  · simp [hk, rows]

/-- The submap that `operator[]` gives holds the entries of the node. -/
theorem submap_entries (s : ActorNamespace) (node : NodeId) :
    (s.submap node).entries = rows s.proxies node := by
  unfold submap rows
  cases s.proxies.find? node with
  | none => rfl
  | some submap => rfl

/-- A submap that is found holds the entries of the node. -/
theorem rows_of_find? {m : UMap NodeId ProxyMap} {submap : ProxyMap}
    (h : m.find? node = some submap) : rows m node = submap.entries := by
  rw [rows, h]
  rfl

/-- Assigning a submap that is not empty leaves no node with an empty submap. -/
theorem Full.set {m : UMap NodeId ProxyMap} (h : Full m) (node : NodeId) {submap : ProxyMap}
    (hne : submap.entries ≠ []) : Full (m.set node submap) := by
  intro k found hfound
  rw [UMap.find?_set] at hfound
  split_ifs at hfound
  · rw [Option.some.injEq] at hfound
    rwa [← hfound]
  · exact h k found hfound

/-- Erasing a node leaves no node with an empty submap. -/
theorem Full.erase {m : UMap NodeId ProxyMap} (h : Full m) (node : NodeId) :
    Full (m.erase node) := by
  intro k found hfound
  rw [UMap.find?_erase] at hfound
  split_ifs at hfound
  exact h k found hfound

-- -------------------------
-- Proxies that were created
-- -------------------------

/-- A proxy is expected under the node it is for. -/
theorem expected_cons (p : StoredProxy) (ps : List StoredProxy) (k : NodeId) :
    expected (p :: ps) k =
      if (p.node == k) = true then (p.aid, some p.ref) :: expected ps k else expected ps k := by
  unfold expected StoredProxy.ofNode
  rw [List.filter_cons]
  split_ifs
  · rfl
  · rfl

/-- Proxies of two lists are expected one after the other. -/
theorem expected_append (ps qs : List StoredProxy) (k : NodeId) :
    expected (ps ++ qs) k = expected ps k ++ expected qs k := by
  unfold expected StoredProxy.ofNode
  rw [List.filter_append, List.map_append]

theorem expected_congr (ps : List StoredProxy) {k : NodeId} (hk : (node == k) = true) :
    expected ps node = expected ps k := by
  unfold expected StoredProxy.ofNode
  simp only [BEq.congr_right hk]

/-- An entry is expected exactly if a proxy of the node was stored for it. -/
theorem mem_expected {ps : List StoredProxy} {e : ActorId × Option ProxyRef} :
    e ∈ expected ps node ↔ ∃ p ∈ ps, (p.node == node) = true ∧ e = (p.aid, some p.ref) := by
  unfold expected StoredProxy.ofNode
  rw [List.mem_map]
  refine ⟨fun ⟨p, hp, he⟩ => ?_, fun ⟨p, hp, hnode, he⟩ => ?_⟩
  · obtain ⟨hp, hnode⟩ := List.mem_filter.mp hp
    exact ⟨p, hp, hnode, he.symm⟩
  · exact ⟨p, List.mem_filter.mpr ⟨hp, hnode⟩, he.symm⟩

/-- A proxy of the node `k` is one of every node that is the same key as `k`, and of no
other. -/
theorem same_node {p : StoredProxy} {k : NodeId} (hp : (p.node == k) = true) (node : NodeId) :
    (p.node == node) = (node == k) := by
  rw [BEq.congr_left hp, Bool.eq_iff_iff]
  exact ⟨BEq.symm, BEq.symm⟩

/-- Proxies of the node `k` that are kept for their ids show as such. -/
theorem expected_filter (ps : List StoredProxy) (k : NodeId) (keep : StoredProxy → Bool)
    (keepId : ActorId → Bool) (h : ∀ p, (p.node == k) = true → keep p = keepId p.aid) :
    expected (ps.filter keep) k = (expected ps k).filter fun e => keepId e.1 := by
  unfold expected StoredProxy.ofNode
  rw [List.filter_map, List.filter_filter, List.filter_filter]
  refine congrArg (List.map _) (List.filter_congr fun p _ => ?_)
  cases hp : p.node == k with
  | true => rw [Bool.true_and, Bool.and_true, h p hp]; rfl
  | false => rw [Bool.false_and, Bool.and_false]

/-- Proxies of the node `k` that are replaced show as such, if they stay of their node. -/
theorem expected_map (ps : List StoredProxy) (k : NodeId) (f : StoredProxy → StoredProxy)
    (g : ActorId × Option ProxyRef → ActorId × Option ProxyRef) (hf : ∀ p, (f p).node = p.node)
    (h : ∀ p, (p.node == k) = true → ((f p).aid, some (f p).ref) = g (p.aid, some p.ref)) :
    expected (ps.map f) k = (expected ps k).map g := by
  unfold expected StoredProxy.ofNode
  rw [List.filter_map, List.map_map, List.map_map]
  have hsame : ((fun p : StoredProxy => p.node == k) ∘ f) = fun p => p.node == k := by
    funext p
    rw [Function.comp_apply, hf]
  rw [hsame]
  refine List.map_congr_left fun p hp => ?_
  exact h p (List.mem_filter.mp hp).2

/-- A proxy for an actor shows as an entry. -/
theorem any_isFor (ps : List StoredProxy) (node : NodeId) (aid : ActorId) :
    ps.any (StoredProxy.isFor node aid) = (expected ps node).any fun e => e.1 == aid := by
  induction ps with
  | nil => rfl
  | cons p ps ih =>
    rw [List.any_cons, expected_cons, StoredProxy.isFor]
    by_cases hnode : (p.node == node) = true
    · simp [hnode, ih]
    · simp [hnode, ih]

/-- The entries after a proxy was removed. -/
theorem expected_remove (ps : List StoredProxy) (node k : NodeId) (aid : ActorId) :
    expected (StoredProxy.remove node aid ps) k =
      if (node == k) = true then (expected ps k).filter fun e => !(e.1 == aid)
      else expected ps k := by
  have hkeep : ∀ p : StoredProxy, (p.node == k) = true →
      (!p.isFor node aid) = !(node == k && p.aid == aid) := by
    intro p hp
    rw [StoredProxy.isFor, same_node hp]
  rw [StoredProxy.remove, expected_filter ps k _ (fun a => !(node == k && a == aid)) hkeep]
  cases node == k with
  | true => simp
  | false => simp

/-- The entries after a proxy was created in place of another. -/
theorem expected_replace (ps : List StoredProxy) (node k : NodeId) (aid : ActorId)
    (ref : ProxyRef) :
    expected (ps.map fun p => if p.isFor node aid then { p with ref } else p) k =
      if (node == k) = true then (expected ps k).map (UMap.updateAt aid fun _ => some ref)
      else expected ps k := by
  have hnode : ∀ p : StoredProxy,
      (if p.isFor node aid then { p with ref } else p).node = p.node := by
    intro p
    split_ifs
    · rfl
    · rfl
  cases hk : node == k with
  | true =>
    refine expected_map ps k _ _ hnode fun p hp => ?_
    rw [StoredProxy.isFor, same_node hp, hk, Bool.true_and, UMap.updateAt]
    split_ifs
    · rfl
    · rfl
  | false =>
    refine (expected_map ps k _ id hnode fun p hp => ?_).trans (List.map_id _)
    rw [StoredProxy.isFor, same_node hp, hk]
    rfl

/-- The entries after a proxy was created. -/
theorem expected_put (ps : List StoredProxy) (node k : NodeId) (aid : ActorId) (ref : ProxyRef) :
    expected (StoredProxy.put node aid ref ps) k =
      if (node == k) = true then
        if (expected ps k).any (fun e => e.1 == aid) then
          (expected ps k).map (UMap.updateAt aid fun _ => some ref)
        else expected ps k ++ [(aid, some ref)]
      else expected ps k := by
  unfold StoredProxy.put
  rw [any_isFor]
  by_cases hk : (node == k) = true
  · rw [expected_congr ps hk, if_pos hk]
    split_ifs
    · rw [expected_replace, if_pos hk]
    · rw [expected_append, expected_cons, if_pos hk]
      rfl
  · rw [if_neg hk]
    split_ifs
    · rw [expected_replace, if_neg hk]
    · rw [expected_append, expected_cons, if_neg hk]
      exact List.append_nil _

/-- The entries after the proxies of a node were removed. -/
theorem expected_eraseNode (ps : List StoredProxy) (node k : NodeId) :
    expected (ps.filter fun p => !(p.node == node)) k =
      if (node == k) = true then [] else expected ps k := by
  have hkeep : ∀ p : StoredProxy, (p.node == k) = true → (!(p.node == node)) = !(node == k) := by
    intro p hp
    rw [same_node hp]
  rw [expected_filter ps k _ (fun _ => !(node == k)) hkeep]
  cases node == k with
  | true => simp
  | false => simp

-- -------------------------
-- The table and the proxies
-- -------------------------

/-- The table holds the proxies that were created and not removed since, and nothing else. -/
structure Tracks (s : ActorNamespace) : Prop where
  holds : ∀ node, rows s.proxies node = expected s.stored node
  full : Full s.proxies

theorem tracks_initial : Tracks initial :=
  ⟨fun _ => rfl, fun _ _ h => by cases h⟩

/-- An entry of a submap has an anchor, and its proxy was created for this actor. -/
theorem Tracks.find? (h : Tracks s) {entry : Option ProxyRef}
    (hentry : (s.submap node).find? aid = some entry) :
    ∃ p ∈ s.stored, (p.node == node) = true ∧ p.aid = aid ∧ entry = some p.ref := by
  obtain ⟨e, he, haid, rfl⟩ := UMap.exists_mem_of_find? hentry
  rw [submap_entries, h.holds, mem_expected] at he
  obtain ⟨p, hp, hnode, rfl⟩ := he
  exact ⟨p, hp, hnode, by simpa using haid, rfl⟩

/-- A proxy that was created is found. -/
theorem Tracks.find?_of_mem (h : Tracks s) {p : StoredProxy} (hp : p ∈ s.stored)
    (hnode : (p.node == node) = true) : (s.submap node).find? p.aid = some (some p.ref) := by
  apply UMap.find?_of_mem
  rw [submap_entries, h.holds]
  exact mem_expected.mpr ⟨p, hp, hnode, rfl⟩

/-- A submap of the table has an anchor in every entry. -/
theorem Tracks.anchors (h : Tracks s) {submap : ProxyMap}
    (hsub : s.proxies.find? node = some submap) : ∀ e ∈ submap.entries, e.2 ≠ none := by
  intro e he
  rw [← rows_of_find? hsub, h.holds, mem_expected] at he
  obtain ⟨p, -, -, rfl⟩ := he
  exact Option.some_ne_none _

/-- `get` never meets an entry without an anchor. -/
theorem Tracks.get_isSome (h : Tracks s) (node : NodeId) (aid : ActorId) :
    (s.get node aid).isSome = true := by
  unfold ActorNamespace.get
  dsimp only
  cases hentry : (s.submap node).find? aid with
  | none => rfl
  | some entry =>
    obtain ⟨p, -, -, -, rfl⟩ := h.find? hentry
    dsimp only
    split_ifs
    · rfl
    · rfl

/-- The namespace counts the proxies of a node. -/
theorem Tracks.countProxies (h : Tracks s) (node : NodeId) :
    s.countProxies node = (StoredProxy.ofNode node s.stored).length := by
  have hlength : (rows s.proxies node).length = (StoredProxy.ofNode node s.stored).length := by
    rw [h.holds, expected, List.length_map]
  rw [← hlength, ActorNamespace.countProxies, rows]
  cases s.proxies.find? node with
  | none => rfl
  | some submap => rfl

/-- The namespace is empty exactly if no proxy is stored. -/
theorem Tracks.empty_iff (h : Tracks s) : s.empty = true ↔ s.stored = [] := by
  refine ⟨fun hempty => ?_, fun hempty => ?_⟩
  · rw [List.eq_nil_iff_forall_not_mem]
    intro p hp
    have hrows := mem_expected.mpr ⟨p, hp, BEq.rfl, rfl⟩
    rw [← h.holds, rows, UMap.find?_of_isEmpty hempty] at hrows
    exact List.not_mem_nil hrows
  · rw [ActorNamespace.empty, List.isEmpty_iff, List.eq_nil_iff_forall_not_mem]
    rintro ⟨node, submap⟩ he
    -- a node of the table has a proxy
    have hfind := UMap.find?_of_mem he
    have hrows := h.holds node
    rw [rows_of_find? hfind, hempty] at hrows
    exact h.full node submap hfind hrows

/-- The table is sound. -/
theorem Tracks.sound (h : Tracks s) : Sound s :=
  ⟨fun _ _ hsub => h.anchors hsub, h.full, h.get_isSome, h.countProxies, h.empty_iff⟩

-- -------------------------
-- Operations
-- -------------------------

/-- A submap is stored, with the entries of the proxies that its node has now. -/
theorem rows_store {proxies : UMap NodeId ProxyMap} {stored ps : List StoredProxy}
    (hrows : ∀ k, rows proxies k = expected stored k) {submap : ProxyMap}
    (hsub : submap.entries = expected ps node)
    (hps : ∀ k, ¬ (node == k) = true → expected ps k = expected stored k) (k : NodeId) :
    rows (proxies.set node submap) k = expected ps k := by
  rw [rows_set]
  by_cases hk : (node == k) = true
  · rw [if_pos hk, hsub, expected_congr ps hk]
  · rw [if_neg hk, hrows, hps k hk]

/-- Assigning a submap that holds what is expected keeps the table in step. -/
theorem Tracks.store (h : Tracks s) {submap : ProxyMap} {ps : List StoredProxy}
    (hsub : submap.entries = expected ps node) (hne : expected ps node ≠ [])
    (hps : ∀ k, ¬ (node == k) = true → expected ps k = expected s.stored k) :
    Tracks { s with proxies := s.proxies.set node submap, stored := ps } :=
  ⟨rows_store h.holds hsub hps, h.full.set node (by rwa [hsub])⟩

/-- The submap stays as it is. -/
theorem Tracks.store_same (h : Tracks s) (hne : expected s.stored node ≠ []) :
    Tracks { s with proxies := s.proxies.set node (s.submap node) } :=
  h.store (by rw [submap_entries, h.holds]) hne fun _ _ => rfl

/-- A table without the last proxy of a node, but with the node. -/
theorem not_sound_of_empty {proxies : UMap NodeId ProxyMap} {submap : ProxyMap}
    (hs' : s'.proxies = proxies.set node submap) (hempty : submap.entries = []) : ¬ Sound s' := by
  intro hsound
  refine hsound.submaps node submap ?_ hempty
  rw [hs', UMap.find?_set_self]

/-- `get`, which removes the proxy if it has expired. -/
theorem Tracks.get_iff (h : Tracks s) {res : Option ProxyRef}
    (hs : s.get node aid = some (res, s')) :
    (InOrder s (.get node aid) → Tracks s') ∧ (Sound s' → InOrder s (.get node aid)) := by
  unfold ActorNamespace.get at hs
  dsimp only at hs
  cases hentry : (s.submap node).find? aid with
  | none =>
    rw [hentry, Option.some.injEq, Prod.mk.injEq] at hs
    obtain ⟨-, rfl⟩ := hs
    refine ⟨fun ⟨p, hp, hnode, _⟩ => h.store_same ?_, fun hsound => ?_⟩
    · exact List.ne_nil_of_mem (mem_expected.mpr ⟨p, hp, hnode, rfl⟩)
    · -- the node has proxies, for other actors
      by_contra hnot
      refine not_sound_of_empty rfl ?_ hsound
      rw [submap_entries, h.holds, List.eq_nil_iff_forall_not_mem]
      intro e he
      obtain ⟨p, hp, hnode, -⟩ := mem_expected.mp he
      refine hnot ⟨p, hp, hnode, fun haid => ?_⟩
      have hfind := h.find?_of_mem hp hnode
      rw [haid, hentry] at hfind
      cases hfind
  | some entry =>
    obtain ⟨p, hp, hnode, haid, rfl⟩ := h.find? hentry
    -- the only proxy for this actor
    have honly : ∀ q ∈ s.stored, (q.node == node) = true → q.aid = aid → q.ref = p.ref := by
      intro q hq hqnode hqaid
      have hfind := h.find?_of_mem hq hqnode
      rw [hqaid, hentry] at hfind
      exact (Option.some.inj (Option.some.inj hfind)).symm
    rw [hentry] at hs
    dsimp only at hs
    split_ifs at hs with hexpired
    · -- the proxy has expired: its entry goes
      rw [Option.some.injEq, Prod.mk.injEq] at hs
      obtain ⟨-, rfl⟩ := hs
      have hexpected : ∀ k, expected (StoredProxy.remove node aid s.stored) k =
          if (node == k) = true then (expected s.stored k).filter fun e => !(e.1 == aid)
          else expected s.stored k := fun k => expected_remove s.stored node k aid
      have hsub : ((s.submap node).erase aid).entries =
          expected (StoredProxy.remove node aid s.stored) node := by
        rw [hexpected, if_pos BEq.rfl, ← h.holds, ← submap_entries]
        rfl
      refine ⟨fun ⟨q, hq, hqnode, hqlive⟩ => ?_, fun hsound => ?_⟩
      · refine h.store hsub ?_ fun k hk => by rw [hexpected, if_neg hk]
        have hqaid : q.aid ≠ aid := by
          intro hqaid
          apply hqlive hqaid
          rwa [honly q hq hqnode hqaid]
        apply List.ne_nil_of_mem (a := (q.aid, some q.ref))
        rw [hexpected, if_pos BEq.rfl, List.mem_filter]
        exact ⟨mem_expected.mpr ⟨q, hq, hqnode, rfl⟩, by simpa using hqaid⟩
      · -- what is left of the submap must not be empty
        by_contra hnot
        refine not_sound_of_empty rfl ?_ hsound
        rw [hsub, hexpected, if_pos BEq.rfl, List.eq_nil_iff_forall_not_mem]
        intro e he
        obtain ⟨he, hother⟩ := List.mem_filter.mp he
        obtain ⟨q, hq, hqnode, rfl⟩ := mem_expected.mp he
        exact hnot ⟨q, hq, hqnode, fun hqaid => absurd hother (by simp [hqaid])⟩
    · rw [Option.some.injEq, Prod.mk.injEq] at hs
      obtain ⟨-, rfl⟩ := hs
      have hlive : InOrder s (.get node aid) := ⟨p, hp, hnode, fun _ => hexpired⟩
      refine ⟨fun _ => h.store_same ?_, fun _ => hlive⟩
      exact List.ne_nil_of_mem (mem_expected.mpr ⟨p, hp, hnode, rfl⟩)

/-- `get_or_put`, which reserves an entry before it is known whether there will be a proxy. -/
theorem Tracks.getOrPut_iff (h : Tracks s) (made : Option ProxyRef) :
    (InOrder s (.getOrPut node aid made) → Tracks (s.getOrPut node aid made).2) ∧
      (Sound (s.getOrPut node aid made).2 → InOrder s (.getOrPut node aid made)) := by
  have hany : s.stored.any (StoredProxy.isFor node aid) = (s.submap node).contains aid := by
    rw [any_isFor, UMap.contains_eq_any, submap_entries, h.holds]
  -- a proxy is created
  have hput : ∀ r, Tracks { s with
      proxies := s.proxies.set node (((s.submap node).emplace aid none).set aid (some r))
      stored := StoredProxy.put node aid r s.stored } := by
    intro r
    have hexpected : ∀ k, expected (StoredProxy.put node aid r s.stored) k = _ :=
      fun k => expected_put s.stored node k aid r
    have hsub : (((s.submap node).emplace aid none).set aid (some r)).entries =
        expected (StoredProxy.put node aid r s.stored) node := by
      rw [UMap.entries_set_emplace, UMap.entries_set, hexpected, if_pos BEq.rfl,
        UMap.contains_eq_any, submap_entries, h.holds]
    refine h.store hsub ?_ fun k hk => by rw [hexpected, if_neg hk]
    rw [← hsub]
    intro hnil
    have hfind := UMap.find?_set_self ((s.submap node).emplace aid none) aid (some r)
    rw [UMap.find?_of_isEmpty (List.isEmpty_iff.mpr hnil)] at hfind
    cases hfind
  unfold getOrPut
  dsimp only
  cases hentry : (s.submap node).find? aid with
  | none =>
    have hnew : ((s.submap node).emplace aid none).find? aid = some none := by
      rw [UMap.find?_emplace_of_none hentry, if_pos BEq.rfl]
    rw [hnew]
    cases made with
    | some r => exact ⟨fun _ => hput r, fun _ => .inr (Option.some_ne_none r)⟩
    | none =>
      -- the entry is left without an anchor
      refine ⟨fun horder => ?_, fun hsound => ?_⟩
      · obtain hstored | hmade := horder
        · rw [hany, UMap.contains, hentry] at hstored
          cases hstored
        · exact absurd rfl hmade
      · obtain ⟨e, he, -, hnone⟩ := UMap.exists_mem_of_find? hnew
        exact absurd hnone (hsound.anchors node _ (UMap.find?_set_self _ _ _) e he)
  | some entry =>
    have hcontains : (s.submap node).contains aid = true := by
      rw [UMap.contains, hentry]
      rfl
    have horder : InOrder s (.getOrPut node aid made) := .inl (by rw [hany, hcontains])
    obtain ⟨p, hp, hnode, -, rfl⟩ := h.find? hentry
    have hsame : Tracks { s with proxies := s.proxies.set node (s.submap node) } :=
      h.store_same (List.ne_nil_of_mem (mem_expected.mpr ⟨p, hp, hnode, rfl⟩))
    refine ⟨fun _ => ?_, fun _ => horder⟩
    -- the entry stays as it is, or a new proxy takes the place of an expired one
    have hput := hput
    rw [UMap.emplace_of_contains _ hcontains] at hput ⊢
    rw [hentry, Option.join_some]
    cases Option.filter (· ∉ s.expired) (some p.ref) with
    | some r => exact hsame
    | none =>
      cases made with
      | some r => exact hput r
      | none => exact hsame

theorem Tracks.eraseNode (h : Tracks s) (node : NodeId) : Tracks (s.eraseNode node) := by
  refine ⟨fun k => ?_, h.full.erase node⟩
  show rows (s.proxies.erase node) k = expected (s.stored.filter _) k
  rw [rows_erase, expected_eraseNode, h.holds]

/-- Erasing a proxy keeps the table in step, also when it is the last one of its node. -/
theorem Tracks.eraseProxy (h : Tracks s) (node : NodeId) (aid : ActorId) (rsn : ExitReason) :
    Tracks (s.eraseProxy node aid rsn) := by
  unfold ActorNamespace.eraseProxy
  cases hsub : s.proxies.find? node with
  | none => exact h
  | some submap =>
    dsimp only
    cases submap.find? aid with
    | none => exact h
    | some entry =>
      dsimp only
      have hexpected := fun k => expected_remove s.stored node k aid
      have hentries : (submap.erase aid).entries =
          expected (StoredProxy.remove node aid s.stored) node := by
        rw [hexpected, if_pos BEq.rfl, ← h.holds, rows_of_find? hsub]
        rfl
      have hother : ∀ k, ¬ (node == k) = true →
          expected (StoredProxy.remove node aid s.stored) k = expected s.stored k :=
        fun k hk => by rw [hexpected, if_neg hk]
      by_cases hempty : (submap.erase aid).entries.isEmpty = true
      · -- the last proxy of the node
        simp only [if_pos hempty]
        refine ⟨fun k => ?_, h.full.erase node⟩
        show rows (s.proxies.erase node) k = expected (StoredProxy.remove node aid s.stored) k
        rw [rows_erase]
        by_cases hk : (node == k) = true
        · rw [if_pos hk, ← expected_congr _ hk, ← hentries, List.isEmpty_iff.mp hempty]
        · rw [if_neg hk, hother k hk, h.holds]
      · simp only [if_neg hempty]
        have hne : (submap.erase aid).entries ≠ [] := fun hnil => hempty (by rw [hnil]; rfl)
        exact ⟨rows_store h.holds hentries hother, h.full.set node hne⟩

theorem tracks_clear (s : ActorNamespace) : Tracks s.clear :=
  ⟨fun _ => rfl, fun _ _ h => by cases h⟩

-- -------------------------
-- Runs
-- -------------------------

/-- A step in order keeps track of the proxies; a step after which the table is sound is in
order. -/
theorem Tracks.step_iff (h : Tracks s) {c : NamespaceCall} (hs : s.step c = some s') :
    (InOrder s c → Tracks s') ∧ (Sound s' → InOrder s c) := by
  cases c with
  | get node aid =>
    rw [ActorNamespace.step, Option.map_eq_some_iff] at hs
    obtain ⟨⟨res, s₁⟩, hget, rfl⟩ := hs
    exact h.get_iff hget
  | getOrPut node aid made =>
    rw [ActorNamespace.step] at hs
    split_ifs at hs
    rw [Option.some.injEq] at hs
    subst hs
    exact h.getOrPut_iff made
  | countProxies node =>
    rw [ActorNamespace.step, Option.some.injEq] at hs
    subst hs
    exact ⟨fun _ => h, fun _ => trivial⟩
  | eraseNode node =>
    rw [ActorNamespace.step, Option.some.injEq] at hs
    subst hs
    exact ⟨fun _ => h.eraseNode node, fun _ => trivial⟩
  | eraseProxy node aid rsn =>
    rw [ActorNamespace.step, Option.some.injEq] at hs
    subst hs
    exact ⟨fun _ => h.eraseProxy node aid rsn, fun _ => trivial⟩
  | clear =>
    rw [ActorNamespace.step, Option.some.injEq] at hs
    subst hs
    exact ⟨fun _ => tracks_clear s, fun _ => trivial⟩
  | expire ref =>
    rw [ActorNamespace.step, Option.some.injEq] at hs
    subst hs
    exact ⟨fun _ => ⟨h.holds, h.full⟩, fun _ => trivial⟩

/-- The states of the runs whose steps meet `ok`. -/
abbrev Reachable (ok : ActorNamespace → NamespaceCall → Prop) : ActorNamespace → Prop :=
  Reach (· = initial) step ok

/-- Every run in order keeps the table in step with the stored proxies. -/
theorem tracks_of_reachable (h : Reachable InOrder s) : Tracks s := by
  refine h.invariant ?_ ?_
  · rintro s rfl
    exact tracks_initial
  · intro s c s' hs hok hstep
    exact (hs.step_iff hstep).1 hok

/-- In every run whose steps are in order the table is sound, whatever the backend makes and
whenever proxies expire; a step that is not in order leaves a table that is not sound. -/
theorem sound_of_inOrder (h : Reachable InOrder s) :
    Sound s ∧ ∀ c s', s.step c = some s' → (Sound s' ↔ InOrder s c) := by
  have htracks := tracks_of_reachable h
  refine ⟨htracks.sound, fun c s' hs => ?_⟩
  obtain ⟨hkeep, horder⟩ := htracks.step_iff hs
  exact ⟨horder, fun hc => (hkeep hc).sound⟩

/-- A node to have proxies for. -/
def peer : NodeId := NodeId.make 7 NodeId.invalidHostId

/-- One proxy expires and is made again, another one is removed. -/
theorem sound_of_inOrder_two : ∃ s, Reachable InOrder s ∧ s.countProxies peer = 1 ∧ Sound s := by
  obtain ⟨s, hr, hs⟩ := exists_run
    (fun s c => if InOrder s c then step s c else none) initial
    [.getOrPut peer 1 (some 10), .getOrPut peer 2 (some 20), .expire 10, .get peer 2,
      .getOrPut peer 1 (some 11), .eraseProxy peer 2 ExitReason.normal, .getOrPut peer 1 none]
    (fun s => decide (s.countProxies peer = 1)) (by decide)
  have h : Reachable InOrder s := reach_of_checked_run (.init rfl) hr
  exact ⟨s, h, of_decide_eq_true hs, (sound_of_inOrder h).1⟩

/-- The backend makes no proxy: the table counts one, and `get` dereferences a null anchor.
Asking for an actor of an unknown node, too, leaves a table that is not empty. -/
theorem unsound_tables :
    (∃ s, Reachable anyStep s ∧ s.stored = [] ∧ s.countProxies peer = 1 ∧
      (s.get peer 1).isNone = true ∧ ¬ Sound s) ∧
      ∃ s, Reachable anyStep s ∧ s.stored = [] ∧ s.empty = false ∧ ¬ Sound s := by
  refine ⟨?_, ?_⟩
  · obtain ⟨s, hr, hs⟩ := exists_run step initial [.getOrPut peer 1 none]
      (fun s => decide (s.stored = [] ∧ s.countProxies peer = 1 ∧
        (s.get peer 1).isNone = true)) (by decide)
    obtain ⟨hstored, hcount, hnull⟩ := of_decide_eq_true hs
    refine ⟨s, reach_of_run (.init rfl) hr, hstored, hcount, hnull, fun hsound => ?_⟩
    rw [Option.isNone_iff_eq_none] at hnull
    have hget := hsound.get peer 1
    rw [hnull] at hget
    cases hget
  · obtain ⟨s, hr, hs⟩ := exists_run step initial [.get peer 1]
      (fun s => decide (s.stored = [] ∧ s.empty = false)) (by decide)
    obtain ⟨hstored, hempty⟩ := of_decide_eq_true hs
    refine ⟨s, reach_of_run (.init rfl) hr, hstored, hempty, fun hsound => ?_⟩
    rw [hsound.empty.mpr hstored] at hempty
    cases hempty

end ActorNamespace

end BoostActor
