import Mathlib.Tactic.Common
import Mathlib.Data.List.Forall2

/-!
# Values held in a pointer structure

The nodes of a pointer structure either name another node that holds the value in
their place, or carry a label and the nodes of the value's children. `Unfolds`
relates a node to the tree one reads off it; nodes may be shared.

* `Unfolds.unique`, `exists_unfolds` — one tree per node, if pointers lead downwards;
* `Leads` — a node read in place of another;
* `Covers` — a structure that is another one with some nodes copied shows the same;
* `Visits` — what reading a node comes across;
* `unfolds_of_overwrite`, `Visits.meet` — overwriting nodes leaves alone what does
  not come across them, and is noticed by what does.
-/

namespace Lib

variable {N L : Type}

/-- What a node holds: nothing, the name of the node to read instead, or a label
and the nodes of the children. -/
inductive PointerStep (N L : Type) where
  | stuck
  | follow (n : N)
  | value (label : L) (children : List N)

/-- The value read off a node. -/
inductive ValueTree (L : Type) where
  | node (label : L) (children : List (ValueTree L))

/-- The nodes a node points to. -/
def PointerStep.targets : PointerStep N L → List N
  | stuck => []
  | follow n => [n]
  | value _ children => children

/-- Reading a node yields a tree. -/
inductive Unfolds (next : N → PointerStep N L) : N → ValueTree L → Prop where
  | follow {n m : N} {t : ValueTree L} : next n = .follow m → Unfolds next m t → Unfolds next n t
  | value {n : N} {l : L} {ns : List N} {ts : List (ValueTree L)} : next n = .value l ns →
      ns.length = ts.length → (∀ p ∈ ns.zip ts, Unfolds next p.1 p.2) →
      Unfolds next n (.node l ts)

/-- Reading on from what a node holds. -/
def PointerStep.UnfoldsTo (next : N → PointerStep N L) : PointerStep N L → ValueTree L → Prop
  | stuck, _ => False
  | follow m, t => Unfolds next m t
  | value l ns, .node l' ts => l = l' ∧ List.Forall₂ (Unfolds next) ns ts

section

variable {next : N → PointerStep N L} {n m : N} {t t' : ValueTree L}

/-- How a node is read is decided by what it holds. -/
theorem unfolds_iff : Unfolds next n t ↔ (next n).UnfoldsTo next t := by
  constructor
  · rintro (⟨hn, hm⟩ | ⟨hn, hlen, hts⟩)
    · rw [hn]
      exact hm
    · rw [hn]
      exact ⟨rfl, List.forall₂_iff_zip.mpr ⟨hlen, fun h => hts _ h⟩⟩
  · intro h
    cases hn : next n with
    | stuck => rw [hn] at h; exact h.elim
    | follow m => rw [hn] at h; exact .follow hn h
    | value l ns =>
      rw [hn] at h
      obtain ⟨l', ts⟩ := t
      obtain ⟨rfl, hts⟩ := h
      obtain ⟨hlen, hzip⟩ := List.forall₂_iff_zip.mp hts
      exact .value hn hlen fun p hp => hzip hp

/-- Lists related to one list by a relation that determines its right side. -/
theorem eq_of_forall₂ {α β : Type} {R : α → β → Prop} {xs : List α} {ys ys' : List β}
    (h : List.Forall₂ (fun x y => ∀ y', R x y' → y = y') xs ys) (h' : List.Forall₂ R xs ys') :
    ys = ys' := by
  induction h generalizing ys' with
  | nil =>
    cases h'
    rfl
  | cons hy _ ih =>
    cases h' with
    | cons hy' hys' => rw [hy _ hy', ih hys']

/-- A node is read in one way only. -/
theorem Unfolds.unique (h : Unfolds next n t) (h' : Unfolds next n t') : t = t' := by
  induction h generalizing t' with
  | follow hn _ ih =>
    rw [unfolds_iff, hn] at h'
    exact ih h'
  | @value n l ns ts hn hlen _ ih =>
    rw [unfolds_iff, hn] at h'
    obtain ⟨l', ts'⟩ := t'
    obtain ⟨rfl, hts⟩ := h'
    rw [eq_of_forall₂ (List.forall₂_iff_zip.mpr ⟨hlen, fun h _ => ih _ h⟩) hts]

/-- Where pointers lead downwards and no node is stuck, every node has a value. -/
theorem exists_unfolds {P : N → Prop} (rank : N → Nat) (hstuck : ∀ n, P n → next n ≠ .stuck)
    (hdown : ∀ n, P n → ∀ m ∈ (next n).targets, P m ∧ rank m < rank n) :
    ∀ n, P n → ∃ t, Unfolds next n t := by
  intro n
  -- on the rank, which goes down to everything a node leads to
  induction hr : rank n using Nat.strongRecOn generalizing n with
  | _ r ih =>
    intro hP
    have hbelow : ∀ m ∈ (next n).targets, ∃ t, Unfolds next m t := fun m hm =>
      ih (rank m) (hr ▸ (hdown n hP m hm).2) m rfl (hdown n hP m hm).1
    cases hn : next n with
    | stuck => exact absurd hn (hstuck n hP)
    | follow m =>
      obtain ⟨t, ht⟩ := hbelow m (by simp [hn, PointerStep.targets])
      exact ⟨t, .follow hn ht⟩
    | value l ns =>
      rw [hn] at hbelow
      obtain ⟨ts, hts⟩ : ∃ ts, List.Forall₂ (Unfolds next) ns ts := by
        -- one child after the other
        clear hn
        induction ns with
        | nil => exact ⟨[], .nil⟩
        | cons m ns ihns =>
          obtain ⟨t, ht⟩ := hbelow m (by simp [PointerStep.targets])
          obtain ⟨ts, hts⟩ := ihns fun m' hm' => hbelow m' (by simp_all [PointerStep.targets])
          exact ⟨t :: ts, .cons ht hts⟩
      exact ⟨.node l ts, unfolds_iff.mpr (by rw [hn]; exact ⟨rfl, hts⟩)⟩

end

-- -------------------------
-- Chains of pointers
-- -------------------------

/-- Reading `n` means reading `m`. -/
inductive Leads (next : N → PointerStep N L) : N → N → Prop where
  | refl (n : N) : Leads next n n
  | follow {n m k : N} : next n = .follow m → Leads next m k → Leads next n k

namespace Leads

variable {next next' : N → PointerStep N L} {n m : N} {t : ValueTree L}

/-- A node that leads to another one is read as that one. -/
theorem unfolds_iff (h : Leads next n m) : Unfolds next n t ↔ Unfolds next m t := by
  induction h with
  | refl => rfl
  | follow hn _ ih =>
    rw [← ih, Lib.unfolds_iff, hn]
    rfl

/-- A node with a label is read itself. -/
theorem eq_of_value {l : L} {ns : List N} (h : Leads next n m) (hn : next n = .value l ns) :
    m = n := by
  cases h with
  | refl => rfl
  | follow hk _ => cases hn.symm.trans hk

/-- Overwriting nodes with values leaves the chains to these nodes. -/
theorem congr {W : N → Prop} (hsame : ∀ n, ¬ W n → next' n = next n)
    (hvalue : ∀ n, W n → ∀ k, next n ≠ .follow k) (h : Leads next n m) : Leads next' n m := by
  induction h with
  | refl => exact .refl _
  | @follow n m k hn _ ih =>
    have hw : ¬ W n := fun hw => hvalue n hw m hn
    exact .follow ((hsame n hw).trans hn) ih

end Leads

-- -------------------------
-- Copied nodes
-- -------------------------

/-- The same step with other nodes. -/
def PointerStep.map {M : Type} (φ : N → M) : PointerStep N L → PointerStep M L
  | stuck => stuck
  | follow n => follow (φ n)
  | value l ns => value l (ns.map φ)

theorem PointerStep.targets_map {M : Type} (φ : N → M) (s : PointerStep N L) :
    (s.map φ).targets = s.targets.map φ := by
  cases s <;> rfl

/-- Every node of `next'` is a copy of the node of `next` that `φ` names. -/
def Covers {N' : Type} (φ : N' → N) (next' : N' → PointerStep N' L)
    (next : N → PointerStep N L) : Prop :=
  ∀ n, next (φ n) = (next' n).map φ

namespace Covers

variable {N' : Type} {φ : N' → N} {next' : N' → PointerStep N' L} {next : N → PointerStep N L}

/-- What is read from a copy is what is read from the original. -/
theorem unfolds {n : N'} {t : ValueTree L} (h : Covers φ next' next)
    (ht : Unfolds next' n t) : Unfolds next (φ n) t := by
  induction ht with
  | follow hn _ ih => exact .follow (by rw [h, hn]; rfl) ih
  | @value n l ns ts hn hlen _ ih =>
    refine .value (by rw [h, hn]; rfl) (by simpa using hlen) fun p hp => ?_
    rw [List.zip_map_left, List.mem_map] at hp
    obtain ⟨q, hq, rfl⟩ := hp
    exact ih q hq

/-- The original is read as its copy. -/
theorem unfolds_of_image {n : N'} {t : ValueTree L} (h : Covers φ next' next)
    (ht : Unfolds next (φ n) t) : Unfolds next' n t := by
  generalize hx : φ n = x at ht
  induction ht generalizing n with
  | follow hn _ ih =>
    rw [← hx, h] at hn
    cases hn' : next' n with
    | stuck => rw [hn'] at hn; cases hn
    | follow m => rw [hn'] at hn; cases hn; exact .follow hn' (ih rfl)
    | value l ns => rw [hn'] at hn; cases hn
  | value hn hlen _ ih =>
    rw [← hx, h] at hn
    cases hn' : next' n with
    | stuck => rw [hn'] at hn; cases hn
    | follow m => rw [hn'] at hn; cases hn
    | value l ns =>
      rw [hn'] at hn
      cases hn
      refine .value hn' (by simpa using hlen) fun p hp => ?_
      exact ih (φ p.1, p.2) (by rw [List.zip_map_left]; exact List.mem_map_of_mem hp) rfl

theorem unfolds_iff {n : N'} {t : ValueTree L} (h : Covers φ next' next) :
    Unfolds next' n t ↔ Unfolds next (φ n) t :=
  ⟨h.unfolds, h.unfolds_of_image⟩

end Covers

-- -------------------------
-- What reading comes across
-- -------------------------

/-- Reading `n` comes across `m`; `W` are nodes that are not read through. -/
inductive Visits (next : N → PointerStep N L) (W : N → Prop) : N → N → Prop where
  | refl (n : N) : Visits next W n n
  | step {n m k : N} : ¬ W n → m ∈ (next n).targets → Visits next W m k → Visits next W n k

/-- Every node is read through. -/
def noNode (_ : N) : Prop := False

section

variable {next next' : N → PointerStep N L} {W : N → Prop} {n m k : N}

/-- A reading that comes across `m` comes across everything that `m` does. -/
theorem Visits.trans (h : Visits next W n m) (h' : Visits next W m k) : Visits next W n k := by
  induction h with
  | refl => exact h'
  | step hw hm _ ih => exact .step hw hm (ih h')

theorem Visits.tail (h : Visits next noNode n m) (hk : k ∈ (next m).targets) :
    Visits next noNode n k :=
  h.trans (.step id hk (.refl k))

/-- The last pointer followed. -/
theorem Visits.last (h : Visits next W n k) :
    n = k ∨ ∃ m, Visits next W n m ∧ k ∈ (next m).targets := by
  induction h with
  | refl => exact .inl rfl
  | @step n m k hw hm _ ih =>
    rcases ih with rfl | ⟨j, hj, hk⟩
    · exact .inr ⟨n, .refl n, hm⟩
    · exact .inr ⟨j, .step hw hm hj, hk⟩

/-- More is come across if fewer nodes stop it. -/
theorem Visits.mono {W' : N → Prop} (hW : ∀ n, W' n → W n) (h : Visits next W n m) :
    Visits next W' n m := by
  induction h with
  | refl => exact .refl _
  | step hw hm _ ih => exact .step (fun hw' => hw (hW _ hw')) hm ih

/-- A structure that differs outside a closed set is read alike inside it. -/
theorem Visits.congr {S : N → Prop} (hsame : ∀ n, S n → next' n = next n)
    (hclosed : ∀ n, S n → ∀ m ∈ (next n).targets, S m) (hn : S n) (h : Visits next W n m) :
    Visits next' W n m := by
  induction h with
  | refl => exact .refl _
  | step hw hm _ ih => exact .step hw (hsame _ hn ▸ hm) (ih (hclosed _ hn _ hm))

/-- A set of nodes that nothing leads out of is not left. -/
theorem Visits.closed {S : N → Prop} (hclosed : ∀ n, S n → ∀ m ∈ (next n).targets, S m)
    (hn : S n) (h : Visits next W n m) : S m := by
  induction h with
  | refl => exact hn
  | step _ hm _ ih => exact ih (hclosed _ hn _ hm)

/-- A reading of the copy comes across copies of what the original's does. -/
theorem Covers.visits {N' : Type} {φ : N' → N} {next' : N' → PointerStep N' L} {n m : N'}
    (h : Covers φ next' next) (hv : Visits next' noNode n m) : Visits next noNode (φ n) (φ m) := by
  induction hv with
  | refl => exact .refl _
  | step _ hm _ ih =>
    refine .step id ?_ ih
    rw [h, PointerStep.targets_map]
    exact List.mem_map_of_mem hm

/-- What the copied structure comes across, the copy comes across in some copy. -/
theorem Covers.lift {N' : Type} {φ : N' → N} {next' : N' → PointerStep N' L} {n : N'}
    (h : Covers φ next' next) (hv : Visits next noNode (φ n) m) :
    ∃ m', φ m' = m ∧ Visits next' noNode n m' := by
  generalize hx : φ n = x at hv
  induction hv generalizing n with
  | refl => exact ⟨n, hx, .refl n⟩
  | step _ hm _ ih =>
    rw [← hx, h, PointerStep.targets_map] at hm
    obtain ⟨k, hk, hkm⟩ := List.mem_map.mp hm
    obtain ⟨m', hm', hv'⟩ := ih hkm
    exact ⟨m', hm', .step id hk hv'⟩

-- -------------------------
-- Overwritten nodes
-- -------------------------

/-- Overwriting the nodes `W` does not show in the nodes `S`, if `S` contains what
its nodes point to, and a node of both shows the same after it as before. -/
theorem unfolds_of_overwrite {S : N → Prop} {t : ValueTree L}
    (hsame : ∀ n, ¬ W n → next' n = next n)
    (hclosed : ∀ n, S n → ¬ W n → ∀ m ∈ (next n).targets, S m)
    (hwritten : ∀ n, S n → W n → ∃ l ns, next' n = .value l ns ∧ (∀ m ∈ ns, S m) ∧
      ∀ t, Unfolds next n t → (PointerStep.value l ns).UnfoldsTo next t)
    (hn : S n) (h : Unfolds next n t) : Unfolds next' n t := by
  -- outside: on the size of the value, since an overwritten node has other children;
  -- inside: on how it is read
  induction hsize : sizeOf t using Nat.strongRecOn generalizing n t with
  | _ size ih =>
    have hchildren : ∀ {l ns ts}, t = .node l ts → (∀ m ∈ ns, S m) →
        List.Forall₂ (Unfolds next) ns ts → List.Forall₂ (Unfolds next') ns ts := by
      rintro l ns ts rfl hS hts
      obtain ⟨hlen, hzip⟩ := List.forall₂_iff_zip.mp hts
      refine List.forall₂_iff_zip.mpr ⟨hlen, fun {m s} hms => ?_⟩
      have hlt : sizeOf s < size := by
        have hmem := List.sizeOf_lt_of_mem (List.of_mem_zip hms).2
        rw [← hsize, ValueTree.node.sizeOf_spec]
        omega
      exact ih _ hlt (hS m (List.of_mem_zip hms).1) (hzip hms) rfl
    clear ih hsize
    induction h with
    | @follow n m t hnm hm ihm =>
      -- an overwritten node has the value that it had before
      by_cases hw : W n
      · obtain ⟨l, ns, hn', hS, hto⟩ := hwritten n hn hw
        obtain ⟨l', ts⟩ := t
        obtain ⟨rfl, hts⟩ := hto _ (.follow hnm hm)
        rw [unfolds_iff, hn']
        exact ⟨rfl, hchildren rfl hS hts⟩
      · -- another node is followed as before
        refine .follow ((hsame n hw).trans hnm) (ihm ?_ hchildren)
        exact hclosed n hn hw m (by simp [hnm, PointerStep.targets])
    | @value n l ns ts hnl hlen hts _ =>
      by_cases hw : W n
      · obtain ⟨l', ns', hn', hS, hto⟩ := hwritten n hn hw
        obtain ⟨rfl, hts'⟩ := hto _ (.value hnl hlen hts)
        rw [unfolds_iff, hn']
        exact ⟨rfl, hchildren rfl hS hts'⟩
      · rw [unfolds_iff, hsame n hw, hnl]
        refine ⟨rfl, hchildren rfl (fun m hm => ?_)
          (List.forall₂_iff_zip.mpr ⟨hlen, fun h => hts _ h⟩)⟩
        exact hclosed n hn hw m (by simpa [hnl, PointerStep.targets] using hm)

/-- A node whose value survives overwriting comes across no node that shows another value. -/
theorem Visits.meet {t : ValueTree L} (hsame : ∀ n, ¬ W n → next' n = next n)
    (hv : Visits next W n k) (h : Unfolds next n t) (h' : Unfolds next' n t) :
    ∃ t', Unfolds next k t' ∧ Unfolds next' k t' := by
  induction hv generalizing t with
  | refl => exact ⟨t, h, h'⟩
  | @step n m k hw hm _ ih =>
    rw [unfolds_iff] at h h'
    rw [hsame n hw] at h'
    cases hn : next n with
    | stuck => rw [hn] at hm; cases hm
    | follow j =>
      rw [hn] at hm h h'
      obtain rfl := List.mem_singleton.mp hm
      exact ih h h'
    | value l ns =>
      rw [hn] at hm h h'
      obtain ⟨l', ts⟩ := t
      obtain ⟨i, hi, hget⟩ := List.mem_iff_getElem.mp hm
      have hlen := h.2.length_eq
      have hi' : i < ts.length := hlen ▸ hi
      rw [← hget] at ih
      exact ih (List.forall₂_iff_get.mp h.2 |>.2 i hi hi')
        (List.forall₂_iff_get.mp h'.2 |>.2 i hi hi')

end

end Lib
