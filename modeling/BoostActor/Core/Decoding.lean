import BoostActor.Core.Message

/-!
# What a decoder reads

Rules for programs over a deserializer: what they read, and when they run into
behaviour that C++ leaves undefined.

* `Decoder.reads_bind`, `Decoder.faults_bind` — a program reads, or goes wrong,
  piece by piece;
* `Decoder.Forward` — the deserializer only moves forward over its input;
* `HandleType.faults_iff` — of the builtin types other than messages, only those
  with a group in them can go wrong.
-/

namespace BoostActor

namespace Decoder

variable {α β : Type} {s s' : Source}

/-- The program reads a value and leaves the deserializer at `s'`. -/
def Reads (x : Decoder α) (s : Source) (a : α) (s' : Source) : Prop := (x s).result = .ok (a, s')

/-- The program runs into undefined behaviour. -/
def Faults (x : Decoder α) (s : Source) : Prop := ∃ what, (x s).result = .error (.undefined what)

-- -------------------------
-- Rules
-- -------------------------

/-- What the first part reads decides how the second one begins. -/
theorem result_bind {x : Decoder α} {f : α → Decoder β} {a : α} {s₁ : Source}
    (h : (x s).result = .ok (a, s₁)) : ((x >>= f) s).result = (f a s₁).result := by
  simp only [bind, h]

theorem result_bind_error {x : Decoder α} {f : α → Decoder β} {e : Fault}
    (h : (x s).result = .error e) : ((x >>= f) s).result = .error e := by
  simp only [bind, h]

theorem reads_pure {a b : α} : (pure a : Decoder α).Reads s b s' ↔ b = a ∧ s' = s := by
  constructor
  · intro h
    obtain ⟨rfl, rfl⟩ := Prod.mk.inj (Except.ok.inj h)
    exact ⟨rfl, rfl⟩
  · rintro ⟨rfl, rfl⟩
    rfl

/-- The second part reads from where the first one has stopped. -/
theorem reads_bind {x : Decoder α} {f : α → Decoder β} {b : β} :
    (x >>= f).Reads s b s' ↔ ∃ a s₁, x.Reads s a s₁ ∧ (f a).Reads s₁ b s' := by
  constructor
  · intro h
    cases hx : (x s).result with
    | error e =>
      rw [Reads, result_bind_error hx] at h
      cases h
    | ok p =>
      rw [Reads, result_bind hx] at h
      exact ⟨p.1, p.2, hx, h⟩
  · rintro ⟨a, s₁, hx, hf⟩
    rw [Reads, result_bind hx]
    exact hf

/-- Whether something is read does not depend on what is made of it. -/
theorem exists_reads_map {x : Decoder α} {f : α → β} :
    (∃ b, (do return f (← x) : Decoder β).Reads s b s') ↔ ∃ a, x.Reads s a s' := by
  constructor
  · rintro ⟨b, h⟩
    obtain ⟨a, s₁, hx, h⟩ := reads_bind.mp h
    obtain ⟨-, rfl⟩ := reads_pure.mp h
    exact ⟨a, hx⟩
  · rintro ⟨a, hx⟩
    exact ⟨f a, reads_bind.mpr ⟨a, s', hx, reads_pure.mpr ⟨rfl, rfl⟩⟩⟩

theorem not_reads_fail {e : Fault} {a : α} : ¬ (fail e).Reads s a s' := fun h => by cases h

/-- A reader sees the bytes only. -/
theorem reads_lift {r : Reader α} {a : α} :
    (liftM r : Decoder α).Reads s a s' ↔
      ∃ rest, r s.bytes = .ok (a, rest) ∧ s' = { s with bytes := rest } := by
  show (read r s).result = _ ↔ _
  unfold read
  cases hr : r s.bytes with
  | error e =>
    constructor
    · intro h
      cases h
    · rintro ⟨rest, h, -⟩
      cases h
  | ok p =>
    obtain ⟨b, rest⟩ := p
    constructor
    · intro h
      obtain ⟨rfl, rfl⟩ := Prod.mk.inj (Except.ok.inj h)
      exact ⟨rest, rfl, rfl⟩
    · rintro ⟨rest', h, rfl⟩
      obtain ⟨rfl, rfl⟩ := Prod.mk.inj (Except.ok.inj h)
      rfl

/-- The code of the user sees the bytes only. -/
theorem reads_user {r : UserReader} {a : Unit} :
    (user r).Reads s a s' ↔
      ∃ rest, (r.run s.bytes).result = .ok rest ∧ s' = { s with bytes := rest } := by
  unfold Reads user
  cases (r.run s.bytes).result with
  | error e =>
    constructor
    · intro h
      cases h
    · rintro ⟨rest, h, -⟩
      cases h
  | ok rest =>
    constructor
    · intro h
      exact ⟨rest, rfl, (Prod.mk.inj (Except.ok.inj h)).2.symm⟩
    · rintro ⟨rest', h, rfl⟩
      obtain rfl := Except.ok.inj h
      rfl

/-- A lookup may change the type map. -/
theorem reads_byUniformName {name : Bytes} {t : Option TypeInfo} :
    (byUniformName name).Reads s t s' ↔
      ∃ tm, s.types.byUniformName name = (t, tm) ∧ s' = { s with types := tm } := by
  constructor
  · intro h
    obtain ⟨rfl, rfl⟩ := Prod.mk.inj (Except.ok.inj h)
    exact ⟨_, rfl, rfl⟩
  · rintro ⟨tm, h, rfl⟩
    rw [Reads, byUniformName, h]

-- -------------------------
-- Steps out of the input
-- -------------------------

theorem not_faults_pure {a : α} : ¬ (pure a : Decoder α).Faults s := by
  rintro ⟨what, h⟩
  cases h

/-- One of the parts steps out of the input, the second one at what the first has read. -/
theorem faults_bind {x : Decoder α} {f : α → Decoder β} :
    (x >>= f).Faults s ↔ x.Faults s ∨ ∃ a s₁, x.Reads s a s₁ ∧ (f a).Faults s₁ := by
  constructor
  · rintro ⟨what, h⟩
    cases hx : (x s).result with
    | error e =>
      rw [result_bind_error hx] at h
      exact .inl ⟨what, hx.trans (by rw [Except.error.inj h])⟩
    | ok p =>
      rw [result_bind hx] at h
      exact .inr ⟨p.1, p.2, hx, what, h⟩
  · rintro (⟨what, h⟩ | ⟨a, s₁, hx, what, h⟩)
    · exact ⟨what, result_bind_error h⟩
    · exact ⟨what, (result_bind hx).trans h⟩

/-- What follows can go wrong only. -/
theorem faults_bind_of_not {x : Decoder α} {f : α → Decoder β} (hx : ¬ x.Faults s) :
    (x >>= f).Faults s ↔ ∃ a s₁, x.Reads s a s₁ ∧ (f a).Faults s₁ := by
  rw [faults_bind, or_iff_right hx]

/-- What is made of a value does not matter. -/
theorem faults_bind_pure {x : Decoder α} {f : α → β} :
    (do return f (← x)).Faults s ↔ x.Faults s := by
  rw [faults_bind, or_iff_left]
  rintro ⟨a, s₁, -, h⟩
  exact not_faults_pure h

/-- A checked reader stays within the input. -/
theorem not_faults_lift {r : Reader α} (hr : Checked r) : ¬ (liftM r : Decoder α).Faults s := by
  rintro ⟨what, h⟩
  have h : (read r s).result = .error (.undefined what) := h
  unfold read at h
  cases hx : r s.bytes with
  | error e =>
    rw [hx] at h
    exact hr.2 _ what (hx.trans (by rw [Except.error.inj h]))
  | ok p =>
    rw [hx] at h
    cases h

/-- The code of the user may step out of the input. -/
theorem faults_user {r : UserReader} :
    (user r).Faults s ↔ ∃ what, (r.run s.bytes).result = .error (.undefined what) := by
  unfold Faults user
  cases (r.run s.bytes).result with
  | error e =>
    constructor
    · rintro ⟨what, h⟩
      exact ⟨what, congrArg Except.error (Except.error.inj h)⟩
    · rintro ⟨what, h⟩
      exact ⟨what, congrArg Except.error (Except.error.inj h)⟩
  | ok rest =>
    constructor
    · rintro ⟨what, h⟩
      cases h
    · rintro ⟨what, h⟩
      cases h

-- -------------------------
-- Moving forward
-- -------------------------

/-- Whatever the program reads, what is left is an end of the input. -/
def Forward (x : Decoder α) : Prop := ∀ s a s', x.Reads s a s' → s'.bytes <:+ s.bytes

namespace Forward

theorem pure (a : α) : Forward (Pure.pure a) := by
  intro s b s' h
  obtain ⟨-, rfl⟩ := reads_pure.mp h
  exact List.suffix_refl _

theorem fail (e : Fault) : Forward (Decoder.fail e : Decoder α) := by
  intro s a s' h
  exact absurd h not_reads_fail

theorem bind {x : Decoder α} {f : α → Decoder β} (hx : Forward x) (hf : ∀ a, Forward (f a)) :
    Forward (x >>= f) := by
  intro s b s' h
  obtain ⟨a, s₁, ha, hb⟩ := reads_bind.mp h
  exact (hf a s₁ b s' hb).trans (hx s a s₁ ha)

theorem map {x : Decoder α} (f : α → β) (hx : Forward x) : Forward (do return f (← x)) :=
  hx.bind fun _ => pure _

theorem lift {r : Reader α} (hr : Checked r) : Forward (liftM r : Decoder α) := by
  intro s a s' h
  obtain ⟨rest, hread, rfl⟩ := reads_lift.mp h
  exact hr.1 _ a rest hread

theorem user (r : UserReader) : Forward (Decoder.user r) := by
  intro s a s' h
  obtain ⟨rest, hread, rfl⟩ := reads_user.mp h
  exact r.forward _ rest hread

theorem addr : Forward Decoder.addr := by
  refine (lift .readUInt32).bind fun _ => (lift .readHostId).bind fun _ =>
    (lift .readUInt32).bind fun _ => ?_
  intro s a s' h
  obtain ⟨-, rfl⟩ := Prod.mk.inj (Except.ok.inj h)
  exact List.suffix_refl _

theorem repeated {elem : Decoder α} (h : Forward elem) : ∀ n, Forward (Decoder.repeated elem n)
  | 0 => pure _
  | n + 1 => h.bind fun _ => (repeated h n).map _

theorem sequence {elem : Decoder α} (h : Forward elem) : Forward (Decoder.sequence elem) :=
  (lift .readUInt32).bind fun _ => repeated h _

end Forward

end Decoder

-- -------------------------
-- Handles
-- -------------------------

/-- The input goes on with a group of a module that there is not, or of one whose
own code goes wrong. -/
inductive GroupFault : Source → Prop where
  | unknown {tm : TypeMap} {modname rest : Bytes} (hlen : modname.length < 2 ^ 32)
      (hne : modname ≠ []) (hlocal : modname ≠ ascii "local") (hm : tm.modules modname = none) :
      GroupFault ⟨tm, writeString modname ++ rest⟩
  | code {tm : TypeMap} {modname rest : Bytes} {r : UserReader} {what : String}
      (hlen : modname.length < 2 ^ 32) (hne : modname ≠ []) (hlocal : modname ≠ ascii "local")
      (hm : tm.modules modname = some r) (hr : (r.run rest).result = .error (.undefined what)) :
      GroupFault ⟨tm, writeString modname ++ rest⟩

/-- The input goes on with such a group as part of a value of the type. -/
inductive HandleFault : HandleType → Source → Prop where
  | group {s : Source} (h : GroupFault s) : HandleFault .group s
  | groupDown {s : Source} (h : GroupFault s) : HandleFault .groupDown s
  | channel {tm : TypeMap} {rest : Bytes} (h : GroupFault ⟨tm, rest⟩) :
      HandleFault .channel ⟨tm, writeUInt8 2 ++ rest⟩

open Decoder

/-- Reading an address stays within the input. -/
theorem not_faults_addr {s : Source} : ¬ Decoder.addr.Faults s := by
  rintro h
  rcases faults_bind.mp h with h | ⟨aid, s₁, -, h⟩
  · exact not_faults_lift .readUInt32 h
  rcases faults_bind.mp h with h | ⟨host, s₂, -, h⟩
  · exact not_faults_lift .readHostId h
  rcases faults_bind.mp h with h | ⟨pid, s₃, -, what, h⟩
  · exact not_faults_lift .readUInt32 h
  · cases h

/-- One element after the other. -/
theorem not_faults_repeated {α : Type} {elem : Decoder α} (h : ∀ s, ¬ elem.Faults s) (n : Nat) :
    ∀ s, ¬ (Decoder.repeated elem n).Faults s := by
  induction n with
  | zero => exact fun s => not_faults_pure
  | succ n ih =>
    intro s hf
    rcases faults_bind.mp hf with hf | ⟨x, s₁, -, hf⟩
    · exact h s hf
    · exact ih s₁ (faults_bind_pure.mp hf)

/-- The length of a sequence is checked. -/
theorem not_faults_sequence {α : Type} {elem : Decoder α} (h : ∀ s, ¬ elem.Faults s)
    {s : Source} : ¬ (Decoder.sequence elem).Faults s := by
  intro hf
  rcases faults_bind.mp hf with hf | ⟨size, s₁, -, hf⟩
  · exact not_faults_lift .readUInt32 hf
  · exact not_faults_repeated h _ s₁ hf

/-- Exit and down messages are read within the input. -/
theorem not_faults_readExit {make : AddrRef → UInt32 → Handle} {s : Source} :
    ¬ (readExit make).Faults s := by
  intro hf
  rcases faults_bind.mp hf with hf | ⟨source, s₁, -, hf⟩
  · exact not_faults_addr hf
  · exact not_faults_lift (checked_readPrimitive .uint32) (faults_bind_pure.mp hf)

/-- A group is read by code that is looked up by a name of the input. -/
theorem faults_readGroup {s : Source} : readGroup.Faults s ↔ GroupFault s := by
  have hstring : ¬ (liftM (readPrimitive .string) : Decoder Bytes).Faults s :=
    not_faults_lift (checked_readPrimitive .string)
  constructor
  · intro h
    obtain ⟨modname, s₁, hread, hf⟩ := (faults_bind_of_not hstring).mp h
    obtain ⟨rest, hstr, rfl⟩ := reads_lift.mp hread
    rw [readPrimitive_eq] at hstr
    obtain ⟨hlen, hbytes⟩ := readString_eq_ok.mp hstr
    obtain ⟨tm, bs⟩ := s
    obtain rfl : bs = writeString modname ++ rest := hbytes
    -- no name stands for no group
    split at hf
    · exact absurd hf not_faults_pure
    next hne =>
      have hne : modname ≠ [] := fun hnil => hne (by rw [hnil]; rfl)
      split at hf
      · -- the `local` module reads a string and a handle
        rcases faults_bind.mp hf with hf | ⟨identifier, s₂, -, hf⟩
        · exact absurd hf (not_faults_lift (checked_readPrimitive .string))
        · exact absurd (faults_bind_pure.mp hf) not_faults_addr
      -- a module other than `local`, which may not be there
      next hlocal =>
        rcases faults_bind.mp hf with ⟨what, hf⟩ | ⟨r, s₂, hr, hf⟩
        · cases hf
        obtain ⟨rfl, rfl⟩ := Prod.mk.inj (Except.ok.inj hr)
        cases hm : tm.modules modname with
        | none => exact .unknown hlen hne hlocal hm
        | some r =>
          simp only [hm] at hf
          rcases faults_bind.mp hf with hf | ⟨u, s₃, -, hf⟩
          · obtain ⟨what, hw⟩ := faults_user.mp hf
            exact .code hlen hne hlocal hm hw
          · exact absurd hf not_faults_pure
  · -- the other way round, the name leads to the code
    intro h
    have hread : ∀ {tm : TypeMap} {modname rest : Bytes}, modname.length < 2 ^ 32 →
        (liftM (readPrimitive .string) : Decoder Bytes).Reads ⟨tm, writeString modname ++ rest⟩
          modname ⟨tm, rest⟩ := fun hlen =>
      reads_lift.mpr ⟨_, readString_serialize hlen _, rfl⟩
    cases h with
    | @unknown tm modname rest hlen hne hlocal hm =>
      refine faults_bind.mpr (.inr ⟨modname, _, hread hlen, ?_⟩)
      rw [if_neg (by simpa using hne), if_neg hlocal]
      refine faults_bind.mpr (.inr ⟨none, ⟨tm, rest⟩, ?_, ?_⟩)
      · show Except.ok _ = _
        rw [hm]
      · exact ⟨_, rfl⟩
    | @code tm modname rest r what hlen hne hlocal hm hr =>
      refine faults_bind.mpr (.inr ⟨modname, _, hread hlen, ?_⟩)
      rw [if_neg (by simpa using hne), if_neg hlocal]
      refine faults_bind.mpr (.inr ⟨some r, ⟨tm, rest⟩, ?_, ?_⟩)
      · show Except.ok _ = _
        rw [hm]
      · exact faults_bind.mpr (.inl (faults_user.mpr ⟨what, hr⟩))

/-- A channel is read like a group if its first byte says so. -/
theorem faults_readChannel {s : Source} : readChannel.Faults s ↔ HandleFault .channel s := by
  have hflag : ¬ (liftM (readPrimitive .uint8) : Decoder UInt8).Faults s :=
    not_faults_lift (checked_readPrimitive .uint8)
  constructor
  · intro h
    obtain ⟨flag, s₁, hread, hf⟩ := (faults_bind_of_not hflag).mp h
    obtain ⟨rest, hint, rfl⟩ := reads_lift.mp hread
    rw [readPrimitive_eq] at hint
    obtain ⟨tm, bs⟩ := s
    obtain rfl : bs = writeUInt8 flag ++ rest := readUInt8_eq_ok.mp hint
    -- an invalid channel, an actor, or a group
    split at hf
    · exact absurd hf not_faults_pure
    split at hf
    · exact absurd (faults_bind_pure.mp hf) not_faults_addr
    split at hf
    next htwo =>
      subst htwo
      exact .channel (faults_readGroup.mp (faults_bind_pure.mp hf))
    · obtain ⟨what, hf⟩ := hf
      cases hf
  · intro h
    cases h with | @channel tm rest hgroup => ?_
    have hread : (liftM (readPrimitive .uint8) : Decoder UInt8).Reads
        ⟨tm, writeUInt8 2 ++ rest⟩ 2 ⟨tm, rest⟩ :=
      reads_lift.mpr ⟨rest, by rw [readPrimitive_eq]; exact readUInt8_append 2 rest, rfl⟩
    refine faults_bind.mpr (.inr ⟨2, _, hread, ?_⟩)
    rw [if_neg (by decide), if_neg (by decide), if_pos rfl]
    exact faults_bind_pure.mpr (faults_readGroup.mpr hgroup)

/-- A value with handles goes wrong at a group only. -/
theorem HandleType.faults_iff (t : HandleType) {s : Source} :
    t.deserialize.Faults s ↔ HandleFault t s := by
  cases t with
  | group =>
    rw [deserialize, faults_bind_pure, faults_readGroup]
    constructor
    · exact .group
    · intro h
      cases h with | group h => exact h
  | groupDown =>
    rw [deserialize, faults_bind_pure, faults_readGroup]
    constructor
    · exact .groupDown
    · intro h
      cases h with | groupDown h => exact h
  | channel => rw [deserialize, faults_bind_pure, faults_readChannel]
  | actor | addr =>
    refine iff_of_false (fun h => not_faults_addr (faults_bind_pure.mp h)) fun h => ?_
    cases h
  | actorvec | addrvec =>
    refine iff_of_false (fun h => ?_) fun h => ?_
    · exact not_faults_sequence (fun _ => not_faults_addr) (faults_bind_pure.mp h)
    · cases h
  | down | exit | syncExited =>
    refine iff_of_false not_faults_readExit fun h => ?_
    cases h

/-- Groups are read forward. -/
theorem forward_readGroup : Forward readGroup := by
  have hstring : Forward (liftM (readPrimitive .string) : Decoder Bytes) :=
    .lift (checked_readPrimitive .string)
  refine hstring.bind fun modname => ?_
  split
  · exact .pure _
  split
  · exact hstring.bind fun _ => .map _ .addr
  · intro s g s' h
    obtain ⟨r, s₁, hr, h⟩ := reads_bind.mp h
    obtain ⟨rfl, rfl⟩ := Prod.mk.inj (Except.ok.inj hr)
    cases hm : s.types.modules modname with
    | none =>
      rw [hm] at h
      exact absurd h not_reads_fail
    | some r =>
      rw [hm] at h
      exact ((Forward.user r).bind fun _ => Forward.pure _) s g s' h

/-- So are channels. -/
theorem forward_readChannel : Forward readChannel := by
  have hflag : Forward (liftM (readPrimitive .uint8) : Decoder UInt8) :=
    .lift (checked_readPrimitive .uint8)
  refine hflag.bind fun flag => ?_
  split
  · exact .pure _
  split
  · exact .map _ .addr
  split
  · exact .map _ forward_readGroup
  · exact .fail _

/-- So are all handles. -/
theorem HandleType.forward (t : HandleType) : Forward t.deserialize := by
  cases t with
  | actor | addr => exact .map _ .addr
  | actorvec | addrvec => exact .map _ (.sequence .addr)
  | channel => exact .map _ forward_readChannel
  | group | groupDown => exact .map _ forward_readGroup
  | down | exit | syncExited =>
    exact Forward.addr.bind fun _ => .map _ (.lift (checked_readPrimitive .uint32))

end BoostActor
