import BoostActor.Core.Decoding

/-!
# Decoding arbitrary input

The bytes of a message choose a type by number or by name, and `begin_object`
hands on whatever it finds: no test that the number is one of the array, that no
element of a tuple type is null, or that the type is that of a message. So
decoding is safe on exactly those inputs that never lead it to such a header, nor
to a group of an unknown module.

`Decodes` is the format: what the decoder passes over from one place in the input
to the next. `Unchecked` says that going on so, one comes to a place where
nothing was checked.

* `reads_iff`, `faults_iff` — the decoder follows the format, to any depth;
* **`Message.safe_iff`** — it yields a message or throws iff its input is not
  `Unchecked`.
-/

namespace BoostActor

open Decoder

-- -------------------------
-- The format
-- -------------------------

/-- An object starts with the number of its type, or with zero and the name. -/
inductive ObjectHeader : Source → TypeInfo → Source → Prop where
  | numbered {tm : TypeMap} {nr : UInt16} {b : Builtin} {rest : Bytes} (hnr : nr ≠ 0)
      (hb : byTypeNr nr = some b) :
    ObjectHeader ⟨tm, writeUInt16 nr ++ rest⟩ (.builtin b) ⟨tm, rest⟩
  | named {tm tm' : TypeMap} {name rest : Bytes} {t : TypeInfo} (hlen : name.length < 2 ^ 32)
      (ht : tm.byUniformName name = (some t, tm')) :
      ObjectHeader ⟨tm, writeUInt16 0 ++ (writeString name ++ rest)⟩ t ⟨tm', rest⟩

mutual

/-- A message from one place in the input to the next. -/
inductive Decodes : Source → Source → Prop where
  | intro {s s₁ s₂ : Source} {t : TypeInfo} (hh : ObjectHeader s t s₁) (hc : t.complete = true)
      (hm : t.isMessage = true) (hp : Passes t s₁ s₂) : Decodes s s₂

/-- A value of a type from one place in the input to the next. -/
inductive Passes : TypeInfo → Source → Source → Prop where
  | plain {t : PlainType} {s : Source} {x : PlainValue} {rest : Bytes}
      (h : t.deserialize s.bytes = .ok (x, rest)) :
      Passes (.builtin (.plain t)) s { s with bytes := rest }
  | handle {t : HandleType} {s s' : Source} {x : Handle} (h : t.deserialize.Reads s x s') :
      Passes (.builtin (.handle t)) s s'
  | message {s s' : Source} (h : Decodes s s') : Passes (.builtin .message) s s'
  | announced {name : Bytes} {read : UserReader} {s : Source} {rest : Bytes}
      (h : (read.run s.bytes).result = .ok rest) :
      Passes (.announced name read) s { s with bytes := rest }
  | tuple {name : Bytes} {elements : List (Option TypeInfo)} {s s' : Source}
      (h : PassesAll elements s s') : Passes (.tuple name elements) s s'

/-- Values of these types, one after the other. -/
inductive PassesAll : List (Option TypeInfo) → Source → Source → Prop where
  | nil {s : Source} : PassesAll [] s s
  | cons {t : TypeInfo} {ts : List (Option TypeInfo)} {s s₁ s₂ : Source} (h : Passes t s s₁)
      (hs : PassesAll ts s₁ s₂) : PassesAll (some t :: ts) s s₂

end

mutual

/-- A message at this place leads to one of the things that are not checked. -/
inductive Unchecked : Source → Prop where
  /-- a type number behind the end of the array -/
  | number {tm : TypeMap} {nr : UInt16} {rest : Bytes} (h : builtinTypes.length < nr.toNat) :
      Unchecked ⟨tm, writeUInt16 nr ++ rest⟩
  /-- a tuple type with a null pointer -/
  | null {s s₁ : Source} {t : TypeInfo} (hh : ObjectHeader s t s₁) (hc : t.complete = false) :
      Unchecked s
  /-- the type of something else than a message, and a value of it -/
  | mistyped {s s₁ s₂ : Source} {t : TypeInfo} (hh : ObjectHeader s t s₁) (hm : t.isMessage = false)
      (hp : Passes t s₁ s₂) : Unchecked s
  | value {s s₁ : Source} {t : TypeInfo} (hh : ObjectHeader s t s₁) (hc : t.complete = true)
      (h : UncheckedValue t s₁) : Unchecked s

/-- A value of the type does. -/
inductive UncheckedValue : TypeInfo → Source → Prop where
  | handle {t : HandleType} {s : Source} (h : HandleFault t s) :
      UncheckedValue (.builtin (.handle t)) s
  | message {s : Source} (h : Unchecked s) : UncheckedValue (.builtin .message) s
  /-- the code of an announced type goes wrong by itself -/
  | announced {name : Bytes} {read : UserReader} {s : Source} {what : String}
      (h : (read.run s.bytes).result = .error (.undefined what)) :
      UncheckedValue (.announced name read) s
  | tuple {name : Bytes} {elements : List (Option TypeInfo)} {s : Source}
      (h : UncheckedElement elements s) : UncheckedValue (.tuple name elements) s

/-- One of the values of these types does, after those in front of it. -/
inductive UncheckedElement : List (Option TypeInfo) → Source → Prop where
  | here {t : TypeInfo} {ts : List (Option TypeInfo)} {s : Source} (h : UncheckedValue t s) :
      UncheckedElement (some t :: ts) s
  | later {t : TypeInfo} {ts : List (Option TypeInfo)} {s s₁ : Source} (hp : Passes t s s₁)
      (h : UncheckedElement ts s₁) : UncheckedElement (some t :: ts) s

end

-- -------------------------
-- Headers
-- -------------------------

/-- No builtin type has this number. -/
theorem byTypeNr_eq_none {nr : UInt16} (hnr : nr ≠ 0) :
    byTypeNr nr = none ↔ builtinTypes.length < nr.toNat := by
  have hpos : nr.toNat ≠ 0 := fun h => hnr (UInt16.toNat_inj.mp h)
  rw [byTypeNr, Option.map_eq_none_iff, List.getElem?_eq_none_iff]
  omega

/-- A header is the first part of the input. -/
theorem ObjectHeader.suffix {s s' : Source} {t : TypeInfo} (h : ObjectHeader s t s') :
    s'.bytes <:+ s.bytes := by
  cases h with
  | numbered hnr hb => exact List.suffix_append _ _
  | named hlen ht => exact (List.suffix_append _ _).trans (List.suffix_append _ _)

/-- A header takes at least two bytes. -/
theorem ObjectHeader.length {s s' : Source} {t : TypeInfo} (h : ObjectHeader s t s') :
    s'.bytes.length + 2 ≤ s.bytes.length := by
  cases h with
  | @numbered tm nr b rest hnr hb =>
    show rest.length + 2 ≤ (writeUInt16 nr ++ rest).length
    rw [List.length_append, length_writeUInt16]
    omega
  | @named tm tm' name rest t hlen ht =>
    show rest.length + 2 ≤ (writeUInt16 0 ++ (writeString name ++ rest)).length
    rw [List.length_append, List.length_append, length_writeUInt16]
    omega

/-- The beginning of an object is read if the bytes start with a header. -/
theorem reads_beginObject {s s' : Source} {t : TypeInfo} :
    beginObject.Reads s t s' ↔ ObjectHeader s t s' := by
  constructor
  · intro h
    obtain ⟨nr, s₁, hnr, h⟩ := reads_bind.mp h
    obtain ⟨rest, hint, rfl⟩ := reads_lift.mp hnr
    obtain ⟨tm, bs⟩ := s
    obtain rfl : bs = writeUInt16 nr ++ rest := readUInt16_eq_ok.mp hint
    -- a name follows if the number is zero
    split at h
    next hzero =>
      subst hzero
      obtain ⟨name, s₂, hname, h⟩ := reads_bind.mp h
      obtain ⟨rest', hstr, rfl⟩ := reads_lift.mp hname
      obtain ⟨hlen, rfl⟩ := readString_eq_ok.mp hstr
      obtain ⟨found, s₃, hfound, h⟩ := reads_bind.mp h
      obtain ⟨tm', ht, rfl⟩ := reads_byUniformName.mp hfound
      cases found with
      | none => exact absurd h not_reads_fail
      | some t =>
        obtain ⟨rfl, rfl⟩ := reads_pure.mp h
        exact .named hlen ht
    next hne =>
      cases hb : byTypeNr nr with
      | none =>
        rw [hb] at h
        exact absurd h not_reads_fail
      | some b =>
        rw [hb] at h
        obtain ⟨rfl, rfl⟩ := reads_pure.mp h
        exact .numbered hne hb
  · -- the other way round, the header is read
    intro h
    cases h with
    | @numbered tm nr b rest hnr hb =>
      refine reads_bind.mpr ⟨nr, ⟨tm, rest⟩,
        reads_lift.mpr ⟨rest, readUInt16_append nr rest, rfl⟩, ?_⟩
      rw [if_neg hnr, hb]
      exact reads_pure.mpr ⟨rfl, rfl⟩
    | @named tm tm' name rest t hlen ht =>
      refine reads_bind.mpr ⟨0, ⟨tm, writeString name ++ rest⟩,
        reads_lift.mpr ⟨_, readUInt16_append 0 _, rfl⟩, ?_⟩
      rw [if_pos rfl]
      refine reads_bind.mpr ⟨name, ⟨tm, rest⟩,
        reads_lift.mpr ⟨rest, readString_append hlen rest, rfl⟩, ?_⟩
      exact reads_bind.mpr ⟨some t, ⟨tm', rest⟩, reads_byUniformName.mpr ⟨tm', ht, rfl⟩,
        reads_pure.mpr ⟨rfl, rfl⟩⟩

/-- Only a number without type leads out of the table. -/
theorem faults_beginObject {s : Source} :
    beginObject.Faults s ↔
      ∃ nr rest, builtinTypes.length < nr.toNat ∧ s.bytes = writeUInt16 nr ++ rest := by
  constructor
  · intro h
    obtain ⟨nr, s₁, hnr, h⟩ := (faults_bind_of_not (not_faults_lift .readUInt16)).mp h
    obtain ⟨rest, hint, rfl⟩ := reads_lift.mp hnr
    split at h
    · -- a type name is unknown, or it is found
      obtain ⟨name, s₂, -, h⟩ := (faults_bind_of_not (not_faults_lift .readString)).mp h
      rcases faults_bind.mp h with ⟨what, h⟩ | ⟨found, s₃, -, h⟩
      · cases h
      · cases found with
        | none =>
          obtain ⟨what, h⟩ := h
          cases h
        | some t => exact absurd h not_faults_pure
    next hne =>
      cases hb : byTypeNr nr with
      | none => exact ⟨nr, rest, (byTypeNr_eq_none hne).mp hb, readUInt16_eq_ok.mp hint⟩
      | some b =>
        rw [hb] at h
        exact absurd h not_faults_pure
  · -- the number is used as an index unless it is zero
    rintro ⟨nr, rest, hnr, hbytes⟩
    have hne : nr ≠ 0 := by
      rintro rfl
      exact absurd hnr (Nat.not_lt_zero _)
    refine faults_bind.mpr (.inr ⟨nr, _,
      reads_lift.mpr ⟨rest, readUInt16_eq_ok.mpr hbytes, rfl⟩, ?_⟩)
    rw [if_neg hne, (byTypeNr_eq_none hne).mpr hnr]
    exact ⟨_, rfl⟩

-- -------------------------
-- Following the format
-- -------------------------

mutual

theorem Decodes.suffix {s s' : Source} : Decodes s s' → s'.bytes <:+ s.bytes
  | .intro hh _ _ hp => hp.suffix.trans hh.suffix

theorem Passes.suffix {t : TypeInfo} {s s' : Source} : Passes t s s' → s'.bytes <:+ s.bytes
  | .plain h => (PlainType.checked_deserialize _).1 _ _ _ h
  | .handle h => HandleType.forward _ _ _ _ h
  | .message h => h.suffix
  | @Passes.announced _ r _ _ h => r.forward _ _ h
  | .tuple h => h.suffix

theorem PassesAll.suffix {ts : List (Option TypeInfo)} {s s' : Source} :
    PassesAll ts s s' → s'.bytes <:+ s.bytes
  | .nil => List.suffix_refl _
  | .cons h hs => hs.suffix.trans h.suffix

end

-- -------------------------
-- Values and their elements
-- -------------------------

/-- `nested` reads messages as the format has them, from up to `n` bytes. -/
structure Follows (nested : Decoder (List Value)) (n : Nat) : Prop where
  reads : ∀ s s', s.bytes.length < n → ((∃ es, nested.Reads s es s') ↔ Decodes s s')
  faults : ∀ s, s.bytes.length < n → (nested.Faults s ↔ Unchecked s)

variable {nested : Decoder (List Value)} {n : Nat}

mutual

/-- A type is read as its bytes lead through it. -/
theorem TypeInfo.reads_iff (h : Follows nested n) : ∀ (t : TypeInfo) {s s' : Source},
    s.bytes.length < n → ((∃ x, (t.deserialize nested).Reads s x s') ↔ Passes t s s')
  | .builtin (.plain t), s, s', _ => by
    rw [TypeInfo.deserialize, exists_reads_map]
    constructor
    · rintro ⟨x, hx⟩
      obtain ⟨rest, hread, rfl⟩ := reads_lift.mp hx
      exact .plain hread
    · rintro ⟨hread⟩
      exact ⟨_, reads_lift.mpr ⟨_, hread, rfl⟩⟩
  | .builtin (.handle t), s, s', _ => by
    rw [TypeInfo.deserialize, exists_reads_map]
    constructor
    · rintro ⟨x, hx⟩
      exact .handle hx
    · intro hp
      cases hp with | handle hx => exact ⟨_, hx⟩
  | .builtin .message, s, s', hlen => by
    rw [TypeInfo.deserialize, exists_reads_map, h.reads s s' hlen]
    constructor
    · exact .message
    · intro hp
      cases hp with | message hd => exact hd
  | .announced name r, s, s', _ => by
    constructor
    · rintro ⟨x, hx⟩
      obtain ⟨u, s₁, hu, hx⟩ := reads_bind.mp hx
      obtain ⟨-, rfl⟩ := reads_pure.mp hx
      obtain ⟨rest, hread, rfl⟩ := reads_user.mp hu
      exact .announced hread
    · intro hp
      cases hp with
      | announced hread =>
        exact ⟨_, reads_bind.mpr ⟨(), _, reads_user.mpr ⟨_, hread, rfl⟩,
          reads_pure.mpr ⟨rfl, rfl⟩⟩⟩
  | .tuple name elements, s, s', hlen => by
    rw [TypeInfo.deserialize, exists_reads_map, reads_all_iff h elements hlen]
    constructor
    · exact .tuple
    · intro hp
      cases hp with | tuple ha => exact ha

/-- The elements are read one after the other. -/
theorem reads_all_iff (h : Follows nested n) : ∀ (ts : List (Option TypeInfo)) {s s' : Source},
    s.bytes.length < n → ((∃ xs, (deserializeAll nested ts).Reads s xs s') ↔ PassesAll ts s s')
  | [], s, s', _ => by
    constructor
    · rintro ⟨xs, hxs⟩
      obtain ⟨-, rfl⟩ := reads_pure.mp hxs
      exact .nil
    · rintro ⟨⟩
      exact ⟨[], reads_pure.mpr ⟨rfl, rfl⟩⟩
  | none :: ts, s, s', _ => by
    constructor
    · rintro ⟨xs, hxs⟩
      exact absurd hxs not_reads_fail
    · intro hp
      cases hp
  | some t :: ts, s, s', hlen => by
    -- the first value leaves no more than there was
    have hrest : ∀ {s₁}, Passes t s s₁ → s₁.bytes.length < n := fun hp =>
      Nat.lt_of_le_of_lt hp.suffix.length_le hlen
    constructor
    · rintro ⟨xs, hxs⟩
      obtain ⟨x, s₁, hx, hxs⟩ := reads_bind.mp hxs
      have hp := (t.reads_iff h hlen).mp ⟨x, hx⟩
      exact .cons hp ((reads_all_iff h ts (hrest hp)).mp (exists_reads_map.mp ⟨xs, hxs⟩))
    · intro hp
      cases hp with
      | cons hp hps =>
        obtain ⟨x, hx⟩ := (t.reads_iff h hlen).mpr hp
        obtain ⟨xs, hxs⟩ := (reads_all_iff h ts (hrest hp)).mpr hps
        exact ⟨x :: xs, reads_bind.mpr ⟨x, _, hx, reads_bind.mpr ⟨xs, _, hxs,
          reads_pure.mpr ⟨rfl, rfl⟩⟩⟩⟩

end

mutual

/-- A value of a type that is complete is read as safely as its parts are. -/
theorem TypeInfo.faults_iff (h : Follows nested n) : ∀ (t : TypeInfo) {s : Source},
    t.complete = true → s.bytes.length < n →
      ((t.deserialize nested).Faults s ↔ UncheckedValue t s)
  | .builtin (.plain t), s, _, _ => by
    rw [TypeInfo.deserialize, faults_bind_pure]
    constructor
    · intro hf
      exact absurd hf (not_faults_lift t.checked_deserialize)
    · intro hu
      cases hu
  | .builtin (.handle t), s, _, _ => by
    rw [TypeInfo.deserialize, faults_bind_pure, t.faults_iff]
    constructor
    · exact .handle
    · intro hu
      cases hu with | handle hf => exact hf
  | .builtin .message, s, _, hlen => by
    rw [TypeInfo.deserialize, faults_bind_pure, h.faults s hlen]
    constructor
    · exact .message
    · intro hu
      cases hu with | message hm => exact hm
  | .announced name r, s, _, _ => by
    rw [TypeInfo.deserialize, faults_bind, faults_user]
    constructor
    · rintro (⟨what, hr⟩ | ⟨u, s₁, -, hf⟩)
      · exact .announced hr
      · exact absurd hf not_faults_pure
    · intro hu
      cases hu with | announced hr => exact .inl ⟨_, hr⟩
  | .tuple name elements, s, hc, hlen => by
    rw [TypeInfo.deserialize, faults_bind_pure, faults_all_iff h elements hc hlen]
    constructor
    · exact .tuple
    · intro hu
      cases hu with | tuple he => exact he

/-- The elements are read safely up to the first that is not. -/
theorem faults_all_iff (h : Follows nested n) : ∀ (ts : List (Option TypeInfo)) {s : Source},
    allComplete ts = true → s.bytes.length < n →
      ((deserializeAll nested ts).Faults s ↔ UncheckedElement ts s)
  | [], s, _, _ => by
    constructor
    · intro hf
      exact absurd hf not_faults_pure
    · intro hu
      cases hu
  | none :: ts, s, hc, _ => by cases hc
  | some t :: ts, s, hc, hlen => by
    obtain ⟨ht, hts⟩ := Bool.and_eq_true_iff.mp hc
    have hrest : ∀ {s₁}, Passes t s s₁ → s₁.bytes.length < n := fun hp =>
      Nat.lt_of_le_of_lt hp.suffix.length_le hlen
    rw [deserializeAll, faults_bind, t.faults_iff h ht hlen]
    constructor
    · rintro (hu | ⟨x, s₁, hx, hf⟩)
      · exact .here hu
      · have hp := (t.reads_iff h hlen).mp ⟨x, hx⟩
        exact .later hp ((faults_all_iff h ts hts (hrest hp)).mp (faults_bind_pure.mp hf))
    · intro hu
      cases hu with
      | here hu => exact .inl hu
      | later hp hu =>
        obtain ⟨x, hx⟩ := (t.reads_iff h hlen).mpr hp
        exact .inr ⟨x, _, hx, faults_bind_pure.mpr ((faults_all_iff h ts hts (hrest hp)).mpr hu)⟩

end

-- -------------------------
-- Messages
-- -------------------------

/-- What is read of a message type is used as a message, and of no other type. -/
theorem TypeInfo.asMessage_isSome {t : TypeInfo} {s s' : Source} {x : Value}
    (h : (t.deserialize nested).Reads s x s') : x.asMessage?.isSome = t.isMessage := by
  rcases t with (b | b | _) | ⟨name, r⟩ | ⟨name, elements⟩ <;>
  · obtain ⟨y, s₁, -, hx⟩ := reads_bind.mp h
    obtain ⟨rfl, -⟩ := reads_pure.mp hx
    rfl

/-- A header leaves less than there was. -/
theorem ObjectHeader.length_lt {s s₁ : Source} {t : TypeInfo} {depth : Nat}
    (hh : ObjectHeader s t s₁)
    (hlen : s.bytes.length < depth + 1) : s₁.bytes.length < depth := by
  have := hh.length
  omega

/-- A message is read if the bytes lead through one. -/
theorem reads_readMessage {depth : Nat} (h : Follows (readMessage depth) depth) {s s' : Source}
    (hlen : s.bytes.length < depth + 1) :
    (∃ es, (readMessage (depth + 1)).Reads s es s') ↔ Decodes s s' := by
  constructor
  · rintro ⟨es, hes⟩
    obtain ⟨t, s₁, ht, hes⟩ := reads_bind.mp hes
    have hh := reads_beginObject.mp ht
    -- the object is a message, since its type is complete
    split at hes
    next hc =>
      obtain ⟨x, s₂, hx, hes⟩ := reads_bind.mp hes
      have hm := t.asMessage_isSome hx
      -- the cast of the value succeeds, or nothing was read
      cases hsome : x.asMessage? with
      | none =>
        rw [hsome] at hes
        exact absurd hes not_reads_fail
      | some elements =>
        rw [hsome] at hes hm
        obtain ⟨-, rfl⟩ := reads_pure.mp hes
        exact .intro hh hc hm.symm ((t.reads_iff h (hh.length_lt hlen)).mp ⟨x, hx⟩)
    · exact absurd hes not_reads_fail
  · intro hd
    cases hd with
    | @intro _ s₁ _ t hh hc hm hp =>
      obtain ⟨x, hx⟩ := (t.reads_iff h (hh.length_lt hlen)).mpr hp
      obtain ⟨elements, hsome⟩ := Option.isSome_iff_exists.mp ((t.asMessage_isSome hx).trans hm)
      refine ⟨elements, reads_bind.mpr ⟨t, s₁, reads_beginObject.mpr hh, ?_⟩⟩
      rw [if_pos hc]
      refine reads_bind.mpr ⟨x, s', hx, ?_⟩
      rw [hsome]
      exact reads_pure.mpr ⟨rfl, rfl⟩

/-- A message is read outside of the input, or through a null pointer, where its bytes are
unchecked. -/
theorem faults_readMessage {depth : Nat} (h : Follows (readMessage depth) depth) {s : Source}
    (hlen : s.bytes.length < depth + 1) :
    (readMessage (depth + 1)).Faults s ↔ Unchecked s := by
  constructor
  · intro hf
    rcases faults_bind.mp hf with hf | ⟨t, s₁, ht, hf⟩
    · -- the number of the type leads nowhere
      obtain ⟨nr, rest, hnr, hbytes⟩ := faults_beginObject.mp hf
      obtain ⟨tm, bs⟩ := s
      obtain rfl : bs = _ := hbytes
      exact .number hnr
    have hh := reads_beginObject.mp ht
    split at hf
    next hc =>
      rcases faults_bind.mp hf with hf | ⟨x, s₂, hx, hf⟩
      · exact .value hh hc ((t.faults_iff h hc (hh.length_lt hlen)).mp hf)
      have hm := t.asMessage_isSome hx
      -- a value of another type was cast
      cases hsome : x.asMessage? with
      | none =>
        rw [hsome] at hm
        exact .mistyped hh hm.symm ((t.reads_iff h (hh.length_lt hlen)).mp ⟨x, hx⟩)
      | some elements =>
        rw [hsome] at hf
        exact absurd hf not_faults_pure
    next hc => exact .null hh (Bool.eq_false_iff.mpr hc)
  · intro hu
    cases hu with
    -- a type number that is too large
    | @number tm nr rest hnr =>
      exact faults_bind.mpr (.inl (faults_beginObject.mpr ⟨nr, rest, hnr, rfl⟩))
    -- a type that is not known
    | @null _ s₁ t hh hc =>
      refine faults_bind.mpr (.inr ⟨t, s₁, reads_beginObject.mpr hh, ?_⟩)
      rw [if_neg (Bool.eq_false_iff.mp hc)]
      exact ⟨_, rfl⟩
    -- a value that is no message
    | @mistyped _ s₁ s₂ t hh hm hp =>
      obtain ⟨x, hx⟩ := (t.reads_iff h (hh.length_lt hlen)).mpr hp
      have hnone : x.asMessage? = none :=
        Option.not_isSome_iff_eq_none.mp
          (by rw [t.asMessage_isSome hx, hm]; exact Bool.false_ne_true)
      refine faults_bind.mpr (.inr ⟨t, s₁, reads_beginObject.mpr hh, ?_⟩)
      split
      · refine faults_bind.mpr (.inr ⟨x, s₂, hx, ?_⟩)
        rw [hnone]
        exact ⟨_, rfl⟩
      · exact ⟨_, rfl⟩
    | @value _ s₁ t hh hc hu =>
      refine faults_bind.mpr (.inr ⟨t, s₁, reads_beginObject.mpr hh, ?_⟩)
      rw [if_pos hc]
      exact faults_bind.mpr (.inl ((t.faults_iff h hc (hh.length_lt hlen)).mpr hu))

/-- To any depth, the decoder follows the format. -/
theorem follows_readMessage (depth : Nat) : Follows (readMessage depth) depth := by
  induction depth with
  | zero =>
    constructor
    · intro s s' hlen
      exact absurd hlen (Nat.not_lt_zero _)
    · intro s hlen
      exact absurd hlen (Nat.not_lt_zero _)
  | succ depth ih =>
    constructor
    · intro s s' hlen
      exact reads_readMessage ih hlen
    · intro s hlen
      exact faults_readMessage ih hlen

-- -------------------------
-- Safety
-- -------------------------

/-- Decoding yielded a message, and what it did not read is an end of the input;
or it threw an exception. -/
def Trace.Safe (t : Trace (List Value × Source)) (bs : Bytes) : Prop :=
  (∃ m s', t.result = .ok (m, s') ∧ s'.bytes <:+ bs) ∨
    ∃ e, t.result = .error e ∧ ∀ what, e ≠ .undefined what

/-- **Decoding safety**: for every input and every content of the type map,
decoding yields a message or throws iff the input does not lead to one of the
things that are not checked. -/
theorem Message.deserialize_safe_iff (tm : TypeMap) (bs : Bytes) :
    (Message.deserialize tm bs).Safe bs ↔ ¬ Unchecked ⟨tm, bs⟩ := by
  have hfollows := follows_readMessage (bs.length + 1)
  have hlen : bs.length < bs.length + 1 := Nat.lt_succ_self _
  rw [← hfollows.faults ⟨tm, bs⟩ hlen]
  cases hres : (Message.deserialize tm bs).result with
  | error e =>
    have hres' : (readMessage (bs.length + 1) ⟨tm, bs⟩).result = .error e := hres
    constructor
    · rintro (⟨m, s', hok, -⟩ | ⟨e', he, hthrown⟩) ⟨what, hf⟩
      · rw [hres] at hok
        cases hok
      · rw [hres] at he
        rw [hres', Except.error.inj he] at hf
        exact hthrown what (Except.error.inj hf)
    · intro hnot
      exact .inr ⟨e, hres, fun what he => hnot ⟨what, by rw [hres', he]⟩⟩
  | ok p =>
    have hread : (readMessage (bs.length + 1)).Reads ⟨tm, bs⟩ p.1 p.2 := hres
    have hd := (hfollows.reads ⟨tm, bs⟩ p.2 hlen).mp ⟨p.1, hread⟩
    constructor
    · rintro - ⟨what, hf⟩
      rw [hread] at hf
      cases hf
    · intro _
      exact .inl ⟨p.1, p.2, hres, hd.suffix⟩

/-- An undefined step is not safe. -/
theorem Trace.not_safe {t : Trace (List Value × Source)} {bs : Bytes} {what : String}
    (h : t.result = .error (.undefined what)) : ¬ t.Safe bs := by
  rintro (⟨m, s', hok, -⟩ | ⟨e, he, hthrown⟩)
  · rw [h] at hok
    cases hok
  · rw [h] at he
    exact hthrown what (Except.error.inj he).symm

/-- Type number 999 is outside the array, an element of unknown type is a null
pointer, and number 14 is that of a 32-bit integer. -/
theorem Message.deserialize_unsafe :
    ¬ (Message.deserialize TypeMap.empty (writeUInt16 999)).Safe (writeUInt16 999) ∧
    ¬ (Message.deserialize TypeMap.empty (writeUInt16 0 ++ writeString (ascii "@<>+x"))).Safe
      (writeUInt16 0 ++ writeString (ascii "@<>+x")) ∧
    ¬ (Message.deserialize TypeMap.empty (writeUInt16 14 ++ writeUInt32 0)).Safe
      (writeUInt16 14 ++ writeUInt32 0) := by
  refine ⟨?_, ?_, ?_⟩
  · exact @Trace.not_safe _ _ "type number out of range" rfl
  · exact @Trace.not_safe _ _ "null uniform_type_info" rfl
  · exact @Trace.not_safe _ _ "not a message" rfl

end BoostActor
