import BoostActor.Core.DecodingSafety
import BoostActor.Core.MessageLists
import BoostActor.Core.TypeNames

/-!
# Messages read back

What is read from the bytes of a message whose elements are plain values and
messages of such: `PlainType.deserialize_serialize` for a single value, carried
through tuple types, which are found or made on the way, to messages of any depth.

Two things are in the way. A character buffer with characters in it is written and
not read back. And the type map may have something else under the name of a tuple
type: an announced type, or a tuple type that was made for a name with a null
character.

* `Value.reads_serialize` — a value without such a buffer is read back under a type
  map that knows its tuple types;
* `Value.of_reads` — and under no other circumstances;
* **`CowMessage.roundTrips_iff`** — the round trip of messages.
-/

namespace BoostActor

open Decoder

-- -------------------------
-- The values in question
-- -------------------------

/-- The builtin types of some values. -/
def builtinsOf (xs : List Value) : List Builtin := xs.filterMap Value.builtin?

namespace Value

/-- A plain value or a message of such, with all lengths below 2^32 and no node id
of which the wire makes another. -/
inductive Data : Value → Prop where
  | plain {x : PlainValue} (hfits : x.Fits) (hnormal : x.Normal) : Data (.plain x)
  | message {xs : List Value} (hname : (tuplePrefix ++ typeNames xs).length < 2 ^ 32)
      (h : ∀ x ∈ xs, Data x) : Data (.message xs)

/-- A buffer with characters in it, at any depth. -/
inductive HoldsChars : Value → Prop where
  | plain {x : PlainValue} (h : x.HoldsChars) : HoldsChars (.plain x)
  | message {x : Value} {xs : List Value} (hx : x ∈ xs) (h : HoldsChars x) :
      HoldsChars (.message xs)

/-- The type map has nothing but the tuple type under the name of a message, at any
depth. -/
inductive KnownTo (tm : TypeMap) : Value → Prop where
  | plain {x : PlainValue} : KnownTo tm (.plain x)
  | message {xs : List Value} (hk : tm.Knows (builtinsOf xs)) (h : ∀ x ∈ xs, KnownTo tm x) :
      KnownTo tm (.message xs)

theorem Data.builtin {x : Value} (h : x.Data) : ∃ b, x.builtin? = some b ∧ x.typeName = b.name := by
  cases h with
  | @plain x _ _ => exact ⟨.plain x.type, rfl, rfl⟩
  | message _ _ => exact ⟨.message, rfl, rfl⟩

/-- What is known to a type map is known to every map that knows the same types. -/
theorem KnownTo.of_same {tm tm' : TypeMap} (hsame : tm.SameKnown tm') {x : Value}
    (h : x.KnownTo tm) : x.KnownTo tm' := by
  induction h with
  | plain => exact .plain
  | message hk _ ih => exact .message ((hsame _).mpr hk) ih

end Value

theorem builtinsOf_cons {x : Value} {xs : List Value} {b : Builtin} (h : x.builtin? = some b) :
    builtinsOf (x :: xs) = b :: builtinsOf xs := List.filterMap_cons_some h

/-- The name of a tuple lists the names of its types. -/
theorem typeNames_eq {xs : List Value} (h : ∀ x ∈ xs, x.Data) :
    tuplePrefix ++ typeNames xs = tupleName (builtinsOf xs) := by
  rw [tupleName]
  congr 1
  induction xs with
  | nil => rfl
  | cons x xs ih =>
    obtain ⟨b, hb, hname⟩ := (h x List.mem_cons_self).builtin
    rw [builtinsOf_cons hb, List.flatMap_cons, ← ih fun y hy => h y (List.mem_cons_of_mem x hy),
      ← hname]
    rfl

-- -------------------------
-- Reading back
-- -------------------------

section

variable {other : Value → Bytes}

/-- The header of a message of data, and its elements. -/
theorem header_serialize {xs : List Value} (h : (Value.message xs).Data) {tm : TypeMap}
    {t : TypeInfo} {tm' : TypeMap}
    (ht : tm.byUniformName (tupleName (builtinsOf xs)) = (some t, tm')) (rest : Bytes) :
    ObjectHeader ⟨tm, (Value.message xs).serialize other ++ rest⟩ t
      ⟨tm', serializeAll other xs ++ rest⟩ := by
  cases h with
  | message hname hxs =>
    rw [typeNames_eq hxs] at hname
    have hbytes : (Value.message xs).serialize other ++ rest = writeUInt16 0 ++
        (writeString (tupleName (builtinsOf xs)) ++ (serializeAll other xs ++ rest)) := by
      rw [Value.serialize, Message.bytes, typeNames_eq hxs]
      simp only [List.append_assoc]
    rw [hbytes]
    exact .named hname ht

/-- A tuple type is read element by element. -/
theorem reads_tuple {n : Nat} {s s₁ s' : Source} {name : Bytes} {bs : List Builtin}
    {xs : List Value} (hh : ObjectHeader s (.tuple name (elementsOf bs)) s₁) :
    (readMessage (n + 1)).Reads s xs s' ↔
      (deserializeAll (readMessage n) (elementsOf bs)).Reads s₁ xs s' := by
  have hhead := reads_beginObject.mpr hh
  have hcomplete : (TypeInfo.tuple name (elementsOf bs)).complete = true :=
    allComplete_elementsOf bs
  constructor
  · intro h
    obtain ⟨t, s₂, ht, h⟩ := reads_bind.mp h
    obtain ⟨rfl, rfl⟩ := Prod.mk.inj (Except.ok.inj (ht.symm.trans hhead))
    rw [if_pos hcomplete] at h
    obtain ⟨x, s₃, hx, h⟩ := reads_bind.mp h
    obtain ⟨ys, s₄, hys, hx⟩ := reads_bind.mp hx
    obtain ⟨rfl, rfl⟩ := reads_pure.mp hx
    obtain ⟨rfl, rfl⟩ := reads_pure.mp h
    exact hys
  · intro h
    refine reads_bind.mpr ⟨_, s₁, hhead, ?_⟩
    rw [if_pos hcomplete]
    exact reads_bind.mpr ⟨.tuple name xs, s', reads_bind.mpr ⟨xs, s', h, reads_pure.mpr ⟨rfl, rfl⟩⟩,
      reads_pure.mpr ⟨rfl, rfl⟩⟩

mutual

/-- A value without characters in a buffer is read back, and the type map knows the
same tuple types afterwards. -/
theorem Value.reads_serialize : ∀ (x : Value) {n : Nat} {tm : TypeMap} {rest : Bytes},
    x.Data → ¬ x.HoldsChars → x.KnownTo tm → (x.serialize other ++ rest).length < n →
    ∃ b tm', x.builtin? = some b ∧ tm.SameKnown tm' ∧
      ((TypeInfo.builtin b).deserialize (readMessage n)).Reads ⟨tm, x.serialize other ++ rest⟩ x
        ⟨tm', rest⟩
  | .plain x, n, tm, rest, hd, hchars, _, _ => by
    -- a plain value is read by its type, after the type map has looked at no name
    cases hd with
    | plain hfits hnormal =>
      have hread := PlainType.deserialize_serialize hfits hnormal (fun h => hchars (.plain h)) rest
      exact ⟨_, tm, rfl, .refl tm, reads_bind.mpr ⟨x, _, reads_lift.mpr ⟨rest, hread, rfl⟩,
        reads_pure.mpr ⟨rfl, rfl⟩⟩⟩
  -- a message writes its own header, and the tuple name leads to the types of the elements
  | .message xs, n, tm, rest, hd, hchars, hk, hlen => by
    have hd' := hd
    cases hd with
    | message _ hxs =>
      cases hk with
      | message hk hks =>
        obtain ⟨name, tm₁, hname, hsame⟩ := TypeMap.byUniformName_of_knows hk
        have hh : ObjectHeader ⟨tm, (Value.message xs).serialize other ++ rest⟩ _ _ :=
          header_serialize hd' hname rest
        obtain ⟨n, rfl⟩ := Nat.exists_eq_succ_of_ne_zero (Nat.ne_of_gt (Nat.zero_lt_of_lt hlen))
        obtain ⟨tm₂, hsame₂, hreads⟩ :=
          reads_serializeAll xs hxs (fun x hx h => hchars (.message hx h))
          (fun x hx => (hks x hx).of_same hsame) (hh.length_lt hlen)
        exact ⟨.message, tm₂, rfl, hsame.trans hsame₂, reads_bind.mpr ⟨xs, _,
          (reads_tuple hh).mpr hreads, reads_pure.mpr ⟨rfl, rfl⟩⟩⟩
  | .handle _, _, _, _, hd, _, _, _ => by cases hd
  | .announced _, _, _, _, hd, _, _, _ => by cases hd
  | .tuple _ _, _, _, _, hd, _, _, _ => by cases hd

/-- A list of values is read as it was written. -/
theorem reads_serializeAll : ∀ (xs : List Value) {n : Nat} {tm : TypeMap} {rest : Bytes},
    (∀ x ∈ xs, x.Data) → (∀ x ∈ xs, ¬ x.HoldsChars) → (∀ x ∈ xs, x.KnownTo tm) →
    (serializeAll other xs ++ rest).length < n →
    ∃ tm', tm.SameKnown tm' ∧ (deserializeAll (readMessage n) (elementsOf (builtinsOf xs))).Reads
      ⟨tm, serializeAll other xs ++ rest⟩ xs ⟨tm', rest⟩
  | [], _, tm, _, _, _, _, _ => ⟨tm, .refl tm, reads_pure.mpr ⟨rfl, rfl⟩⟩
  | x :: xs, n, tm, rest, hd, hchars, hk, hlen => by
    rw [serializeAll, List.append_assoc] at hlen ⊢
    obtain ⟨b, tm₁, hb, hsame, hread⟩ := x.reads_serialize (hd x List.mem_cons_self)
      (hchars x List.mem_cons_self) (hk x List.mem_cons_self) hlen
    have hlen' : (serializeAll other xs ++ rest).length < n := by
      rw [List.length_append] at hlen
      omega
    obtain ⟨tm₂, hsame₂, hreads⟩ := reads_serializeAll xs
      (fun y hy => hd y (List.mem_cons_of_mem x hy))
      (fun y hy => hchars y (List.mem_cons_of_mem x hy))
      (fun y hy => (hk y (List.mem_cons_of_mem x hy)).of_same hsame) hlen'
    rw [builtinsOf_cons hb]
    exact ⟨tm₂, hsame.trans hsame₂, reads_bind.mpr ⟨x, _, hread, reads_bind.mpr ⟨xs, _, hreads,
      reads_pure.mpr ⟨rfl, rfl⟩⟩⟩⟩

end

-- -------------------------
-- Only then
-- -------------------------

/-- A value is of the type that was read. -/
theorem PlainType.type_of_deserialize {t : PlainType} {bs rest : Bytes} {x : PlainValue}
    (h : t.deserialize bs = .ok (x, rest)) : x.type = t := by
  cases t with
  | syncTimeout | unit =>
    cases h
    rfl
  | _ =>
    obtain ⟨a, mid, -, h⟩ := reader_bind_ok h
    cases h
    rfl

/-- Data is read under its own type only. -/
theorem TypeInfo.eq_builtin {nested : Decoder (List Value)} {t : TypeInfo} {s s' : Source}
    {x : Value} (hd : x.Data) (h : (t.deserialize nested).Reads s x s') :
    ∃ b, x.builtin? = some b ∧ t = .builtin b := by
  rcases t with (t | t | _) | ⟨name, r⟩ | ⟨name, ts⟩ <;>
    obtain ⟨y, s₁, hy, hx⟩ := reads_bind.mp h <;> obtain ⟨rfl, -⟩ := reads_pure.mp hx
  · obtain ⟨rest, hread, -⟩ := reads_lift.mp hy
    obtain rfl := PlainType.type_of_deserialize hread
    exact ⟨_, rfl, rfl⟩
  · cases hd
  · exact ⟨_, rfl, rfl⟩
  · cases hd
  · cases hd

/-- What was read tells the types of the elements. -/
theorem elements_of_reads {nested : Decoder (List Value)} {ts : List (Option TypeInfo)} :
    ∀ {s s' : Source} {xs : List Value}, (∀ x ∈ xs, x.Data) →
      (deserializeAll nested ts).Reads s xs s' → ts = elementsOf (builtinsOf xs) := by
  induction ts with
  | nil =>
    intro s s' xs _ h
    obtain ⟨rfl, -⟩ := reads_pure.mp h
    rfl
  | cons t ts ih =>
    intro s s' xs hd h
    cases t with
    | none => exact absurd h not_reads_fail
    | some t =>
      obtain ⟨x, s₁, hx, h⟩ := reads_bind.mp h
      obtain ⟨ys, s₂, hys, h⟩ := reads_bind.mp h
      obtain ⟨rfl, -⟩ := reads_pure.mp h
      obtain ⟨b, hb, rfl⟩ := t.eq_builtin (hd x List.mem_cons_self) hx
      rw [builtinsOf_cons hb, ih (fun y hy => hd y (List.mem_cons_of_mem x hy)) hys]
      rfl

/-- Whatever type the header of a message has, it is read as that type. -/
theorem reads_of_header {n : Nat} {s s₁ s' : Source} {t : TypeInfo} {xs : List Value}
    (hh : ObjectHeader s t s₁) (h : (readMessage (n + 1)).Reads s xs s') :
    ∃ x s₂, (t.deserialize (readMessage n)).Reads s₁ x s₂ ∧ x.asMessage? = some xs := by
  obtain ⟨t', s₂, ht, h⟩ := reads_bind.mp h
  obtain ⟨rfl, rfl⟩ := Prod.mk.inj (Except.ok.inj (ht.symm.trans (reads_beginObject.mpr hh)))
  split at h
  · obtain ⟨x, s₃, hx, h⟩ := reads_bind.mp h
    cases hsome : x.asMessage? with
    | none =>
      rw [hsome] at h
      exact absurd h not_reads_fail
    | some ys =>
      rw [hsome] at h
      obtain ⟨rfl, -⟩ := reads_pure.mp h
      exact ⟨x, s₃, hx, hsome⟩
  · exact absurd h not_reads_fail

/-- The elements of a message that is read back were read as the tuple type of
their own types. -/
theorem knows_of_reads {n : Nat} {tm : TypeMap} {rest : Bytes} {s' : Source} {xs : List Value}
    (hd : (Value.message xs).Data)
    (h : (readMessage (n + 1)).Reads ⟨tm, (Value.message xs).serialize other ++ rest⟩ xs s') :
    tm.Knows (builtinsOf xs) := by
  by_contra hk
  obtain ⟨t, ht, hnotBuiltin, hnotTuple⟩ := TypeMap.byUniformName_of_not_knows hk
  have hh : ObjectHeader ⟨tm, (Value.message xs).serialize other ++ rest⟩ _ _ :=
    header_serialize hd ht rest
  obtain ⟨x, s₂, hx, hmessage⟩ := reads_of_header hh h
  have hxs : ∀ x ∈ xs, x.Data := by
    cases hd with | message _ hxs => exact hxs
  cases t with
  | builtin b => exact hnotBuiltin b rfl
  | announced name r =>
    obtain ⟨u, s₃, -, hx⟩ := reads_bind.mp hx
    obtain ⟨rfl, -⟩ := reads_pure.mp hx
    cases hmessage
  | tuple name ts =>
    obtain ⟨ys, s₃, hys, hx⟩ := reads_bind.mp hx
    obtain ⟨rfl, -⟩ := reads_pure.mp hx
    obtain rfl := Option.some.inj hmessage
    exact hnotTuple name (by rw [elements_of_reads hxs hys])

mutual

/-- A value that is read back has no characters in a buffer, and the type map knows
its tuple types. -/
theorem Value.of_reads : ∀ (x : Value) {n : Nat} {tm : TypeMap} {rest : Bytes} {s' : Source}
    {b : Builtin}, x.Data → x.builtin? = some b → (x.serialize other ++ rest).length < n →
    ((TypeInfo.builtin b).deserialize (readMessage n)).Reads ⟨tm, x.serialize other ++ rest⟩ x s' →
    ¬ x.HoldsChars ∧ x.KnownTo tm
  | .plain x, n, tm, rest, s', b, hd, hb, _, h => by
    refine ⟨fun hchars => ?_, .plain⟩
    obtain rfl := Option.some.inj hb
    cases hd with
    -- a value that holds characters cannot be read: `read<char>` throws
    | plain hfits _ =>
      cases hchars with
      | plain hchars =>
        obtain ⟨y, s₁, hy, -⟩ := reads_bind.mp h
        obtain ⟨rest', hread, -⟩ := reads_lift.mp hy
        have hfail : x.type.deserialize (x.serialize ++ rest) = .error .badGet :=
          PlainType.deserialize_charbuf hfits hchars rest
        cases hread.symm.trans hfail
  | .message xs, n, tm, rest, s', b, hd, hb, hlen, h => by
    obtain rfl := Option.some.inj hb
    obtain ⟨n, rfl⟩ := Nat.exists_eq_succ_of_ne_zero (Nat.ne_of_gt (Nat.zero_lt_of_lt hlen))
    obtain ⟨ys, s₁, hys, hx⟩ := reads_bind.mp h
    obtain ⟨heq, -⟩ := reads_pure.mp hx
    obtain rfl : xs = ys := Value.message.inj heq
    have hk := knows_of_reads hd hys
    obtain ⟨name, tm₁, hname, hsame⟩ := TypeMap.byUniformName_of_knows hk
    have hh : ObjectHeader ⟨tm, (Value.message xs).serialize other ++ rest⟩ _ _ :=
      header_serialize hd hname rest
    have hxs : ∀ x ∈ xs, x.Data := by
      cases hd with | message _ hxs => exact hxs
    obtain ⟨hchars, hknown⟩ := of_reads_all xs hxs (hh.length_lt hlen) ((reads_tuple hh).mp hys)
    constructor
    · intro hc
      cases hc with
      | message hx hc => exact hchars _ hx hc
    · exact .message hk fun x hx => (hknown x hx).of_same fun bs => (hsame bs).symm
  | .handle _, _, _, _, _, _, hd, _, _, _ => by cases hd
  | .announced _, _, _, _, _, _, hd, _, _, _ => by cases hd
  | .tuple _ _, _, _, _, _, _, hd, _, _, _ => by cases hd

/-- A list of values that is read back holds no characters and is known. -/
theorem of_reads_all : ∀ (xs : List Value) {n : Nat} {tm : TypeMap} {rest : Bytes} {s' : Source},
    (∀ x ∈ xs, x.Data) → (serializeAll other xs ++ rest).length < n →
    (deserializeAll (readMessage n) (elementsOf (builtinsOf xs))).Reads
      ⟨tm, serializeAll other xs ++ rest⟩ xs s' →
    (∀ x ∈ xs, ¬ x.HoldsChars) ∧ ∀ x ∈ xs, x.KnownTo tm
  | [], _, _, _, _, _, _, _ => by simp
  | x :: xs, n, tm, rest, s', hd, hlen, h => by
    obtain ⟨b, hb, -⟩ := (hd x List.mem_cons_self).builtin
    rw [serializeAll, List.append_assoc] at hlen h
    rw [builtinsOf_cons hb] at h
    obtain ⟨y, s₁, hy, h⟩ := reads_bind.mp h
    obtain ⟨ys, s₂, hys, h⟩ := reads_bind.mp h
    obtain ⟨heq, -⟩ := reads_pure.mp h
    obtain ⟨rfl, rfl⟩ := List.cons.inj heq
    obtain ⟨hchars, hknown⟩ := x.of_reads (hd x List.mem_cons_self) hb hlen hy
    -- reading the first value has consumed its bytes
    obtain ⟨b', tm₁, hb', hsame, hread⟩ :=
      x.reads_serialize (hd x List.mem_cons_self) hchars hknown hlen
    obtain rfl := Option.some.inj (hb.symm.trans hb')
    obtain ⟨-, rfl⟩ := Prod.mk.inj (Except.ok.inj (hy.symm.trans hread))
    have hlen' : (serializeAll other xs ++ rest).length < n := by
      rw [List.length_append] at hlen
      omega
    obtain ⟨hcharsTail, hknownTail⟩ :=
      of_reads_all xs (fun z hz => hd z (List.mem_cons_of_mem x hz)) hlen' hys
    exact ⟨List.forall_mem_cons.mpr ⟨hchars, hcharsTail⟩, List.forall_mem_cons.mpr ⟨hknown,
      fun z hz => (hknownTail z hz).of_same fun bs => (hsame bs).symm⟩⟩

end

end

-- -------------------------
-- Messages
-- -------------------------

/-- A value as an element of a message. -/
def Value.element (x : Value) : Element Value := ⟨⟨(x.builtin?.map Builtin.typeNr).getD 0, 0⟩, x⟩

namespace CowMessage

/-- `message::serialize`. -/
def serialize (T : TypeInfos Value) (other : Value → Bytes) (m : CowMessage Value) : Bytes :=
  let names := (List.range m.size).flatMap fun i => 43 :: (m.uniformNameAt T i).getD []
  writeUInt16 0 ++ writeString (if m.isEmpty then tuplePrefix else tuplePrefix ++ names) ++
    (List.range m.size).flatMap fun i => ((m.at? i).map (Value.serialize other)).getD []

/-- The message a `message_builder` makes of the elements that were read. -/
def ofValues (xs : List Value) : CowMessage Value :=
  ((xs.map Value.element).foldl MessageBuilder.append .new).toMessage

/-- What is read from the bytes of the message, whatever follows, is an equal message,
and all of them are consumed. -/
def RoundTrips (T : TypeInfos Value) (other : Value → Bytes) (tm : TypeMap)
    (m : CowMessage Value) : Prop :=
  ∀ rest, ∃ xs tm', (Message.deserialize tm (m.serialize T other ++ rest)).result =
      .ok (xs, ⟨tm', rest⟩) ∧
    (ofValues xs).elements = m.elements ∧
    (T.Reflexive m.elements → (ofValues xs).equals T false m = some true)

variable {T : TypeInfos Value} {other : Value → Bytes} {tm : TypeMap} {m : CowMessage Value}
  {xs : List Value}

theorem stands_ofValues (xs : List Value) : (ofValues xs).Stands (xs.map Value.element) :=
  (MessageExpr.builder (xs.map Value.element)).stands

/-- Writing position by position writes the list. -/
theorem flatMap_range {α β : Type} (f : Option α → List β) (xs : List α) :
    (List.range xs.length).flatMap (fun i => f xs[i]?) = xs.flatMap fun x => f (some x) := by
  have hmap : (List.range xs.length).map (fun i => xs[i]?) = xs.map some := by
    apply List.ext_getElem (by simp)
    intro i _ hi
    simp
  calc (List.range xs.length).flatMap (fun i => f xs[i]?)
      = ((List.range xs.length).map fun i => xs[i]?).flatMap f := (List.flatMap_map _ _ _).symm
    _ = xs.flatMap fun x => f (some x) := by rw [hmap, List.flatMap_map]

/-- The name of an element is that of the value's type. -/
theorem uniformName_element {x : Value} (h : x.Data) :
    T.uniformName x.element.type = x.typeName := by
  obtain ⟨b, hb, hname⟩ := h.builtin
  have hnr : x.element.type.nr = b.typeNr := by rw [Value.element, hb]; rfl
  rw [TypeInfos.uniformName, hnr, if_pos b.typeNr_ne_zero, hname, Builtin.name, List.getElem?_map]

/-- A list of values is written value by value. -/
theorem serializeAll_eq (other : Value → Bytes) (xs : List Value) :
    serializeAll other xs = xs.flatMap (Value.serialize other) := by
  induction xs with
  | nil => rfl
  | cons x xs ih => rw [serializeAll, ih, List.flatMap_cons]

/-- A message is written as the list of its elements. -/
theorem serialize_eq (h : m.Stands (xs.map Value.element)) (hd : ∀ x ∈ xs, x.Data) :
    m.serialize T other = (Value.message xs).serialize other := by
  have hsize : m.size = xs.length := by rw [h.size_eq, List.length_map]
  have hat : ∀ i, m.elementAt i = xs[i]?.map Value.element := fun i => by
    rw [h.elementAt_eq, List.getElem?_map]
  have hnames : (List.range m.size).flatMap (fun i => 43 :: (m.uniformNameAt T i).getD []) =
      typeNames xs := by
    simp only [uniformNameAt, hat, hsize]
    rw [flatMap_range fun o : Option Value =>
      43 :: ((o.map Value.element).map fun e => T.uniformName e.type).getD []]
    refine List.flatMap_congr fun x hx => ?_
    exact congrArg (43 :: ·) (uniformName_element (hd x hx))
  have hbody : (List.range m.size).flatMap
      (fun i => ((m.at? i).map (Value.serialize other)).getD []) = serializeAll other xs := by
    simp only [at?, hat, hsize]
    rw [flatMap_range fun o : Option Value =>
      (((o.map Value.element).map Element.value).map (Value.serialize other)).getD [],
      serializeAll_eq]
    rfl
  have hname : (if m.isEmpty then tuplePrefix else tuplePrefix ++ typeNames xs) =
      tuplePrefix ++ typeNames xs := by
    split
    next hempty =>
      have hnil : xs = [] := by
        rw [isEmpty, hsize, beq_iff_eq] at hempty
        exact List.length_eq_zero_iff.mp hempty
      subst hnil
      exact (List.append_nil _).symm
    · rfl
  rw [serialize, hnames, hbody, hname]
  rfl

/-- **The round trip of messages**: exactly the messages of plain values without a
character buffer that has characters in it come back equal, if the type map has
nothing else under the names of their tuple types. -/
theorem roundTrips_iff (h : m.Stands (xs.map Value.element)) (hd : (Value.message xs).Data) :
    m.RoundTrips T other tm ↔
      ¬ (Value.message xs).HoldsChars ∧ (Value.message xs).KnownTo tm := by
  have hxs : ∀ x ∈ xs, x.Data := by
    cases hd with | message _ hxs => exact hxs
  have hbytes : m.serialize T other = (Value.message xs).serialize other := serialize_eq h hxs
  -- if the message comes back, its bytes were read
  constructor
  · intro htrip
    obtain ⟨ys, tm', hres, helements, -⟩ := htrip []
    have hys : ys = xs := by
      rw [(stands_ofValues ys).2, h.2] at helements
      exact (List.map_inj_right fun _ _ => congrArg Element.value).mp helements
    subst hys
    rw [hbytes] at hres
    exact (Value.message ys).of_reads hd rfl (Nat.lt_succ_self _)
      (reads_bind.mpr ⟨ys, _, hres, reads_pure.mpr ⟨rfl, rfl⟩⟩)
  · -- and a message whose types are known is read back whatever follows
    rintro ⟨hchars, hknown⟩ rest
    have hlen : ((Value.message xs).serialize other ++ rest).length <
        ((Value.message xs).serialize other ++ rest).length + 1 := Nat.lt_succ_self _
    obtain ⟨b, tm', hb, -, hread⟩ := (Value.message xs).reads_serialize hd hchars hknown hlen
    obtain rfl := Option.some.inj hb
    obtain ⟨ys, s', hys, hx⟩ := reads_bind.mp hread
    obtain ⟨heq, rfl⟩ := reads_pure.mp hx
    obtain rfl : xs = ys := Value.message.inj heq
    refine ⟨xs, tm', by rw [hbytes]; exact hys, ?_, fun hrefl => ?_⟩
    · rw [(stands_ofValues xs).2, h.2]
    · rw [(stands_ofValues xs).equals_eq T h (by simp), T.sameElements_self (h.2 ▸ hrefl)]

/-- A message with a number and a message with a string inside. -/
theorem roundTrips_nested :
    (makeMessage ([Value.plain (.primitive .int32 7),
      Value.message [.plain (.primitive .string (ascii "x"))]].map Value.element)).RoundTrips
      ⟨fun _ => none, fun _ _ _ => none⟩ (fun _ => []) TypeMap.empty := by
  have hknows : ∀ bs, TypeMap.empty.Knows bs := fun bs t h => by cases h
  have hnumber : (Value.plain (.primitive .int32 7)).Data := .plain trivial trivial
  have hstring : (Value.plain (.primitive .string (ascii "x"))).Data :=
    .plain (by unfold PlainValue.Fits PrimitiveType.Fits; decide) trivial
  have hinner : (Value.message [.plain (.primitive .string (ascii "x"))]).Data :=
    .message (by decide) (List.forall_mem_singleton.mpr hstring)
  have hd : ∀ x ∈ [Value.plain (.primitive .int32 7),
      Value.message [.plain (.primitive .string (ascii "x"))]], x.Data :=
    List.forall_mem_cons.mpr ⟨hnumber, List.forall_mem_singleton.mpr hinner⟩
  have hstands := (MessageExpr.makeMessage (Value.plain (.primitive .int32 7)).element
    [(Value.message [.plain (.primitive .string (ascii "x"))]).element]).stands
  refine (roundTrips_iff hstands (.message (by decide) hd)).mpr ⟨?_, ?_⟩
  · intro h
    cases h with
    | message hx h =>
      rcases List.mem_pair.mp hx with rfl | rfl
      · cases h with | plain h => exact h
      · cases h with
        | message hx h =>
          obtain rfl := List.mem_singleton.mp hx
          cases h with | plain h => exact h
  · refine .message (hknows _) (List.forall_mem_cons.mpr ⟨.plain, ?_⟩)
    exact List.forall_mem_singleton.mpr
      (.message (hknows _) (List.forall_mem_singleton.mpr .plain))

/-- A message with a buffer of one character. -/
theorem not_roundTrips_chars :
    ¬ (makeMessage [(Value.plain (.charbuf [97])).element]).RoundTrips
      ⟨fun _ => none, fun _ _ _ => none⟩ (fun _ => []) TypeMap.empty := by
  intro h
  obtain ⟨ys, tm', hres, -⟩ := h []
  have hfail : (Message.deserialize TypeMap.empty
      ((makeMessage [(Value.plain (.charbuf [97])).element]).serialize
        ⟨fun _ => none, fun _ _ _ => none⟩ (fun _ => []) ++ [])).result = .error .badGet := rfl
  cases hfail.symm.trans hres

end CowMessage

end BoostActor
