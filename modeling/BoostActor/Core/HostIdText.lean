import BoostActor.Core.Binary
import BoostActor.Lib.Hexadecimal

/-!
# Host ids as text

A host id is written as the hexadecimal digits of its bytes (`string_serialization.cpp`),
and a node id can be made from a process id and such a text (`node_id.cpp`). Each two
characters stand for a byte, characters that are no digits count as zeros, and a text of
another length yields the invalid host id.

* `hostId_roundTrips` — the text of a host id yields the same host id.
-/

namespace BoostActor

open Lib

-- -------------------------
-- Writing
-- -------------------------

/-- `to_string` of a `host_id_type`. -/
def HostId.toText (host : HostId) : Bytes :=
  (host.bytes.foldl (fun oss b => (oss.setWidth 2).put b.toNat) (HexStream.new.setFill 48)).out

-- -------------------------
-- Reading
-- -------------------------

/-- `isalpha`. -/
def isAlpha (c : UInt8) : Bool := (65 ≤ c && c ≤ 90) || (97 ≤ c && c ≤ 122)

/-- `hex_value`. -/
def hexValue (c : UInt8) : UInt8 :=
  if isAlpha c && (97 ≤ c && c ≤ 102) then c - 97 + 10
  else if isAlpha c && (65 ≤ c && c ≤ 70) then c - 65 + 10
  else if isDigit c then c - 48
  else 0

/-- The host id that the constructor of `node_id::data` takes from a text. -/
def HostId.ofText (hash : Bytes) : HostId :=
  if hash.length ≠ hostIdSize * 2 then NodeId.invalidHostId
  else
    -- two characters for each byte
    ⟨(List.range hostIdSize).map fun i =>
      (hexValue (hash.getD (2 * i) 0) <<< 4) ||| hexValue (hash.getD (2 * i + 1) 0),
      by rw [List.length_map, List.length_range]⟩

/-- `node_id(process_id, hash)`. -/
def NodeId.ofText (pid : UInt32) (hash : Bytes) : NodeId := .make pid (.ofText hash)

-- -------------------------
-- Round trip
-- -------------------------

/-- The digits of a byte. -/
def byteDigits (b : UInt8) : Bytes := [hexDigit (b.toNat / 16), hexDigit (b.toNat % 16)]

/-- Every byte is written with two digits. -/
theorem HostId.toText_eq (host : HostId) : host.toText = host.bytes.flatMap byteDigits := by
  have hloop : ∀ (bytes out : Bytes),
      (bytes.foldl (fun oss b => (oss.setWidth 2).put b.toNat) (⟨out, 48, 0⟩ : HexStream)).out =
        out ++ bytes.flatMap byteDigits := by
    intro bytes
    induction bytes with
    | nil => exact fun out => (List.append_nil out).symm
    | cons b bytes ih =>
      intro out
      rw [List.foldl_cons, HexStream.put_byte (s := ⟨out, 48, 0⟩) rfl, ih, List.flatMap_cons,
        List.append_assoc]
      rfl
  exact hloop host.bytes []

/-- The text is twice as long as the bytes. -/
theorem length_flatMap_byteDigits (bytes : Bytes) :
    (bytes.flatMap byteDigits).length = 2 * bytes.length := by
  induction bytes with
  | nil => rfl
  | cons b bytes ih =>
    rw [List.flatMap_cons, List.length_append, ih, List.length_cons]
    show 2 + _ = _
    omega

-- -------------------------
-- Reading back
-- -------------------------

/-- The digits of the `i`-th byte are where the constructor looks for them. -/
theorem getD_flatMap_byteDigits {bytes : Bytes} {i : Nat} (h : i < bytes.length) :
    (bytes.flatMap byteDigits).getD (2 * i) 0 = hexDigit (bytes[i].toNat / 16) ∧
      (bytes.flatMap byteDigits).getD (2 * i + 1) 0 = hexDigit (bytes[i].toNat % 16) := by
  induction bytes generalizing i with
  | nil => exact absurd h (Nat.not_lt_zero i)
  | cons b bytes ih =>
    cases i with
    | zero => exact ⟨rfl, rfl⟩
    | succ i =>
      -- the digits of the first byte come before them
      exact ih (Nat.lt_of_succ_lt_succ h)

/-- Two digits stand for the byte that they were made from. -/
theorem hexValue_byteDigits (b : UInt8) :
    (hexValue (hexDigit (b.toNat / 16)) <<< 4) ||| hexValue (hexDigit (b.toNat % 16)) = b := by
  have htable : ∀ n < 256, (hexValue (hexDigit (n / 16)) <<< 4) ||| hexValue (hexDigit (n % 16)) =
      UInt8.ofNat n := by
    decide +kernel
  have hb := htable b.toNat b.toNat_lt
  rwa [UInt8.ofNat_toNat] at hb

/-- A host id is read as it was written. -/
theorem HostId.ofText_toText (host : HostId) : HostId.ofText host.toText = host := by
  have hlength : host.toText.length = hostIdSize * 2 := by
    rw [host.toText_eq, length_flatMap_byteDigits, host.size_eq, Nat.mul_comm]
  have hbytes : ((List.range hostIdSize).map fun i =>
      (hexValue (host.toText.getD (2 * i) 0) <<< 4) |||
        hexValue (host.toText.getD (2 * i + 1) 0)) = host.bytes := by
    apply List.ext_getElem
    · rw [List.length_map, List.length_range, host.size_eq]
    · intro i _ hi
      obtain ⟨hhigh, hlow⟩ := getD_flatMap_byteDigits hi
      rw [List.getElem_map, List.getElem_range, host.toText_eq, hhigh, hlow, hexValue_byteDigits]
  unfold HostId.ofText
  rw [if_neg (not_not.mpr hlength)]
  cases host
  congr 1

/-- The text of a host id yields the same host id, and any text that does not have 40
characters yields the one with zeros only. -/
theorem hostId_roundTrips :
    (∀ (pid : UInt32) (host : HostId), (NodeId.ofText pid host.toText).hostId = host) ∧
    ∀ (pid : UInt32) (hash : Bytes), hash.length ≠ 40 →
      (NodeId.ofText pid hash).hostId.bytes = List.replicate hostIdSize 0 := by
  refine ⟨fun pid host => host.ofText_toText, fun pid hash hlength => ?_⟩
  have hinvalid : HostId.ofText hash = NodeId.invalidHostId := if_pos hlength
  show (HostId.ofText hash).bytes = _
  rw [hinvalid]
  rfl

end BoostActor
