import BoostActor.Lib.LittleEndian
import Mathlib.Tactic.Common

/-!
# Merkle–Damgård hash functions

A hash function of the MD4 family pads its message to a multiple of 64 bytes, with a one bit, zeros
and the length of the message in bits, and compresses one block after the other into its state.

* `foldBlocks_append` — blocks are compressed one after the other;
* `merkleDamgard_short`, `merkleDamgard_long` — what comes after the whole blocks of a message: one
  more block if the length fits into it, and otherwise two.
-/

namespace Lib

variable {S α : Type} {f : S → List α → S} {n : Nat}

/-- Compresses a number of blocks of `n` elements. -/
def foldBlocks (f : S → List α → S) (n : Nat) : Nat → S → List α → S
  | 0, s, _ => s
  | k + 1, s, xs => foldBlocks f n k (f s (xs.take n)) (xs.drop n)

/-- Blocks that are followed by others. -/
theorem foldBlocks_append {xs : List α} :
    ∀ {k : Nat} {s : S}, xs.length = n * k → ∀ (m : Nat) (ys : List α),
      foldBlocks f n (k + m) s (xs ++ ys) = foldBlocks f n m (foldBlocks f n k s xs) ys := by
  intro k
  induction k generalizing xs with
  | zero =>
    intro s hlen m ys
    obtain rfl : xs = [] := List.length_eq_zero_iff.mp (by simpa using hlen)
    rw [Nat.zero_add]
    rfl
  | succ k ih =>
    intro s hlen m ys
    have hn : n ≤ xs.length := by
      rw [hlen]
      exact Nat.le_mul_of_pos_right n (Nat.succ_pos k)
    have hrest : (xs.drop n).length = n * k := by
      rw [List.length_drop, hlen, Nat.mul_succ]
      omega
    rw [Nat.add_right_comm, foldBlocks, foldBlocks, List.take_append_of_le_length hn,
      List.drop_append_of_le_length hn]
    exact ih hrest m ys

/-- One block. -/
theorem foldBlocks_one {s : S} {block : List α} (h : block.length = n) :
    foldBlocks f n 1 s block = f s block := by
  rw [foldBlocks, foldBlocks, List.take_of_length_le (by omega)]

/-- How many zeros follow the one bit, and the seven zeros that complete its byte. -/
def mdZeros (length : Nat) : Nat := (119 - length % 64) % 64

def mdPad (msg : List UInt8) : List UInt8 :=
  msg ++ 0x80 :: (List.replicate (mdZeros msg.length) 0 ++ toBytesLE 8 (8 * msg.length))

/-- The state after the last block of the padded message. -/
def merkleDamgard (f : S → List UInt8 → S) (s : S) (msg : List UInt8) : S :=
  foldBlocks f 64 ((mdPad msg).length / 64) s (mdPad msg)

/-- How many bytes the padding adds. -/
theorem length_mdPad (msg : List UInt8) :
    (mdPad msg).length = msg.length + mdZeros msg.length + 9 := by
  rw [mdPad, List.length_append, List.length_cons, List.length_append, List.length_replicate,
    length_toBytesLE]
  omega

variable {f : S → List UInt8 → S} {s : S} {k : Nat} {blocks tail : List UInt8}

-- -------------------------
-- The last blocks
-- -------------------------

/-- The length of the message has room in the block with the rest of it. -/
theorem merkleDamgard_short (hblocks : blocks.length = 64 * k) (htail : tail.length ≤ 55) :
    merkleDamgard f s (blocks ++ tail) = f (foldBlocks f 64 k s blocks)
      (tail ++ 0x80 :: (List.replicate (55 - tail.length) 0 ++
        toBytesLE 8 (8 * (64 * k + tail.length)))) := by
  have hlen : (blocks ++ tail).length = 64 * k + tail.length := by
    rw [List.length_append, hblocks]
  have hzeros : mdZeros (64 * k + tail.length) = 55 - tail.length := by
    unfold mdZeros
    omega
  have hcount : (mdPad (blocks ++ tail)).length / 64 = k + 1 := by
    rw [length_mdPad, hlen, hzeros]
    omega
  rw [merkleDamgard, hcount, mdPad, List.append_assoc, hlen, hzeros, foldBlocks_append hblocks,
    foldBlocks_one]
  rw [List.length_append, List.length_cons, List.length_append, List.length_replicate,
    length_toBytesLE]
  omega

/-- It needs a block of its own. -/
theorem merkleDamgard_long (hblocks : blocks.length = 64 * k) (hlong : 55 < tail.length)
    (htail : tail.length < 64) :
    merkleDamgard f s (blocks ++ tail) = f (f (foldBlocks f 64 k s blocks)
      (tail ++ 0x80 :: List.replicate (63 - tail.length) 0))
      (List.replicate 56 0 ++ toBytesLE 8 (8 * (64 * k + tail.length))) := by
  have hlen : (blocks ++ tail).length = 64 * k + tail.length := by
    rw [List.length_append, hblocks]
  have hzeros : mdZeros (64 * k + tail.length) = 63 - tail.length + 56 := by
    unfold mdZeros
    omega
  have hcount : (mdPad (blocks ++ tail)).length / 64 = k + (1 + 1) := by
    rw [length_mdPad, hlen, hzeros]
    omega
  have hfirst : (tail ++ 0x80 :: List.replicate (63 - tail.length) 0).length = 64 * 1 := by
    rw [List.length_append, List.length_cons, List.length_replicate]
    omega
  have hlast : (List.replicate 56 0 ++ toBytesLE 8 (8 * (64 * k + tail.length))).length = 64 := by
    rw [List.length_append, List.length_replicate, length_toBytesLE]
  rw [merkleDamgard, hcount, mdPad, List.append_assoc, hlen, hzeros, foldBlocks_append hblocks,
    ← List.replicate_append_replicate, List.append_assoc, ← List.cons_append,
    ← List.append_assoc tail, foldBlocks_append hfirst, foldBlocks_one hfirst, foldBlocks_one hlast]

end Lib
