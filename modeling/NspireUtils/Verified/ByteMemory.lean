import Mathlib

/-!
# Byte-addressed memory with 32-bit word access

The memory of a 32-bit little-endian machine, as a total function from
addresses to bytes.  Everything a program does to such a memory is one of
three bulk operations:

* `writeWord` — a 32-bit store,
* `copyBytes` — a `memcpy` between blocks that do not overlap,
* `fillBytes` — a `memset`.

Each comes with the same pair of facts: what a word read inside the written
block sees, and that a read which misses the block sees the old memory.  The
side conditions are linear inequalities between addresses, so `omega` closes
them.

Addresses are natural numbers.  A 32-bit machine only ever presents addresses
below `2 ^ 32`; whoever computes an address states that it did not wrap.

## Main results

* `readWord_writeWord_self`, `readWord_writeWord_of_apart`
* `readWord_copyBytes`, `copyBytes_of_outside`
* `readWord_fillBytes`, `fillBytes_of_outside`
* `Block.Apart` — disjointness of address ranges, and what it gives reads.
-/

namespace NspireUtils.Verified.ByteMemory

/-- One byte of memory. -/
abbrev Byte := BitVec 8

/-- One machine word. -/
abbrev Word := BitVec 32

/-- The whole memory: address `a` holds the byte `m a`. -/
abbrev Memory := Nat → Byte

/-! ## Blocks of addresses -/

/-- The `size` addresses from `start` on. -/
structure Block where
  start : Nat
  size : Nat
  deriving Repr, DecidableEq

/-- The address lies in the block. -/
def Block.Holds (b : Block) (a : Nat) : Prop :=
  b.start ≤ a ∧ a < b.start + b.size

instance (b : Block) (a : Nat) : Decidable (b.Holds a) := by
  unfold Block.Holds
  infer_instance

/-- The two blocks share no address. -/
def Block.Apart (b c : Block) : Prop :=
  ∀ a, b.Holds a → ¬ c.Holds a

theorem Block.Apart.symm {b c : Block} (h : b.Apart c) : c.Apart b :=
  fun a hc hb => h a hb hc

/-- Two non-empty disjoint blocks lie one after the other. -/
theorem Block.Apart.before_or_after {b c : Block} (h : b.Apart c)
    (hb : 0 < b.size) (hc : 0 < c.size) :
    b.start + b.size ≤ c.start ∨ c.start + c.size ≤ b.start := by
  by_contra hcon
  push Not at hcon
  have hmeet := h (max b.start c.start)
  simp only [Block.Holds] at hmeet
  omega

/-- Blocks that lie one after the other are disjoint. -/
theorem Block.apart_of_le {b c : Block}
    (h : b.start + b.size ≤ c.start ∨ c.start + c.size ≤ b.start) : b.Apart c := by
  intro a hb hc
  simp only [Block.Holds] at hb hc
  omega

/-! ## Words -/

/-- The little-endian word at `a`. -/
def readWord (m : Memory) (a : Nat) : Word :=
  m (a + 3) ++ m (a + 2) ++ m (a + 1) ++ m a

/-- Store a word at `a`, least significant byte first. -/
def writeWord (m : Memory) (a : Nat) (v : Word) : Memory :=
  fun x => if a ≤ x ∧ x < a + 4 then v.extractLsb' (8 * (x - a)) 8 else m x

/-- The word at `a` depends only on its four bytes. -/
theorem readWord_congr {m m' : Memory} {a : Nat}
    (h : ∀ x, a ≤ x → x < a + 4 → m' x = m x) : readWord m' a = readWord m a := by
  simp only [readWord]
  rw [h a (by omega) (by omega), h (a + 1) (by omega) (by omega),
    h (a + 2) (by omega) (by omega), h (a + 3) (by omega) (by omega)]

/-- A word shifted from `b` to `a` byte by byte reads the same. -/
theorem readWord_shift {m m' : Memory} {a b : Nat}
    (h : ∀ i, i < 4 → m' (a + i) = m (b + i)) : readWord m' a = readWord m b := by
  have h0 := h 0 (by omega)
  simp only [Nat.add_zero] at h0
  simp only [readWord]
  rw [h0, h 1 (by omega), h 2 (by omega), h 3 (by omega)]

/-- The four bytes of a word, put together again. -/
private theorem append_bytes (v : Word) :
    (v.extractLsb' 24 8 ++ v.extractLsb' 16 8 ++ v.extractLsb' 8 8 ++
      v.extractLsb' 0 8 : Word) = v := by
  ext i hi
  simp only [BitVec.getElem_append, BitVec.getElem_extractLsb']
  grind

@[simp] theorem readWord_writeWord_self (m : Memory) (a : Nat) (v : Word) :
    readWord (writeWord m a v) a = v := by
  have h : readWord (writeWord m a v) a =
      v.extractLsb' 24 8 ++ v.extractLsb' 16 8 ++ v.extractLsb' 8 8 ++
        v.extractLsb' 0 8 := by
    simp [readWord, writeWord]
  rw [h, append_bytes]

theorem writeWord_of_outside (m : Memory) (a : Nat) (v : Word) {x : Nat}
    (h : x < a ∨ a + 4 ≤ x) : writeWord m a v x = m x := by
  have hout : ¬ (a ≤ x ∧ x < a + 4) := by omega
  simp [writeWord, hout]

theorem readWord_writeWord_of_apart (m : Memory) (a : Nat) (v : Word) {b : Nat}
    (h : b + 4 ≤ a ∨ a + 4 ≤ b) : readWord (writeWord m a v) b = readWord m b :=
  readWord_congr fun _ _ _ => writeWord_of_outside m a v (by omega)

/-- Byte `j` of the word at `a`. -/
theorem extract_readWord (m : Memory) (a : Nat) {j : Nat} (hj : j < 4) :
    (readWord m a).extractLsb' (8 * j) 8 = m (a + j) := by
  have hcases : j = 0 ∨ j = 1 ∨ j = 2 ∨ j = 3 := by omega
  apply BitVec.eq_of_getLsbD_eq
  intro i hi
  simp only [readWord, BitVec.getLsbD_extractLsb', BitVec.getLsbD_append]
  rcases hcases with rfl | rfl | rfl | rfl <;> grind

/-- A word copied from `src` to `dst`, byte by byte. -/
theorem writeWord_readWord (m : Memory) (dst src x : Nat) :
    writeWord m dst (readWord m src) x =
      if dst ≤ x ∧ x < dst + 4 then m (src + (x - dst)) else m x := by
  rw [writeWord]
  split_ifs with h
  · exact extract_readWord m src (by omega)
  · rfl

/-! ## Bulk operations -/

/-- `memcpy(dst, src, n)` between blocks that do not overlap: every byte comes
from the memory before the copy. -/
def copyBytes (m : Memory) (dst src n : Nat) : Memory :=
  fun x => if dst ≤ x ∧ x < dst + n then m (src + (x - dst)) else m x

/-- `memset(dst, v, n)`. -/
def fillBytes (m : Memory) (dst : Nat) (v : Byte) (n : Nat) : Memory :=
  fun x => if dst ≤ x ∧ x < dst + n then v else m x

theorem copyBytes_of_outside (m : Memory) (dst src n : Nat) {x : Nat}
    (h : x < dst ∨ dst + n ≤ x) : copyBytes m dst src n x = m x := by
  have hout : ¬ (dst ≤ x ∧ x < dst + n) := by omega
  simp [copyBytes, hout]

theorem copyBytes_inside (m : Memory) (dst src n : Nat) {i : Nat} (h : i < n) :
    copyBytes m dst src n (dst + i) = m (src + i) := by
  have hin : dst ≤ dst + i ∧ dst + i < dst + n := by omega
  simp only [copyBytes, hin, and_self, ↓reduceIte, Nat.add_sub_cancel_left]

theorem readWord_copyBytes (m : Memory) (dst src n : Nat) {i : Nat}
    (h : i + 4 ≤ n) :
    readWord (copyBytes m dst src n) (dst + i) = readWord m (src + i) := by
  refine readWord_shift fun j hj => ?_
  have hin := copyBytes_inside m dst src n (i := i + j) (by omega)
  simpa only [Nat.add_assoc] using hin

theorem fillBytes_of_outside (m : Memory) (dst : Nat) (v : Byte) (n : Nat) {x : Nat}
    (h : x < dst ∨ dst + n ≤ x) : fillBytes m dst v n x = m x := by
  have hout : ¬ (dst ≤ x ∧ x < dst + n) := by omega
  simp [fillBytes, hout]

theorem readWord_fillBytes (m : Memory) (dst : Nat) (v : Byte) (n : Nat) {i : Nat}
    (h : i + 4 ≤ n) :
    readWord (fillBytes m dst v n) (dst + i) = v ++ v ++ v ++ v := by
  have hbyte : ∀ j, j < 4 → fillBytes m dst v n (dst + i + j) = v := by
    intro j hj
    have hin : dst ≤ dst + i + j ∧ dst + i + j < dst + n := by omega
    simp [fillBytes, hin]
  have h0 := hbyte 0 (by omega)
  simp only [Nat.add_zero] at h0
  simp only [readWord]
  rw [h0, hbyte 1 (by omega), hbyte 2 (by omega), hbyte 3 (by omega)]

end NspireUtils.Verified.ByteMemory
