import NspireUtils.Verified.BitFields
import NspireUtils.Verified.ByteMemory

/-!
# The ARMv5 short-descriptor translation walk

What the memory-management unit does with a virtual address: the first-level
table at the translation table base is indexed by bits `[31:20]`, and the entry
found there is a fault, a 1 MB section, or the base of a coarse (256-entry) or
fine (1024-entry) second-level table.

A successful walk returns the physical address together with the access
permission, the C and B bits and the domain under which the access is checked.
The permission is the one of the subpage the address lies in.  Descriptors the
architecture reserves (a tiny page in a coarse table) give `reserved`.

The walk reads memory and nothing else, and only in the first-level entry and
in the second-level table that entry names: `walkEntry_congr`.
-/

namespace NspireUtils.Verified.ShortDescriptor

open NspireUtils.Verified.BitFields
open NspireUtils.Verified.ByteMemory

/-- The result of a successful walk. -/
structure Translation where
  physical : Word
  permission : BitVec 2
  cache : BitVec 2
  domain : BitVec 4
  deriving Repr, DecidableEq

/-- The result of a walk. -/
inductive Walk where
  | fault
  | reserved
  | mapped (t : Translation)
  deriving Repr, DecidableEq

/-- The same walk under another domain. -/
def Walk.withDomain (domain : BitVec 4) : Walk → Walk
  | .mapped t => .mapped { t with domain }
  | w => w

/-! ## Second level -/

/-- Permission field `i` of a page descriptor, bits `[5 + 2 i : 4 + 2 i]`. -/
def subpagePermission (desc : Word) (i : Nat) : BitVec 2 :=
  desc.extractLsb' (4 + 2 * i) 2

/-- A 64 KB page: the permission is selected by address bits `[15:14]`. -/
def largePage (domain : BitVec 4) (desc va : Word) : Walk :=
  .mapped
    { physical := desc.extractLsb' 16 16 ++ va.extractLsb' 0 16
      permission := subpagePermission desc (va.extractLsb' 14 2).toNat
      cache := desc.extractLsb' 2 2
      domain }

/-- A 4 KB page: the permission is selected by address bits `[11:10]`. -/
def smallPage (domain : BitVec 4) (desc va : Word) : Walk :=
  .mapped
    { physical := desc.extractLsb' 12 20 ++ va.extractLsb' 0 12
      permission := subpagePermission desc (va.extractLsb' 10 2).toNat
      cache := desc.extractLsb' 2 2
      domain }

/-- A 1 KB page, in fine tables only. -/
def tinyPage (domain : BitVec 4) (desc va : Word) : Walk :=
  .mapped
    { physical := desc.extractLsb' 10 22 ++ va.extractLsb' 0 10
      permission := subpagePermission desc 0
      cache := desc.extractLsb' 2 2
      domain }

/-- The descriptor found in a coarse table. -/
def coarseDescriptor (domain : BitVec 4) (desc va : Word) : Walk :=
  if desc.extractLsb' 0 2 = 0b00#2 then .fault
  else if desc.extractLsb' 0 2 = 0b01#2 then largePage domain desc va
  else if desc.extractLsb' 0 2 = 0b10#2 then smallPage domain desc va
  else .reserved

/-- The descriptor found in a fine table. -/
def fineDescriptor (domain : BitVec 4) (desc va : Word) : Walk :=
  if desc.extractLsb' 0 2 = 0b00#2 then .fault
  else if desc.extractLsb' 0 2 = 0b01#2 then largePage domain desc va
  else if desc.extractLsb' 0 2 = 0b10#2 then smallPage domain desc va
  else tinyPage domain desc va

/-! ## First level -/

/-- Base of the coarse table a first-level entry names, bits `[31:10]`. -/
def coarseBase (entry : Word) : Nat := (entry.extractLsb' 10 22).toNat * 2 ^ 10

/-- Base of the fine table a first-level entry names, bits `[31:12]`. -/
def fineBase (entry : Word) : Nat := (entry.extractLsb' 12 20).toNat * 2 ^ 12

/-- First-level index of an address, bits `[31:20]`. -/
def l1IndexOf (va : Word) : Nat := (va.extractLsb' 20 12).toNat

/-- Index in a coarse table, bits `[19:12]`. -/
def coarseIndexOf (va : Word) : Nat := (va.extractLsb' 12 8).toNat

/-- Index in a fine table, bits `[19:10]`. -/
def fineIndexOf (va : Word) : Nat := (va.extractLsb' 10 10).toNat

/-- Entry `i` of the table at `base`. -/
def tableEntry (m : Memory) (base i : Nat) : Word := readWord m (base + 4 * i)

/-- The walk from the first-level entry on. -/
def walkEntry (m : Memory) (entry va : Word) : Walk :=
  if entry.extractLsb' 0 2 = 0b00#2 then .fault
  else if entry.extractLsb' 0 2 = 0b10#2 then
    .mapped
      { physical := entry.extractLsb' 20 12 ++ va.extractLsb' 0 20
        permission := entry.extractLsb' 10 2
        cache := entry.extractLsb' 2 2
        domain := entry.extractLsb' 5 4 }
  else if entry.extractLsb' 0 2 = 0b01#2 then
    coarseDescriptor (entry.extractLsb' 5 4)
      (tableEntry m (coarseBase entry) (coarseIndexOf va)) va
  else
    fineDescriptor (entry.extractLsb' 5 4)
      (tableEntry m (fineBase entry) (fineIndexOf va)) va

/-- Through a section entry the walk ends at the first level. -/
theorem walkEntry_section (m : Memory) {entry : Word} (va : Word)
    (htype : entry.extractLsb' 0 2 = 0b10#2) :
    walkEntry m entry va =
      .mapped
        { physical := entry.extractLsb' 20 12 ++ va.extractLsb' 0 20
          permission := entry.extractLsb' 10 2
          cache := entry.extractLsb' 2 2
          domain := entry.extractLsb' 5 4 } := by
  simp [walkEntry, htype]

/-- Through a coarse entry it reads one word of a second-level table. -/
theorem walkEntry_coarse (m : Memory) {entry : Word} (va : Word)
    (htype : entry.extractLsb' 0 2 = 0b01#2) :
    walkEntry m entry va =
      coarseDescriptor (entry.extractLsb' 5 4)
        (tableEntry m (coarseBase entry) (coarseIndexOf va)) va := by
  simp [walkEntry, htype]

/-- The walk through the first-level table at `base`. -/
def walkTable (m : Memory) (base : Nat) (va : Word) : Walk :=
  walkEntry m (tableEntry m base (l1IndexOf va)) va

/-- The table base held by the translation table base register, bits
`[31:14]`. -/
def ttbBase (ttbr0 : Word) : Nat := (ttbr0.extractLsb' 14 18).toNat * 2 ^ 14

/-- The walk the hardware does under `ttbr0`. -/
def walk (m : Memory) (ttbr0 va : Word) : Walk := walkTable m (ttbBase ttbr0) va

/-! ## What a walk reads -/

/-- The first-level table at `base`. -/
def l1Block (base : Nat) : Block := ⟨base, 4 * 4096⟩

theorem l1Block_size_pos (base : Nat) : 0 < (l1Block base).size :=
  show 0 < 4 * 4096 by decide

/-- The words of a first-level table lie in its block. -/
theorem l1Block_holds_entry (base : Nat) {i : Nat} (hi : i < 4096) :
    (l1Block base).Holds (base + 4 * i) := by
  simp only [Block.Holds, l1Block]
  omega

/-- The second-level table a first-level entry names, if any. -/
def secondLevel (entry : Word) : Option Block :=
  if entry.extractLsb' 0 2 = 0b01#2 then some ⟨coarseBase entry, 4 * 256⟩
  else if entry.extractLsb' 0 2 = 0b11#2 then some ⟨fineBase entry, 4 * 1024⟩
  else none

theorem l1IndexOf_lt (va : Word) : l1IndexOf va < 4096 :=
  (va.extractLsb' 20 12).isLt

theorem coarseIndexOf_lt (va : Word) : coarseIndexOf va < 256 :=
  (va.extractLsb' 12 8).isLt

theorem fineIndexOf_lt (va : Word) : fineIndexOf va < 1024 :=
  (va.extractLsb' 10 10).isLt

/-- The four descriptor types. -/
theorem type_cases (t : BitVec 2) :
    t = 0b00#2 ∨ t = 0b01#2 ∨ t = 0b10#2 ∨ t = 0b11#2 := by
  revert t
  decide

/-- A table entry depends only on the words of its table. -/
theorem tableEntry_congr {m m' : Memory} {base i n : Nat} (hi : i < n)
    (h : ∀ a, (Block.mk base (4 * n)).Holds a → m' a = m a) :
    tableEntry m' base i = tableEntry m base i := by
  refine readWord_congr fun a h1 h2 => h a ⟨?_, ?_⟩
  · show base ≤ a
    omega
  · show a < base + 4 * n
    omega

/-- From a given entry on, the walk depends only on the second-level table that
entry names. -/
theorem walkEntry_congr {m m' : Memory} {entry va : Word}
    (h : ∀ b, secondLevel entry = some b → ∀ a, b.Holds a → m' a = m a) :
    walkEntry m' entry va = walkEntry m entry va := by
  rcases type_cases (entry.extractLsb' 0 2) with ht | ht | ht | ht
  · simp [walkEntry, ht]
  · have hread := tableEntry_congr (coarseIndexOf_lt va)
      (h ⟨coarseBase entry, 4 * 256⟩ (by simp [secondLevel, ht]))
    simp [walkEntry, ht, hread]
  · simp [walkEntry, ht]
  · have hread := tableEntry_congr (fineIndexOf_lt va)
      (h ⟨fineBase entry, 4 * 1024⟩ (by simp [secondLevel, ht]))
    simp [walkEntry, ht, hread]

/-- A walk sees the same through two memories that agree on the first-level
table and on every second-level table it names. -/
theorem walkTable_congr {m m' : Memory} {base : Nat}
    (hl1 : ∀ a, (l1Block base).Holds a → m' a = m a)
    (hl2 : ∀ i, i < 4096 → ∀ b, secondLevel (tableEntry m base i) = some b →
      ∀ a, b.Holds a → m' a = m a) (va : Word) :
    walkTable m' base va = walkTable m base va := by
  have hi := l1IndexOf_lt va
  simp only [walkTable]
  rw [tableEntry_congr hi hl1]
  exact walkEntry_congr (hl2 _ hi)

end NspireUtils.Verified.ShortDescriptor
