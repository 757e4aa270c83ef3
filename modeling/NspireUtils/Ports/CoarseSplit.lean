import NspireUtils.Ports.TableEditors

/-!
# Splitting a first-level entry into a coarse table

`MMUL2CoarsePageTableEditor`'s constructor replaces the first-level entry of one
megabyte by a coarse table of its own.  This file proves that the replacement
is invisible to translation: outside the megabyte nothing changes, and inside
it every address keeps its outcome, its physical address, the permission of its
subpage and its cache policy, under the domain the caller asked for.

The constructor works in three cases (copy a coarse table, split a section,
fill with faults), so the proof is in three steps: what the new table holds
(`tableEntry_fillL2Table`), what its entries translate to
(`coarseDescriptor_splitEntry`), and that nothing else was written.
-/

namespace NspireUtils.Ports.CoarseSplit

open NspireUtils.Verified.BitFields
open NspireUtils.Verified.ByteMemory
open NspireUtils.Verified.ShortDescriptor
open NspireUtils.Ports.Bus
open NspireUtils.Ports.MMUDescriptors
open NspireUtils.Ports.TableEditors

/-! ## What the allocator and the tables in use guarantee -/

/-- What `aligned_alloc(L2Table_Alignment, L2Table_Size)` returns: a 1 KB
aligned block that meets no table in use. -/
structure FreshL2 (mem : Memory) (table l2Table : Word) : Prop where
  aligned : 2 ^ 10 ∣ l2Table.toNat
  apartL1 : (l2Block l2Table).Apart (l1Block table.toNat)
  apartL2 : ∀ i, i < 4096 → ∀ b, secondLevel (tableEntry mem table.toNat i) = some b →
    (l2Block l2Table).Apart b

/-- The tables in use are blocks of their own: no second-level table lies over
the first-level table that names it. -/
def TablesApart (mem : Memory) (table : Word) : Prop :=
  ∀ i, i < 4096 → ∀ b, secondLevel (tableEntry mem table.toNat i) = some b →
    (l1Block table.toNat).Apart b

/-! ## The entry the constructor installs -/

theorem coarseL1Entry_type (l2Table : Word) (domain : Byte) :
    (coarseL1Entry l2Table domain).extractLsb' 0 2 = 0b01#2 := by
  simp (disch := omega) only [coarseL1Entry_eq, extract_or, extract_place_self,
    extract_place_of_apart, BitVec.or_zero, BitVec.zero_or]

theorem coarseL1Entry_domain (l2Table : Word) (domain : Byte) :
    (coarseL1Entry l2Table domain).extractLsb' 5 4 = domain.extractLsb' 0 4 := by
  simp (disch := omega) only [coarseL1Entry_eq, extract_or, extract_place_self,
    extract_place_of_apart, BitVec.or_zero, BitVec.zero_or]

theorem coarseBase_coarseL1Entry {l2Table : Word} (domain : Byte)
    (haligned : 2 ^ 10 ∣ l2Table.toNat) :
    coarseBase (coarseL1Entry l2Table domain) = l2Table.toNat := by
  have hfield : (coarseL1Entry l2Table domain).extractLsb' 10 22 = l2Table.extractLsb' 10 22 := by
    simp (disch := omega) only [coarseL1Entry_eq, extract_or, extract_place_self,
      extract_place_of_apart, BitVec.or_zero]
  rw [coarseBase, hfield]
  exact toNat_extract_high_of_dvd (k := 10) (by omega) haligned

/-- Through the installed entry the walk reads the new table. -/
theorem walkEntry_coarseL1Entry (mem : Memory) {l2Table : Word} (domain : Byte)
    (haligned : 2 ^ 10 ∣ l2Table.toNat) (va : Word) :
    walkEntry mem (coarseL1Entry l2Table domain) va =
      coarseDescriptor (domain.extractLsb' 0 4)
        (tableEntry mem l2Table.toNat (coarseIndexOf va)) va := by
  rw [walkEntry_coarse mem va (coarseL1Entry_type l2Table domain), coarseL1Entry_domain,
    coarseBase_coarseL1Entry domain haligned]

/-- The installed entry names the new table. -/
theorem secondLevel_coarseL1Entry {l2Table : Word} (domain : Byte)
    (haligned : 2 ^ 10 ∣ l2Table.toNat) :
    secondLevel (coarseL1Entry l2Table domain) = some (l2Block l2Table) := by
  simp only [secondLevel, coarseL1Entry_type, coarseBase_coarseL1Entry domain haligned]
  rfl

/-! ## What the new table holds -/

/-- The walk from a second-level descriptor depends on the domain only through
the domain it reports. -/
theorem coarseDescriptor_withDomain (d d' : BitVec 4) (desc va : Word) :
    coarseDescriptor d' desc va = (coarseDescriptor d desc va).withDomain d' := by
  unfold coarseDescriptor
  split_ifs <;> rfl

/-- The three address fields of a small page inside a section. -/
private theorem append_page_offset (base : BitVec 12) (va : Word) :
    ((base ++ va.extractLsb' 12 8 : BitVec 20) ++ va.extractLsb' 0 12 : Word) =
      base ++ va.extractLsb' 0 20 := by
  apply BitVec.eq_of_getLsbD_eq
  intro i hi
  simp only [BitVec.getLsbD_append, BitVec.getLsbD_extractLsb']
  grind

/-- Every permission field of a split entry is the section's permission. -/
private theorem splitEntry_permission (l1Entry : Word) {i j : Nat} (hi : i < 256) (hj : j < 4) :
    subpagePermission (splitEntry l1Entry i) j = l1Entry.extractLsb' 10 2 := by
  rw [subpagePermission, splitEntry_eq l1Entry hi]
  have hcases : j = 0 ∨ j = 1 ∨ j = 2 ∨ j = 3 := by omega
  rcases hcases with rfl | rfl | rfl | rfl
  all_goals
    simp (disch := omega) only [extract_or, extract_place_self, extract_place_of_apart,
      BitVec.or_zero, BitVec.zero_or, Nat.mul_zero, Nat.add_zero, Nat.mul_one, Nat.reduceMul,
      Nat.reduceAdd]

/-- A split entry translates its page as the section did. -/
theorem coarseDescriptor_splitEntry (domain : BitVec 4) (l1Entry va : Word) :
    coarseDescriptor domain (splitEntry l1Entry (coarseIndexOf va)) va =
      .mapped
        { physical := l1Entry.extractLsb' 20 12 ++ va.extractLsb' 0 20
          permission := l1Entry.extractLsb' 10 2
          cache := l1Entry.extractLsb' 2 2
          domain } := by
  have hi := coarseIndexOf_lt va
  have hindex : BitVec.ofNat 8 (coarseIndexOf va) = va.extractLsb' 12 8 := by
    rw [coarseIndexOf, BitVec.ofNat_toNat, BitVec.setWidth_eq]
  have htype : (splitEntry l1Entry (coarseIndexOf va)).extractLsb' 0 2 = 0b10#2 := by
    rw [splitEntry_eq l1Entry hi]
    simp (disch := omega) only [extract_or, extract_place_self, extract_place_of_apart,
      BitVec.or_zero, BitVec.zero_or]
  have hbase : (splitEntry l1Entry (coarseIndexOf va)).extractLsb' 12 20 =
      l1Entry.extractLsb' 20 12 ++ va.extractLsb' 12 8 := by
    rw [splitEntry_eq l1Entry hi, hindex]
    simp (disch := omega) only [extract_or, extract_place_self, extract_place_of_apart,
      BitVec.or_zero]
  have hcache : (splitEntry l1Entry (coarseIndexOf va)).extractLsb' 2 2 =
      l1Entry.extractLsb' 2 2 := by
    rw [splitEntry_eq l1Entry hi]
    simp (disch := omega) only [extract_or, extract_place_self, extract_place_of_apart,
      BitVec.or_zero, BitVec.zero_or]
  have hperm := splitEntry_permission l1Entry hi (va.extractLsb' 10 2).isLt
  have hsmall : coarseDescriptor domain (splitEntry l1Entry (coarseIndexOf va)) va =
      smallPage domain (splitEntry l1Entry (coarseIndexOf va)) va := by
    simp [coarseDescriptor, htype]
  rw [hsmall, smallPage, hbase, hcache, hperm, append_page_offset]

/-- The value entry `i` of the new table gets. -/
def newL2Entry (mem : Memory) (l1Entry : Word) (i : Nat) : Word :=
  if l1Entry.extractLsb' 0 2 = 0b01#2 then tableEntry mem (coarseBase l1Entry) i
  else if l1Entry.extractLsb' 0 2 = 0b10#2 then splitEntry l1Entry i
  else 0

/-- The table's words after the fill, in each of the three cases. -/
theorem tableEntry_fillL2Table (m : Machine) (l1Entry l2Table : Word) {i : Nat}
    (hi : i < 256) (hfine : l1Entry.extractLsb' 0 2 ≠ 0b11#2) :
    tableEntry (m.execAll (MMUL2CoarsePageTableEditor.fillL2Table
      (.ofWord (l1Entry &&& 0b11#32)) l1Entry l2Table)).mem l2Table.toNat i =
      newL2Entry m.mem l1Entry i := by
  simp only [MMUDescriptorType.ofWord, extract_type_mask, newL2Entry]
  rcases type_cases (l1Entry.extractLsb' 0 2) with ht | ht | ht | ht
  · simp only [ht, MMUL2CoarsePageTableEditor.fillL2Table]
    exact readWord_fillBytes m.mem l2Table.toNat 0 l2TableSize (i := 4 * i)
      (by simp only [l2TableSize]; omega)
  · have hbase : (l1Entry &&& 0xFFFFFC00#32).toNat = coarseBase l1Entry := by
      rw [toNat_and_high _ _ 10 (by omega) (by decide), coarseBase]
      exact (toNat_extract_high l1Entry 10 (by omega)).symm
    simp only [ht, MMUL2CoarsePageTableEditor.fillL2Table, hbase]
    exact readWord_copyBytes m.mem l2Table.toNat (coarseBase l1Entry) l2TableSize (i := 4 * i)
      (by simp only [l2TableSize]; omega)
  · simp only [ht, MMUL2CoarsePageTableEditor.fillL2Table]
    exact tableEntry_storeTable m l2Table.toNat 256 (splitEntry l1Entry) hi
  · exact absurd ht hfine

theorem fillL2Table_within (descType : MMUDescriptorType) (l1Entry l2Table : Word) :
    Within (MMUL2CoarsePageTableEditor.fillL2Table descType l1Entry l2Table)
      (l2Block l2Table) := by
  have hone : ∀ op : BusOp, op.footprint = some (l2Block l2Table) →
      Within [op] (l2Block l2Table) := by
    intro op hop
    refine .cons (fun c hc a ha => ?_) (.nil _)
    rw [hop, Option.some.injEq] at hc
    rwa [← hc] at ha
  cases descType with
  | coarsePageTable => exact hone _ rfl
  | sectionEntry => exact storeTable_within _ _ _ (Nat.le_refl _) (Nat.le_refl _)
  | fault => exact hone _ rfl
  | finePageTable => exact hone _ rfl

@[simp] theorem fillL2Table_ttbr0 (m : Machine) (descType : MMUDescriptorType)
    (l1Entry l2Table : Word) :
    (m.execAll (MMUL2CoarsePageTableEditor.fillL2Table descType l1Entry l2Table)).ttbr0 =
      m.ttbr0 := by
  cases descType with
  | sectionEntry => exact storeTable_ttbr0 m _ _ _
  | fault | coarsePageTable | finePageTable => rfl

/-- What the new table's entries translate to: the walk before the split, under
the new domain. -/
theorem coarseDescriptor_newL2Entry (mem : Memory) (l1Entry va : Word) (domain : BitVec 4)
    (hfine : l1Entry.extractLsb' 0 2 ≠ 0b11#2) :
    coarseDescriptor domain (newL2Entry mem l1Entry (coarseIndexOf va)) va =
      (walkEntry mem l1Entry va).withDomain domain := by
  rcases type_cases (l1Entry.extractLsb' 0 2) with ht | ht | ht | ht
  · simp only [newL2Entry, walkEntry, ht]
    rfl
  · simp only [newL2Entry, walkEntry, ht]
    exact coarseDescriptor_withDomain _ _ _ _
  · simp only [newL2Entry, walkEntry, ht]
    exact coarseDescriptor_splitEntry domain l1Entry va
  · exact absurd ht hfine

/-! ## The whole constructor -/

/-- The constructor's memory: the filled table, then the one first-level entry. -/
theorem construct_mem {m : Machine} {ref : Nat} {e : MMUEditor} {table virtualAddr : Word}
    {domain : Byte} {allocated : Option Word} {c : MMUL2CoarsePageTableEditor}
    {ops : List BusOp} (he : e.editedTable = some table)
    (hctor : MMUL2CoarsePageTableEditor.construct m ref e virtualAddr domain allocated =
      .ok (c, ops)) :
    ∃ l2Table, allocated = some l2Table ∧
      (tableEntry m.mem table.toNat (l1IndexOf virtualAddr)).extractLsb' 0 2 ≠ 0b11#2 ∧
      (m.execAll ops).ttbr0 = m.ttbr0 ∧
      (∀ i, i < 256 → (l2Block l2Table).Apart (l1Block table.toNat) →
        tableEntry (m.execAll ops).mem l2Table.toNat i =
          newL2Entry m.mem (tableEntry m.mem table.toNat (l1IndexOf virtualAddr)) i) ∧
      (∀ a, ¬ (l2Block l2Table).Holds a →
        (m.execAll ops).mem a =
          writeWord m.mem (table.toNat + 4 * l1IndexOf virtualAddr)
            (coarseL1Entry l2Table domain) a) := by
  obtain ⟨l2Table, rfl, hfine, rfl, rfl⟩ := MMUL2CoarsePageTableEditor.construct_ok he hctor
  have hidx := l1IndexOf_lt virtualAddr
  have hwithin := fillL2Table_within
    (.ofWord (tableEntry m.mem table.toNat (l1IndexOf virtualAddr) &&& 0b11#32))
    (tableEntry m.mem table.toNat (l1IndexOf virtualAddr)) l2Table
  refine ⟨l2Table, rfl, hfine, ?_, ?_, ?_⟩
  · rw [Machine.execAll_append, MMUEditor.map_ttbr0, Machine.execAll_append]
    exact fillL2Table_ttbr0 m _ _ _
  · intro i hi hapart
    rw [Machine.execAll_append, MMUEditor.map_mem _ _ _ _ he, Machine.execAll_append, tableEntry]
    have hpos := hapart.before_or_after (l2Block_size_pos _) (l1Block_size_pos _)
    simp only [l2Block, l1Block, l2TableSize] at hpos
    rw [readWord_writeWord_of_apart _ _ _ (by omega)]
    exact tableEntry_fillL2Table m _ l2Table hi hfine
  · intro a ha
    rw [Machine.execAll_append, MMUEditor.map_mem _ _ _ _ he, Machine.execAll_append]
    simp only [writeWord]
    split_ifs
    · rfl
    · exact execAll_of_outside _ m (hwithin.spares ha)

/-- The first-level table after the constructor: one entry replaced. -/
theorem tableEntry_construct {m : Machine} {ref : Nat} {e : MMUEditor}
    {table virtualAddr l2Table : Word} {domain : Byte} {c : MMUL2CoarsePageTableEditor}
    {ops : List BusOp} (he : e.editedTable = some table)
    (hctor : MMUL2CoarsePageTableEditor.construct m ref e virtualAddr domain (some l2Table) =
      .ok (c, ops))
    (hapart : (l2Block l2Table).Apart (l1Block table.toNat)) {i : Nat} (hi : i < 4096) :
    tableEntry (m.execAll ops).mem table.toNat i =
      if i = l1IndexOf virtualAddr then coarseL1Entry l2Table domain
      else tableEntry m.mem table.toNat i := by
  obtain ⟨q, hq, -, -, -, hrest⟩ := construct_mem he hctor
  obtain rfl : l2Table = q := Option.some.inj hq
  have hpos := hapart.before_or_after (l2Block_size_pos _) (l1Block_size_pos _)
  simp only [l2Block, l1Block, l2TableSize] at hpos
  have hout : tableEntry (m.execAll ops).mem table.toNat i =
      readWord (writeWord m.mem (table.toNat + 4 * l1IndexOf virtualAddr)
        (coarseL1Entry l2Table domain)) (table.toNat + 4 * i) := by
    refine readWord_congr fun a h1 h2 => hrest a ?_
    simp only [Block.Holds, l2Block, l2TableSize]
    omega
  rw [hout]
  split_ifs with h
  · rw [h, readWord_writeWord_self]
  · rw [readWord_writeWord_of_apart _ _ _ (by omega), tableEntry]

/-- **Splitting is invisible.**  After the coarse editor's constructor succeeds,
every address outside the megabyte of `virtualAddr` is translated as before, and
every address inside it as before under the domain passed to the constructor.  The
tables are read and written at their physical addresses: they are identity mapped. -/
theorem walkTable_construct (m : Machine) (ref : Nat) (e : MMUEditor)
    (table virtualAddr : Word) (domain : Byte) (allocated : Option Word)
    (c : MMUL2CoarsePageTableEditor) (ops : List BusOp)
    (he : e.editedTable = some table) (htables : TablesApart m.mem table)
    (halloc : ∀ l2Table, allocated = some l2Table → FreshL2 m.mem table l2Table)
    (hctor : MMUL2CoarsePageTableEditor.construct m ref e virtualAddr domain allocated =
      .ok (c, ops)) (x : Word) :
    walkTable (m.execAll ops).mem table.toNat x =
      if l1IndexOf x = l1IndexOf virtualAddr then
        (walkTable m.mem table.toNat x).withDomain (domain.extractLsb' 0 4)
      else walkTable m.mem table.toNat x := by
  obtain ⟨l2Table, hsome, hfine, -, hnew, hrest⟩ := construct_mem he hctor
  have hfresh := halloc l2Table hsome
  have hx := l1IndexOf_lt x
  subst hsome
  have hslot := l1IndexOf_lt virtualAddr
  have hentry := tableEntry_construct he hctor hfresh.apartL1 hx
  simp only [walkTable]
  rw [hentry]
  split_ifs with h
  · rw [walkEntry_coarseL1Entry _ domain hfresh.aligned,
      hnew _ (coarseIndexOf_lt x) hfresh.apartL1,
      coarseDescriptor_newL2Entry m.mem _ x _ hfine, h]
  · -- the second-level tables of the other megabytes are not written
    refine walkEntry_congr fun b hb a ha => ?_
    rw [hrest a (fun hold => hfresh.apartL2 _ hx b hb a hold ha), writeWord_of_outside]
    have hmiss := htables _ hx b hb a
    simp only [Block.Holds, l1Block] at hmiss
    by_contra hcon
    exact hmiss (by omega) ha

/-- A table at `0x4000` whose only valid entry is a section at `0x10000000`. -/
def oneSection : Machine :=
  { mem := writeWord (fun _ => 0) 0x4400 0x10000C1E#32, ttbr0 := 0x4000#32 }

/-- It names no second-level table. -/
theorem secondLevel_oneSection (i : Nat) :
    secondLevel (tableEntry oneSection.mem 0x4000 i) = none := by
  rw [tableEntry, oneSection]
  by_cases h : i = 256
  · subst h
    rw [show 0x4000 + 4 * 256 = 0x4400 from rfl, readWord_writeWord_self]
    decide
  · rw [readWord_writeWord_of_apart _ _ _ (by omega)]
    show secondLevel ((0 : Byte) ++ (0 : Byte) ++ (0 : Byte) ++ (0 : Byte) : Word) = none
    decide

/-- An editor of that table. -/
def oneSectionEditor : MMUEditor :=
  { originalTtbr0Reg := 0x4000#32, editedTable := some 0x4000#32 }

theorem freshL2_oneSection : FreshL2 oneSection.mem 0x4000#32 0x8000#32 := by
  refine ⟨by decide, Block.apart_of_le (.inr (by decide)), fun i _ b hb => ?_⟩
  have hnone : secondLevel (tableEntry oneSection.mem 0x4000 i) = some b := hb
  simp [secondLevel_oneSection] at hnone

theorem tablesApart_oneSection : TablesApart oneSection.mem 0x4000#32 := by
  intro i _ b hb
  have hnone : secondLevel (tableEntry oneSection.mem 0x4000 i) = some b := hb
  simp [secondLevel_oneSection] at hnone

/-- A coarse editor for its section. -/
theorem construct_oneSection :
    ∃ c ops, MMUL2CoarsePageTableEditor.construct oneSection 0 oneSectionEditor 0x10000000#32 3#8
      (some 0x8000#32) = .ok (c, ops) := by
  have hentry : oneSectionEditor.getEntry oneSection 0x10000000#32 = 0x10000C1E#32 := by
    have hslot : l1Slot 0x4000#32 0x10000000#32 = 0x4400 := by decide
    simp only [MMUEditor.getEntry, oneSectionEditor, hslot, oneSection, readWord_writeWord_self]
  simp only [MMUL2CoarsePageTableEditor.construct, hentry]
  exact ⟨_, _, rfl⟩

theorem walkTable_construct_section :
    ∃ c ops, MMUL2CoarsePageTableEditor.construct oneSection 0 oneSectionEditor 0x10000000#32 3#8
        (some 0x8000#32) = .ok (c, ops) ∧
      walkTable (oneSection.execAll ops).mem 0x4000 0x10000123#32 =
        (walkTable oneSection.mem 0x4000 0x10000123#32).withDomain 3#4 := by
  obtain ⟨c, ops, hctor⟩ := construct_oneSection
  refine ⟨c, ops, hctor, ?_⟩
  have hwalk := walkTable_construct oneSection 0 oneSectionEditor 0x4000#32 0x10000000#32 3#8
    (some 0x8000#32) c ops rfl tablesApart_oneSection
    (by
      intro l2Table hsome
      obtain rfl : 0x8000#32 = l2Table := Option.some.inj hsome
      exact freshL2_oneSection)
    hctor 0x10000123#32
  rw [if_pos (by decide)] at hwalk
  exact hwalk

/-! ## A second-level table inside the first-level table -/

/-- A table at `0x4000` whose only valid entry names a second-level table at
`0x4400`, which is the part of the first-level table that begins with entry 256. -/
def overlaid : Machine :=
  { mem := writeWord (fun _ => 0) 0x4000 0x4401#32, ttbr0 := 0x4000#32 }

theorem tableEntry_overlaid (i : Nat) :
    tableEntry overlaid.mem 0x4000 i = if i = 0 then 0x4401#32 else 0 := by
  rw [tableEntry, overlaid]
  split_ifs with h
  · rw [h, Nat.mul_zero, Nat.add_zero, readWord_writeWord_self]
  · rw [readWord_writeWord_of_apart _ _ _ (by omega)]
    show ((0 : Byte) ++ (0 : Byte) ++ (0 : Byte) ++ (0 : Byte) : Word) = 0
    decide

/-- Entry 0 of the second-level table is entry 256 of the first-level table. -/
theorem walkTable_overlaid {mem : Memory} (h : tableEntry mem 0x4000 0 = 0x4401#32) :
    walkTable mem 0x4000 0 = coarseDescriptor 0#4 (tableEntry mem 0x4000 256) 0 := by
  have hindex : l1IndexOf 0 = 0 ∧ coarseIndexOf 0 = 0 := by decide
  have hfields : coarseBase 0x4401#32 = 0x4400 ∧ (0x4401#32).extractLsb' 5 4 = 0#4 := by decide
  rw [walkTable, hindex.1, h, walkEntry_coarse mem 0 (by decide), hfields.1, hfields.2, hindex.2,
    tableEntry, tableEntry]

theorem freshL2_overlaid : FreshL2 overlaid.mem 0x4000#32 0x8000#32 := by
  refine ⟨by decide, Block.apart_of_le (.inr (by decide)), fun i _ b hb => ?_⟩
  have hentry : secondLevel (if i = 0 then 0x4401#32 else 0) = some b :=
    tableEntry_overlaid i ▸ hb
  split_ifs at hentry with hi
  · obtain rfl : (⟨0x4400, 0x400⟩ : Block) = b := Option.some.inj hentry
    exact Block.apart_of_le (.inr (by decide))
  · have hfault : secondLevel 0 = none := by decide
    rw [hfault] at hentry
    exact absurd hentry (by simp)

/-- There the split of the megabyte at `0x10000000` maps address 0, which was a
fault. -/
theorem overlaid_split_seen :
    ¬ ∀ (m : Machine) (ref : Nat) (e : MMUEditor) (table virtualAddr : Word) (domain : Byte)
      (allocated : Option Word) (c : MMUL2CoarsePageTableEditor) (ops : List BusOp),
      e.editedTable = some table →
      (∀ l2Table, allocated = some l2Table → FreshL2 m.mem table l2Table) →
      MMUL2CoarsePageTableEditor.construct m ref e virtualAddr domain allocated = .ok (c, ops) →
      ∀ x : Word, walkTable (m.execAll ops).mem table.toNat x =
        if l1IndexOf x = l1IndexOf virtualAddr then
          (walkTable m.mem table.toNat x).withDomain (domain.extractLsb' 0 4)
        else walkTable m.mem table.toNat x := by
  intro hall
  have hslot : l1IndexOf 0x10000000#32 = 256 := by decide
  have hread : oneSectionEditor.getEntry overlaid 0x10000000#32 = 0 := by
    simp only [MMUEditor.getEntry, oneSectionEditor, l1Slot_eq, hslot]
    exact tableEntry_overlaid 256
  obtain ⟨c, ops, hctor⟩ : ∃ c ops, MMUL2CoarsePageTableEditor.construct overlaid 0
      oneSectionEditor 0x10000000#32 3#8 (some 0x8000#32) = .ok (c, ops) := by
    simp only [MMUL2CoarsePageTableEditor.construct, hread]
    exact ⟨_, _, rfl⟩
  have hwalk := hall overlaid 0 oneSectionEditor 0x4000#32 0x10000000#32 3#8 (some 0x8000#32) c ops
    rfl (by
      intro l2Table hsome
      obtain rfl : 0x8000#32 = l2Table := Option.some.inj hsome
      exact freshL2_overlaid) hctor 0
  rw [if_neg (by decide)] at hwalk
  have hafter : ∀ i, i < 4096 → tableEntry (overlaid.execAll ops).mem 0x4000 i =
      if i = l1IndexOf 0x10000000#32 then coarseL1Entry 0x8000#32 3#8
      else tableEntry overlaid.mem 0x4000 i := fun i hi =>
    tableEntry_construct (e := oneSectionEditor) rfl hctor freshL2_overlaid.apartL1 hi
  have hbefore := walkTable_overlaid (tableEntry_overlaid 0)
  have hthen := walkTable_overlaid ((hafter 0 (by omega)).trans (tableEntry_overlaid 0))
  rw [hafter 256 (by omega), if_pos hslot.symm] at hthen
  rw [tableEntry_overlaid 256] at hbefore
  have hsame : walkTable (overlaid.execAll ops).mem 0x4000 0 = walkTable overlaid.mem 0x4000 0 :=
    hwalk
  rw [hthen, hbefore] at hsame
  exact absurd hsame (by decide)

end NspireUtils.Ports.CoarseSplit
