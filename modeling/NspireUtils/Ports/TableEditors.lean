import NspireUtils.Ports.Bus
import NspireUtils.Ports.MMUDescriptors

/-!
# `MMUEditor` and `MMUL2CoarsePageTableEditor`

The two editors of `platform/MMUEditor.cpp`.  A constructor, destructor or
mapping call is a function of the object (and, where it reads tables, of the
machine) that returns the object afterwards and the bus operations performed,
in program order.

`aligned_alloc` is a parameter: each constructor receives the pointer it was
given, or `none` for a null pointer.  A pointer member is `none` exactly when
the source holds `nullptr`.

The second half of the file gives each operation its specification lemma: the
entry a descriptor builder encodes, the footprint of each operation, and the
table entries after it.
-/

namespace NspireUtils.Ports.TableEditors

open NspireUtils.Verified.BitFields
open NspireUtils.Verified.ByteMemory
open NspireUtils.Verified.ShortDescriptor
open NspireUtils.Ports.Bus
open NspireUtils.Ports.MMUDescriptors

/-- The exceptions the library throws. -/
inductive Exception where
  | badAlloc
  | runtimeError (what : String)
  deriving Repr, DecidableEq

/-! ## `MMUEditor` -/

/-- `class MMUEditor`. -/
structure MMUEditor where
  originalTtbr0Reg : Word
  editedTable : Option Word
  deriving Repr, DecidableEq

/-- `MMUEditor::L1Index`: 1 MB sections. -/
def l1Index (addr : Word) : Word := addr >>> 20

/-- The address of `editedTable[L1Index(virtual_addr)]`. -/
def l1Slot (table virtualAddr : Word) : Nat := table.toNat + 4 * (l1Index virtualAddr).toNat

/-- The descriptor `MapSection` writes. -/
def sectionDescriptor (physicalAddr attributes : Word) : Word :=
  let descriptor := (physicalAddr &&& 0xFFF00000#32) ||| attributes |||
    MMUDescriptorType.sectionEntry.toWord
  -- bit 4 must be 1 for section entries
  descriptor ||| (1#32 <<< 4)

namespace MMUEditor

/-- `MMUEditor::MMUEditor`. -/
def construct (m : Machine) (allocated : Option Word) :
    Except Exception (MMUEditor × List BusOp) :=
  let originalTtbr0Reg := m.ttbr0
  let oldTableAddr := originalTtbr0Reg &&& 0xFFFFC000#32
  match allocated with
  | none => .error .badAlloc
  | some editedTable =>
      let oldFlags := originalTtbr0Reg &&& ~~~0xFFFFC000#32
      let newTtbr0 := editedTable ||| oldFlags
      .ok ({ originalTtbr0Reg, editedTable := some editedTable },
        [ .copy editedTable.toNat oldTableAddr.toNat ttbSize
        , .flushDataCacheRange editedTable (editedTable + BitVec.ofNat 32 ttbSize)
        , .setTtbr0 newTtbr0
        , .invalidateTlb ])

/-- `MMUEditor::~MMUEditor`. -/
def destroy (e : MMUEditor) : MMUEditor × List BusOp :=
  match e.editedTable with
  | none => (e, [])
  | some table =>
      ({ e with editedTable := none },
        [.setTtbr0 e.originalTtbr0Reg, .invalidateTlb, .alignedFree table])

/-- `MMUEditor::map`. -/
def map (e : MMUEditor) (virtualAddr tableDescriptorEntry : Word) : List BusOp :=
  match e.editedTable with
  | none => []
  | some table =>
      let entryAddr := table + 4#32 * l1Index virtualAddr
      [ .store (l1Slot table virtualAddr) tableDescriptorEntry
      , .flushDataCacheRange entryAddr (entryAddr + 4#32)
      , .invalidateTlb ]

/-- `MMUEditor::MapSection`. -/
def mapSection (e : MMUEditor) (virtualAddr physicalAddr attributes : Word) : List BusOp :=
  match e.editedTable with
  | none => []
  | some table =>
      let entryAddr := table + 4#32 * l1Index virtualAddr
      [ .store (l1Slot table virtualAddr) (sectionDescriptor physicalAddr attributes)
      , .flushDataCacheRange entryAddr (entryAddr + 4#32)
      , .invalidateTlb ]

/-- `MMUEditor::getEntry`. -/
def getEntry (e : MMUEditor) (m : Machine) (virtualAddr : Word) : Word :=
  match e.editedTable with
  | none => 0xFFFFFFFF#32
  | some table => readWord m.mem (l1Slot table virtualAddr)

end MMUEditor

/-! ## `MMUL2CoarsePageTableEditor` -/

/-- `class MMUL2CoarsePageTableEditor`.  `parentMMUEditor` names the object the
reference is bound to. -/
structure MMUL2CoarsePageTableEditor where
  parentMMUEditor : Nat
  oldL1Entry : Word
  virtualAddr : Word
  l2Table : Option Word
  deriving Repr, DecidableEq

/-- `MMUL2CoarsePageTableEditor::L2SmallPageIndex`: 256 entries, 4 KB each. -/
def l2SmallPageIndex (addr : Word) : Word := (addr >>> 12) &&& 0xFF#32

/-- `MMUL2CoarsePageTableEditor::L2LargePageIndex`: the first index of a 64 KB
large page. -/
def l2LargePageIndex (addr : Word) : Word := l2SmallPageIndex addr &&& 0xF0#32

/-- Entry `i` of the coarse table that maps the same region as the section
entry `l1Entry`. -/
def splitEntry (l1Entry : Word) (i : Nat) : Word :=
  let sectionBasePhysAddr := l1Entry &&& 0xFFF00000#32
  let sectionCachePolicy := mmuCachePolicyFromEntry l1Entry
  let sectionAccessPermission := mmuAccessPermissionFromSectionEntry l1Entry
  let pagePhysAddr := sectionBasePhysAddr + BitVec.ofNat 32 (i * 0x1000)
  (pagePhysAddr &&& 0xFFFFF000#32) ||| MMUL2DescriptorType.smallPage.toWord |||
    mmuL2EntirePageAccessPermissions sectionAccessPermission |||
    sectionCachePolicy.toWord

/-- The first-level entry the constructor installs. -/
def coarseL1Entry (l2Table : Word) (domain : Byte) : Word :=
  (l2Table &&& 0xFFFFFC00#32) ||| MMUDescriptorType.coarsePageTable.toWord |||
    mmuSelectDomain domain ||| (1#32 <<< 4)

/-- The descriptor `Map64KBPage` writes sixteen times. -/
def largePageDescriptor (physicalAddr attributes : Word) : Word :=
  (physicalAddr &&& 0xFFFF0000#32) ||| MMUL2DescriptorType.largePage.toWord ||| attributes

/-- The descriptor `Map4KBPage` writes. -/
def smallPageDescriptor (physicalAddr attributes : Word) : Word :=
  (physicalAddr &&& 0xFFFFF000#32) ||| MMUL2DescriptorType.smallPage.toWord ||| attributes

namespace MMUL2CoarsePageTableEditor

/-- How the constructor fills the new table: a copy of the coarse table the
region had, the split of its section, or faults. -/
def fillL2Table (descType : MMUDescriptorType) (l1Entry l2Table : Word) : List BusOp :=
  match descType with
  | .coarsePageTable =>
      [.copy l2Table.toNat (l1Entry &&& 0xFFFFFC00#32).toNat l2TableSize]
  | .sectionEntry => storeTable l2Table.toNat 256 (splitEntry l1Entry)
  | _ => [.fill l2Table.toNat 0 l2TableSize]

/-- `MMUL2CoarsePageTableEditor::MMUL2CoarsePageTableEditor`. -/
def construct (m : Machine) (parentMMUEditor : Nat) (mmuEditor : MMUEditor)
    (virtualAddr : Word) (domain : Byte) (allocated : Option Word) :
    Except Exception (MMUL2CoarsePageTableEditor × List BusOp) :=
  let l1Entry := mmuEditor.getEntry m virtualAddr
  let descType := MMUDescriptorType.ofWord (l1Entry &&& 0b11#32)
  if descType = .finePageTable then
    .error (.runtimeError "Cannot copy fine page table")
  else
    match allocated with
    | none => .error .badAlloc
    | some l2Table =>
        .ok ({ parentMMUEditor, oldL1Entry := l1Entry, virtualAddr, l2Table := some l2Table },
          fillL2Table descType l1Entry l2Table ++
            [.flushDataCacheRange l2Table (l2Table + BitVec.ofNat 32 l2TableSize)] ++
            mmuEditor.map virtualAddr (coarseL1Entry l2Table domain))

/-- `MMUL2CoarsePageTableEditor::~MMUL2CoarsePageTableEditor`. -/
def destroy (c : MMUL2CoarsePageTableEditor) (parent : MMUEditor) :
    MMUL2CoarsePageTableEditor × List BusOp :=
  match c.l2Table with
  | none => (c, [])
  | some table =>
      ({ c with l2Table := none },
        parent.map c.virtualAddr c.oldL1Entry ++ [.alignedFree table])

/-- `MMUL2CoarsePageTableEditor::Map64KBPage`. -/
def map64KBPage (c : MMUL2CoarsePageTableEditor)
    (virtualAddr physicalAddr attributes : Word) : List BusOp :=
  match c.l2Table with
  | none => []
  | some table =>
      let index := l2LargePageIndex virtualAddr
      let newDescriptor := largePageDescriptor physicalAddr attributes
      let entryAddr := table + 4#32 * index
      -- 16 small pages in 64KB large page
      storeTable (table.toNat + 4 * index.toNat) 16 (fun _ => newDescriptor) ++
        [.flushDataCacheRange entryAddr (entryAddr + 64#32), .invalidateTlb]

/-- `MMUL2CoarsePageTableEditor::Map4KBPage`. -/
def map4KBPage (c : MMUL2CoarsePageTableEditor)
    (virtualAddr physicalAddr attributes : Word) : List BusOp :=
  match c.l2Table with
  | none => []
  | some table =>
      let index := l2SmallPageIndex virtualAddr
      let newDescriptor := smallPageDescriptor physicalAddr attributes
      let entryAddr := table + 4#32 * index
      [ .store (table.toNat + 4 * index.toNat) newDescriptor
      , .flushDataCacheRange entryAddr (entryAddr + 4#32)
      , .invalidateTlb ]

end MMUL2CoarsePageTableEditor

/-! ## Indices -/

theorem toNat_l1Index (addr : Word) : (l1Index addr).toNat = l1IndexOf addr := by
  have h := addr.isLt
  rw [l1IndexOf, toNat_extract, l1Index, BitVec.toNat_ushiftRight, Nat.shiftRight_eq_div_pow]
  omega

theorem l1Slot_eq (table virtualAddr : Word) :
    l1Slot table virtualAddr = table.toNat + 4 * l1IndexOf virtualAddr := by
  rw [l1Slot, toNat_l1Index]

theorem toNat_l2SmallPageIndex (addr : Word) :
    (l2SmallPageIndex addr).toNat = coarseIndexOf addr := by
  rw [l2SmallPageIndex, and_field_eq_place _ _ 0 8 (by decide), toNat_place _ _ (by omega),
    toNat_extract, coarseIndexOf, toNat_extract, BitVec.toNat_ushiftRight,
    Nat.shiftRight_eq_div_pow]
  omega

theorem toNat_l2LargePageIndex (addr : Word) :
    (l2LargePageIndex addr).toNat = coarseIndexOf addr / 16 * 16 := by
  have hlt := coarseIndexOf_lt addr
  rw [l2LargePageIndex, and_field_eq_place _ _ 4 4 (by decide), toNat_place _ _ (by omega),
    toNat_extract, toNat_l2SmallPageIndex]
  omega

/-- The table `TTBR0` points to is read at its address field. -/
theorem toNat_oldTableAddr (ttbr0 : Word) :
    (ttbr0 &&& 0xFFFFC000#32).toNat = ttbBase ttbr0 := by
  rw [toNat_and_high _ _ 14 (by omega) (by decide), ttbBase]
  exact (toNat_extract_high ttbr0 14 (by omega)).symm

/-- An aligned table keeps its address when the old flags are or-ed in. -/
theorem ttbBase_newTtbr0 {table : Word} (ttbr0 : Word) (haligned : 2 ^ 14 ∣ table.toNat) :
    ttbBase (table ||| (ttbr0 &&& ~~~0xFFFFC000#32)) = table.toNat := by
  have hflags : ttbr0 &&& ~~~0xFFFFC000#32 = place 0 (ttbr0.extractLsb' 0 14) :=
    and_field_eq_place _ _ 0 14 (by decide)
  have hfield : (table ||| (ttbr0 &&& ~~~0xFFFFC000#32)).extractLsb' 14 18 =
      table.extractLsb' 14 18 := by
    simp (disch := omega) only [hflags, extract_or, extract_place_of_apart, BitVec.or_zero]
  rw [ttbBase, hfield]
  exact toNat_extract_high_of_dvd (k := 14) (by omega) haligned

/-! ## What the descriptors encode -/

theorem sectionDescriptor_eq (physicalAddr attributes : Word) :
    sectionDescriptor physicalAddr attributes =
      place 20 (physicalAddr.extractLsb' 20 12) ||| attributes ||| place 0 0b10#2 |||
        place 4 0b1#1 := by
  rw [sectionDescriptor, and_high_eq_place physicalAddr _ 20 (by decide)]
  rfl

/-- The attributes of a section: `MMUAccessPermission | MMUCachePolicy |
MMUSelectDomain`. -/
def sectionAttributes (ap : MMUAccessPermission) (cp : MMUCachePolicy) (domain : Byte) : Word :=
  ap.toWord ||| cp.toWord ||| mmuSelectDomain domain

/-- The fields of a section descriptor whose attributes the helpers built. -/
theorem sectionDescriptor_fields (physicalAddr : Word) (ap : MMUAccessPermission)
    (cp : MMUCachePolicy) (domain : Byte) :
    let desc := sectionDescriptor physicalAddr (sectionAttributes ap cp domain)
    desc.extractLsb' 0 2 = 0b10#2 ∧
      desc.extractLsb' 20 12 = physicalAddr.extractLsb' 20 12 ∧
      desc.extractLsb' 10 2 = ap.code ∧ desc.extractLsb' 2 2 = cp.code ∧
      desc.extractLsb' 5 4 = domain.extractLsb' 0 4 := by
  intro desc
  simp only [desc, sectionDescriptor_eq, sectionAttributes, ap.toWord_eq, cp.toWord_eq,
    mmuSelectDomain_eq]
  refine ⟨?_, ?_, ?_, ?_, ?_⟩ <;>
    simp (disch := omega) only [extract_or, extract_place_self, extract_place_of_apart,
      BitVec.or_zero, BitVec.zero_or]

theorem coarseL1Entry_eq (l2Table : Word) (domain : Byte) :
    coarseL1Entry l2Table domain =
      place 10 (l2Table.extractLsb' 10 22) ||| place 0 0b01#2 |||
        place 5 (domain.extractLsb' 0 4) ||| place 4 0b1#1 := by
  rw [coarseL1Entry, and_high_eq_place l2Table _ 10 (by decide), mmuSelectDomain_eq]
  rfl

theorem largePageDescriptor_eq (physicalAddr attributes : Word) :
    largePageDescriptor physicalAddr attributes =
      place 16 (physicalAddr.extractLsb' 16 16) ||| place 0 0b01#2 ||| attributes := by
  rw [largePageDescriptor, and_high_eq_place physicalAddr _ 16 (by decide)]
  rfl

theorem smallPageDescriptor_eq (physicalAddr attributes : Word) :
    smallPageDescriptor physicalAddr attributes =
      place 12 (physicalAddr.extractLsb' 12 20) ||| place 0 0b10#2 ||| attributes := by
  rw [smallPageDescriptor, and_high_eq_place physicalAddr _ 12 (by decide)]
  rfl

/-- Page `i` of a section starts `i * 4 KB` above the section's base: the page
number is the section number followed by `i`. -/
theorem splitPage_extract (l1Entry : Word) {i : Nat} (hi : i < 256) :
    ((l1Entry &&& 0xFFF00000#32) + BitVec.ofNat 32 (i * 0x1000)).extractLsb' 12 20 =
      l1Entry.extractLsb' 20 12 ++ BitVec.ofNat 8 i := by
  apply BitVec.eq_of_toNat_eq
  have hlt := l1Entry.isLt
  have hi8 : (BitVec.ofNat 8 i).toNat = i := by
    rw [BitVec.toNat_ofNat]
    omega
  rw [BitVec.toNat_append, hi8, ← Nat.shiftLeft_add_eq_or_of_lt (by omega), Nat.shiftLeft_eq,
    toNat_extract, toNat_extract, BitVec.toNat_add, BitVec.toNat_ofNat,
    toNat_and_high _ _ 20 (by omega) (by decide)]
  omega

theorem splitEntry_eq (l1Entry : Word) {i : Nat} (hi : i < 256) :
    splitEntry l1Entry i =
      place 12 (l1Entry.extractLsb' 20 12 ++ BitVec.ofNat 8 i) ||| place 0 0b10#2 |||
        (place 4 (l1Entry.extractLsb' 10 2) ||| place 6 (l1Entry.extractLsb' 10 2) |||
          place 8 (l1Entry.extractLsb' 10 2) ||| place 10 (l1Entry.extractLsb' 10 2)) |||
        place 2 (l1Entry.extractLsb' 2 2) := by
  simp only [splitEntry]
  rw [and_high_eq_place (_ + _) _ 12 (by decide), splitPage_extract l1Entry hi,
    mmuL2EntirePageAccessPermissions, mmuL2SubpageAccessPermissions_eq,
    code_mmuAccessPermissionFromSectionEntry, MMUCachePolicy.toWord_eq,
    code_mmuCachePolicyFromEntry]
  rfl

/-! ## Table entries and footprints -/

/-- The block of a coarse table. -/
def l2Block (l2Table : Word) : Block := ⟨l2Table.toNat, l2TableSize⟩

theorem l2Block_size_pos (l2Table : Word) : 0 < (l2Block l2Table).size :=
  show 0 < l2TableSize by decide

namespace MMUEditor

theorem mapSection_eq_map (e : MMUEditor) (virtualAddr physicalAddr attributes : Word) :
    e.mapSection virtualAddr physicalAddr attributes =
      e.map virtualAddr (sectionDescriptor physicalAddr attributes) := rfl

theorem map_within (e : MMUEditor) {table : Word} (virtualAddr entry : Word)
    (he : e.editedTable = some table) :
    Within (e.map virtualAddr entry) (l1Block table.toNat) := by
  have hi := l1IndexOf_lt virtualAddr
  simp only [map, he]
  refine .cons ?_ (.cons (by simp [BusOp.footprint]) (.cons (by simp [BusOp.footprint]) (.nil _)))
  intro c hc a ha
  simp only [BusOp.footprint, Option.some.injEq] at hc
  subst hc
  simp only [l1Slot_eq, Block.Holds, l1Block] at ha ⊢
  omega

@[simp] theorem map_ttbr0 (e : MMUEditor) (m : Machine) (virtualAddr entry : Word) :
    (m.execAll (e.map virtualAddr entry)).ttbr0 = m.ttbr0 := by
  unfold map
  split <;> simp

theorem map_mem (e : MMUEditor) {table : Word} (m : Machine) (virtualAddr entry : Word)
    (he : e.editedTable = some table) :
    (m.execAll (e.map virtualAddr entry)).mem =
      writeWord m.mem (table.toNat + 4 * l1IndexOf virtualAddr) entry := by
  simp [map, he, l1Slot_eq]

/-- `map` replaces one entry of the edited table. -/
theorem tableEntry_map (e : MMUEditor) {table : Word} (m : Machine) (virtualAddr entry : Word)
    (he : e.editedTable = some table) (i : Nat) :
    tableEntry (m.execAll (e.map virtualAddr entry)).mem table.toNat i =
      if i = l1IndexOf virtualAddr then entry else tableEntry m.mem table.toNat i := by
  rw [map_mem e m virtualAddr entry he, tableEntry]
  by_cases h : i = l1IndexOf virtualAddr
  · rw [if_pos h, h, readWord_writeWord_self]
  · rw [if_neg h, readWord_writeWord_of_apart _ _ _ (by omega), tableEntry]

theorem getEntry_eq (e : MMUEditor) {table : Word} (m : Machine) (virtualAddr : Word)
    (he : e.editedTable = some table) :
    e.getEntry m virtualAddr = tableEntry m.mem table.toNat (l1IndexOf virtualAddr) := by
  simp only [getEntry, he, l1Slot_eq, tableEntry]

end MMUEditor

namespace MMUL2CoarsePageTableEditor

theorem map64KBPage_within (c : MMUL2CoarsePageTableEditor) {l2Table : Word}
    (virtualAddr physicalAddr attributes : Word) (hc : c.l2Table = some l2Table) :
    Within (c.map64KBPage virtualAddr physicalAddr attributes) (l2Block l2Table) := by
  have hi := coarseIndexOf_lt virtualAddr
  simp only [map64KBPage, hc, toNat_l2LargePageIndex]
  refine .append (storeTable_within _ _ _ ?_ ?_)
    (.cons (by simp [BusOp.footprint]) (.cons (by simp [BusOp.footprint]) (.nil _)))
  · show l2Table.toNat ≤ _
    omega
  · show _ ≤ l2Table.toNat + l2TableSize
    simp only [l2TableSize]
    omega

theorem map4KBPage_within (c : MMUL2CoarsePageTableEditor) {l2Table : Word}
    (virtualAddr physicalAddr attributes : Word) (hc : c.l2Table = some l2Table) :
    Within (c.map4KBPage virtualAddr physicalAddr attributes) (l2Block l2Table) := by
  have hi := coarseIndexOf_lt virtualAddr
  simp only [map4KBPage, hc, toNat_l2SmallPageIndex]
  refine .cons ?_ (.cons (by simp [BusOp.footprint]) (.cons (by simp [BusOp.footprint]) (.nil _)))
  intro b hb a ha
  simp only [BusOp.footprint, Option.some.injEq] at hb
  subst hb
  simp only [Block.Holds, l2Block, l2TableSize] at ha ⊢
  omega

@[simp] theorem map64KBPage_ttbr0 (c : MMUL2CoarsePageTableEditor) (m : Machine)
    (virtualAddr physicalAddr attributes : Word) :
    (m.execAll (c.map64KBPage virtualAddr physicalAddr attributes)).ttbr0 = m.ttbr0 := by
  unfold map64KBPage
  split
  · rfl
  · simp [Machine.execAll_append]

@[simp] theorem map4KBPage_ttbr0 (c : MMUL2CoarsePageTableEditor) (m : Machine)
    (virtualAddr physicalAddr attributes : Word) :
    (m.execAll (c.map4KBPage virtualAddr physicalAddr attributes)).ttbr0 = m.ttbr0 := by
  unfold map4KBPage
  split <;> simp

/-- `Map64KBPage` replaces the sixteen entries of the page that contains
`virtualAddr`. -/
theorem tableEntry_map64KBPage (c : MMUL2CoarsePageTableEditor) {l2Table : Word} (m : Machine)
    (virtualAddr physicalAddr attributes : Word) (hc : c.l2Table = some l2Table) (i : Nat) :
    tableEntry (m.execAll (c.map64KBPage virtualAddr physicalAddr attributes)).mem
        l2Table.toNat i =
      if i / 16 = coarseIndexOf virtualAddr / 16 then
        largePageDescriptor physicalAddr attributes
      else tableEntry m.mem l2Table.toNat i := by
  simp only [map64KBPage, hc, toNat_l2LargePageIndex]
  simp only [Machine.execAll_append, Machine.execAll_cons, Machine.execAll_nil,
    Machine.exec_flushDataCacheRange, Machine.exec_invalidateTlb]
  split_ifs with h
  · obtain ⟨j, hj, rfl⟩ : ∃ j, j < 16 ∧ i = coarseIndexOf virtualAddr / 16 * 16 + j :=
      ⟨i % 16, by omega, by omega⟩
    have hread := tableEntry_storeTable m
      (l2Table.toNat + 4 * (coarseIndexOf virtualAddr / 16 * 16)) 16
      (fun _ => largePageDescriptor physicalAddr attributes) hj
    have haddr : l2Table.toNat + 4 * (coarseIndexOf virtualAddr / 16 * 16 + j) =
        l2Table.toNat + 4 * (coarseIndexOf virtualAddr / 16 * 16) + 4 * j := by omega
    rw [tableEntry, haddr]
    exact hread
  · exact tableEntry_storeTable_of_apart m _ _ _ (by omega)

/-- `Map4KBPage` replaces the entry of the page that contains `virtualAddr`. -/
theorem tableEntry_map4KBPage (c : MMUL2CoarsePageTableEditor) {l2Table : Word} (m : Machine)
    (virtualAddr physicalAddr attributes : Word) (hc : c.l2Table = some l2Table) (i : Nat) :
    tableEntry (m.execAll (c.map4KBPage virtualAddr physicalAddr attributes)).mem
        l2Table.toNat i =
      if i = coarseIndexOf virtualAddr then smallPageDescriptor physicalAddr attributes
      else tableEntry m.mem l2Table.toNat i := by
  simp only [map4KBPage, hc, toNat_l2SmallPageIndex, Machine.execAll_cons, Machine.execAll_nil,
    Machine.exec_store, Machine.exec_flushDataCacheRange, Machine.exec_invalidateTlb]
  rw [tableEntry]
  split_ifs with h
  · rw [h, readWord_writeWord_self]
  · rw [readWord_writeWord_of_apart _ _ _ (by omega), tableEntry]

/-- A successful construction: the parent had a table whose entry is not a fine
page table, and the allocation succeeded. -/
theorem construct_ok {m : Machine} {ref : Nat} {e : MMUEditor} {table virtualAddr : Word}
    {domain : Byte} {allocated : Option Word} {c : MMUL2CoarsePageTableEditor}
    {ops : List BusOp} (he : e.editedTable = some table)
    (h : construct m ref e virtualAddr domain allocated = .ok (c, ops)) :
    ∃ l2Table, allocated = some l2Table ∧
      (tableEntry m.mem table.toNat (l1IndexOf virtualAddr)).extractLsb' 0 2 ≠ 0b11#2 ∧
      c = { parentMMUEditor := ref
            oldL1Entry := tableEntry m.mem table.toNat (l1IndexOf virtualAddr)
            virtualAddr
            l2Table := some l2Table } ∧
      ops = fillL2Table
          (.ofWord (tableEntry m.mem table.toNat (l1IndexOf virtualAddr) &&& 0b11#32))
          (tableEntry m.mem table.toNat (l1IndexOf virtualAddr)) l2Table ++
        [.flushDataCacheRange l2Table (l2Table + BitVec.ofNat 32 l2TableSize)] ++
        e.map virtualAddr (coarseL1Entry l2Table domain) := by
  simp only [construct, MMUEditor.getEntry_eq e m virtualAddr he] at h
  split_ifs at h with hfine
  cases allocated with
  | none => simp at h
  | some l2Table =>
      simp only [Except.ok.injEq, Prod.mk.injEq] at h
      refine ⟨l2Table, rfl, ?_, h.1.symm, h.2.symm⟩
      intro htype
      apply hfine
      simp [MMUDescriptorType.ofWord, extract_type_mask, htype]

/-- Without a table the parent reports a fine entry, so construction throws. -/
theorem construct_null {m : Machine} {ref : Nat} {e : MMUEditor} (virtualAddr : Word)
    (domain : Byte) (allocated : Option Word) (he : e.editedTable = none) :
    construct m ref e virtualAddr domain allocated =
      .error (.runtimeError "Cannot copy fine page table") := by
  simp only [construct, MMUEditor.getEntry, he]
  rfl

end MMUL2CoarsePageTableEditor

end NspireUtils.Ports.TableEditors
