import NspireUtils.Ports.Caches
import NspireUtils.Ports.CoarseSplit

/-!
# Table updates and the TLB

The calls that change translation tables, on a machine whose tables lie behind a
write-back cache and whose memory management unit may walk them at any moment.

Every call stores, flushes what it stored, and calls `InvalidateTLB`.  That function
invalidates first and drains the write buffer afterwards, so a walk in between can
bring an old entry back: `old_entry_walked`.  `tables_current` is the theorem about
all other runs.
-/

namespace NspireUtils.Ports.TableCoherence

open NspireUtils.Verified.BitFields
open NspireUtils.Verified.ByteMemory
open NspireUtils.Verified.ShortDescriptor
open NspireUtils.Verified.WriteBackCache
open NspireUtils.Verified.TableWalks
open NspireUtils.Verified.Runs
open NspireUtils.Ports.Bus
open NspireUtils.Ports.MMUDescriptors
open NspireUtils.Ports.TableEditors
open NspireUtils.Ports.CoarseSplit
open NspireUtils.Ports.Caches

/-- A call that may change tables. -/
inductive Call where
  | newEditor (allocated : Option Word)
  | deleteEditor (e : MMUEditor)
  | map (e : MMUEditor) (virtualAddr entry : Word)
  | mapSection (e : MMUEditor) (virtualAddr physicalAddr attributes : Word)
  | newCoarse (parentMMUEditor : Nat) (e : MMUEditor) (virtualAddr : Word) (domain : Byte)
      (allocated : Option Word)
  | deleteCoarse (c : MMUL2CoarsePageTableEditor) (parent : MMUEditor)
  | map64KBPage (c : MMUL2CoarsePageTableEditor) (virtualAddr physicalAddr attributes : Word)
  | map4KBPage (c : MMUL2CoarsePageTableEditor) (virtualAddr physicalAddr attributes : Word)
  deriving Repr, DecidableEq

/-- The operations of a call.  A constructor that throws performs none. -/
def Call.ops (m : Machine) : Call → List BusOp
  | .newEditor allocated =>
      match MMUEditor.construct m allocated with
      | .error _ => []
      | .ok (_, ops) => ops
  | .deleteEditor e => e.destroy.2
  | .map e virtualAddr entry => e.map virtualAddr entry
  | .mapSection e virtualAddr physicalAddr attributes =>
      e.mapSection virtualAddr physicalAddr attributes
  | .newCoarse parentMMUEditor e virtualAddr domain allocated =>
      match MMUL2CoarsePageTableEditor.construct m parentMMUEditor e virtualAddr domain
        allocated with
      | .error _ => []
      | .ok (_, ops) => ops
  | .deleteCoarse c parent => (c.destroy parent).2
  | .map64KBPage c virtualAddr physicalAddr attributes =>
      c.map64KBPage virtualAddr physicalAddr attributes
  | .map4KBPage c virtualAddr physicalAddr attributes =>
      c.map4KBPage virtualAddr physicalAddr attributes

/-- A table as `aligned_alloc` returns it: aligned to its size, and not at the end of
the address space. -/
def Allocated (size : Nat) (table : Word) : Prop :=
  size ∣ table.toNat ∧ table.toNat + size < 2 ^ 32

/-- The tables of the call were allocated, a new one not over the one it is copied
from. -/
def Call.Sound (m : Machine) : Call → Prop
  | .newEditor allocated => ∀ table ∈ allocated, Allocated ttbSize table ∧
      (l1Block table.toNat).Apart (l1Block (ttbBase m.ttbr0))
  | .deleteEditor _ => True
  | .map e _ _ => ∀ table ∈ e.editedTable, Allocated ttbSize table
  | .mapSection e _ _ _ => ∀ table ∈ e.editedTable, Allocated ttbSize table
  | .newCoarse _ e virtualAddr _ allocated =>
      (∀ table ∈ e.editedTable, Allocated ttbSize table) ∧
        ∀ l2Table ∈ allocated, Allocated l2TableSize l2Table ∧
          ∀ b, secondLevel (e.getEntry m virtualAddr) = some b → (l2Block l2Table).Apart b
  | .deleteCoarse _ parent => ∀ table ∈ parent.editedTable, Allocated ttbSize table
  | .map64KBPage c _ _ _ => ∀ l2Table ∈ c.l2Table, Allocated l2TableSize l2Table
  | .map4KBPage c _ _ _ => ∀ l2Table ∈ c.l2Table, Allocated l2TableSize l2Table

/-! ## Every call is an update -/

/-- The call changes nothing, or it is an update. -/
def Updates (ops : List BusOp) : Prop :=
  (∃ freed : List Word, ops = freed.map .alignedFree) ∨ ∃ work, Update ops work

/-- Nothing is stored. -/
theorem not_storesTo {op : BusOp} (h : op.footprint = none) (l : Nat) : ¬ StoresTo op l := by
  rintro ⟨b, hb, -⟩
  rw [h] at hb
  exact absurd hb (by simp)

/-- What is stored and flushed, up to the next store. -/
theorem flushed_of_range {stores after : List BusOp} {start stop : Word} {op : BusOp} {x : Nat}
    (hcover : Within stores ⟨start.toNat, stop.toNat - start.toNat⟩) (hop : op ∈ stores) {b : Block}
    (hb : op.footprint = some b) (hx : b.Holds x)
    (hafter : ∀ o ∈ after, ¬ StoresTo o (lineOf x)) :
    Flushed x (stores ++ .flushDataCacheRange start stop :: after) := by
  obtain ⟨hle, hlt⟩ := hcover op hop b hb x hx
  simp only at hle hlt
  exact Flushed.append_left stores (.inr ⟨⟨x, hle, by omega, rfl⟩, hafter⟩)

/-- Stores, a flush of all of them, and nothing else that stores. -/
theorem update_of_range {stores after : List BusOp} {start stop : Word} (freed : List Word)
    (hregular : ∀ op ∈ stores, Regular op)
    (hcover : Within stores ⟨start.toNat, stop.toNat - start.toNat⟩)
    (hstop : stop.toNat + 31 < 2 ^ 32)
    (hafter : ∀ op ∈ after, Regular op ∧ op.footprint = none) :
    Update ((stores ++ .flushDataCacheRange start stop :: after) ++
        .invalidateTlb :: freed.map .alignedFree)
      (stores ++ .flushDataCacheRange start stop :: after) := by
  refine ⟨⟨freed, rfl⟩, fun op hop => ?_, fun op hop b hb x hx => ?_⟩
  · rcases List.mem_append.mp hop with hop | hop
    · exact hregular op hop
    · rcases List.mem_cons.mp hop with rfl | hop
      · exact hstop
      · exact (hafter op hop).1
  · rcases List.mem_append.mp hop with hop | hop
    · exact flushed_of_range hcover hop hb hx fun o ho => not_storesTo (hafter o ho).2 _
    · rcases List.mem_cons.mp hop with rfl | hop
      · exact absurd hb (by simp [BusOp.footprint])
      · rw [(hafter op hop).2] at hb
        exact absurd hb (by simp)

/-- Stores, a flush, and another update behind it. -/
theorem update_behind_range {stores ops work : List BusOp} {start stop : Word}
    (hregular : ∀ op ∈ stores, Regular op)
    (hcover : Within stores ⟨start.toNat, stop.toNat - start.toNat⟩)
    (hstop : stop.toNat + 31 < 2 ^ 32) (hupdate : Update ops work) :
    Update (stores ++ .flushDataCacheRange start stop :: ops)
      (stores ++ .flushDataCacheRange start stop :: work) := by
  obtain ⟨⟨freed, rfl⟩, hwork, hflushed⟩ := hupdate
  have hbehind : ∀ x, Flushed x work →
      Flushed x (stores ++ .flushDataCacheRange start stop :: work) := fun x hx =>
    Flushed.append_left stores (.inl hx)
  refine ⟨⟨freed, by simp⟩, fun op hop => ?_, fun op hop b hb x hx => ?_⟩
  · rcases List.mem_append.mp hop with hop | hop
    · exact hregular op hop
    · rcases List.mem_cons.mp hop with rfl | hop
      · exact hstop
      · exact hwork op hop
  · rcases List.mem_append.mp hop with hop | hop
    · -- a line that is stored into again is flushed again
      by_cases hagain : ∃ o ∈ work, StoresTo o (lineOf x)
      · obtain ⟨o, ho, c, hc, y, hy, hline⟩ := hagain
        exact (hbehind y (hflushed o ho c hc y hy)).of_line hline
      · exact flushed_of_range hcover hop hb hx fun o ho hstores => hagain ⟨o, ho, hstores⟩
    · rcases List.mem_cons.mp hop with rfl | hop
      · exact absurd hb (by simp [BusOp.footprint])
      · exact hbehind x (hflushed op hop b hb x hx)

/-! ## The calls -/

theorem toNat_add_small {a : Word} {n : Nat} (h : a.toNat + n < 2 ^ 32) :
    (a + BitVec.ofNat 32 n).toNat = a.toNat + n := by
  rw [BitVec.toNat_add, BitVec.toNat_ofNat]
  omega

/-- The address the flush starts from is that of the entry. -/
theorem toNat_entryAddr {table index : Word} (h : table.toNat + 4 * index.toNat < 2 ^ 32) :
    (table + 4#32 * index).toNat = table.toNat + 4 * index.toNat := by
  have hfour : (4#32 : Word).toNat = 4 := rfl
  rw [BitVec.toNat_add, BitVec.toNat_mul, hfour, Nat.mod_eq_of_lt (by omega)]
  omega

/-- Entries of a table: stored one after the other, and flushed. -/
theorem update_entries {table index : Word} {size n : Nat} (htable : Allocated size table)
    (hsize : 32 ∣ size) (hindex : 4 * index.toNat + 4 * n ≤ size) (value : Nat → Word)
    (freed : List Word) :
    Update ((storeTable (table.toNat + 4 * index.toNat) n value ++
        [.flushDataCacheRange (table + 4#32 * index)
          (table + 4#32 * index + BitVec.ofNat 32 (4 * n))]) ++
        .invalidateTlb :: freed.map .alignedFree)
      (storeTable (table.toNat + 4 * index.toNat) n value ++
        [.flushDataCacheRange (table + 4#32 * index)
          (table + 4#32 * index + BitVec.ofNat 32 (4 * n))]) := by
  obtain ⟨hdvd, hfits⟩ := htable
  have haligned : 32 ∣ table.toNat := Nat.dvd_trans hsize hdvd
  have hstart : (table + 4#32 * index).toNat = table.toNat + 4 * index.toNat :=
    toNat_entryAddr (by omega)
  have hstop : (table + 4#32 * index + BitVec.ofNat 32 (4 * n)).toNat =
      table.toNat + 4 * index.toNat + 4 * n := by
    rw [toNat_add_small (by omega), hstart]
  refine update_of_range freed (fun op hop => ?_) (storeTable_within _ _ _ ?_ ?_)
    (by rw [hstop]; omega) (by simp)
  · obtain ⟨i, -, rfl⟩ := List.mem_map.mp hop
    show 4 ∣ _
    omega
  · exact le_of_eq hstart
  · show _ ≤ (table + 4#32 * index).toNat + ((table + 4#32 * index +
      BitVec.ofNat 32 (4 * n)).toNat - (table + 4#32 * index).toNat)
    rw [hstart, hstop]
    omega

/-- A destroyed editor maps nothing. -/
theorem map_freed {e : MMUEditor} (he : ∀ table ∈ e.editedTable, Allocated ttbSize table)
    (virtualAddr entry : Word) (freed : List Word) :
    Updates (e.map virtualAddr entry ++ freed.map .alignedFree) := by
  have hi := l1IndexOf_lt virtualAddr
  cases htable : e.editedTable with
  | none =>
      refine .inl ⟨freed, ?_⟩
      simp only [MMUEditor.map, htable, List.nil_append]
  | some table =>
      have hupdate := @update_entries table (l1Index virtualAddr) ttbSize 1 (he table htable)
        (by decide) (by rw [toNat_l1Index, ttbSize]; omega) (fun _ => entry) freed
      simp only [MMUEditor.map, htable]
      exact .inr ⟨_, hupdate⟩

theorem updates_map {e : MMUEditor} (he : ∀ table ∈ e.editedTable, Allocated ttbSize table)
    (virtualAddr entry : Word) : Updates (e.map virtualAddr entry) := by
  have h := map_freed he virtualAddr entry []
  rwa [List.map_nil, List.append_nil] at h

theorem updates_map4KBPage {c : MMUL2CoarsePageTableEditor}
    (hc : ∀ l2Table ∈ c.l2Table, Allocated l2TableSize l2Table)
    (virtualAddr physicalAddr attributes : Word) :
    Updates (c.map4KBPage virtualAddr physicalAddr attributes) := by
  have hi := coarseIndexOf_lt virtualAddr
  cases htable : c.l2Table with
  | none =>
      refine .inl ⟨[], ?_⟩
      simp only [MMUL2CoarsePageTableEditor.map4KBPage, htable, List.map_nil]
  | some l2Table =>
      have hupdate := @update_entries l2Table (l2SmallPageIndex virtualAddr) l2TableSize 1
        (hc l2Table htable) (by decide) (by rw [toNat_l2SmallPageIndex, l2TableSize]; omega)
        (fun _ => smallPageDescriptor physicalAddr attributes) []
      simp only [MMUL2CoarsePageTableEditor.map4KBPage, htable]
      exact .inr ⟨_, hupdate⟩

theorem updates_map64KBPage {c : MMUL2CoarsePageTableEditor}
    (hc : ∀ l2Table ∈ c.l2Table, Allocated l2TableSize l2Table)
    (virtualAddr physicalAddr attributes : Word) :
    Updates (c.map64KBPage virtualAddr physicalAddr attributes) := by
  have hi := coarseIndexOf_lt virtualAddr
  cases htable : c.l2Table with
  | none =>
      refine .inl ⟨[], ?_⟩
      simp only [MMUL2CoarsePageTableEditor.map64KBPage, htable, List.map_nil]
  | some l2Table =>
      have hupdate := @update_entries l2Table (l2LargePageIndex virtualAddr) l2TableSize 16
        (hc l2Table htable) (by decide) (by rw [toNat_l2LargePageIndex, l2TableSize]; omega)
        (fun _ => largePageDescriptor physicalAddr attributes) []
      rw [List.append_assoc] at hupdate
      simp only [MMUL2CoarsePageTableEditor.map64KBPage, htable]
      exact .inr ⟨_, hupdate⟩

theorem updates_newEditor {m : Machine} {allocated : Option Word}
    (hsound : Call.Sound m (.newEditor allocated)) :
    Updates (Call.ops m (.newEditor allocated)) := by
  cases allocated with
  | none => exact .inl ⟨[], rfl⟩
  | some table =>
      obtain ⟨⟨haligned, hfits⟩, hapart⟩ := hsound table rfl
      have hstop : (table + BitVec.ofNat 32 ttbSize).toNat = table.toNat + ttbSize :=
        toNat_add_small hfits
      have hfour : 4 ∣ table.toNat := Nat.dvd_trans (by decide) haligned
      have hblock : 32 ∣ table.toNat + ttbSize :=
        Nat.dvd_add (Nat.dvd_trans (by decide) haligned) (by decide)
      refine .inr ⟨_, @update_of_range [.copy table.toNat _ ttbSize] [.setTtbr0 _] _ _ []
        (fun op hop => ?_) ?_ (by rw [hstop]; omega) ?_⟩
      · obtain rfl := List.mem_singleton.mp hop
        refine ⟨hfour, by decide, ?_⟩
        rw [toNat_oldTableAddr]
        exact hapart
      · rw [hstop]
        refine .cons ?_ (.nil _)
        intro b hb x hx
        obtain rfl := Option.some.inj hb
        have hlt := hx.2
        simp only at hlt
        exact ⟨hx.1, by simp only; omega⟩
      · intro op hop
        obtain rfl := List.mem_singleton.mp hop
        exact ⟨trivial, rfl⟩

theorem updates_deleteEditor (e : MMUEditor) : Updates e.destroy.2 := by
  cases htable : e.editedTable with
  | none =>
      refine .inl ⟨[], ?_⟩
      simp only [MMUEditor.destroy, htable, List.map_nil]
  | some table =>
      refine .inr ⟨[.setTtbr0 e.originalTtbr0Reg], ⟨⟨[table], ?_⟩, ?_, ?_⟩⟩
      · simp only [MMUEditor.destroy, htable]
        rfl
      · intro op hop
        obtain rfl := List.mem_singleton.mp hop
        trivial
      · intro op hop b hb
        obtain rfl := List.mem_singleton.mp hop
        exact absurd hb (by simp [BusOp.footprint])

theorem updates_deleteCoarse {c : MMUL2CoarsePageTableEditor} {parent : MMUEditor}
    (hparent : ∀ table ∈ parent.editedTable, Allocated ttbSize table) :
    Updates (c.destroy parent).2 := by
  cases htable : c.l2Table with
  | none =>
      refine .inl ⟨[], ?_⟩
      simp only [MMUL2CoarsePageTableEditor.destroy, htable, List.map_nil]
  | some l2Table =>
      simp only [MMUL2CoarsePageTableEditor.destroy, htable]
      exact map_freed hparent c.virtualAddr c.oldL1Entry [l2Table]

/-- The new table is filled word by word. -/
theorem regular_fillL2Table {l1Entry l2Table : Word} (hfour : 4 ∣ l2Table.toNat)
    (hapart : ∀ b, secondLevel l1Entry = some b → (l2Block l2Table).Apart b) :
    ∀ op ∈ MMUL2CoarsePageTableEditor.fillL2Table (.ofWord (l1Entry &&& 0b11#32)) l1Entry l2Table,
      Regular op := by
  intro op hop
  rcases type_cases (l1Entry.extractLsb' 0 2) with ht | ht | ht | ht
  all_goals
    simp only [MMUL2CoarsePageTableEditor.fillL2Table, MMUDescriptorType.ofWord,
      extract_type_mask, ht] at hop
  · obtain rfl := List.mem_singleton.mp hop
    exact ⟨hfour, by decide⟩
  · obtain rfl := List.mem_singleton.mp hop
    have hbase : (l1Entry &&& 0xFFFFFC00#32).toNat = coarseBase l1Entry := by
      rw [toNat_and_high _ _ 10 (by omega) (by decide), coarseBase]
      exact (toNat_extract_high l1Entry 10 (by omega)).symm
    refine ⟨hfour, by decide, ?_⟩
    rw [hbase]
    exact hapart ⟨coarseBase l1Entry, 4 * 256⟩ (by rw [secondLevel, if_pos ht])
  · obtain ⟨i, -, rfl⟩ := List.mem_map.mp hop
    exact Nat.dvd_add hfour ⟨i, rfl⟩
  · obtain rfl := List.mem_singleton.mp hop
    exact ⟨hfour, by decide⟩

theorem updates_newCoarse {m : Machine} {parentMMUEditor : Nat} {e : MMUEditor}
    {virtualAddr : Word} {domain : Byte} {allocated : Option Word}
    (hsound : Call.Sound m (.newCoarse parentMMUEditor e virtualAddr domain allocated)) :
    Updates (Call.ops m (.newCoarse parentMMUEditor e virtualAddr domain allocated)) := by
  obtain ⟨hparent, hnew⟩ := hsound
  simp only [Call.ops]
  cases hconstruct : MMUL2CoarsePageTableEditor.construct m parentMMUEditor e virtualAddr domain
      allocated with
  | error _ => exact .inl ⟨[], rfl⟩
  | ok result =>
      obtain ⟨c, ops⟩ := result
      cases htable : e.editedTable with
      | none =>
          rw [MMUL2CoarsePageTableEditor.construct_null virtualAddr domain allocated htable]
            at hconstruct
          exact absurd hconstruct (by simp)
      | some table =>
          obtain ⟨l2Table, rfl, -, -, rfl⟩ :=
            MMUL2CoarsePageTableEditor.construct_ok htable hconstruct
          obtain ⟨⟨haligned, hfits⟩, hapart⟩ := hnew l2Table rfl
          rw [e.getEntry_eq m virtualAddr htable] at hapart
          have hstop : (l2Table + BitVec.ofNat 32 l2TableSize).toNat =
              l2Table.toNat + l2TableSize := toNat_add_small hfits
          have hfour : 4 ∣ l2Table.toNat := Nat.dvd_trans (by decide) haligned
          have hblock : 32 ∣ l2Table.toNat + l2TableSize :=
            Nat.dvd_add (Nat.dvd_trans (by decide) haligned) (by decide)
          have hcover : Within (MMUL2CoarsePageTableEditor.fillL2Table
              (.ofWord (tableEntry m.mem table.toNat (l1IndexOf virtualAddr) &&& 0b11#32))
              (tableEntry m.mem table.toNat (l1IndexOf virtualAddr)) l2Table)
              ⟨l2Table.toNat, (l2Table + BitVec.ofNat 32 l2TableSize).toNat - l2Table.toNat⟩ := by
            rw [hstop, Nat.add_sub_cancel_left]
            exact fillL2Table_within _ _ _
          rw [List.append_assoc]
          rcases updates_map hparent virtualAddr (coarseL1Entry l2Table domain) with
            ⟨freed, hfreed⟩ | ⟨work, hmap⟩
          · simp only [MMUEditor.map, htable] at hfreed
            cases freed <;> exact absurd hfreed (by simp)
          · exact .inr ⟨_, update_behind_range (regular_fillL2Table hfour hapart) hcover
              (by rw [hstop]; omega) hmap⟩

/-- Every call changes nothing or is an update. -/
theorem updates_ops {m : Machine} {call : Call} (hsound : call.Sound m) :
    Updates (call.ops m) := by
  cases call with
  | newEditor allocated => exact updates_newEditor hsound
  | deleteEditor e => exact updates_deleteEditor e
  | map e virtualAddr entry => exact updates_map hsound virtualAddr entry
  | mapSection e virtualAddr physicalAddr attributes => exact updates_map hsound virtualAddr _
  | newCoarse parentMMUEditor e virtualAddr domain allocated => exact updates_newCoarse hsound
  | deleteCoarse c parent => exact updates_deleteCoarse hsound
  | map64KBPage c virtualAddr physicalAddr attributes =>
      exact updates_map64KBPage hsound virtualAddr physicalAddr attributes
  | map4KBPage c virtualAddr physicalAddr attributes =>
      exact updates_map4KBPage hsound virtualAddr physicalAddr attributes

/-- **The tables are current.**  When a call returns, memory holds the table words it
wrote and every TLB entry agrees with a walk, in every run in which no walk between the
invalidation of the TLB and the drain of the write buffer finds what the buffer is
about to change. -/
theorem tables_current (call : Call) (h : Hardware)
    (hsound : call.Sound ⟨h.cached.view, h.ttbr⟩) (hagrees : h.Agrees) :
    ∃ todo, instrs (call.ops ⟨h.cached.view, h.ttbr⟩) = some todo ∧ ∀ events,
      Allowed Config.step Config.Fresh ⟨h, todo⟩ events →
      (run Config.step ⟨h, todo⟩ events).todo = [] →
      Current (call.ops ⟨h.cached.view, h.ttbr⟩) h
        (run Config.step ⟨h, todo⟩ events).hardware := by
  rcases updates_ops hsound with ⟨freed, hfreed⟩ | ⟨work, hupdate⟩
  · rw [hfreed]
    refine ⟨[], instrs_freed freed, fun events _ _ => ⟨fun op hop b hb => ?_, ?_⟩⟩
    · obtain ⟨p, -, rfl⟩ := List.mem_map.mp hop
      exact absurd hb (by simp [BusOp.footprint])
    · exact idle_run hagrees events
  · exact hupdate.current h

/-! ## An entry replaced -/

/-- A table at `0x4000` that maps the first megabyte to the second one. -/
def exampleHardware : Hardware where
  cached :=
    { mem := writeWord (fun _ => 0) 0x4000 0x00100C02#32
      buffer := []
      line := fun _ => .absent
      data := fun _ => 0 }
  ttbr := 0x4000#32
  tlb _ := none

/-- The first megabyte shall go to the third one. -/
def exampleCall : Call := .map ⟨0x4000#32, some 0x4000#32⟩ 0x00000000#32 0x00200C02#32

theorem sound_example (m : Machine) : exampleCall.Sound m := by
  intro table htable
  obtain rfl := Option.some.inj htable
  exact ⟨by decide, by decide⟩

theorem agrees_example : exampleHardware.Agrees :=
  fun _ _ ht => absurd ht (by simp [exampleHardware])

/-- What the call does. -/
def exampleSteps : List Instr :=
  [.store 0x4000 0x00200C02#32, .cleanLine 512, .invalidateTlb, .drainWriteBuffer]

theorem instrs_example (m : Machine) : instrs (exampleCall.ops m) = some exampleSteps := rfl

/-- Walks everywhere, except for the replaced entry in the window. -/
def exampleEvents : List Event :=
  [ .walk fun _ => true, .program, .program, .program
  , .walk fun va => va == 0x00100000#32, .program, .walk fun _ => true ]

theorem tables_current_example :
    (run Config.step ⟨exampleHardware, exampleSteps⟩ exampleEvents).todo = [] ∧
      Current (exampleCall.ops ⟨exampleHardware.cached.view, 0x4000#32⟩) exampleHardware
        (run Config.step ⟨exampleHardware, exampleSteps⟩ exampleEvents).hardware := by
  refine ⟨rfl, ?_⟩
  obtain ⟨todo, htodo, hall⟩ := tables_current exampleCall exampleHardware (sound_example _)
    agrees_example
  obtain rfl := Option.some.inj (htodo.symm.trans (instrs_example _))
  refine hall exampleEvents ⟨fun hwindow => ?_, trivial, trivial, trivial, fun _ va hva => ?_,
    trivial, fun hwindow => ?_, trivial⟩ rfl
  · exact absurd (show Instr.invalidateTlb ∈ exampleSteps by decide) hwindow.1
  · obtain rfl := eq_of_beq hva
    decide +kernel
  · exact absurd hwindow.2 (by decide)

/-- A walk in the window brings the old entry back. -/
theorem old_entry_walked :
    ¬ ∀ (call : Call) (h : Hardware), call.Sound ⟨h.cached.view, h.ttbr⟩ → h.Agrees →
      ∃ todo, instrs (call.ops ⟨h.cached.view, h.ttbr⟩) = some todo ∧ ∀ events,
        (run Config.step ⟨h, todo⟩ events).todo = [] →
        Current (call.ops ⟨h.cached.view, h.ttbr⟩) h
          (run Config.step ⟨h, todo⟩ events).hardware := by
  intro hall
  obtain ⟨todo, htodo, hcurrent⟩ := hall exampleCall exampleHardware (sound_example _)
    agrees_example
  obtain rfl := Option.some.inj (htodo.symm.trans (instrs_example _))
  have hagrees := (hcurrent [.program, .program, .program, .walk fun _ => true, .program] rfl).tlb
  -- the TLB maps to the second megabyte, the tables to the third
  have hold := hagrees 0x00000000#32 ⟨0x00100000#32, 0b11#2, 0b00#2, 0b0000#4⟩ rfl
  exact absurd hold (by decide)

end NspireUtils.Ports.TableCoherence
