import NspireUtils.Ports.TableEditors

/-!
# `SRAM_Accessor`

The accessor of `mem/SRAMAccessor.cpp`: it copies the SRAM into a heap block,
lets the windows the OS uses point to the block, and lets a new address point to
the SRAM.  The constructor and the destructor denote the list of their
operations; `System.exec` performs one.

Memory is flat and everything is reached through the active first-level table,
as the processor does it.  The table is the editor's own array, so it is kept
apart from the memory the copies go through; `Refines` connects it with the
table in memory that `MMUEditor` edits.
-/

namespace NspireUtils.Ports.SRAMAccessor

open NspireUtils.Verified.BitFields
open NspireUtils.Verified.ByteMemory
open NspireUtils.Verified.ShortDescriptor
open NspireUtils.Ports.Bus
open NspireUtils.Ports.MMUDescriptors
open NspireUtils.Ports.TableEditors

/-- `SRAM_PhysicalAddress`. -/
def sramPhysicalAddress : Word := 0xA4000000#32

/-- `SRAM_Size`: 256 kB. -/
def sramSize : Nat := 256 * 1024

/-- `class SRAM_Accessor`.  Of the two callbacks only whether they are given
matters. -/
structure Accessor where
  originalSRAMDomain : Byte := 0
  clonedSRAMBlock : Option Word := none
  newSRAMAddress : Word
  disableInterrupts : Bool
  enableInterrupts : Bool
  initSuccessful : Bool := false
  deriving Repr, DecidableEq

/-- How a constructor or destructor ends early. -/
inductive Failure where
  | thrown (e : Exception)
  | dataAbort
  deriving Repr, DecidableEq

/-- A call of one of the callbacks. -/
inductive InterruptCall where
  | disable
  | enable
  deriving Repr, DecidableEq

/-- One operation of the accessor. -/
inductive SRAMOp where
  | setClonedBlock (block : Word)
  | throwBadAlloc
  | copyWord (dst src : Word)
  | flushDataCacheRange (start stop : Word)
  | drainWriteBuffer
  | checkIdentityMapped
  | disableInterrupts
  | enableInterrupts
  | mapSectionInDomain (virtualAddr physicalAddr : Word) (ap : MMUAccessPermission)
      (cp : MMUCachePolicy)
  | mapSection (virtualAddr physicalAddr attributes : Word)
  | map (virtualAddr entry : Word)
  | setInitSuccessful
  | alignedFree (block : Word)
  deriving Repr, DecidableEq

/-- `memcpy`, word by word. -/
def memcpy (dst src : Word) (bytes : Nat) : List SRAMOp :=
  (List.range' 0 (bytes / 4)).map fun i =>
    .copyWord (dst + BitVec.ofNat 32 (4 * i)) (src + BitVec.ofNat 32 (4 * i))

/-- What the constructor does after the allocation succeeded and the SRAM was
copied. -/
def remap (newSRAMAddress clone : Word) (sramAccessPermission : MMUAccessPermission)
    (sramCachePolicy : MMUCachePolicy) (sramDomain : Byte) : List SRAMOp :=
  -- flush the data cache to ensure all data is written
  [ .flushDataCacheRange clone (clone + BitVec.ofNat 32 sramSize)
  , .drainWriteBuffer
  -- check if the sram address is currently identity mapped
  , .checkIdentityMapped
  -- remap the SRAM to the new block
  , .disableInterrupts
  , .mapSectionInDomain sramPhysicalAddress clone .fullAccess .nonCachedNonBuffered
  , .mapSectionInDomain 0x00000000#32 clone .fullAccess .nonCachedNonBuffered
  -- map the physical SRAM to the new address
  , .mapSection newSRAMAddress sramPhysicalAddress
      (sectionAttributes sramAccessPermission sramCachePolicy sramDomain)
  , .enableInterrupts
  , .setInitSuccessful ]

/-- `SRAM_Accessor::SRAM_Accessor`, given what `aligned_alloc` returned. -/
def construct (newSRAMAddress : Word) (sramAccessPermission : MMUAccessPermission)
    (sramCachePolicy : MMUCachePolicy) (sramDomain : Byte) (allocated : Option Word) :
    List SRAMOp :=
  match allocated with
  | none => [.throwBadAlloc]
  | some clone =>
      .setClonedBlock clone :: (memcpy clone sramPhysicalAddress sramSize ++
        remap newSRAMAddress clone sramAccessPermission sramCachePolicy sramDomain)

/-- What the destructor does after the contents were copied back. -/
def restore (newSRAMAddress clone : Word) : List SRAMOp :=
  [ .flushDataCacheRange clone (clone + BitVec.ofNat 32 sramSize)
  , .drainWriteBuffer
  , .mapSectionInDomain sramPhysicalAddress sramPhysicalAddress .fullAccess .writeBackCache
  -- unmap the new SRAM address
  , .map newSRAMAddress 0x00000000#32
  , .enableInterrupts
  , .alignedFree clone ]

/-- `SRAM_Accessor::~SRAM_Accessor`. -/
def destroy (a : Accessor) : List SRAMOp :=
  match a.clonedSRAMBlock with
  | none => []
  | some clone =>
      if a.initSuccessful then
        .disableInterrupts :: (memcpy a.newSRAMAddress clone sramSize ++
          restore a.newSRAMAddress clone)
      else [.alignedFree clone]

/-! ## The system -/

/-- Physical memory, the active first-level table, whether the editor still has
its table, the accessor, the callbacks called so far (latest first), and how the
running call failed, if it did. -/
structure System where
  mem : Memory
  l1 : Nat → Word
  editorAlive : Bool
  accessor : Accessor
  calls : List InterruptCall
  failure : Option Failure

namespace System

/-- The walk through the active table. -/
def walk (s : System) (va : Word) : Walk := walkEntry s.mem (s.l1 (l1IndexOf va)) va

/-- A byte load through the table. -/
def load (s : System) (va : Word) : Option Byte :=
  match s.walk va with
  | .mapped t => some (s.mem t.physical.toNat)
  | _ => none

/-- A byte store through the table. -/
def store (s : System) (va : Word) (value : Byte) : System :=
  match s.walk va with
  | .mapped t => { s with mem := Function.update s.mem t.physical.toNat value }
  | _ => { s with failure := some .dataAbort }

/-- Interrupts are disabled: the last callback called was `disableInterrupts`. -/
def masked (s : System) : Bool := s.calls.head? = some .disable

/-- `MMUEditor::getEntry`. -/
def getEntry (s : System) (virtualAddr : Word) : Word :=
  if s.editorAlive then s.l1 (l1IndexOf virtualAddr) else 0xFFFFFFFF#32

/-- `MMUEditor::map`. -/
def map (s : System) (virtualAddr entry : Word) : System :=
  if s.editorAlive then { s with l1 := Function.update s.l1 (l1IndexOf virtualAddr) entry } else s

/-- `MMUEditor::MapSection`. -/
def mapSection (s : System) (virtualAddr physicalAddr attributes : Word) : System :=
  s.map virtualAddr (sectionDescriptor physicalAddr attributes)

/-- One operation of a call that has not failed. -/
def perform (s : System) : SRAMOp → System
  | .setClonedBlock block =>
      { s with accessor := { s.accessor with clonedSRAMBlock := some block } }
  | .throwBadAlloc => { s with failure := some (.thrown .badAlloc) }
  | .copyWord dst src =>
      match s.walk src, s.walk dst with
      | .mapped t, .mapped u =>
          { s with mem := writeWord s.mem u.physical.toNat (readWord s.mem t.physical.toNat) }
      | _, _ => { s with failure := some .dataAbort }
  | .flushDataCacheRange _ _ => s
  | .drainWriteBuffer => s
  | .checkIdentityMapped =>
      let sramCurrentEntry := s.getEntry sramPhysicalAddress
      if sramCurrentEntry = 0xFFFFFFFF#32 then
        { s with
          failure := some (.thrown (.runtimeError "SRAM region is not currently mapped in MMU")) }
      else if mmuL1EntryMappedAddress sramCurrentEntry ≠ sramPhysicalAddress then
        { s with failure := some (.thrown (.runtimeError "SRAM region is not identity mapped")) }
      else
        { s with
          accessor :=
            { s.accessor with originalSRAMDomain := mmuDomainFromEntry sramCurrentEntry } }
  | .disableInterrupts =>
      if s.accessor.disableInterrupts then { s with calls := .disable :: s.calls } else s
  | .enableInterrupts =>
      if s.accessor.enableInterrupts then { s with calls := .enable :: s.calls } else s
  | .mapSectionInDomain virtualAddr physicalAddr ap cp =>
      s.mapSection virtualAddr physicalAddr
        (sectionAttributes ap cp s.accessor.originalSRAMDomain)
  | .mapSection virtualAddr physicalAddr attributes =>
      s.mapSection virtualAddr physicalAddr attributes
  | .map virtualAddr entry => s.map virtualAddr entry
  | .setInitSuccessful => { s with accessor := { s.accessor with initSuccessful := true } }
  | .alignedFree _ => { s with accessor := { s.accessor with clonedSRAMBlock := none } }

/-- One operation; a failure skips the rest of the call. -/
def exec (s : System) (op : SRAMOp) : System :=
  if s.failure.isSome then s else s.perform op

/-- The operations of a call, without interruption. -/
def execAll (s : System) (ops : List SRAMOp) : System := ops.foldl exec s

@[simp] theorem execAll_nil (s : System) : s.execAll [] = s := rfl

@[simp] theorem execAll_cons (s : System) (op : SRAMOp) (ops : List SRAMOp) :
    s.execAll (op :: ops) = (s.exec op).execAll ops := rfl

theorem execAll_append (s : System) (xs ys : List SRAMOp) :
    s.execAll (xs ++ ys) = (s.execAll xs).execAll ys :=
  List.foldl_append

theorem exec_of_running {s : System} (h : s.failure = none) (op : SRAMOp) :
    s.exec op = s.perform op := by
  simp [exec, h]

end System

/-! ## The table in memory -/

/-- The machine with the table in memory that the system abstracts: the editor's
table is active, holds the system's entries, and memory agrees outside it. -/
structure Refines (table : Word) (m : Machine) (s : System) : Prop where
  active : ttbBase m.ttbr0 = table.toNat
  entries : ∀ i, i < 4096 → tableEntry m.mem table.toNat i = s.l1 i
  mem : ∀ a, ¬ (l1Block table.toNat).Holds a → m.mem a = s.mem a

/-- `MMUEditor::map` in memory is `map` on the table. -/
theorem refines_map {table : Word} {m : Machine} {s : System} {e : MMUEditor}
    (he : e.editedTable = some table) (halive : s.editorAlive = true) (h : Refines table m s)
    (virtualAddr entry : Word) :
    Refines table (m.execAll (e.map virtualAddr entry)) (s.map virtualAddr entry) := by
  have hmap : s.map virtualAddr entry =
      { s with l1 := Function.update s.l1 (l1IndexOf virtualAddr) entry } := if_pos halive
  rw [hmap]
  refine ⟨by rw [MMUEditor.map_ttbr0, h.active], fun i hi => ?_, fun a ha => ?_⟩
  · rw [e.tableEntry_map m _ _ he, h.entries i hi]
    exact (Function.update_apply s.l1 _ _ _).symm
  · rw [execAll_of_outside _ m ((e.map_within _ _ he).spares ha), h.mem a ha]

/-- The walk of the machine is the walk of the system, if no second-level table
lies over the first-level table. -/
theorem refines_walk {table : Word} {m : Machine} {s : System} (h : Refines table m s)
    (htables : ∀ i, i < 4096 → ∀ b, secondLevel (s.l1 i) = some b →
      (l1Block table.toNat).Apart b) (va : Word) :
    m.walk va = s.walk va := by
  have hi := l1IndexOf_lt va
  simp only [Machine.walk, Verified.ShortDescriptor.walk, h.active, walkTable, System.walk]
  rw [h.entries _ hi]
  exact walkEntry_congr fun b hb a ha => h.mem a fun hin => htables _ hi b hb a hin ha

/-- A store outside the table keeps the two in step. -/
theorem refines_store {table : Word} {m : Machine} {s : System} (h : Refines table m s)
    (a : Nat) (value : Byte) (ha : ¬ (l1Block table.toNat).Holds a) :
    Refines table { m with mem := Function.update m.mem a value }
      { s with mem := Function.update s.mem a value } := by
  refine ⟨h.active, fun i hi => ?_, fun x hx => ?_⟩
  · rw [← h.entries i hi]
    refine tableEntry_congr hi fun x hx => Function.update_of_ne ?_ _ _
    rintro rfl
    exact ha hx
  · by_cases hxa : x = a
    · subst hxa
      simp
    · simp only [Function.update_of_ne hxa]
      exact h.mem x hx

end NspireUtils.Ports.SRAMAccessor
