import NspireUtils.Ports.EditorLifetimes
import NspireUtils.Ports.LastWriter

/-!
# The exception vector table

The functions of `platform/evt.cpp`: the position of the table is a bit of the system
control register, and a vector is a word at its virtual address, reached through the
translation tables that the editors edit.

`relocated_run` is about the way the functions are used: the high table is a page of
its own that a coarse editor maps there, and from then on vectors are set at both
positions, the table is moved, and anything else is remapped.  In every such run the
vectors are the last values set, each at its position, and an exception executes the one
of the position selected last.
-/

namespace NspireUtils.Ports.ExceptionVectors

open NspireUtils.Verified.BitFields
open NspireUtils.Verified.ByteMemory
open NspireUtils.Verified.ShortDescriptor
open NspireUtils.Verified.Runs
open NspireUtils.Ports.Bus
open NspireUtils.Ports.MMUDescriptors
open NspireUtils.Ports.TableEditors
open NspireUtils.Ports.CoarseSplit
open NspireUtils.Ports.EditorLifetimes (OriginalTables walk_of_agree)
open NspireUtils.Ports.LastWriter

/-! ## The functions -/

/-- `enum class EVT_Vector`. -/
inductive EVTVector where
  | reset
  | undefinedInstruction
  | softwareInterrupt
  | prefetchAbort
  | dataAbort
  | irq
  | fiq
  deriving Repr, DecidableEq

/-- The enumerator's value. -/
def EVTVector.value : EVTVector → Word
  | reset => 0x00000000#32
  | undefinedInstruction => 0x00000004#32
  | softwareInterrupt => 0x00000008#32
  | prefetchAbort => 0x0000000C#32
  | dataAbort => 0x00000010#32
  | irq => 0x00000018#32
  | fiq => 0x0000001C#32

/-- `enum class EVT_Position`. -/
inductive EVTPosition where
  | low
  | high
  deriving Repr, DecidableEq

/-- The enumerator's value. -/
def EVTPosition.value : EVTPosition → Word
  | low => 0x00000000#32
  | high => 0xFFFF0000#32

/-- A vector at a position. -/
abbrev Slot := EVTVector × EVTPosition

/-- `baseAddress + vector`. -/
def Slot.address (i : Slot) : Word := i.2.value + i.1.value

/-- The machine and its system control register. -/
structure Processor where
  machine : Machine
  sctlr : Word

namespace Processor

/-- `1 << 13`. -/
def positionBit : Word := 1#32 <<< 13

/-- `SetEVTPosition`. -/
def setEVTPosition (p : Processor) (position : EVTPosition) : Processor :=
  if position = .high then { p with sctlr := p.sctlr ||| positionBit }
  else { p with sctlr := p.sctlr &&& ~~~positionBit }

/-- `GetEVTPosition`. -/
def getEVTPosition (p : Processor) : EVTPosition :=
  if p.sctlr &&& positionBit ≠ 0#32 then .high else .low

/-- The physical address behind a virtual one.  Permissions are not looked at. -/
def physicalAddress (p : Processor) (va : Word) : Option Nat :=
  match p.machine.walk va with
  | .mapped t => some t.physical.toNat
  | _ => none

/-- A store at a physical address. -/
def store (p : Processor) (a : Nat) (value : Word) : Processor :=
  { p with machine := { p.machine with mem := writeWord p.machine.mem a value } }

/-- `SetEVTValue`, if the address is mapped. -/
def setEVTValue (p : Processor) (i : Slot) (instruction : Word) : Option Processor :=
  (p.physicalAddress i.address).map (p.store · instruction)

/-- `GetEVTValue`, if the address is mapped. -/
def getEVTValue (p : Processor) (i : Slot) : Option Word :=
  (p.physicalAddress i.address).map (readWord p.machine.mem)

/-- What an exception executes: the vectors are high if bit 13 of the system control
register is set. -/
def executed (p : Processor) (vector : EVTVector) : Option Word :=
  p.getEVTValue (vector, if p.sctlr.getLsbD 13 then .high else .low)

end Processor

/-! ## The position -/

open Processor

theorem getEVTPosition_eq (p : Processor) :
    p.getEVTPosition = if p.sctlr.getLsbD 13 then .high else .low := by
  have hbit : p.sctlr &&& positionBit = if p.sctlr.getLsbD 13 then positionBit else 0#32 := by
    rw [positionBit, ← BitVec.twoPow_eq, BitVec.and_twoPow]
  rw [getEVTPosition, hbit]
  cases p.sctlr.getLsbD 13 <;> rfl

theorem getLsbD_positionBit (i : Nat) : positionBit.getLsbD i = decide (i = 13) := by
  rw [positionBit, ← BitVec.twoPow_eq, BitVec.getLsbD_twoPow]
  simp [eq_comm]

/-- `SetEVTPosition` writes its bit and no other. -/
theorem getLsbD_setEVTPosition (p : Processor) (position : EVTPosition) {i : Nat} (hi : i < 32) :
    (p.setEVTPosition position).sctlr.getLsbD i =
      if i = 13 then decide (position = .high) else p.sctlr.getLsbD i := by
  cases position with
  | high =>
      rw [setEVTPosition, if_pos rfl, BitVec.getLsbD_or, getLsbD_positionBit]
      by_cases h : i = 13 <;> simp [h]
  | low =>
      rw [setEVTPosition, if_neg (by decide), BitVec.getLsbD_and, BitVec.getLsbD_not,
        getLsbD_positionBit]
      by_cases h : i = 13 <;> simp [h, hi]

theorem getEVTPosition_set (p : Processor) (position : EVTPosition) :
    (p.setEVTPosition position).getEVTPosition = position := by
  rw [getEVTPosition_eq, getLsbD_setEVTPosition p position (by decide), if_pos rfl]
  cases position <;> rfl

@[simp] theorem setEVTPosition_machine (p : Processor) (position : EVTPosition) :
    (p.setEVTPosition position).machine = p.machine := by
  cases position <;> rfl

/-! ## Stores beside the tables -/

section Tables

variable {s : EditSession} {m m' : Machine}
  (hagree : ∀ a, OriginalTables m a → m'.mem a = m.mem a)
include hagree

/-- The entries of the first-level table. -/
theorem tableEntry_of_agree {i : Nat} (hi : i < 4096) :
    tableEntry m'.mem (ttbBase m.ttbr0) i = tableEntry m.mem (ttbBase m.ttbr0) i :=
  tableEntry_congr hi fun a ha => hagree a (.inl ha)

variable (hregs : m'.ttbr0 = m.ttbr0)
include hregs

theorem originalTables_of_agree {a : Nat} (h : OriginalTables m' a) : OriginalTables m a := by
  rcases h with hl1 | ⟨i, hi, b, hb, ha⟩
  · exact .inl (hregs ▸ hl1)
  · rw [hregs, tableEntry_of_agree hagree hi] at hb
    exact .inr ⟨i, hi, b, hb, ha⟩

/-- Nothing outside the tables breaks what the constructors established. -/
theorem ready_of_agree (h : Ready s m) : Ready s m' := by
  have hentry : ∀ i, i < 4096 →
      tableEntry m'.mem s.table.toNat i = tableEntry m.mem s.table.toNat i := by
    intro i hi
    rw [← h.active]
    exact tableEntry_of_agree hagree hi
  refine ⟨by rw [hregs, h.active], fun i hi b hb => ?_, fun c hc => ?_, h.apartL1,
    fun c hc i hi hne b hb => ?_⟩
  · rw [hentry i hi] at hb
    exact h.tables i hi b hb
  · rw [hentry c.region (l1IndexOf_lt _)]
    exact h.entry c hc
  · rw [hentry i hi] at hb
    exact h.apartL2 c hc i hi hne b hb

end Tables

/-! ## Mapping calls beside the vectors -/

section Mapping

variable {s : EditSession} {m : Machine} (h : Ready s m)
include h

/-- A coarse editor's table is in use. -/
theorem originalTables_coarse {c : LiveCoarse} (hc : c ∈ s.coarse) {a : Nat}
    (ha : (l2Block c.l2Table).Holds a) : OriginalTables m a := by
  refine .inr ⟨c.region, l1IndexOf_lt _, l2Block c.l2Table, ?_, ha⟩
  rw [h.active, h.entry c hc, secondLevel_coarseL1Entry c.domain c.aligned]

variable {call : MappingCall} (hcall : s.Permitted call)
include hcall

/-- A mapping call writes the tables in use. -/
theorem mem_mapping {a : Nat} (ha : ¬ OriginalTables m a) : (s.step m call).mem a = m.mem a := by
  cases call with
  | mapSection va pa ap cp domain =>
      apply execAll_of_outside _ m ((s.editor.map_within _ _ s.owns).spares ?_)
      exact fun hold => ha (.inl (by rwa [h.active]))
  | map64KBPage c va pa a0 a1 a2 a3 cp =>
      apply execAll_of_outside _ m ((c.editor.map64KBPage_within _ _ _ c.owns).spares ?_)
      exact fun hold => ha (originalTables_coarse h hcall.1 hold)
  | map4KBPage c va pa a0 a1 a2 a3 cp =>
      apply execAll_of_outside _ m ((c.editor.map4KBPage_within _ _ _ c.owns).spares ?_)
      exact fun hold => ha (originalTables_coarse h hcall.1 hold)

/-- It takes no other tables into use. -/
theorem originalTables_mapping {a : Nat} (ha : OriginalTables (s.step m call) a) :
    OriginalTables m a := by
  have hregs : (s.step m call).ttbr0 = m.ttbr0 := by
    cases call with
    | mapSection va pa ap cp domain =>
        simp only [EditSession.step, EditSession.operations, MMUEditor.mapSection_eq_map,
          MMUEditor.map_ttbr0]
    | map64KBPage c va pa a0 a1 a2 a3 cp => exact c.editor.map64KBPage_ttbr0 m _ _ _
    | map4KBPage c va pa a0 a1 a2 a3 cp => exact c.editor.map4KBPage_ttbr0 m _ _ _
  have hsecond : ∀ i, i < 4096 → ∀ b,
      secondLevel (tableEntry (s.step m call).mem s.table.toNat i) = some b →
        secondLevel (tableEntry m.mem s.table.toNat i) = some b := by
    intro i hi b hb
    cases call with
    | mapSection va pa ap cp domain =>
        simp only [EditSession.step, EditSession.operations, MMUEditor.mapSection_eq_map,
          s.editor.tableEntry_map m _ _ s.owns] at hb
        split_ifs at hb with hentry
        · simp [secondLevel, (sectionDescriptor_fields pa ap cp domain).1] at hb
        · exact hb
    | map64KBPage c va pa a0 a1 a2 a3 cp =>
        rw [← tableEntry_of_pageCall h hcall.1 (c.editor.map64KBPage_within va pa _ c.owns) hi]
        exact hb
    | map4KBPage c va pa a0 a1 a2 a3 cp =>
        rw [← tableEntry_of_pageCall h hcall.1 (c.editor.map4KBPage_within va pa _ c.owns) hi]
        exact hb
  rcases ha with hl1 | ⟨i, hi, b, hb, hold⟩
  · exact .inl (hregs ▸ hl1)
  · rw [hregs, h.active] at hb
    exact .inr ⟨i, hi, b, by rw [h.active]; exact hsecond i hi b hb, hold⟩

end Mapping

/-! ## Runs -/

/-- A call of a program that has moved the vector table. -/
inductive Call where
  | setEVTPosition (position : EVTPosition)
  | setEVTValue (i : Slot) (instruction : Word)
  | map (call : MappingCall)

/-- One call; without a processor there was an abort. -/
def perform (s : EditSession) (p : Option Processor) : Call → Option Processor
  | .setEVTPosition position => p.map (·.setEVTPosition position)
  | .setEVTValue i instruction => p.bind (·.setEVTValue i instruction)
  | .map call => p.map fun p => { p with machine := s.step p.machine call }

/-- Mapping calls keep off the vectors. -/
def Permitted (s : EditSession) : Call → Prop
  | .map call => s.Permitted call ∧ ∀ i : Slot, ¬ call.Covers i.address
  | _ => True

/-- Where the vectors are: words of their own beside the tables. -/
structure Placed (p : Processor) (phys : Slot → Nat) : Prop where
  mapped : ∀ i : Slot, p.physicalAddress i.address = some (phys i)
  apart : ∀ i j, i ≠ j → phys i + 4 ≤ phys j ∨ phys j + 4 ≤ phys i
  outside : ∀ i a, (Block.mk (phys i) 4).Holds a → ¬ OriginalTables p.machine a

/-- What every call keeps. -/
structure Sound (s : EditSession) (phys : Slot → Nat) (p : Processor) : Prop where
  ready : Ready s p.machine
  placed : Placed p phys

section Calls

variable {s : EditSession} {phys : Slot → Nat} {p : Processor} (h : Sound s phys p)
include h

/-- A vector is read where it is. -/
theorem getEVTValue_eq (i : Slot) : p.getEVTValue i = some (readWord p.machine.mem (phys i)) := by
  rw [getEVTValue, h.placed.mapped i, Option.map_some]

/-- `SetEVTValue` writes one vector and no other. -/
theorem setEVTValue_sound (i : Slot) (instruction : Word) :
    ∃ p', p.setEVTValue i instruction = some p' ∧ Sound s phys p' ∧ p'.sctlr = p.sctlr ∧
      ∀ j, p'.getEVTValue j = if i = j then some instruction else p.getEVTValue j := by
  have hagree : ∀ a, OriginalTables p.machine a →
      (p.store (phys i) instruction).machine.mem a = p.machine.mem a := by
    intro a ha
    apply writeWord_of_outside p.machine.mem
    by_contra hin
    exact h.placed.outside i a ⟨Nat.le_of_not_lt fun hlt => hin (.inl hlt),
      Nat.lt_of_not_le fun hle => hin (.inr hle)⟩ ha
  have hmapped : ∀ j : Slot,
      (p.store (phys i) instruction).physicalAddress j.address = some (phys j) := by
    intro j
    rw [← h.placed.mapped j, physicalAddress, physicalAddress]
    rw [@walk_of_agree p.machine (p.store (phys i) instruction).machine rfl hagree]
  refine ⟨p.store (phys i) instruction, ?_, ⟨ready_of_agree hagree rfl h.ready, hmapped,
    h.placed.apart, fun j a ha hold => ?_⟩, rfl, fun j => ?_⟩
  · rw [setEVTValue, h.placed.mapped i, Option.map_some]
  · exact h.placed.outside j a ha (originalTables_of_agree hagree rfl hold)
  · rw [getEVTValue, hmapped, Option.map_some, store]
    split_ifs with hij
    · rw [← hij, readWord_writeWord_self]
    · have hapart := h.placed.apart i j hij
      rw [readWord_writeWord_of_apart _ _ _ (by omega), getEVTValue_eq h]

/-- A permitted mapping call leaves every vector alone. -/
theorem map_sound {call : MappingCall} (hcall : Permitted s (.map call)) :
    Sound s phys { p with machine := s.step p.machine call } ∧
      ∀ j, getEVTValue { p with machine := s.step p.machine call } j = p.getEVTValue j := by
  obtain ⟨hpermitted, hvectors⟩ := hcall
  have hmapped : ∀ j : Slot,
      physicalAddress { p with machine := s.step p.machine call } j.address = some (phys j) := by
    intro j
    have hwalk := walk_step h.ready call hpermitted j.address
    rw [if_neg (hvectors j)] at hwalk
    rw [← h.placed.mapped j, physicalAddress, physicalAddress, hwalk]
  refine ⟨⟨ready_step h.ready call hpermitted, hmapped, h.placed.apart, fun j a ha hold => ?_⟩,
    fun j => ?_⟩
  · exact h.placed.outside j a ha (originalTables_mapping h.ready hpermitted hold)
  · rw [getEVTValue, hmapped, Option.map_some, getEVTValue_eq h]
    apply congrArg some
    refine readWord_congr fun a hle hlt => mem_mapping h.ready hpermitted ?_
    exact h.placed.outside j a ⟨hle, hlt⟩

end Calls

namespace Call

/-- The call sets the vector. -/
def Sets : Call → Slot → Prop
  | setEVTValue j _, i => j = i
  | _, _ => False

instance (call : Call) (i : Slot) : Decidable (call.Sets i) := by
  cases call <;> unfold Sets <;> infer_instance

def instruction : Call → Option Word
  | setEVTValue _ instruction => some instruction
  | _ => none

/-- The call moves the table. -/
def Moves (call : Call) (_ : Unit) : Prop := ∃ position, call = .setEVTPosition position

instance (call : Call) (u : Unit) : Decidable (call.Moves u) := by
  cases call with
  | setEVTPosition position => exact .isTrue ⟨position, rfl⟩
  | setEVTValue i instruction => exact .isFalse (by simp [Moves])
  | map call => exact .isFalse (by simp [Moves])

def position : Call → Option EVTPosition
  | setEVTPosition position => some position
  | _ => none

end Call

/-- The value the vector was last set to. -/
def lastValue (calls : List Call) (i : Slot) : Option Word :=
  (lastCovering Call.Sets calls i).bind Call.instruction

/-- The position the table was last moved to. -/
def lastPosition (calls : List Call) : Option EVTPosition :=
  (lastCovering Call.Moves calls ()).bind Call.position

/-- The last call of its kind has a value. -/
theorem getD_lastCovering {ι β : Type} (covers : Call → ι → Prop) [∀ a i, Decidable (covers a i)]
    (value : Call → Option β) (hvalue : ∀ call i, covers call i → (value call).isSome)
    (calls : List Call) (i : ι) (x : β) :
    ((lastCovering covers calls i).map value).getD (some x) =
      some (((lastCovering covers calls i).bind value).getD x) := by
  cases hlast : lastCovering covers calls i with
  | none => rfl
  | some call =>
      have hcovers : covers call i := by simpa using List.find?_some hlast
      obtain ⟨y, hy⟩ := Option.isSome_iff_exists.mp (hvalue call i hcovers)
      simp [hy]

section Runs

variable {s : EditSession} {phys : Slot → Nat}

/-- Nothing aborts. -/
def Alive (s : EditSession) (phys : Slot → Nat) (p : Option Processor) : Prop :=
  ∃ q, p = some q ∧ Sound s phys q

theorem alive_step (p : Option Processor) (call : Call) (hcall : Permitted s call)
    (h : Alive s phys p) : Alive s phys (perform s p call) := by
  obtain ⟨q, rfl, hq⟩ := h
  cases call with
  | setEVTPosition position =>
      refine ⟨q.setEVTPosition position, rfl, ?_⟩
      obtain ⟨hready, hmapped, hapart, houtside⟩ := hq
      refine ⟨by rwa [setEVTPosition_machine], fun i => ?_, hapart, fun i a ha => ?_⟩
      · rw [← hmapped i, physicalAddress, physicalAddress, setEVTPosition_machine]
      · rw [setEVTPosition_machine]
        exact houtside i a ha
  | setEVTValue i instruction =>
      obtain ⟨q', hset, hq', -⟩ := setEVTValue_sound hq i instruction
      exact ⟨q', hset, hq'⟩
  | map call => exact ⟨_, rfl, (map_sound hq hcall).1⟩

theorem alive_run (calls : List Call) (hcalls : ∀ call ∈ calls, Permitted s call)
    {p : Option Processor} (h : Alive s phys p) : Alive s phys (run (perform s) p calls) :=
  run_invariant (perform s) (fun _ call => Permitted s call) alive_step calls p
    ((allowed_const (perform s) (Permitted s) calls p).mpr hcalls) h

/-- The vectors after a run. -/
theorem values_run (calls : List Call) (hcalls : ∀ call ∈ calls, Permitted s call)
    {p : Option Processor} (h : Alive s phys p) (i : Slot) :
    (run (perform s) p calls).bind (·.getEVTValue i) =
      ((lastCovering Call.Sets calls i).map Call.instruction).getD (p.bind (·.getEVTValue i)) := by
  refine observe_run (perform s) (fun _ call => Permitted s call) Call.Sets
    (fun p i => p.bind (·.getEVTValue i)) (fun call _ => call.instruction) alive_step ?_ calls p i
    ((allowed_const (perform s) (Permitted s) calls p).mpr hcalls) h
  rintro _ call i hcall ⟨q, rfl, hq⟩
  cases call with
  | setEVTPosition position =>
      rw [if_neg (show ¬ Call.Sets (.setEVTPosition position) i from id)]
      simp only [perform, Option.map_some, Option.bind_some, getEVTValue, physicalAddress,
        setEVTPosition_machine]
  | setEVTValue j instruction =>
      obtain ⟨q', hset, -, -, hvalues⟩ := setEVTValue_sound hq j instruction
      simp only [perform, Option.bind_some, hset, hvalues]
      rfl
  | map call =>
      rw [if_neg (show ¬ Call.Sets (.map call) i from id)]
      exact (map_sound hq hcall).2 i

/-- The position after a run. -/
theorem position_run (calls : List Call) (hcalls : ∀ call ∈ calls, Permitted s call)
    {p : Option Processor} (h : Alive s phys p) :
    (run (perform s) p calls).map getEVTPosition =
      ((lastCovering Call.Moves calls ()).map Call.position).getD (p.map getEVTPosition) := by
  refine observe_run (perform s) (fun _ call => Permitted s call) Call.Moves
    (fun p _ => p.map getEVTPosition) (fun call _ => call.position) alive_step ?_ calls p ()
    ((allowed_const (perform s) (Permitted s) calls p).mpr hcalls) h
  rintro _ call - hcall ⟨q, rfl, hq⟩
  cases call with
  | setEVTPosition position =>
      rw [if_pos ⟨position, rfl⟩]
      simp only [perform, Option.map_some, getEVTPosition_set, Call.position]
  | setEVTValue j instruction =>
      obtain ⟨q', hset, -, hsctlr, -⟩ := setEVTValue_sound hq j instruction
      rw [if_neg (by simp [Call.Moves])]
      simp only [perform, Option.bind_some, hset, Option.map_some, getEVTPosition_eq, hsctlr]
  | map call =>
      rw [if_neg (by simp [Call.Moves])]
      rfl

/-- The other bits of the system control register. -/
theorem sctlr_run (calls : List Call) (hcalls : ∀ call ∈ calls, Permitted s call)
    {p : Processor} (h : Sound s phys p) {i : Nat} (hi : i < 32) (hne : i ≠ 13) :
    (run (perform s) (some p) calls).map (·.sctlr.getLsbD i) = some (p.sctlr.getLsbD i) := by
  have hstep : ∀ (o : Option Processor) (call : Call), Permitted s call →
      Alive s phys o ∧ o.map (·.sctlr.getLsbD i) = some (p.sctlr.getLsbD i) →
      Alive s phys (perform s o call) ∧
        (perform s o call).map (·.sctlr.getLsbD i) = some (p.sctlr.getLsbD i) := by
    rintro o call hcall ⟨halive, hbit⟩
    refine ⟨alive_step o call hcall halive, ?_⟩
    obtain ⟨q, rfl, hq⟩ := halive
    cases call with
    | setEVTPosition position =>
        simpa only [perform, Option.map_some, getLsbD_setEVTPosition q position hi, if_neg hne]
          using hbit
    | setEVTValue j instruction =>
        obtain ⟨q', hset, -, hsctlr, -⟩ := setEVTValue_sound hq j instruction
        simpa only [perform, Option.bind_some, hset, Option.map_some, hsctlr] using hbit
    | map call => exact hbit
  exact (run_invariant (perform s) (fun _ call => Permitted s call) hstep calls (some p)
    ((allowed_const (perform s) (Permitted s) calls _).mpr hcalls) ⟨⟨p, rfl, h⟩, rfl⟩).2

end Runs

/-! ## The relocated table -/

/-- `coarseEditor.Map4KBPage(0xFFFF0000, newVectorTable, …)` with full access, not cached
and not buffered. -/
def relocation (c : LiveCoarse) (newVectorTable : Word) : MappingCall :=
  .map4KBPage c EVTPosition.high.value newVectorTable .fullAccess .fullAccess .fullAccess
    .fullAccess .nonCachedNonBuffered

/-- What is there before the table is relocated: a coarse editor for the megabyte of the
high vectors, the low vectors somewhere in memory, and a page for the new table, all of
them apart from each other and from the tables in use. -/
structure Relocatable (s : EditSession) (p : Processor) (c : LiveCoarse) (low : EVTVector → Nat)
    (newVectorTable : Word) : Prop where
  ready : Ready s p.machine
  live : c ∈ s.coarse
  region : l1IndexOf EVTPosition.high.value = c.region
  mapped : ∀ v, p.physicalAddress (Slot.address (v, .low)) = some (low v)
  apart : ∀ v w, v ≠ w → low v + 4 ≤ low w ∨ low w + 4 ≤ low v
  aligned : 2 ^ 12 ∣ newVectorTable.toNat
  page : ∀ v, low v + 4 ≤ newVectorTable.toNat ∨ newVectorTable.toNat + 2 ^ 12 ≤ low v
  lowOutside : ∀ v a, (Block.mk (low v) 4).Holds a → ¬ OriginalTables p.machine a
  pageOutside : ∀ a, (Block.mk newVectorTable.toNat (2 ^ 12)).Holds a → ¬ OriginalTables p.machine a

/-- Where the vectors are afterwards. -/
def placeOf (low : EVTVector → Nat) (newVectorTable : Word) : Slot → Nat
  | (v, .low) => low v
  | (v, .high) => newVectorTable.toNat + v.value.toNat

theorem value_apart {v w : EVTVector} (h : v ≠ w) :
    v.value.toNat + 4 ≤ w.value.toNat ∨ w.value.toNat + 4 ≤ v.value.toNat := by
  revert h
  cases v <;> cases w <;> decide

/-- The call covers the high vectors and not the low ones. -/
theorem covers_relocation (c : LiveCoarse) (newVectorTable : Word) (i : Slot) :
    (relocation c newVectorTable).Covers i.address ↔ i.2 = .high := by
  have hpage : ∀ (v : EVTVector) (position : EVTPosition),
      (Slot.address (v, position)).extractLsb' 12 20 =
        EVTPosition.high.value.extractLsb' 12 20 ↔ position = .high := by
    intro v position
    cases v <;> cases position <;> decide
  exact hpage i.1 i.2

theorem value_lt (v : EVTVector) : v.value.toNat + 4 ≤ 2 ^ 5 := by
  cases v <;> decide

section Relocated

variable {s : EditSession} {p : Processor} {c : LiveCoarse} {low : EVTVector → Nat}
  {newVectorTable : Word} (h : Relocatable s p c low newVectorTable)
include h

theorem relocation_permitted : s.Permitted (relocation c newVectorTable) := ⟨h.live, h.region⟩

/-- The high vectors are in the page now. -/
theorem physicalAddress_relocated (i : Slot) :
    physicalAddress { p with machine := s.step p.machine (relocation c newVectorTable) } i.address =
      some (placeOf low newVectorTable i) := by
  obtain ⟨v, position⟩ := i
  have hwalk := walk_step h.ready (relocation c newVectorTable) (relocation_permitted h)
    (Slot.address (v, position))
  cases position with
  | low =>
      rw [if_neg fun hcovers => absurd ((covers_relocation _ _ _).mp hcovers) (by simp)] at hwalk
      rw [placeOf, ← h.mapped v, physicalAddress, physicalAddress, hwalk]
  | high =>
      have hoffset : ((Slot.address (v, .high)).extractLsb' 0 12).toNat = v.value.toNat := by
        cases v <;> decide
      have hlt := value_lt v
      rw [if_pos ((covers_relocation _ _ _).mpr rfl)] at hwalk
      rw [physicalAddress, hwalk]
      have hphysical : (newVectorTable.extractLsb' 12 20 ++
          (Slot.address (v, .high)).extractLsb' 0 12).toNat =
          newVectorTable.toNat + v.value.toNat := by
        have haligned := h.aligned
        have hpage := newVectorTable.isLt
        rw [BitVec.toNat_append, hoffset, ← Nat.shiftLeft_add_eq_or_of_lt (by omega),
          Nat.shiftLeft_eq, toNat_extract]
        omega
      exact congrArg some hphysical

/-- They are beside the tables that are in use before. -/
theorem placeOf_outside (i : Slot) (a : Nat)
    (ha : (Block.mk (placeOf low newVectorTable i) 4).Holds a) : ¬ OriginalTables p.machine a := by
  obtain ⟨v, position⟩ := i
  cases position with
  | low => exact h.lowOutside v a ha
  | high =>
      have hlt := value_lt v
      obtain ⟨hle, hend⟩ := ha
      simp only [placeOf] at hle hend
      exact h.pageOutside a ⟨by simp only; omega, by simp only; omega⟩

theorem relocated_sound : Sound s (placeOf low newVectorTable)
    { p with machine := s.step p.machine (relocation c newVectorTable) } := by
  have hpermitted := relocation_permitted h
  have hmixed : ∀ v w : EVTVector, low v + 4 ≤ newVectorTable.toNat + w.value.toNat ∨
      newVectorTable.toNat + w.value.toNat + 4 ≤ low v := by
    intro v w
    have hw := value_lt w
    have hpage := h.page v
    omega
  refine ⟨ready_step h.ready _ hpermitted, physicalAddress_relocated h, ?_, ?_⟩
  · rintro ⟨v, position⟩ ⟨w, position'⟩ hne
    cases position <;> cases position'
    · exact h.apart v w fun heq => hne (by rw [heq])
    · exact hmixed v w
    · exact (hmixed w v).symm
    · have hvw := @value_apart v w fun heq => hne (by rw [heq])
      simp only [placeOf]
      omega
  · intro i a ha hold
    exact placeOf_outside h i a ha (originalTables_mapping h.ready hpermitted hold)

/-- The vectors are what low memory and the page hold. -/
theorem getEVTValue_relocated (i : Slot) :
    getEVTValue { p with machine := s.step p.machine (relocation c newVectorTable) } i =
      some (readWord p.machine.mem (placeOf low newVectorTable i)) := by
  rw [getEVTValue_eq (relocated_sound h)]
  apply congrArg some
  refine readWord_congr fun a hle hlt => mem_mapping h.ready (relocation_permitted h) ?_
  exact placeOf_outside h i a ⟨hle, hlt⟩

end Relocated

/-- **The relocated table.**  After the high table was mapped to a page, no call aborts.
Each vector is what it was last set to at its position, and before that what low memory
or the page held; the position is the last one selected, no other bit of the system
control register changes, and an exception executes the vector of that position. -/
theorem relocated_run {s : EditSession} {p : Processor} {c : LiveCoarse} {low : EVTVector → Nat}
    {newVectorTable : Word} (h : Relocatable s p c low newVectorTable) (calls : List Call)
    (hcalls : ∀ call ∈ calls, Permitted s call) :
    ∃ p', run (perform s) (some p) (.map (relocation c newVectorTable) :: calls) = some p' ∧
      (∀ i, p'.getEVTValue i = some ((lastValue calls i).getD
        (readWord p.machine.mem (placeOf low newVectorTable i)))) ∧
      p'.getEVTPosition = (lastPosition calls).getD p.getEVTPosition ∧
      (∀ i < 32, i ≠ 13 → p'.sctlr.getLsbD i = p.sctlr.getLsbD i) ∧
      ∀ v, p'.executed v =
        some ((lastValue calls (v, (lastPosition calls).getD p.getEVTPosition)).getD
          (readWord p.machine.mem
            (placeOf low newVectorTable (v, (lastPosition calls).getD p.getEVTPosition)))) := by
  have hsound := relocated_sound h
  have hstart : Alive s (placeOf low newVectorTable)
      (perform s (some p) (.map (relocation c newVectorTable))) := ⟨_, rfl, hsound⟩
  obtain ⟨p', hrun, -⟩ := alive_run calls hcalls hstart
  have hrun' : run (perform s) (some p) (.map (relocation c newVectorTable) :: calls) = some p' :=
    hrun
  have hvalue : ∀ i, p'.getEVTValue i = some ((lastValue calls i).getD
      (readWord p.machine.mem (placeOf low newVectorTable i))) := by
    intro i
    have hvalue := values_run calls hcalls hstart i
    rw [hrun] at hvalue
    refine hvalue.trans (Eq.trans ?_ (getD_lastCovering Call.Sets Call.instruction ?_ calls i _))
    · simp only [perform, Option.map_some, Option.bind_some, getEVTValue_relocated h]
    · rintro (_ | _ | _) j hsets
      · exact hsets.elim
      · rfl
      · exact hsets.elim
  have hposition : p'.getEVTPosition = (lastPosition calls).getD p.getEVTPosition := by
    have hposition := position_run calls hcalls hstart
    rw [hrun] at hposition
    apply Option.some.inj
    refine hposition.trans (getD_lastCovering Call.Moves Call.position ?_ calls () _)
    rintro _ _ ⟨position, rfl⟩
    rfl
  refine ⟨p', hrun', hvalue, hposition, fun i hi hne => ?_, fun v => ?_⟩
  · have hbit := sctlr_run calls hcalls hsound hi hne
    simp only [perform, Option.map_some] at hrun
    rw [hrun] at hbit
    exact Option.some.inj hbit
  · rw [executed, ← getEVTPosition_eq, hposition]
    exact hvalue _

/-- A section at the bottom of the address space, and a coarse table for the top. -/
def lowSection : Machine :=
  { mem := writeWord (writeWord (fun _ => 0) 0x4000 0x10000C1E#32) 0x7FFC
      (coarseL1Entry 0x8000#32 0)
    ttbr0 := 0x4000#32 }

def topEditor : LiveCoarse where
  editor := ⟨0, 0#32, 0xFFFF0000#32, some 0x8000#32⟩
  l2Table := 0x8000#32
  domain := 0
  owns := rfl
  aligned := sharedCoarse.aligned

def topSession : EditSession := sessionWith [topEditor]

theorem tableEntry_lowSection {i : Nat} (hi : i < 4096) :
    tableEntry lowSection.mem 0x4000 i =
      if i = 4095 then coarseL1Entry 0x8000#32 0 else if i = 0 then 0x10000C1E#32 else 0#32 := by
  rw [tableEntry, lowSection]
  by_cases htop : i = 4095
  · subst htop
    rw [if_pos rfl, show 0x4000 + 4 * 4095 = 0x7FFC from rfl, readWord_writeWord_self]
  · rw [if_neg htop, readWord_writeWord_of_apart _ _ _ (by omega)]
    by_cases hzero : i = 0
    · subst hzero
      rw [if_pos rfl, Nat.mul_zero, Nat.add_zero, readWord_writeWord_self]
    · rw [if_neg hzero, readWord_writeWord_of_apart _ _ _ (by omega)]
      show ((0 : Byte) ++ (0 : Byte) ++ (0 : Byte) ++ (0 : Byte) : Word) = 0#32
      decide

theorem secondLevel_lowSection {i : Nat} (hi : i < 4096) {b : Block}
    (h : secondLevel (tableEntry lowSection.mem 0x4000 i) = some b) :
    i = 4095 ∧ b = l2Block 0x8000#32 := by
  rw [tableEntry_lowSection hi] at h
  split_ifs at h with htop hzero
  · rw [secondLevel_coarseL1Entry 0 (by decide)] at h
    exact ⟨htop, (Option.some.inj h).symm⟩
  · simp [secondLevel] at h
  · simp [secondLevel] at h

theorem originalTables_lowSection {a : Nat} (h : OriginalTables lowSection a) : a < 0x8400 := by
  have hbase : ttbBase lowSection.ttbr0 = 0x4000 := by decide
  rcases h with hl1 | ⟨i, hi, b, hb, ha⟩
  · rw [hbase] at hl1
    obtain ⟨-, hlt⟩ := hl1
    simp only [l1Block] at hlt
    omega
  · rw [hbase] at hb
    obtain ⟨-, rfl⟩ := secondLevel_lowSection hi hb
    have hlt : a < 0x8000 + l2TableSize := ha.2
    simp only [l2TableSize] at hlt
    omega

theorem ready_lowSection : Ready topSession lowSection := by
  have hregion : topEditor.region = 4095 := by decide
  refine ⟨by decide, fun i hi b hb => ?_, fun c hc => ?_, fun c hc => ?_,
    fun c hc i hi hne b hb => ?_⟩
  · obtain ⟨-, rfl⟩ := secondLevel_lowSection hi hb
    exact Block.apart_of_le (.inl (by decide))
  · obtain rfl := List.mem_singleton.mp hc
    exact (tableEntry_lowSection (by decide)).trans (by rw [hregion, if_pos rfl]; rfl)
  · obtain rfl := List.mem_singleton.mp hc
    exact Block.apart_of_le (.inr (by decide))
  · obtain rfl := List.mem_singleton.mp hc
    obtain ⟨htop, -⟩ := secondLevel_lowSection hi hb
    exact absurd (htop.trans hregion.symm) hne

theorem relocatable_lowSection : Relocatable topSession ⟨lowSection, 0#32⟩ topEditor
    (fun v => 0x10000000 + v.value.toNat) 0x20000000#32 where
  ready := ready_lowSection
  live := List.mem_singleton_self _
  region := by decide
  mapped v := by
    have hentry : tableEntry lowSection.mem (ttbBase lowSection.ttbr0)
        (l1IndexOf (Slot.address (v, .low))) = 0x10000C1E#32 := by
      have hindex : l1IndexOf (Slot.address (v, .low)) = 0 := by cases v <;> decide
      have hbase : ttbBase lowSection.ttbr0 = 0x4000 := by decide
      rw [hindex, hbase, tableEntry_lowSection (by decide)]
      rfl
    rw [physicalAddress, Machine.walk, Verified.ShortDescriptor.walk, walkTable, hentry,
      walkEntry_section _ _ (by decide)]
    cases v <;> decide
  apart v w h := by
    have hvw := @value_apart v w h
    omega
  aligned := by decide
  page v := by
    have hlt := value_lt v
    left
    show 0x10000000 + v.value.toNat + 4 ≤ 0x20000000
    omega
  lowOutside v a ha h := by
    have hlt := originalTables_lowSection h
    have hle : 0x10000000 + v.value.toNat ≤ a := ha.1
    omega
  pageOutside a ha h := by
    have hlt := originalTables_lowSection h
    have hle : 0x20000000 ≤ a := ha.1
    omega

/-- The interrupt vector is set at the high position, and the table is moved there. -/
theorem relocated_run_irq :
    ∃ p', run (perform topSession) (some ⟨lowSection, 0#32⟩)
        [.map (relocation topEditor 0x20000000#32), .setEVTValue (.irq, .high) 0xE59FF0F8#32,
          .setEVTPosition .high] = some p' ∧ p'.executed .irq = some 0xE59FF0F8#32 := by
  obtain ⟨p', hrun, -, -, -, hexecuted⟩ := relocated_run relocatable_lowSection
    [.setEVTValue (.irq, .high) 0xE59FF0F8#32, .setEVTPosition .high] (by simp [Permitted])
  exact ⟨p', hrun, hexecuted .irq⟩

end NspireUtils.Ports.ExceptionVectors
