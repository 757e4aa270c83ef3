import NspireUtils.Verified.AccessInvariants
import NspireUtils.Ports.BankedSP
import NspireUtils.Ports.ExceptionVectors
import NspireUtils.Ports.InterruptMask
import NspireUtils.Ports.PL190Editor

/-!
# Interrupts of the interrupt test

`main` of `tests/interrupted/main.cpp` takes the interrupts over: it saves processor and
interrupt controller, clears the controller, moves the exception vectors to a table and
the interrupt stack to a block of its own, lets a timer interrupt it, and gives
everything back.  The destructors of `vicEditor` and `ckpt` run last, in this order.

An interrupt can be taken wherever the mask and the controller let it; its service leaves
what the program accesses as it finds it.  The new table is mapped while the vectors are
high.  `served_iff` says when each interrupt that is taken finds the vectors and the stack
that belong together.

Here the functions of the processor are accesses.  `Agrees` relates each of them to the
blocks it is made of, `ensures_setEVTPosition` the remaining one to the model of the
vectors.
-/

namespace NspireUtils.Ports.InterruptedMain

open NspireUtils.Verified.ArmBanks
open NspireUtils.Verified.DeviceIO
open NspireUtils.Verified.Runs
open NspireUtils.Ports.BankedSP
open NspireUtils.Ports.CPU
open NspireUtils.Ports.ExceptionVectors
open NspireUtils.Ports.InterruptMask
open NspireUtils.Ports.PL190 hiding Word
open NspireUtils.Ports.PL190Editor

/-! ## The processor, access by access -/

/-- What the current mode makes of the processor; what is unpredictable does nothing. -/
def inMode (s : Cpu) (f : Mode → Option Cpu) : Cpu := (s.mode.bind f).getD s

/-- `msr cpsr_c`. -/
def writeControl (s : Cpu) (value : Word) : Cpu :=
  inMode s fun m => s.setCpsr m (s.cpsr.extractLsb' 8 24) (value.extractLsb' 0 8)

/-- `msr cpsr_cxsf`. -/
def writeCpsr (s : Cpu) (value : Word) : Cpu :=
  inMode s fun m => s.setCpsr m (value.extractLsb' 8 24) (value.extractLsb' 0 8)

/-- `mov sp`. -/
def writeSp (s : Cpu) (value : Word) : Cpu := inMode s fun m => some (s.set m sp value)

/-- `msr spsr_cxsf`. -/
def writeSpsr (s : Cpu) (value : Word) : Cpu :=
  inMode s fun m =>
    if m.bank = .usr then none
    else some { s with spsr := fun b => if b = m.bank then value else s.spsr b }

/-- The stack pointer as the mode sees it. -/
def readSp (s : Cpu) : Word := (s.mode.map fun m => s.get m sp).getD 0#32

/-- The saved status as the mode sees it. -/
def readSpsr (s : Cpu) : Word := (s.mode.map fun m => s.spsr m.bank).getD 0#32

/-! ## The machine -/

/-- What the program accesses: the controller's registers, the processor, the system
control register, the words of the new vector table, and the blocks it has from the
heap. -/
structure Core where
  registers : Registers
  cpu : Cpu
  sctlr : Word
  table : Word → Word
  heap : List Word

/-- The machine: the interrupt lines are the outside world's. -/
structure Machine where
  core : Core
  lines : Word

/-- What is read. -/
inductive Source where
  | vic (r : ReadRegister)
  | cpsr
  | sp
  | spsr
  | sctlr

/-- What is written. -/
inductive Target where
  | vic (r : WriteRegister)
  | control
  | cpsr
  | sp
  | spsr
  | sctlr
  | tableFill
  | table (offset : Word)
  | allocated
  | freed

namespace Core

def read (k : Core) (lines : Word) : Source → Word
  | .vic r => Vic.read ⟨k.registers, lines⟩ r
  | .cpsr => k.cpu.cpsr
  | .sp => readSp k.cpu
  | .spsr => readSpsr k.cpu
  | .sctlr => k.sctlr

def write (k : Core) : Target → Word → Core
  | .vic r, value => { k with registers := k.registers.write r value }
  | .control, value => { k with cpu := writeControl k.cpu value }
  | .cpsr, value => { k with cpu := writeCpsr k.cpu value }
  | .sp, value => { k with cpu := writeSp k.cpu value }
  | .spsr, value => { k with cpu := writeSpsr k.cpu value }
  | .sctlr, value => { k with sctlr := value }
  | .tableFill, value => { k with table := fun _ => value }
  | .table offset, value => { k with table := Function.update k.table offset value }
  | .allocated, value => { k with heap := value :: k.heap }
  | .freed, value => { k with heap := k.heap.erase value }

/-- Where the vectors are. -/
def position (k : Core) : EVTPosition := if k.sctlr.getLsbD 13 then .high else .low

end Core

/-- The machine as a device. -/
def machine : Device Machine Source Target Word Word where
  read m := m.core.read m.lines
  write m w value := { m with core := m.core.write w value }
  env m lines := { m with lines }

/-- All but the lines is the program's. -/
def core : Shadow machine Core where
  view := Machine.core
  write := Core.write
  Reads k r b := ∃ lines, b = k.read lines r
  view_env _ _ := rfl
  view_write _ _ _ := rfl
  reads m _ := ⟨m.lines, rfl⟩

/-- A program on the machine. -/
abbrev Code := Prog Source Target Word

/-- A program on the controller. -/
def onVic {α : Type} (p : Driver α) : Code α := p.rename .vic .vic

/-! ## The code -/

/-- `SaveCPUState`. -/
def saveCPUState : Code CPUState := do
  let original_cpsr ← read .cpsr
  -- switch to IRQ mode with interrupts disabled
  write .control (modeCpsr original_cpsr .irq)
  let sp_irq ← read .sp
  let spsr_irq ← read .spsr
  -- switch to FIQ mode with interrupts disabled
  write .control (modeCpsr original_cpsr .fiq)
  let sp_fiq ← read .sp
  let spsr_fiq ← read .spsr
  -- switch to SVC mode with interrupts disabled
  write .control (modeCpsr original_cpsr .svc)
  let spsr_svc ← read .spsr
  -- restore original CPSR
  write .control original_cpsr
  return { cpsr := original_cpsr, sp_irq, sp_fiq, spsr_irq, spsr_fiq, spsr_svc }

/-- `RestoreCPUState`. -/
def restoreCPUState (state : CPUState) : Code Unit := do
  let current_cpsr ← read .cpsr
  -- switch to IRQ mode and restore SP_IRQ and SPSR_IRQ
  write .control (modeCpsr current_cpsr .irq)
  write .sp state.sp_irq
  write .spsr state.spsr_irq
  -- switch to FIQ mode and restore SP_FIQ and SPSR_FIQ
  write .control (modeCpsr current_cpsr .fiq)
  write .sp state.sp_fiq
  write .spsr state.spsr_fiq
  -- switch to SVC mode and restore SPSR_SVC
  write .control (modeCpsr current_cpsr .svc)
  write .spsr state.spsr_svc
  -- restore saved CPSR
  write .cpsr state.cpsr

/-- `SetBankedSP`. -/
def setBankedSP (target : CPUMode) (value : Word) : Code Unit := do
  let original_cpsr ← read .cpsr
  -- switch to target mode, with FIQ and IRQ disabled
  write .control (modeCpsr original_cpsr target.mode)
  write .sp value
  -- switch back
  write .control original_cpsr

/-- `IRQEnable` and `IRQDisable`. -/
def setMask (enables : Bool) : Code Unit := do
  let cpsr ← read .cpsr
  write .control (masked enables cpsr)

/-- `IRQSave`. -/
def irqSave : Code Bool := do
  let cpsr ← read .cpsr
  return (cpsr &&& irqBit) == 0#32

/-- `SetEVTPosition`. -/
def setEVTPosition (position : EVTPosition) : Code Unit := do
  let sctlr ← read .sctlr
  write .sctlr
    (if position = .high then sctlr ||| Processor.positionBit
    else sctlr &&& ~~~Processor.positionBit)

/-- Where the first instruction of an interrupt is in the table. -/
def vectorOffset : Word := EVTVector.irq.value

/-- Where the address of its handler is. -/
def handlerOffset : Word := 0x100#32 + EVTVector.irq.value

/-- `exception_vector_jump[0]`: a load of the program counter from 0x100 bytes ahead. -/
def exceptionVectorJump : Word := 0xE59FF0F8#32

/-- Where the linker put the handlers. -/
structure Linked where
  handleIRQ : Word
  timerISR2 : Word

/-- `TiNspireInterruptSource::FirstTimer`. -/
def firstTimer : Fin 32 := 18

/-- The slot of its vector. -/
def timerSlot : Fin 16 := ⟨0, Nat.succ_pos 15⟩

/-- `PL190VIC_VectControlEnabledBit`. -/
def vectControlEnabledBit : Word := 1#32 <<< 5

/-- `interrupts` from `IRQSave` to `IRQRestore`. -/
def idleLoop : Code Unit := do
  let irqState ← irqSave
  setMask true
  -- here it waits for five interrupts
  setMask irqState

/-- `interrupts`.  What it does to the timer is left to the lines. -/
def interrupts (l : Linked) : Code Unit := do
  -- setup the IRQ vector to jump to our handler
  write (.table handlerOffset) l.handleIRQ
  write (.table vectorOffset) exceptionVectorJump
  -- add to vic
  onVic (setVectorControl timerSlot (vectControlEnabledBit ||| BitVec.ofNat 32 firstTimer.val))
  onVic (setVectorAddress timerSlot l.timerISR2)
  onVic (enableInterrupt firstTimer)
  idleLoop
  onVic (disableInterrupt firstTimer)

/-- What `aligned_alloc` answers. -/
structure Answers where
  newVectorTable : Option Word
  irqStack : Option Word

/-- `main` from `vicEditor.clear()` to its return. -/
def body (l : Linked) (a : Answers) : Code Unit := do
  onVic clear
  match a.newVectorTable with
  | none => pure ()
  | some newVectorTable => do
      write .allocated newVectorTable
      match a.irqStack with
      | none => pure ()
      | some irqStack => do
          write .allocated irqStack
          setBankedSP .irq (irqStack + 0x1000#32)
          write .tableFill 0#32
          setEVTPosition .high
          interrupts l
          setEVTPosition .low
          write .freed newVectorTable
          write .freed irqStack

/-- `main`, with the constructors and destructors of `ckpt` and `vicEditor`. -/
def main (l : Linked) (a : Answers) : Code Unit := do
  let state ← saveCPUState
  let oldState ← onVic savePL190State
  body l a
  onVic (restorePL190State oldState)
  restoreCPUState state

/-! ## Processor steps -/

section Processor

variable {s : Cpu} {m : Mode} (hmode : s.mode = some m)
include hmode

theorem inMode_of_some {f : Mode → Option Cpu} {s' : Cpu} (hf : f m = some s') :
    inMode s f = s' := by
  rw [inMode, hmode, Option.bind_some, hf, Option.getD_some]

theorem writeControl_of_mode (hprivileged : m ≠ .usr) {m' : Mode} {w : Word}
    (hw : (w.extractLsb' 0 8).extractLsb' 0 5 = m'.bits) :
    writeControl s w = { s with cpsr := psr (s.cpsr.extractLsb' 8 24) (w.extractLsb' 0 8) } :=
  inMode_of_some hmode (Cpu.setCpsr_of_privileged hprivileged hw)

theorem writeControl_switch (hprivileged : m ≠ .usr) (cpsr : Word) (t : Mode) :
    writeControl s (modeCpsr cpsr t) = switchTo s cpsr t :=
  writeControl_of_mode hmode hprivileged (modeCpsr_mode cpsr t)

/-- Back to the mode of `s₀`. -/
theorem writeControl_back (hprivileged : m ≠ .usr) {s₀ : Cpu} {home : Mode}
    (hhome : s₀.mode = some home) (hhigh : s.cpsr.extractLsb' 8 24 = s₀.cpsr.extractLsb' 8 24) :
    writeControl s s₀.cpsr = { s with cpsr := s₀.cpsr } := by
  have hbits : (s₀.cpsr.extractLsb' 0 8).extractLsb' 0 5 = home.bits := by
    rw [control_mode, mode_bits hhome]
  rw [writeControl_of_mode hmode hprivileged hbits, hhigh, psr_extract]

theorem writeSp_of_mode (value : Word) : writeSp s value = s.set m sp value :=
  inMode_of_some hmode rfl

theorem readSp_of_mode : readSp s = s.reg m.bank sp := by
  rw [readSp, hmode, Option.map_some, Option.getD_some, Cpu.get, bankOf_sp]

theorem readSpsr_of_mode : readSpsr s = s.spsr m.bank := by
  rw [readSpsr, hmode, Option.map_some, Option.getD_some]

end Processor

theorem switchTo_high (s : Cpu) (cpsr : Word) (t : Mode) :
    (switchTo s cpsr t).cpsr.extractLsb' 8 24 = s.cpsr.extractLsb' 8 24 :=
  extract_high _ _

theorem irqSP_set (s : Cpu) (value : Word) : (s.set .irq sp value).reg .irq sp = value := by
  rw [Cpu.set_reg, if_pos ⟨(bankOf_sp .irq).symm, rfl⟩]

theorem enabled_of_masked {s : Cpu} (h : s.Masked) : enabled s = false := by
  have hbit : (s.cpsr.extractLsb' 6 2).getLsbD 1 = true := by rw [h]; rfl
  rw [BitVec.getLsbD_extractLsb'] at hbit
  simpa [enabled] using hbit

theorem enabled_switchTo (s : Cpu) (cpsr : Word) (t : Mode) :
    enabled (switchTo s cpsr t) = false :=
  enabled_of_masked (switchTo_masked s cpsr t)

/-- The processor when the values of a record are back. -/
def restored (state : CPUState) (s : Cpu) : Cpu where
  cpsr := state.cpsr
  reg b r :=
    if b = .fiq ∧ r = sp then state.sp_fiq
    else if b = .irq ∧ r = sp then state.sp_irq else s.reg b r
  spsr b :=
    if b = .svc then state.spsr_svc else if b = .fiq then state.spsr_fiq
    else if b = .irq then state.spsr_irq else s.spsr b

theorem restored_restored (state : CPUState) (s : Cpu) : Restored state s (restored state s) :=
  Written.restored ⟨fun _ _ _ => rfl, fun _ => rfl⟩ rfl

/-! ## The functions of the processor -/

section Functions

variable {I : Core → Prop} {k : Core} {α : Type} {Q : α → Core → Prop} {f : Unit → Code α}

theorem always_switch {s : Cpu} (hI : I { k with cpu := s }) {m : Mode} (hs : s.mode = some m)
    (hprivileged : m ≠ .usr) {cpsr : Word} {t : Mode}
    (h : Always core I (f ()) Q { k with cpu := switchTo s cpsr t }) :
    Always core I (write .control (modeCpsr cpsr t) >>= f) Q { k with cpu := s } := by
  refine always_write hI ?_
  have hswitch : core.write { k with cpu := s } .control (modeCpsr cpsr t) =
      { k with cpu := switchTo s cpsr t } :=
    congrArg (fun cpu => { k with cpu }) (writeControl_switch hs hprivileged cpsr t)
  rwa [hswitch]

/-- Back to the mode of `s₀`. -/
theorem always_back {s s₀ : Cpu} (hI : I { k with cpu := s }) {m : Mode} (hs : s.mode = some m)
    (hprivileged : m ≠ .usr) {home : Mode} (hhome : s₀.mode = some home)
    (hhigh : s.cpsr.extractLsb' 8 24 = s₀.cpsr.extractLsb' 8 24)
    (h : Always core I (f ()) Q { k with cpu := { s with cpsr := s₀.cpsr } }) :
    Always core I (write .control s₀.cpsr >>= f) Q { k with cpu := s } := by
  refine always_write hI ?_
  have hback : core.write { k with cpu := s } .control s₀.cpsr =
      { k with cpu := { s with cpsr := s₀.cpsr } } :=
    congrArg (fun cpu => { k with cpu }) (writeControl_back hs hprivileged hhome hhigh)
  rwa [hback]

theorem always_writeSp {s : Cpu} (hI : I { k with cpu := s }) {m : Mode} (hs : s.mode = some m)
    {value : Word} (h : Always core I (f ()) Q { k with cpu := s.set m sp value }) :
    Always core I (write .sp value >>= f) Q { k with cpu := s } := by
  refine always_write hI ?_
  have hset : core.write { k with cpu := s } .sp value = { k with cpu := s.set m sp value } :=
    congrArg (fun cpu => { k with cpu }) (writeSp_of_mode hs value)
  rwa [hset]

theorem always_writeSpsr {s : Cpu} (hI : I { k with cpu := s }) {m : Mode} (hs : s.mode = some m)
    (hbank : m.bank ≠ .usr) {value : Word}
    (h : Always core I (f ()) Q
      { k with cpu := { s with spsr := fun b => if b = m.bank then value else s.spsr b } }) :
    Always core I (write .spsr value >>= f) Q { k with cpu := s } := by
  refine always_write hI ?_
  have hspsr : core.write { k with cpu := s } .spsr value =
      { k with cpu := { s with spsr := fun b => if b = m.bank then value else s.spsr b } } :=
    congrArg (fun cpu => { k with cpu }) (inMode_of_some hs (if_neg hbank))
  rwa [hspsr]

theorem always_writeCpsr {s : Cpu} (hI : I { k with cpu := s }) {m m' : Mode}
    (hs : s.mode = some m) (hprivileged : m ≠ .usr) {value : Word}
    (hvalue : value.extractLsb' 0 5 = m'.bits)
    (h : Always core I (f ()) Q { k with cpu := { s with cpsr := value } }) :
    Always core I (write .cpsr value >>= f) Q { k with cpu := s } := by
  refine always_write hI ?_
  have hcpsr : writeCpsr s value = { s with cpsr := value } := by
    have hset : s.setCpsr m (value.extractLsb' 8 24) (value.extractLsb' 0 8) =
        some { s with cpsr := value } := by
      rw [Cpu.setCpsr_of_privileged hprivileged (by rw [control_mode, hvalue]), psr_extract]
    exact inMode_of_some hs hset
  have hwrite : core.write { k with cpu := s } .cpsr value =
      { k with cpu := { s with cpsr := value } } :=
    congrArg (fun cpu => { k with cpu }) hcpsr
  rwa [hwrite]

variable {home : Mode} (hmode : k.cpu.mode = some home) (hprivileged : home ≠ .usr) (hI : I k)
  (hmasked : ∀ cpu : Cpu, enabled cpu = false → I { k with cpu })
include hmode hprivileged hI hmasked

/-- `SaveCPUState` records the processor and leaves everything as it was. -/
theorem always_saveCPUState :
    Always core I saveCPUState (fun state k' => state = record k.cpu ∧ k' = k) k := by
  refine always_read hI ?_
  rintro _ ⟨lines, rfl⟩
  refine always_switch hI hmode hprivileged ?_
  -- IRQ
  have hirq := hmasked _ (enabled_switchTo k.cpu k.cpu.cpsr .irq)
  refine always_read hirq ?_
  rintro _ ⟨lines₁, rfl⟩
  refine always_read hirq ?_
  rintro _ ⟨lines₂, rfl⟩
  refine always_switch hirq (switchTo_mode _ _ _) (by decide) ?_
  -- FIQ
  have hfiq := hmasked _ (enabled_switchTo (switchTo k.cpu k.cpu.cpsr .irq) k.cpu.cpsr .fiq)
  refine always_read hfiq ?_
  rintro _ ⟨lines₃, rfl⟩
  refine always_read hfiq ?_
  rintro _ ⟨lines₄, rfl⟩
  refine always_switch hfiq (switchTo_mode _ _ _) (by decide) ?_
  -- SVC
  have hsvc := hmasked _ (enabled_switchTo
    (switchTo (switchTo k.cpu k.cpu.cpsr .irq) k.cpu.cpsr .fiq) k.cpu.cpsr .svc)
  refine always_read hsvc ?_
  rintro _ ⟨lines₅, rfl⟩
  refine always_back hsvc (switchTo_mode _ _ _) (by decide) hmode
    (by rw [switchTo_high, switchTo_high, switchTo_high]) ?_
  refine ⟨hI, ?_, rfl⟩
  simp only [Core.read, readSp_of_mode (switchTo_mode _ _ _),
    readSpsr_of_mode (switchTo_mode _ _ _)]
  rfl

/-- `SetBankedSP` sets the stack pointer of the interrupt mode, and nothing else. -/
theorem always_setBankedSP (value : Word) (hset : I { k with cpu := k.cpu.set .irq sp value }) :
    Always core I (setBankedSP .irq value)
      (fun _ k' => k' = { k with cpu := k.cpu.set .irq sp value }) k := by
  refine always_read hI ?_
  rintro _ ⟨lines, rfl⟩
  refine always_switch hI hmode hprivileged ?_
  have hirq := hmasked _ (enabled_switchTo k.cpu k.cpu.cpsr .irq)
  refine always_writeSp hirq (switchTo_mode _ _ _) ?_
  have hsp := hmasked ((switchTo k.cpu k.cpu.cpsr .irq).set .irq sp value)
    (enabled_switchTo k.cpu k.cpu.cpsr .irq)
  show Always core I (write .control k.cpu.cpsr >>= fun _ => pure ()) _ _
  refine always_back hsp (m := .irq) ?_ (by decide) hmode ?_ ⟨hset, rfl⟩
  · rw [Cpu.set_mode, switchTo_mode]
  · rw [Cpu.set_cpsr, switchTo_high]

/-- `RestoreCPUState` brings the record back and changes nothing else. -/
theorem always_restoreCPUState {state : CPUState} {m : Mode}
    (hstate : state.cpsr.extractLsb' 0 5 = m.bits)
    (hend : I { k with cpu := restored state k.cpu }) :
    Always core I (restoreCPUState state)
      (fun _ k' => k' = { k with cpu := restored state k.cpu }) k := by
  refine always_read hI ?_
  rintro _ ⟨lines, rfl⟩
  generalize k.read lines .cpsr = current_cpsr
  refine always_switch hI hmode hprivileged ?_
  -- IRQ
  have hirq := enabled_switchTo k.cpu current_cpsr .irq
  have hirqMode := switchTo_mode k.cpu current_cpsr .irq
  refine always_writeSp (hmasked _ hirq) hirqMode ?_
  refine always_writeSpsr (hmasked _ (by exact hirq)) (by exact hirqMode) (by decide) ?_
  refine always_switch (hmasked _ (by exact hirq)) (by exact hirqMode) (by decide) ?_
  -- FIQ
  let s₁ : Cpu := { (switchTo k.cpu current_cpsr .irq).set .irq sp state.sp_irq with
    spsr := fun b => if b = Mode.irq.bank then state.spsr_irq else k.cpu.spsr b }
  have hfiq := enabled_switchTo s₁ current_cpsr .fiq
  have hfiqMode := switchTo_mode s₁ current_cpsr .fiq
  refine always_writeSp (hmasked _ (by exact hfiq)) (by exact hfiqMode) ?_
  refine always_writeSpsr (hmasked _ (by exact hfiq)) (by exact hfiqMode) (by decide) ?_
  refine always_switch (hmasked _ (by exact hfiq)) (by exact hfiqMode) (by decide) ?_
  -- SVC
  let s₂ : Cpu := { (switchTo s₁ current_cpsr .fiq).set .fiq sp state.sp_fiq with
    spsr := fun b => if b = Mode.fiq.bank then state.spsr_fiq else s₁.spsr b }
  have hsvc := enabled_switchTo s₂ current_cpsr .svc
  have hsvcMode := switchTo_mode s₂ current_cpsr .svc
  refine always_writeSpsr (hmasked _ (by exact hsvc)) (by exact hsvcMode) (by decide) ?_
  show Always core I (write .cpsr state.cpsr >>= fun _ => pure ()) _ _
  refine always_writeCpsr (hmasked _ (by exact hsvc)) (by exact hsvcMode) (by decide) hstate ?_
  exact ⟨hend, rfl⟩

end Functions

/-! ## The interrupt mask and the vectors -/

section Mask

variable {I : Core → Prop} {k : Core} {α : Type} {Q : α → Core → Prop} {home : Mode}
  (hmode : k.cpu.mode = some home) (hprivileged : home ≠ .usr) (hI : I k)
include hmode hprivileged hI

omit hprivileged hI in
theorem masked_bits (enables : Bool) :
    ((masked enables k.cpu.cpsr).extractLsb' 0 8).extractLsb' 0 5 = home.bits := by
  rw [control_mode, masked_field, mode_bits hmode]

/-- `IRQEnable` and `IRQDisable` write the control byte. -/
theorem always_setMask_control (enables : Bool)
    (h : I { k with cpu := withControl k.cpu (masked enables k.cpu.cpsr) }) :
    Always core I (setMask enables)
      (fun _ k' => k' = { k with cpu := withControl k.cpu (masked enables k.cpu.cpsr) }) k := by
  have hwrite : core.write k .control (masked enables k.cpu.cpsr) =
      { k with cpu := withControl k.cpu (masked enables k.cpu.cpsr) } :=
    congrArg (fun cpu => { k with cpu })
      (writeControl_of_mode hmode hprivileged (masked_bits hmode enables))
  refine always_read hI ?_
  rintro _ ⟨lines, rfl⟩
  refine ⟨hI, ?_⟩
  rw [show k.read lines .cpsr = k.cpu.cpsr from rfl, hwrite]
  exact ⟨h, rfl⟩

/-- They reach the mask. -/
theorem always_setMask (enables : Bool) {f : Unit → Code α}
    (h : ∀ cpu : Cpu, cpu.mode = some home → enabled cpu = enables → cpu.reg = k.cpu.reg →
      Always core I (f ()) Q { k with cpu }) :
    Always core I (setMask enables >>= f) Q k := by
  have hnext : Always core I (f ()) Q
      { k with cpu := withControl k.cpu (masked enables k.cpu.cpsr) } := by
    refine h _ (Cpu.mode_of_control (masked_bits hmode enables)) ?_ rfl
    rw [enabled, getLsbD_of_control (withControl_control _ _) (by decide),
      getLsbD_masked enables _ (by decide), if_pos rfl, Bool.not_not]
  refine always_bind ((always_setMask_control hmode hprivileged hI enables hnext.here).mono
    (fun _ h => h) ?_)
  rintro _ _ rfl
  exact hnext

omit hmode hprivileged in
/-- `IRQSave` reads it. -/
theorem always_irqSave {f : Bool → Code α} (h : Always core I (f (enabled k.cpu)) Q k) :
    Always core I (irqSave >>= f) Q k := by
  refine always_bind (always_read hI ?_)
  rintro _ ⟨lines, rfl⟩
  rw [show k.read lines .cpsr = k.cpu.cpsr from rfl, saved_eq]
  exact ⟨hI, h⟩

omit hmode hprivileged in
/-- `SetEVTPosition` moves the vectors. -/
theorem always_setEVTPosition (position : EVTPosition) {f : Unit → Code α}
    (h : ∀ sctlr : Word, ({ k with sctlr } : Core).position = position →
      Always core I (f ()) Q { k with sctlr }) :
    Always core I (setEVTPosition position >>= f) Q k := by
  refine always_bind (always_read hI ?_)
  rintro _ ⟨lines, rfl⟩
  refine ⟨hI, ?_⟩
  have hbit : ∀ w : Word, w.getLsbD 13 = decide (position = .high) →
      ({ k with sctlr := w } : Core).position = position := by
    intro w hw
    rw [Core.position, hw]
    cases position <;> rfl
  have hnext := h (if position = .high then k.sctlr ||| Processor.positionBit
    else k.sctlr &&& ~~~Processor.positionBit) (hbit _ (by
      cases position <;> simp [getLsbD_positionBit]))
  exact ⟨hnext.here, hnext⟩

end Mask

/-! ## The functions and their blocks -/

section Blocks

/-- The program and the blocks return the same and leave processors that agree on mode,
masks and all that is banked; the program leaves the rest of the machine alone. -/
def Agrees {α : Type} (p : Code α) (blocks : Asm α) (k : Core) : Prop :=
  wp (fun _ => True) blocks (fun a s => Ensures core p
    (fun a' k' => a' = a ∧ SameBanks s k'.cpu ∧ k' = { k with cpu := k'.cpu }) k) k.cpu

variable {k : Core} {home : Mode} (hmode : k.cpu.mode = some home) (hprivileged : home ≠ .usr)
include hmode hprivileged

theorem agrees_saveCPUState (c : Compiler saveBlocks) :
    Agrees saveCPUState (CPU.saveCPUState c) k := by
  refine ((wp_saveCPUState c hmode hprivileged).mono ?_).imp fun _ _ => trivial
  rintro _ s ⟨rfl, hsame⟩
  refine (always_saveCPUState (I := fun _ => True) hmode hprivileged trivial
    fun _ _ => trivial).ensures.mono core ?_
  rintro _ _ ⟨rfl, rfl⟩
  exact ⟨rfl, hsame.symm, rfl⟩

theorem agrees_restoreCPUState (c : Compiler restoreBlocks) {state : CPUState}
    (hstate : state.cpsr.extractLsb' 0 5 = home.bits) :
    Agrees (restoreCPUState state) (CPU.restoreCPUState c state) k := by
  refine ((wp_restoreCPUState c hmode hprivileged hstate).mono ?_).imp fun _ _ => trivial
  rintro _ s hs
  refine (always_restoreCPUState (I := fun _ => True) hmode hprivileged trivial
    (fun _ _ => trivial) hstate trivial).ensures.mono core ?_
  rintro _ _ rfl
  exact ⟨rfl, hs.unique (restored_restored state k.cpu), rfl⟩

theorem agrees_setBankedSP {a : AsmBlock.Allocation} (hlow : ∀ n, a n < 8)
    (hallows : ∀ values, setBankedSPBlock.Allows a values) (value : Word) :
    Agrees (setBankedSP .irq value) (BankedSP.setBankedSP a .irq value) k := by
  refine ((wp_setBankedSP hlow hallows hmode hprivileged .irq value).mono ?_).imp
    fun _ _ => trivial
  rintro _ s hs
  refine (always_setBankedSP (I := fun _ => True) hmode hprivileged trivial
    (fun _ _ => trivial) value trivial).ensures.mono core ?_
  rintro _ _ rfl
  exact ⟨rfl, hs.symm, rfl⟩

theorem agrees_setMask (c : Bool → Compiler maskBlocks) (enables : Bool) :
    Agrees (setMask enables) (irqRestore c enables) k := by
  have hblocks : irqRestore c enables = changeControl (c enables) (masked enables) := by
    cases enables <;> rfl
  obtain ⟨s₁, s₂, s, hrun, -, -, hregs, hcontrol⟩ :=
    changeControl_eq hmode (c enables) (masked_field enables)
  refine ⟨(), s, [s₁, s₂, s], by rw [hblocks, hrun], fun _ _ => trivial, ?_⟩
  refine (always_setMask_control (I := fun _ => True) hmode hprivileged trivial enables
    trivial).ensures.mono core ?_
  rintro _ _ rfl
  refine ⟨rfl, ⟨⟨hregs.spsr.symm, fun b r hr => (hregs.reg b r hr).symm⟩, ?_⟩, rfl⟩
  rw [hcontrol, if_neg hprivileged, withControl_control]

omit hprivileged in
theorem agrees_irqSave (c : Compiler [readCpsr]) : Agrees irqSave (InterruptMask.irqSave c) k := by
  obtain ⟨s, hrun, hsame⟩ := irqSave_eq hmode c
  refine ⟨_, s, [s], hrun, fun _ _ => trivial, ?_⟩
  rintro _ ⟨lines, rfl⟩
  exact ⟨saved_eq k.cpu.cpsr, hsame.symm, rfl⟩

end Blocks

/-- The position is that of the vectors' model. -/
theorem position_eq {k : Core} {p : Processor} (hp : p.sctlr = k.sctlr) :
    k.position = p.getEVTPosition := by
  rw [Core.position, getEVTPosition_eq, hp]

/-- So is `SetEVTPosition`. -/
theorem ensures_setEVTPosition {k : Core} {p : Processor} (hp : p.sctlr = k.sctlr)
    (position : EVTPosition) :
    Ensures core (setEVTPosition position) (fun _ k' =>
      k' = { k with sctlr := (p.setEVTPosition position).sctlr } ∧
        k'.position = (p.setEVTPosition position).getEVTPosition) k := by
  rintro _ ⟨lines, rfl⟩
  have hwrite : (if position = .high then k.sctlr ||| Processor.positionBit
      else k.sctlr &&& ~~~Processor.positionBit) = (p.setEVTPosition position).sctlr := by
    rw [← hp]
    cases position <;> rfl
  refine ⟨congrArg (fun sctlr => { k with sctlr }) hwrite, position_eq ?_⟩
  exact hwrite.symm

/-! ## The controller -/

section Controller

variable {I : Core → Prop} {k : Core}

/-- A program on the controller leaves the rest of the machine alone. -/
theorem always_onVic {α : Type} {p : Driver α} {Q : α → Core → Prop}
    (h : Always shadow (fun registers => I { k with registers }) p
      (fun a registers => Q a { k with registers }) k.registers) :
    Always core I (onVic p) Q k := by
  have hreads : ∀ (registers : Registers) (r : ReadRegister) (b : Word),
      core.Reads { k with registers } (.vic r) b → shadow.Reads registers r b :=
    fun _ _ _ h => h
  have hwrite : ∀ (registers : Registers) (w : WriteRegister) (value : Word),
      core.write { k with registers } (.vic w) value =
        { k with registers := shadow.write registers w value } :=
    fun _ _ _ => rfl
  exact Always.rename hreads hwrite h

theorem onlyReads_saveVectors (is : List (Fin 16)) :
    ∀ state, OnlyReads (saveVectors is state) := by
  induction is with
  | nil => intro state; trivial
  | cons i rest ih => intro state addr control; exact ih _

/-- `SavePL190State` on the machine. -/
theorem always_savePL190State (hI : I k) :
    Always core I (onVic savePL190State) (fun state k' => state = k.registers.save ∧ k' = k) k := by
  have honly : OnlyReads savePL190State := fun _ _ _ _ _ => onlyReads_saveVectors _ _
  have hensures : Ensures shadow savePL190State (fun state registers =>
      state = k.registers.save ∧ { k with registers } = k) k.registers := by
    apply (ensures_save k.registers).mono shadow
    rintro state registers ⟨rfl, rfl⟩
    exact ⟨rfl, rfl⟩
  exact always_onVic (honly.always hI hensures)

/-- `RestorePL190State` on the machine: on the way nothing is enabled. -/
theorem always_restorePL190State (state : PL190State) (hI : I k)
    (hdisabled : ∀ registers : Registers, registers.interruptEnable = 0#32 →
      I { k with registers })
    (hload : I { k with registers := state.load }) :
    Always core I (onVic (restorePL190State state))
      (fun _ k' => k' = { k with registers := state.load }) k := by
  have hway : ∀ n ≤ (restoreWrites state).length,
      I { k with registers := writes shadow k.registers ((restoreWrites state).take n) } := by
    intro n hn
    by_cases hfirst : n = 0
    · rw [hfirst]
      exact hI
    · rcases Nat.lt_or_eq_of_le hn with hlt | rfl
      · exact hdisabled _ (restore_disabled state k.registers hfirst hlt)
      · rw [List.take_length, writes_restore]
        exact hload
  refine always_onVic (always_writeAll hway ?_)
  rw [writes_restore]

end Controller

/-! ## Interrupts that are taken -/

/-- The sources that interrupt if their lines are up. -/
def Core.sources (k : Core) : Word :=
  k.registers.interruptEnable &&& ~~~k.registers.interruptSelect

/-- An interrupt is taken. -/
def Machine.Taken (m : Machine) : Prop :=
  enabled m.core.cpu = true ∧ Vic.irqStatus ⟨m.core.registers, m.lines⟩ ≠ 0#32

/-- The new vectors lead to `handleIRQ` and from there to `Timer_ISR2`, and the stack is
the program's; the blocks of both are its own. -/
structure Installed (l : Linked) (newVectorTable irqStack : Word) (k : Core) : Prop where
  vector : k.table vectorOffset = exceptionVectorJump
  handler : k.table handlerOffset = l.handleIRQ
  tableLive : newVectorTable ∈ k.heap
  stackLive : irqStack ∈ k.heap
  irqSP : k.cpu.reg .irq sp = irqStack + 0x1000#32
  source : k.registers.interruptEnable = bitOf firstTimer
  control : k.registers.vectControlTable timerSlot =
    (vectControlEnabledBit ||| BitVec.ofNat 32 firstTimer.val).setWidth 6
  address : k.registers.vectAddrTable timerSlot = l.timerISR2

/-- Vectors and stack belong together: both the system's, or both the program's. -/
def Served (l : Linked) (a : Answers) (systemSP : Word) (k : Core) : Prop :=
  match k.position with
  | .low => k.cpu.reg .irq sp = systemSP
  | .high => ∃ newVectorTable irqStack, a = ⟨some newVectorTable, some irqStack⟩ ∧
      Installed l newVectorTable irqStack k

/-- Whatever the lines do, an interrupt that is taken is served. -/
def Safe (l : Linked) (a : Answers) (systemSP : Word) (k : Core) : Prop :=
  enabled k.cpu = true → k.sources ≠ 0#32 → Served l a systemSP k

section Safety

variable {l : Linked} {a : Answers} {systemSP : Word} {k : Core}

theorem Core.sources_of_disabled (h : k.registers.interruptEnable = 0#32) : k.sources = 0#32 := by
  rw [Core.sources, h, BitVec.zero_and]

theorem irqStatus_eq (m : Machine) :
    Vic.irqStatus ⟨m.core.registers, m.lines⟩ =
      Vic.rawStatus ⟨m.core.registers, m.lines⟩ &&& m.core.sources := by
  rw [Vic.irqStatus, Core.sources, BitVec.and_assoc]

theorem safe_iff : Safe l a systemSP k ↔
    ∀ lines, (Machine.mk k lines).Taken → Served l a systemSP k := by
  refine ⟨fun h lines htaken => h htaken.1 fun hnone => htaken.2 ?_, fun h hon hsome => ?_⟩
  · rw [irqStatus_eq, hnone, BitVec.and_zero]
  · refine h (BitVec.allOnes 32) ⟨hon, fun hnone => hsome ?_⟩
    rw [irqStatus_eq, Vic.rawStatus, BitVec.allOnes_or, BitVec.allOnes_and] at hnone
    exact hnone

theorem safe_of_disabled (h : k.registers.interruptEnable = 0#32) : Safe l a systemSP k :=
  fun _ hsome => absurd (Core.sources_of_disabled h) hsome

theorem safe_of_masked (h : enabled k.cpu = false) : Safe l a systemSP k := by
  intro hon
  rw [h] at hon
  exact absurd hon Bool.false_ne_true

theorem safe_of_low (hlow : k.position = .low) (hsp : k.cpu.reg .irq sp = systemSP) :
    Safe l a systemSP k := by
  intro _ _
  rw [Served, hlow]
  exact hsp

theorem safe_of_installed {newVectorTable irqStack : Word}
    (ha : a = ⟨some newVectorTable, some irqStack⟩) (hhigh : k.position = .high)
    (h : Installed l newVectorTable irqStack k) : Safe l a systemSP k := by
  intro _ _
  rw [Served, hhigh]
  exact ⟨newVectorTable, irqStack, ha, h⟩

theorem Installed.withCpu {newVectorTable irqStack : Word}
    (h : Installed l newVectorTable irqStack k) {cpu : Cpu} (hreg : cpu.reg = k.cpu.reg) :
    Installed l newVectorTable irqStack { k with cpu } :=
  { h with irqSP := by rw [← h.irqSP, hreg] }

end Safety

/-! ## `interrupts` -/

section Interrupts

variable {l : Linked} {a : Answers} {systemSP newVectorTable irqStack : Word} {k : Core}
  {home : Mode} (ha : a = ⟨some newVectorTable, some irqStack⟩) (hhigh : k.position = .high)
  (hmode : k.cpu.mode = some home) (hprivileged : home ≠ .usr)
include ha hhigh hmode hprivileged

/-- While it waits, interrupts are enabled and served. -/
theorem always_idleLoop (hinstalled : Installed l newVectorTable irqStack k)
    {Q : Unit → Core → Prop} (hQ : ∀ cpu : Cpu, cpu.mode = some home →
      enabled cpu = enabled k.cpu → cpu.reg = k.cpu.reg → Safe l a systemSP { k with cpu } →
        Q () { k with cpu }) :
    Always core (Safe l a systemSP) idleLoop Q k := by
  have hsafe : ∀ cpu : Cpu, cpu.reg = k.cpu.reg → Safe l a systemSP { k with cpu } :=
    fun cpu hreg => safe_of_installed ha hhigh (hinstalled.withCpu hreg)
  refine always_irqSave (hsafe k.cpu rfl) ?_
  refine always_setMask hmode hprivileged (hsafe k.cpu rfl) true fun cpu hmode₁ _ hreg₁ => ?_
  show Always core _ (setMask (enabled k.cpu) >>= fun _ => pure ()) _ _
  refine always_setMask hmode₁ hprivileged (hsafe cpu hreg₁) (enabled k.cpu)
    fun cpu' hmode₂ henabled₂ hreg₂ => ?_
  have hreg : cpu'.reg = k.cpu.reg := hreg₂.trans hreg₁
  exact ⟨hsafe cpu' hreg, hQ cpu' hmode₂ henabled₂ hreg (hsafe cpu' hreg)⟩

/-- What `interrupts` leaves: the source is disabled again. -/
theorem always_interrupts (hdisabled : k.registers.interruptEnable = 0#32)
    (htable : newVectorTable ∈ k.heap) (hstack : irqStack ∈ k.heap)
    (hsp : k.cpu.reg .irq sp = irqStack + 0x1000#32) :
    Always core (Safe l a systemSP) (interrupts l) (fun _ k' =>
      k'.registers.interruptEnable = 0#32 ∧ k'.cpu.mode = some home ∧
        enabled k'.cpu = enabled k.cpu ∧ k'.cpu.reg = k.cpu.reg) k := by
  refine always_write (safe_of_disabled hdisabled) ?_
  refine always_write (safe_of_disabled hdisabled) ?_
  refine always_write (safe_of_disabled hdisabled) ?_
  refine always_write (safe_of_disabled hdisabled) ?_
  refine always_write (safe_of_disabled hdisabled) ?_
  refine always_bind (always_idleLoop ha ?_ ?_ hprivileged ?_ fun cpu hcpu hon hreg hsafe => ?_)
  · exact hhigh
  · exact hmode
  · exact
      { vector := by
          show Function.update (Function.update k.table handlerOffset l.handleIRQ) vectorOffset
            exceptionVectorJump vectorOffset = exceptionVectorJump
          rw [Function.update_self]
        handler := by
          show Function.update (Function.update k.table handlerOffset l.handleIRQ) vectorOffset
            exceptionVectorJump handlerOffset = l.handleIRQ
          rw [Function.update_of_ne (by decide), Function.update_self]
        tableLive := htable
        stackLive := hstack
        irqSP := hsp
        source := by
          show k.registers.interruptEnable ||| bitOf firstTimer = bitOf firstTimer
          rw [hdisabled, BitVec.zero_or]
        control := by
          show Function.update k.registers.vectControlTable timerSlot
            ((vectControlEnabledBit ||| BitVec.ofNat 32 firstTimer.val).setWidth 6) timerSlot =
              (vectControlEnabledBit ||| BitVec.ofNat 32 firstTimer.val).setWidth 6
          rw [Function.update_self]
        address := by
          show Function.update k.registers.vectAddrTable timerSlot l.timerISR2 timerSlot =
            l.timerISR2
          rw [Function.update_self] }
  · have hcleared : (k.registers.interruptEnable ||| bitOf firstTimer) &&&
        ~~~bitOf firstTimer = 0#32 := by
      rw [hdisabled]
      decide
    exact ⟨hsafe, safe_of_disabled hcleared, hcleared, hcpu, hon, hreg⟩

end Interrupts

/-! ## `main` -/

/-- The stack pointer of the interrupt mode before `ckpt` restores it. -/
def stackLeft (a : Answers) (systemSP : Word) : Word :=
  match a.newVectorTable, a.irqStack with
  | some _, some irqStack => irqStack + 0x1000#32
  | _, _ => systemSP

/-- What is left to the destructors. -/
structure Left (home : Mode) (on : Bool) (irqSP : Word) (k : Core) : Prop where
  disabled : k.registers.interruptEnable = 0#32
  mode : k.cpu.mode = some home
  mask : enabled k.cpu = on
  irqSP : k.cpu.reg .irq sp = irqSP
  low : k.position = .low

section Main

variable {l : Linked} {a : Answers} {k : Core} {home : Mode} (hmode : k.cpu.mode = some home)
  (hprivileged : home ≠ .usr) (hlow : k.position = .low)
include hmode hprivileged hlow

/-- Up to the destructors every interrupt is served. -/
theorem always_body :
    Always core (Safe l a (k.cpu.reg .irq sp)) (body l a)
      (fun _ => Left home (enabled k.cpu) (stackLeft a (k.cpu.reg .irq sp))) k := by
  obtain ⟨newVectorTable, irqStack⟩ := a
  refine always_bind ((always_restorePL190State _ (safe_of_low hlow rfl)
    (fun _ h => safe_of_disabled h) (safe_of_disabled rfl)).mono (fun _ h => h) ?_)
  rintro _ _ rfl
  cases newVectorTable with
  | none => exact ⟨safe_of_disabled rfl, rfl, hmode, rfl, rfl, hlow⟩
  | some newVectorTable =>
      refine always_write (safe_of_disabled rfl) ?_
      cases irqStack with
      | none => exact ⟨safe_of_disabled rfl, rfl, hmode, rfl, rfl, hlow⟩
      | some irqStack =>
          refine always_write (safe_of_disabled rfl) ?_
          refine always_bind ((always_setBankedSP ?_ hprivileged (safe_of_disabled rfl)
            (fun _ _ => safe_of_disabled rfl) _ (safe_of_disabled rfl)).mono (fun _ h => h) ?_)
          · exact hmode
          rintro _ _ rfl
          refine always_write (safe_of_disabled rfl) ?_
          refine always_setEVTPosition (safe_of_disabled rfl) .high fun _ hhigh => ?_
          refine always_bind ((always_interrupts rfl hhigh ?_ hprivileged rfl ?_ ?_ ?_).mono
            (fun _ h => h) ?_)
          · exact hmode
          · exact List.mem_cons_of_mem _ List.mem_cons_self
          · exact List.mem_cons_self
          · exact irqSP_set k.cpu _
          rintro _ k' ⟨hdisabled, hmode', hmask, hreg⟩
          refine always_setEVTPosition (safe_of_disabled hdisabled) .low fun _ hback => ?_
          refine always_write (safe_of_disabled hdisabled) ?_
          refine ⟨safe_of_disabled hdisabled, safe_of_disabled hdisabled, hdisabled, hmode', hmask,
            ?_, hback⟩
          exact (congrFun (congrFun hreg .irq) sp).trans (irqSP_set k.cpu _)

/-- And after them, if the controller's destructor cannot let an interrupt in on the wrong
stack. -/
theorem always_main (hwindow : enabled k.cpu = false ∨
      stackLeft a (k.cpu.reg .irq sp) = k.cpu.reg .irq sp ∨ k.sources = 0#32) :
    Always core (Safe l a (k.cpu.reg .irq sp)) (main l a) (fun _ _ => True) k := by
  have hsafe : Safe l a (k.cpu.reg .irq sp) k := safe_of_low hlow rfl
  refine always_bind ((always_saveCPUState hmode hprivileged hsafe
    fun _ hoff => safe_of_masked hoff).mono (fun _ h => h) ?_)
  rintro state k₁ ⟨hstate, hk₁⟩
  rw [hstate, hk₁]
  refine always_bind ((always_savePL190State hsafe).mono (fun _ h => h) ?_)
  rintro oldState k₂ ⟨holdState, hk₂⟩
  rw [holdState, hk₂]
  refine always_bind ((always_body hmode hprivileged hlow).mono (fun _ h => h) ?_)
  rintro _ k' hleft
  have hrestored : Safe l a (k.cpu.reg .irq sp) { k' with registers := k.registers.save.load } := by
    rw [load_save]
    rcases hwindow with hoff | hsame | hnone
    · exact safe_of_masked (hleft.mask.trans hoff)
    · exact safe_of_low hleft.low (hleft.irqSP.trans hsame)
    · exact fun _ hsome => absurd hnone hsome
  refine always_bind ((always_restorePL190State _ (safe_of_disabled hleft.disabled)
    (fun _ h => safe_of_disabled h) hrestored).mono (fun _ h => h) ?_)
  rintro _ _ rfl
  have hvalid : (record k.cpu).cpsr.extractLsb' 0 5 = home.bits := mode_bits hmode
  refine (always_restoreCPUState ?_ hprivileged hrestored (fun _ hoff => safe_of_masked hoff) hvalid
    (safe_of_low hleft.low rfl)).mono (fun _ h => h) fun _ _ _ => trivial
  exact hleft.mode

end Main

/-- `main` comes to the point between its last two destructors. -/
theorem reaches_window (l : Linked) (a : Answers) {m : Machine} {home : Mode}
    (hmode : m.core.cpu.mode = some home) (hprivileged : home ≠ .usr)
    (hlow : m.core.position = .low) :
    ∃ c, Reaches machine ⟨m, main l a⟩ c ∧ c.state.core.sources = m.core.sources ∧
      enabled c.state.core.cpu = enabled m.core.cpu ∧ c.state.core.position = .low ∧
      c.state.core.cpu.reg .irq sp = stackLeft a (m.core.cpu.reg .irq sp) := by
  have hsaveCPU := (always_saveCPUState (I := fun _ => True) hmode hprivileged trivial
    fun _ _ => trivial).ensures
  refine hsaveCPU.reaches_bind fun _ m₁ hm₁ => ?_
  have hsaveVic := (always_savePL190State (I := fun _ => True) (k := m₁.core) trivial).ensures
  refine hsaveVic.reaches_bind fun oldState m₂ hm₂ => ?_
  obtain ⟨-, hcore₁⟩ := hm₁
  obtain ⟨holdState, hcore₂⟩ := hm₂
  have hcore : m₂.core = m.core := hcore₂.trans hcore₁
  have hbody := (always_body (l := l) (a := a) (k := m₂.core) (by rw [hcore]; exact hmode)
    hprivileged (by rw [hcore]; exact hlow)).ensures
  refine hbody.reaches_bind fun _ m₃ hleft => ?_
  have hrestore := (always_restorePL190State (I := fun _ => True) (k := m₃.core) oldState trivial
    (fun _ _ => trivial) trivial).ensures
  refine hrestore.reaches_bind fun _ m₄ hcore₄ => ⟨_, .refl _, ?_⟩
  have hcore₄ : m₄.core = { m₃.core with registers := m.core.registers } := by
    have hload : oldState.load = m.core.registers := by
      rw [holdState, load_save, ← hcore₁]
      rfl
    rw [← hload]
    exact hcore₄
  rw [hcore] at hleft
  rw [hcore₄]
  exact ⟨rfl, hleft.mask, hleft.low, hleft.irqSP⟩

theorem stackLeft_eq_iff {a : Answers} {systemSP : Word}
    (hfresh : ∀ irqStack, a.irqStack = some irqStack → irqStack + 0x1000#32 ≠ systemSP) :
    stackLeft a systemSP = systemSP ↔ a.newVectorTable = none ∨ a.irqStack = none := by
  obtain ⟨newVectorTable, irqStack⟩ := a
  cases newVectorTable with
  | none => exact ⟨fun _ => .inl rfl, fun _ => rfl⟩
  | some newVectorTable =>
      cases irqStack with
      | none => exact ⟨fun _ => .inr rfl, fun _ => rfl⟩
      | some irqStack =>
          exact ⟨fun h => absurd h (hfresh irqStack rfl), fun h => by simp at h⟩

/-- **When every interrupt is served.**  Whatever the lines do before, between and after
the accesses of `main`, each interrupt that is taken finds vectors and stack that belong
together, if and only if interrupts are masked when `main` is called, or an allocation
fails, or the system has no source enabled.  Otherwise one can be taken after `vicEditor`
has given the controller back and before `ckpt` has given the stack pointer back: it runs
on the stack that `main` has freed. -/
theorem served_iff (l : Linked) (a : Answers) (m : Machine) {home : Mode}
    (hmode : m.core.cpu.mode = some home) (hprivileged : home ≠ .usr)
    (hlow : m.core.position = .low)
    (hfresh : ∀ irqStack, a.irqStack = some irqStack →
      irqStack + 0x1000#32 ≠ m.core.cpu.reg .irq sp) :
    (∀ actions, (run (step machine) ⟨m, main l a⟩ actions).state.Taken →
        Served l a (m.core.cpu.reg .irq sp) (run (step machine) ⟨m, main l a⟩ actions).state.core) ↔
      enabled m.core.cpu = false ∨ a.newVectorTable = none ∨ a.irqStack = none ∨
        m.core.sources = 0#32 := by
  have hstack := stackLeft_eq_iff hfresh
  refine ⟨fun hserved => ?_, fun hcondition actions htaken => ?_⟩
  · by_contra hcon
    push Not at hcon
    obtain ⟨hon, htable, hirqStack, hsources⟩ := hcon
    obtain ⟨c, ⟨actions, hrun⟩, hc, henabled, hposition, hirqSP⟩ :=
      reaches_window l a hmode hprivileged hlow
    -- there any lines can go up
    have hsafe : Safe l a (m.core.cpu.reg .irq sp) c.state.core := by
      refine safe_iff.mpr fun lines htaken => ?_
      have hraised := hserved (actions ++ [.env lines])
      rw [run_append, hrun] at hraised
      exact hraised htaken
    rw [← henabled] at hon
    rw [← hc] at hsources
    have hwrong := hsafe (by simpa using hon) hsources
    rw [Served, hposition] at hwrong
    rcases hstack.mp (hirqSP.symm.trans hwrong) with hnone | hnone
    · exact htable hnone
    · exact hirqStack hnone
  · have halways := always_main (l := l) hmode hprivileged hlow (a := a) (by
      rw [hstack]
      tauto)
    exact safe_iff.mp (halways.run actions) _ htaken

/-- A system that has the keypad's interrupt enabled. -/
def keypadMachine : Machine where
  core :=
    { registers := keypadVic.registers
      cpu := (Cpu.ofMode .svc).set .irq sp 0xA4010000#32
      sctlr := 0, table := fun _ => 0, heap := [] }
  lines := 0

/-- There a key can be pressed at the wrong moment. -/
theorem served_iff_keypad :
    ∃ actions, ¬ ((run (step machine) ⟨keypadMachine, main ⟨0x11000000#32, 0x11000100#32⟩
        ⟨some 0x11200000#32, some 0x11300000#32⟩⟩ actions).state.Taken →
      Served ⟨0x11000000#32, 0x11000100#32⟩ ⟨some 0x11200000#32, some 0x11300000#32⟩ 0xA4010000#32
        (run (step machine) ⟨keypadMachine, main ⟨0x11000000#32, 0x11000100#32⟩
          ⟨some 0x11200000#32, some 0x11300000#32⟩⟩ actions).state.core) := by
  rw [← not_forall]
  intro hserved
  have hcondition := (served_iff ⟨0x11000000#32, 0x11000100#32⟩
    ⟨some 0x11200000#32, some 0x11300000#32⟩ keypadMachine
    (show keypadMachine.core.cpu.mode = some .svc from rfl) (by decide) rfl
    (by rintro _ ⟨rfl⟩; decide)).mp hserved
  revert hcondition
  decide

end NspireUtils.Ports.InterruptedMain
