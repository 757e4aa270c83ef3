import NspireUtils.Verified.ArmBanks
import NspireUtils.Verified.Runs

/-!
# `CPU_State`

`SaveCPUState` and `RestoreCPUState` of `platform/CPU.hpp`, block by block: each
inline assembly block switches the mode and touches the registers of the mode it
finds itself in.  What the compiler puts between two blocks is a parameter; it
reaches the unbanked registers and the upper part of the status register.

`switches_saveCPUState` and `switches_restoreCPUState` say what the two functions do,
and that interrupts are disabled from their first switch of the mode to the last;
`CPU_State_Checkpoint` is the subject of `CPUCheckpoint`.
-/

namespace NspireUtils.Ports.CPU

open NspireUtils.Verified.ArmBanks
open NspireUtils.Verified.Runs

/-! ## The blocks -/

/-- `mrs %0, cpsr`. -/
def readCpsr : AsmBlock where
  outputs := [0]
  early := false
  inputs := []
  code := [.mrsCpsr (.op 0)]

/-- The operands are `sp`, `spsr` and `mode`. -/
def saveBank : AsmBlock where
  outputs := [0, 1]
  early := false
  inputs := [2]
  code := [.msrCpsrC (.op 2), .mov (.op 0) .sp, .mrsSpsr (.op 1)]

/-- The operands are `spsr` and `mode`. -/
def saveSpsr : AsmBlock where
  outputs := [0]
  early := false
  inputs := [1]
  code := [.msrCpsrC (.op 1), .mrsSpsr (.op 0)]

/-- `msr cpsr_c, %0`. -/
def writeControl : AsmBlock where
  outputs := []
  early := false
  inputs := [0]
  code := [.msrCpsrC (.op 0)]

/-- The operands are `mode`, `sp` and `spsr`. -/
def restoreBank : AsmBlock where
  outputs := []
  early := false
  inputs := [0, 1, 2]
  code := [.msrCpsrC (.op 0), .mov .sp (.op 1), .msrSpsrCXSF (.op 2)]

/-- The operands are `mode` and `spsr`. -/
def restoreSpsr : AsmBlock where
  outputs := []
  early := false
  inputs := [0, 1]
  code := [.msrCpsrC (.op 0), .msrSpsrCXSF (.op 1)]

/-- `msr cpsr_cxsf, %0`. -/
def writeCpsr : AsmBlock where
  outputs := []
  early := false
  inputs := [0]
  code := [.msrCpsrCXSF (.op 0)]

/-- `(cpsr & ~0x1F) | mode | 0xC0`. -/
def modeCpsr (cpsr : Word) (mode : Mode) : Word :=
  (cpsr &&& ~~~0x1F#32) ||| mode.bits.setWidth 32 ||| 0xC0#32

/-! ## The functions -/

/-- `struct CPU_State`. -/
@[ext]
structure CPUState where
  cpsr : Word
  sp_irq : Word
  sp_fiq : Word
  spsr_irq : Word
  spsr_fiq : Word
  spsr_svc : Word
  deriving Repr, DecidableEq

/-- The blocks of `SaveCPUState`. -/
def saveBlocks : List AsmBlock := [readCpsr, saveBank, saveBank, saveSpsr, writeControl]

/-- The blocks of `RestoreCPUState`. -/
def restoreBlocks : List AsmBlock := [readCpsr, restoreBank, restoreBank, restoreSpsr, writeCpsr]

/-- Saved status and banked registers agree. -/
structure SameRegs (s s' : Cpu) : Prop where
  spsr : s'.spsr = s.spsr
  reg : ∀ b r, 8 ≤ r → s'.reg b r = s.reg b r

/-- So do mode and interrupt masks. -/
structure SameBanks (s s' : Cpu) : Prop extends SameRegs s s' where
  control : s'.cpsr.extractLsb' 0 8 = s.cpsr.extractLsb' 0 8

/-- How the blocks of a function are compiled: the registers of each block's
operands, all of them unbanked, and the code that runs after each block. -/
structure Compiler (blocks : List AsmBlock) where
  alloc : Nat → AsmBlock.Allocation
  low : ∀ k n, alloc k n < 8
  allows : ∀ k (b : AsmBlock), blocks[k]? = some b → ∀ values, b.Allows (alloc k) values
  after : Nat → Cpu → Cpu
  harmless : ∀ k s, SameBanks s (after k s)

/-- The first block of both functions. -/
def readStatus {blocks : List AsmBlock} (c : Compiler blocks) : Asm Word := do
  let out ← readCpsr.asm (c.alloc 0) 0
  compiled (c.after 0)
  return out 0

/-- `SaveCPUState` from the first switch of the mode to the last. -/
def saveBanks (c : Compiler saveBlocks) (original_cpsr : Word) : Asm CPUState := do
  -- switch to IRQ mode with interrupts disabled
  let irq ← saveBank.asm (c.alloc 1) fun _ => modeCpsr original_cpsr .irq
  compiled (c.after 1)
  -- switch to FIQ mode with interrupts disabled
  let fiq ← saveBank.asm (c.alloc 2) fun _ => modeCpsr original_cpsr .fiq
  compiled (c.after 2)
  -- switch to SVC mode with interrupts disabled
  let svc ← saveSpsr.asm (c.alloc 3) fun _ => modeCpsr original_cpsr .svc
  compiled (c.after 3)
  return { cpsr := original_cpsr, sp_irq := irq 0, sp_fiq := fiq 0, spsr_irq := irq 1,
           spsr_fiq := fiq 1, spsr_svc := svc 0 }

/-- The last switch of `SaveCPUState`. -/
def saveDone (c : Compiler saveBlocks) (original_cpsr : Word) (state : CPUState) :
    Asm CPUState := do
  -- restore original CPSR
  let _ ← writeControl.asm (c.alloc 4) fun _ => original_cpsr
  compiled (c.after 4)
  return state

/-- `SaveCPUState`. -/
def saveCPUState (c : Compiler saveBlocks) : Asm CPUState := do
  let original_cpsr ← readStatus c
  let state ← saveBanks c original_cpsr
  saveDone c original_cpsr state

/-- `RestoreCPUState` from the first switch of the mode to the last. -/
def restoreBanks (c : Compiler restoreBlocks) (state : CPUState) (current_cpsr : Word) :
    Asm Unit := do
  -- switch to IRQ mode and restore SP_IRQ and SPSR_IRQ
  let _ ← restoreBank.asm (c.alloc 1) ![modeCpsr current_cpsr .irq, state.sp_irq, state.spsr_irq, 0]
  compiled (c.after 1)
  -- switch to FIQ mode and restore SP_FIQ and SPSR_FIQ
  let _ ← restoreBank.asm (c.alloc 2) ![modeCpsr current_cpsr .fiq, state.sp_fiq, state.spsr_fiq, 0]
  compiled (c.after 2)
  -- switch to SVC mode and restore SPSR_SVC
  let _ ← restoreSpsr.asm (c.alloc 3) ![modeCpsr current_cpsr .svc, state.spsr_svc, 0, 0]
  compiled (c.after 3)

/-- The last switch of `RestoreCPUState`. -/
def restoreDone (c : Compiler restoreBlocks) (state : CPUState) : Asm Unit := do
  -- restore saved CPSR
  let _ ← writeCpsr.asm (c.alloc 4) fun _ => state.cpsr

/-- `RestoreCPUState`. -/
def restoreCPUState (c : Compiler restoreBlocks) (state : CPUState) : Asm Unit := do
  let current_cpsr ← readStatus c
  let _ ← restoreBanks c state current_cpsr
  restoreDone c state

/-! ## Agreement of banks -/

theorem SameRegs.refl (s : Cpu) : SameRegs s s := ⟨rfl, fun _ _ _ => rfl⟩

theorem SameRegs.trans {s s' s'' : Cpu} (h : SameRegs s s') (h' : SameRegs s' s'') :
    SameRegs s s'' :=
  ⟨h'.spsr.trans h.spsr, fun b r hr => (h'.reg b r hr).trans (h.reg b r hr)⟩

/-- A write to an unbanked register. -/
theorem SameRegs.set_low (m : Mode) (s : Cpu) {r : Reg} (hr : r < 8) (value : Word) :
    SameRegs s (s.set m r value) :=
  ⟨rfl, fun b r' hr' => if_neg (by rintro ⟨-, rfl⟩; exact absurd hr (Fin.not_lt.mpr hr'))⟩

namespace SameBanks

theorem refl (s : Cpu) : SameBanks s s := ⟨.refl s, rfl⟩

theorem trans {s s' s'' : Cpu} (h : SameBanks s s') (h' : SameBanks s' s'') : SameBanks s s'' :=
  ⟨h.toSameRegs.trans h'.toSameRegs, h'.control.trans h.control⟩

theorem symm {s s' : Cpu} (h : SameBanks s s') : SameBanks s' s :=
  ⟨⟨h.spsr.symm, fun b r hr => (h.reg b r hr).symm⟩, h.control.symm⟩

theorem mode {s s' : Cpu} (h : SameBanks s s') : s'.mode = s.mode := by
  have hfield : ∀ w : Word, w.extractLsb' 0 5 = (w.extractLsb' 0 8).extractLsb' 0 5 := by
    intro w
    rw [← extract_control 0 (w.extractLsb' 8 24) _ (by omega), psr_extract]
  rw [Cpu.mode, Cpu.mode, hfield, h.control, ← hfield]

theorem masked {s s' : Cpu} (h : SameBanks s s') (hs : s.Masked) : s'.Masked := by
  have hfield : ∀ w : Word, w.extractLsb' 6 2 = (w.extractLsb' 0 8).extractLsb' 6 2 := by
    intro w
    rw [← extract_control 6 (w.extractLsb' 8 24) _ (by omega), psr_extract]
  rw [Cpu.Masked, hfield, h.control, ← hfield]
  exact hs

theorem set_low (m : Mode) (s : Cpu) {r : Reg} (hr : r < 8) (value : Word) :
    SameBanks s (s.set m r value) :=
  ⟨.set_low m s hr value, rfl⟩

theorem load (a : AsmBlock.Allocation) (hlow : ∀ n, a n < 8) (values : Fin 4 → Word) (m : Mode)
    (ns : List (Fin 4)) (s : Cpu) : SameBanks s (AsmBlock.load a values m ns s) := by
  induction ns generalizing s with
  | nil => exact .refl s
  | cons n rest ih => exact (set_low m s (hlow n) _).trans (ih _)

end SameBanks

/-- A state on the way: in the mode the code started in, or with interrupts
disabled. -/
def OnTheWay (home : Mode) (s : Cpu) : Prop := s.mode = some home ∨ s.Masked

/-- A function that switches modes: it is in its home mode up to the first switch,
has interrupts disabled from there to the last, and is in its home mode again. -/
def Switches {α β γ : Type} (home : Mode) (enter : Asm α) (between : α → Asm β)
    (leave : α → β → Asm γ) (Q : γ → Cpu → Prop) (s : Cpu) : Prop :=
  wp (fun t => t.mode = some home) enter
    (fun a s₁ => wp Cpu.Masked (between a)
      (fun b s₂ => wp (fun t => t.mode = some home) (leave a b) Q s₂) s₁) s

/-- So it is in every state on the way. -/
theorem Switches.wp {α β γ : Type} {home : Mode} {enter : Asm α} {between : α → Asm β}
    {leave : α → β → Asm γ} {Q : γ → Cpu → Prop} {s : Cpu}
    (h : Switches home enter between leave Q s) :
    wp (OnTheWay home) (enter >>= fun a => between a >>= fun b => leave a b) Q s := by
  have hhome : ∀ t : Cpu, t.mode = some home → OnTheWay home t := fun _ => .inl
  refine wp_bind ((h.mono fun a s₁ hbetween => ?_).imp hhome)
  refine wp_bind ((hbetween.mono fun b s₂ hleave => ?_).imp fun _ => .inr)
  exact hleave.imp hhome

/-! ## Switching the mode -/

/-- The processor after `msr cpsr_c` with a mode word. -/
def switchTo (s : Cpu) (cpsr : Word) (t : Mode) : Cpu :=
  { s with cpsr := psr (s.cpsr.extractLsb' 8 24) ((modeCpsr cpsr t).extractLsb' 0 8) }

theorem modeCpsr_mode (cpsr : Word) (t : Mode) :
    ((modeCpsr cpsr t).extractLsb' 0 8).extractLsb' 0 5 = t.bits := by
  have hbase : (cpsr &&& ~~~0x1F#32).extractLsb' 0 5 = 0#5 := by
    rw [BitVec.extractLsb'_and]
    have hmask : (~~~0x1F#32 : Word).extractLsb' 0 5 = 0#5 := by decide
    rw [hmask, BitVec.and_zero]
  have hfield : ((modeCpsr cpsr t).extractLsb' 0 8).extractLsb' 0 5 =
      (modeCpsr cpsr t).extractLsb' 0 5 := by
    rw [← extract_control 0 ((modeCpsr cpsr t).extractLsb' 8 24) _ (by omega), psr_extract]
  rw [hfield, modeCpsr, BitVec.extractLsb'_or, BitVec.extractLsb'_or, hbase]
  cases t <;> decide

theorem modeCpsr_masked (cpsr : Word) (t : Mode) :
    ((modeCpsr cpsr t).extractLsb' 0 8).extractLsb' 6 2 = 0b11#2 := by
  have hfield : ((modeCpsr cpsr t).extractLsb' 0 8).extractLsb' 6 2 =
      (modeCpsr cpsr t).extractLsb' 6 2 := by
    rw [← extract_control 6 ((modeCpsr cpsr t).extractLsb' 8 24) _ (by omega), psr_extract]
  have hones : (0xC0#32 : Word).extractLsb' 6 2 = BitVec.allOnes 2 := by decide
  rw [hfield, modeCpsr, BitVec.extractLsb'_or, hones, BitVec.or_allOnes]
  rfl

@[simp] theorem switchTo_mode (s : Cpu) (cpsr : Word) (t : Mode) :
    (switchTo s cpsr t).mode = some t :=
  Cpu.mode_of_control (modeCpsr_mode cpsr t)

@[simp] theorem switchTo_get (s : Cpu) (cpsr : Word) (t m : Mode) (r : Reg) :
    (switchTo s cpsr t).get m r = s.get m r := rfl

theorem switchTo_masked (s : Cpu) (cpsr : Word) (t : Mode) : (switchTo s cpsr t).Masked := by
  rw [Cpu.Masked, switchTo, extract_control 6 _ _ (by omega), modeCpsr_masked]

theorem switchTo_regs (s : Cpu) (cpsr : Word) (t : Mode) : SameRegs s (switchTo s cpsr t) :=
  ⟨rfl, fun _ _ _ => rfl⟩

/-- The first instruction of a block that switches the mode. -/
theorem perform_switch {s : Cpu} {m t : Mode} {r : Reg} {cpsr : Word} (hprivileged : m ≠ .usr)
    (hvalue : s.get m r = modeCpsr cpsr t) :
    perform m s (.msrCpsrC r) = some (switchTo s cpsr t) := by
  rw [perform, hvalue, Cpu.setCpsr_of_privileged hprivileged (modeCpsr_mode cpsr t)]
  rfl

/-! ## What the blocks do -/

section Blocks

variable {a : AsmBlock.Allocation} (hlow : ∀ n, a n < 8) {s : Cpu} {m home : Mode}
  (hmode : s.mode = some m)
include hlow hmode

theorem wp_readCpsr (values : Fin 4 → Word) :
    wp (fun t => t.mode = some m) (readCpsr.asm a values)
      (fun out s' => out 0 = s.cpsr ∧ s'.cpsr = s.cpsr ∧ SameBanks s s') s := by
  have hsame := SameBanks.set_low m s (hlow 0) s.cpsr
  refine AsmBlock.wp_asm hmode (wp_instrs_cons hmode rfl (hsame.mode.trans hmode)
    (wp_instrs_nil ?_))
  refine ⟨m, hsame.mode.trans hmode, ?_, rfl, hsame⟩
  show (s.set m (a 0) s.cpsr).get m (a 0) = s.cpsr
  rw [Cpu.get_set, if_pos ⟨rfl, rfl⟩]

variable (hprivileged : m ≠ .usr)
include hprivileged

/-- The bank's stack pointer and saved status are read. -/
theorem wp_saveBank {cpsr : Word} {t : Mode} (ht : t.bank ≠ .usr)
    (hallows : ∀ values, saveBank.Allows a values) :
    wp Cpu.Masked (saveBank.asm a fun _ => modeCpsr cpsr t)
      (fun out s' => out 0 = s.reg t.bank sp ∧ out 1 = s.spsr t.bank ∧ s'.mode = some t ∧
        s'.Masked ∧ SameRegs s s') s := by
  have hload := SameBanks.load a hlow (fun _ => modeCpsr cpsr t) m saveBank.inputs s
  have hvalue := AsmBlock.load_get (hallows fun _ => modeCpsr cpsr t) m
    (n := 2) (by simp [saveBank]) s
  have hne : a 1 ≠ a 0 := fun h => absurd ((hallows 0).outputs 1 (by simp [saveBank]) 0
    (by simp [saveBank]) h) (by decide)
  apply AsmBlock.wp_asm hmode
  generalize AsmBlock.load a (fun _ => modeCpsr cpsr t) m saveBank.inputs s = s₀ at hload hvalue
  have hmasked := switchTo_masked s₀ cpsr t
  have hmov := SameBanks.set_low t (switchTo s₀ cpsr t) (hlow 0) ((switchTo s₀ cpsr t).get t sp)
  have hmrs := hmov.trans (.set_low t _ (hlow 1) (s₀.spsr t.bank))
  apply wp_instrs_cons (hload.mode.trans hmode) (perform_switch hprivileged hvalue) hmasked
  apply wp_instrs_cons (switchTo_mode _ _ _) rfl (hmov.masked hmasked)
  refine wp_instrs_cons (hmov.mode.trans (switchTo_mode _ _ _)) (if_neg ht)
    (hmrs.masked hmasked) (wp_instrs_nil ?_)
  have hregs := (hload.toSameRegs.trans (switchTo_regs s₀ cpsr t)).trans hmrs.toSameRegs
  refine ⟨t, hmrs.mode.trans (switchTo_mode _ _ _), ?_, ?_, hmrs.mode.trans (switchTo_mode _ _ _),
    hmrs.masked hmasked, hregs⟩
  · show (((switchTo s₀ cpsr t).set t (a 0) ((switchTo s₀ cpsr t).get t sp)).set t (a 1) _).get t
      (a 0) = _
    rw [Cpu.get_set, if_neg (fun h => hne h.2.symm), Cpu.get_set, if_pos ⟨rfl, rfl⟩, Cpu.get,
      bankOf_sp]
    exact hload.reg _ _ (by decide)
  · show (Cpu.set t _ (a 1) (s₀.spsr t.bank)).get t (a 1) = _
    rw [Cpu.get_set, if_pos ⟨rfl, rfl⟩, hload.spsr]

/-- The bank's saved status is read. -/
theorem wp_saveSpsr {cpsr : Word} {t : Mode} (ht : t.bank ≠ .usr)
    (hallows : ∀ values, saveSpsr.Allows a values) :
    wp Cpu.Masked (saveSpsr.asm a fun _ => modeCpsr cpsr t)
      (fun out s' => out 0 = s.spsr t.bank ∧ s'.mode = some t ∧ s'.Masked ∧ SameRegs s s') s := by
  have hload := SameBanks.load a hlow (fun _ => modeCpsr cpsr t) m saveSpsr.inputs s
  have hvalue := AsmBlock.load_get (hallows fun _ => modeCpsr cpsr t) m
    (n := 1) (by simp [saveSpsr]) s
  apply AsmBlock.wp_asm hmode
  generalize AsmBlock.load a (fun _ => modeCpsr cpsr t) m saveSpsr.inputs s = s₀ at hload hvalue
  have hmasked := switchTo_masked s₀ cpsr t
  have hmrs := SameBanks.set_low t (switchTo s₀ cpsr t) (hlow 0) (s₀.spsr t.bank)
  apply wp_instrs_cons (hload.mode.trans hmode) (perform_switch hprivileged hvalue) hmasked
  refine wp_instrs_cons (switchTo_mode _ _ _) (if_neg ht) (hmrs.masked hmasked)
    (wp_instrs_nil ?_)
  refine ⟨t, hmrs.mode.trans (switchTo_mode _ _ _), ?_, hmrs.mode.trans (switchTo_mode _ _ _),
    hmrs.masked hmasked, (hload.toSameRegs.trans (switchTo_regs s₀ cpsr t)).trans hmrs.toSameRegs⟩
  show ((switchTo s₀ cpsr t).set t (a 0) (s₀.spsr t.bank)).get t (a 0) = _
  rw [Cpu.get_set, if_pos ⟨rfl, rfl⟩, hload.spsr]

/-- Mode and interrupt masks are written back. -/
theorem wp_writeControl {cpsr : Word} (hcpsr : cpsr.extractLsb' 0 5 = home.bits)
    (hallows : ∀ values, writeControl.Allows a values) :
    wp (fun t => t.mode = some home) (writeControl.asm a fun _ => cpsr)
      (fun _ s' => s'.cpsr.extractLsb' 0 8 = cpsr.extractLsb' 0 8 ∧ SameRegs s s') s := by
  have hload := SameBanks.load a hlow (fun _ => cpsr) m writeControl.inputs s
  have hvalue := AsmBlock.load_get (hallows fun _ => cpsr) m (n := 0) (by simp [writeControl]) s
  have hcontrol : (cpsr.extractLsb' 0 8).extractLsb' 0 5 = home.bits := by
    rw [← extract_control 0 (cpsr.extractLsb' 8 24) _ (by omega), psr_extract, hcpsr]
  apply AsmBlock.wp_asm hmode
  generalize AsmBlock.load a (fun _ => cpsr) m writeControl.inputs s = s₀ at hload hvalue
  have hback :
      ({ s₀ with cpsr := psr (s₀.cpsr.extractLsb' 8 24) (cpsr.extractLsb' 0 8) } : Cpu).mode =
        some home := Cpu.mode_of_control hcontrol
  refine wp_instrs_cons (hload.mode.trans hmode) ?_ hback (wp_instrs_nil ?_)
  · show Cpu.setCpsr m s₀ _ ((s₀.get m (a 0)).extractLsb' 0 8) = _
    rw [hvalue]
    exact Cpu.setCpsr_of_privileged hprivileged hcontrol
  · refine ⟨home, hback, ?_, hload.spsr, hload.reg⟩
    rw [extract_control 0 _ _ (by omega), BitVec.extractLsb'_eq_self]

/-- The bank's stack pointer and saved status are written. -/
theorem wp_restoreBank {cpsr spValue spsrValue : Word} {t : Mode} (ht : t.bank ≠ .usr)
    (hallows : ∀ values, restoreBank.Allows a values) :
    wp Cpu.Masked (restoreBank.asm a ![modeCpsr cpsr t, spValue, spsrValue, 0])
      (fun _ s' => s'.mode = some t ∧ s'.Masked ∧
        (∀ b r, 8 ≤ r → s'.reg b r = if b = t.bank ∧ r = sp then spValue else s.reg b r) ∧
        ∀ b, s'.spsr b = if b = t.bank then spsrValue else s.spsr b) s := by
  have hload := SameBanks.load a hlow ![modeCpsr cpsr t, spValue, spsrValue, 0] m
    restoreBank.inputs s
  have hvalue : ∀ n ∈ restoreBank.inputs, _ := fun n hn =>
    AsmBlock.load_get (hallows ![modeCpsr cpsr t, spValue, spsrValue, 0]) m hn s
  apply AsmBlock.wp_asm hmode
  generalize AsmBlock.load a ![modeCpsr cpsr t, spValue, spsrValue, 0] m restoreBank.inputs s = s₀
    at hload hvalue
  have hlowGet : ∀ n, s₀.get t (a n) = s₀.get m (a n) := fun n => by
    rw [Cpu.get, Cpu.get, bankOf_low t (hlow n), bankOf_low m (hlow n)]
  have hsp : (switchTo s₀ cpsr t).get t (a 1) = spValue :=
    (hlowGet 1).trans (hvalue 1 (by simp [restoreBank]))
  have hne : a 2 ≠ sp := fun h => absurd (hlow 2) (by rw [h]; decide)
  have hmasked := switchTo_masked s₀ cpsr t
  refine wp_instrs_cons (hload.mode.trans hmode)
    (perform_switch hprivileged (hvalue 0 (by simp [restoreBank]))) hmasked ?_
  have hmov : perform t (switchTo s₀ cpsr t) (.mov sp (a 1)) =
      some ((switchTo s₀ cpsr t).set t sp spValue) := by rw [perform, hsp]
  apply wp_instrs_cons (switchTo_mode _ _ _) hmov hmasked
  have hspsr : ((switchTo s₀ cpsr t).set t sp spValue).get t (a 2) = spsrValue := by
    rw [Cpu.get_set, if_neg fun h => hne h.2]
    exact (hlowGet 2).trans (hvalue 2 (by simp [restoreBank]))
  refine wp_instrs_cons (switchTo_mode _ _ _) (if_neg ht) hmasked (wp_instrs_nil ?_)
  refine ⟨t, switchTo_mode _ _ _, switchTo_mode _ _ _, hmasked, fun b r hr => ?_, fun b => ?_⟩
  · rw [← hload.reg b r hr, ← bankOf_sp t]
    rfl
  · show (if b = t.bank then ((switchTo s₀ cpsr t).set t sp spValue).get t (a 2) else s₀.spsr b) = _
    rw [hspsr, hload.spsr]

/-- The bank's saved status is written. -/
theorem wp_restoreSpsr {cpsr spsrValue : Word} {t : Mode} (ht : t.bank ≠ .usr)
    (hallows : ∀ values, restoreSpsr.Allows a values) :
    wp Cpu.Masked (restoreSpsr.asm a ![modeCpsr cpsr t, spsrValue, 0, 0])
      (fun _ s' => s'.mode = some t ∧ s'.Masked ∧
        (∀ b r, 8 ≤ r → s'.reg b r = s.reg b r) ∧
        ∀ b, s'.spsr b = if b = t.bank then spsrValue else s.spsr b) s := by
  have hload := SameBanks.load a hlow ![modeCpsr cpsr t, spsrValue, 0, 0] m restoreSpsr.inputs s
  have hvalue : ∀ n ∈ restoreSpsr.inputs, _ := fun n hn =>
    AsmBlock.load_get (hallows ![modeCpsr cpsr t, spsrValue, 0, 0]) m hn s
  apply AsmBlock.wp_asm hmode
  generalize AsmBlock.load a ![modeCpsr cpsr t, spsrValue, 0, 0] m restoreSpsr.inputs s = s₀
    at hload hvalue
  have hlowGet : s₀.get t (a 1) = s₀.get m (a 1) := by
    rw [Cpu.get, Cpu.get, bankOf_low t (hlow 1), bankOf_low m (hlow 1)]
  have hspsr : (switchTo s₀ cpsr t).get t (a 1) = spsrValue :=
    hlowGet.trans (hvalue 1 (by simp [restoreSpsr]))
  have hmasked := switchTo_masked s₀ cpsr t
  refine wp_instrs_cons (hload.mode.trans hmode)
    (perform_switch hprivileged (hvalue 0 (by simp [restoreSpsr]))) hmasked ?_
  refine wp_instrs_cons (switchTo_mode _ _ _) (if_neg ht) hmasked (wp_instrs_nil ?_)
  refine ⟨t, switchTo_mode _ _ _, switchTo_mode _ _ _, hmasked, hload.reg, fun b => ?_⟩
  show (if b = t.bank then (switchTo s₀ cpsr t).get t (a 1) else s₀.spsr b) = _
  rw [hspsr, hload.spsr]

/-- The whole status register is written back. -/
theorem wp_writeCpsr {cpsr : Word} (hcpsr : cpsr.extractLsb' 0 5 = home.bits)
    (hallows : ∀ values, writeCpsr.Allows a values) :
    wp (fun t => t.mode = some home) (writeCpsr.asm a fun _ => cpsr)
      (fun _ s' => s'.cpsr = cpsr ∧ SameRegs s s') s := by
  have hload := SameBanks.load a hlow (fun _ => cpsr) m writeCpsr.inputs s
  have hvalue := AsmBlock.load_get (hallows fun _ => cpsr) m (n := 0) (by simp [writeCpsr]) s
  have hcontrol : (cpsr.extractLsb' 0 8).extractLsb' 0 5 = home.bits := by
    rw [← extract_control 0 (cpsr.extractLsb' 8 24) _ (by omega), psr_extract, hcpsr]
  apply AsmBlock.wp_asm hmode
  generalize AsmBlock.load a (fun _ => cpsr) m writeCpsr.inputs s = s₀ at hload hvalue
  have hback : ({ s₀ with cpsr := psr (cpsr.extractLsb' 8 24) (cpsr.extractLsb' 0 8) } : Cpu).mode =
      some home := Cpu.mode_of_control hcontrol
  refine wp_instrs_cons (hload.mode.trans hmode) ?_ hback (wp_instrs_nil ?_)
  · show Cpu.setCpsr m s₀ ((s₀.get m (a 0)).extractLsb' 8 24) ((s₀.get m (a 0)).extractLsb' 0 8) = _
    rw [hvalue]
    exact Cpu.setCpsr_of_privileged hprivileged hcontrol
  · exact ⟨home, hback, psr_extract cpsr, hload.spsr, hload.reg⟩

end Blocks

/-! ## What the functions do -/

/-- What `SaveCPUState` is to return. -/
def record (s : Cpu) : CPUState where
  cpsr := s.cpsr
  sp_irq := s.reg .irq sp
  sp_fiq := s.reg .fiq sp
  spsr_irq := s.spsr .irq
  spsr_fiq := s.spsr .fiq
  spsr_svc := s.spsr .svc

/-- What `RestoreCPUState` is to do: the record's values are back, and nothing
else that is banked changed. -/
structure Restored (state : CPUState) (s s' : Cpu) : Prop where
  cpsr : s'.cpsr = state.cpsr
  sp_irq : s'.reg .irq sp = state.sp_irq
  sp_fiq : s'.reg .fiq sp = state.sp_fiq
  spsr_irq : s'.spsr .irq = state.spsr_irq
  spsr_fiq : s'.spsr .fiq = state.spsr_fiq
  spsr_svc : s'.spsr .svc = state.spsr_svc
  reg : ∀ b r, 8 ≤ r → ¬ (r = sp ∧ (b = .irq ∨ b = .fiq)) → s'.reg b r = s.reg b r
  spsr : ∀ b, b ≠ .irq → b ≠ .fiq → b ≠ .svc → s'.spsr b = s.spsr b

/-- Two such processors agree. -/
theorem Restored.unique {state : CPUState} {s s' s'' : Cpu} (h : Restored state s s')
    (h' : Restored state s s'') : SameBanks s' s'' where
  spsr := by
    funext b
    cases b with
    | irq => exact h'.spsr_irq.trans h.spsr_irq.symm
    | fiq => exact h'.spsr_fiq.trans h.spsr_fiq.symm
    | svc => exact h'.spsr_svc.trans h.spsr_svc.symm
    | _ =>
        rw [h.spsr _ (by decide) (by decide) (by decide),
          h'.spsr _ (by decide) (by decide) (by decide)]
  reg b r hr := by
    by_cases hother : r = sp ∧ (b = .irq ∨ b = .fiq)
    · obtain ⟨rfl, rfl | rfl⟩ := hother
      · exact h'.sp_irq.trans h.sp_irq.symm
      · exact h'.sp_fiq.trans h.sp_fiq.symm
    · rw [h.reg b r hr hother, h'.reg b r hr hother]
  control := by rw [h.cpsr, h'.cpsr]

theorem mode_bits {s : Cpu} {m : Mode} (h : s.mode = some m) : s.cpsr.extractLsb' 0 5 = m.bits := by
  have hfound := List.find?_some h
  simpa [eq_comm] using hfound

/-- The first block reads the status and changes nothing banked. -/
theorem wp_readStatus {blocks : List AsmBlock} (c : Compiler blocks) {s : Cpu} {m : Mode}
    (hmode : s.mode = some m) :
    wp (fun t => t.mode = some m) (readStatus c) (fun cpsr s' => cpsr = s.cpsr ∧ SameBanks s s')
      s := by
  refine wp_bind ((wp_readCpsr (c.low 0) hmode 0).mono ?_)
  rintro out s₁ ⟨hout, -, hs₁⟩
  have hsame := hs₁.trans (c.harmless 0 s₁)
  exact wp_bind (wp_compiled (hsame.mode.trans hmode) (wp_pure ⟨hout, hsame⟩))

/-- Between the switches `SaveCPUState` only reads. -/
theorem wp_saveBanks (c : Compiler saveBlocks) {s : Cpu} {m : Mode} (hmode : s.mode = some m)
    (hprivileged : m ≠ .usr) (cpsr : Word) :
    wp Cpu.Masked (saveBanks c cpsr) (fun state s' => state = { record s with cpsr := cpsr } ∧
      s'.mode = some .svc ∧ SameRegs s s') s := by
  -- IRQ
  refine wp_bind ((wp_saveBank (c.low 1) hmode hprivileged (t := .irq) (by decide)
    (c.allows 1 _ rfl)).mono ?_)
  rintro irq s₂ ⟨hirqSp, hirqSpsr, hs₂mode, hs₂masked, hs₂⟩
  refine wp_bind (wp_compiled ((c.harmless 1 s₂).masked hs₂masked) ?_)
  have hc₂mode := (c.harmless 1 s₂).mode.trans hs₂mode
  have hc₂ := hs₂.trans (c.harmless 1 s₂).toSameRegs
  generalize c.after 1 s₂ = c₂ at hc₂mode hc₂
  -- FIQ
  refine wp_bind ((wp_saveBank (c.low 2) hc₂mode (by decide) (t := .fiq) (by decide)
    (c.allows 2 _ rfl)).mono ?_)
  rintro fiq s₃ ⟨hfiqSp, hfiqSpsr, hs₃mode, hs₃masked, hs₃⟩
  refine wp_bind (wp_compiled ((c.harmless 2 s₃).masked hs₃masked) ?_)
  have hc₃mode := (c.harmless 2 s₃).mode.trans hs₃mode
  have hc₃ := (hc₂.trans hs₃).trans (c.harmless 2 s₃).toSameRegs
  generalize c.after 2 s₃ = c₃ at hc₃mode hc₃
  -- SVC
  refine wp_bind ((wp_saveSpsr (c.low 3) hc₃mode (by decide) (t := .svc) (by decide)
    (c.allows 3 _ rfl)).mono ?_)
  rintro svc s₄ ⟨hsvcSpsr, hs₄mode, hs₄masked, hs₄⟩
  refine wp_bind (wp_compiled ((c.harmless 3 s₄).masked hs₄masked) (wp_pure ?_))
  refine ⟨?_, (c.harmless 3 s₄).mode.trans hs₄mode,
    (hc₃.trans hs₄).trans (c.harmless 3 s₄).toSameRegs⟩
  simp only [record, hirqSp, hirqSpsr, hfiqSp, hfiqSpsr, hsvcSpsr, Mode.bank,
    hc₂.reg _ _ (by decide : (8 : Reg) ≤ sp), hc₂.spsr, hc₃.spsr]

/-- `SaveCPUState` returns the record, leaves the banks alone, and has interrupts
disabled between its switches of the mode. -/
theorem switches_saveCPUState (c : Compiler saveBlocks) {s : Cpu} {m : Mode}
    (hmode : s.mode = some m) (hprivileged : m ≠ .usr) :
    Switches m (readStatus c) (saveBanks c) (saveDone c)
      (fun state s' => state = record s ∧ SameBanks s s') s := by
  refine (wp_readStatus c hmode).mono ?_
  rintro _ s₁ ⟨rfl, hs₁⟩
  refine (wp_saveBanks c (hs₁.mode.trans hmode) hprivileged s.cpsr).mono ?_
  rintro _ s₂ ⟨rfl, hs₂mode, hs₂⟩
  refine wp_bind ((wp_writeControl (c.low 4) hs₂mode (by decide) (mode_bits hmode)
    (c.allows 4 _ rfl)).mono ?_)
  rintro - s₃ ⟨hcontrol, hs₃⟩
  have hback : SameBanks s s₃ := ⟨(hs₁.toSameRegs.trans hs₂).trans hs₃, hcontrol⟩
  have hsame := hback.trans (c.harmless 4 s₃)
  refine wp_bind (wp_compiled (hsame.mode.trans hmode) (wp_pure ⟨?_, hsame⟩))
  simp only [record, hs₁.reg _ _ (by decide : (8 : Reg) ≤ sp), hs₁.spsr]

theorem wp_saveCPUState (c : Compiler saveBlocks) {s : Cpu} {m : Mode} (hmode : s.mode = some m)
    (hprivileged : m ≠ .usr) :
    wp (OnTheWay m) (saveCPUState c) (fun state s' => state = record s ∧ SameBanks s s') s :=
  (switches_saveCPUState c hmode hprivileged).wp

/-- What the banks are between the switches of `RestoreCPUState` and after them. -/
structure Written (state : CPUState) (s s' : Cpu) : Prop where
  reg : ∀ b r, 8 ≤ r → s'.reg b r =
    if b = .fiq ∧ r = sp then state.sp_fiq
    else if b = .irq ∧ r = sp then state.sp_irq else s.reg b r
  spsr : ∀ b, s'.spsr b =
    if b = .svc then state.spsr_svc else if b = .fiq then state.spsr_fiq
    else if b = .irq then state.spsr_irq else s.spsr b

/-- Between the switches `RestoreCPUState` writes the banks. -/
theorem wp_restoreBanks (c : Compiler restoreBlocks) (state : CPUState) {s : Cpu} {m : Mode}
    (hmode : s.mode = some m) (hprivileged : m ≠ .usr) (cpsr : Word) :
    wp Cpu.Masked (restoreBanks c state cpsr)
      (fun _ s' => s'.mode = some .svc ∧ Written state s s') s := by
  -- IRQ
  refine wp_bind ((wp_restoreBank (c.low 1) hmode hprivileged (t := .irq) (by decide)
    (c.allows 1 _ rfl)).mono ?_)
  rintro - s₂ ⟨hs₂mode, hs₂masked, hs₂reg, hs₂spsr⟩
  refine wp_bind (wp_compiled ((c.harmless 1 s₂).masked hs₂masked) ?_)
  have hc₂ := c.harmless 1 s₂
  generalize c.after 1 s₂ = c₂ at hc₂
  -- FIQ
  refine wp_bind ((wp_restoreBank (c.low 2) (hc₂.mode.trans hs₂mode) (by decide) (t := .fiq)
    (by decide) (c.allows 2 _ rfl)).mono ?_)
  rintro - s₃ ⟨hs₃mode, hs₃masked, hs₃reg, hs₃spsr⟩
  refine wp_bind (wp_compiled ((c.harmless 2 s₃).masked hs₃masked) ?_)
  have hc₃ := c.harmless 2 s₃
  generalize c.after 2 s₃ = c₃ at hc₃
  -- SVC
  refine wp_bind ((wp_restoreSpsr (c.low 3) (hc₃.mode.trans hs₃mode) (by decide) (t := .svc)
    (by decide) (c.allows 3 _ rfl)).mono ?_)
  rintro - s₄ ⟨hs₄mode, hs₄masked, hs₄reg, hs₄spsr⟩
  have hc₄ := c.harmless 3 s₄
  refine wp_compiled (hc₄.masked hs₄masked)
    ⟨hc₄.mode.trans hs₄mode, ⟨fun b r hr => ?_, fun b => ?_⟩⟩
  · rw [hc₄.reg b r hr, hs₄reg b r hr, hc₃.reg b r hr, hs₃reg b r hr, hc₂.reg b r hr, hs₂reg b r hr]
    rfl
  · rw [hc₄.spsr, hs₄spsr, hc₃.spsr, hs₃spsr, hc₂.spsr, hs₂spsr]
    rfl

/-- With the status they are the record's. -/
theorem Written.restored {state : CPUState} {s s' : Cpu} (h : Written state s s')
    (hcpsr : s'.cpsr = state.cpsr) : Restored state s s' where
  cpsr := hcpsr
  sp_irq := h.reg _ _ (by decide)
  sp_fiq := h.reg _ _ (by decide)
  spsr_irq := h.spsr _
  spsr_fiq := h.spsr _
  spsr_svc := h.spsr _
  reg b r hr hne := by
    rw [h.reg b r hr, if_neg fun h => hne ⟨h.2, .inr h.1⟩, if_neg fun h => hne ⟨h.2, .inl h.1⟩]
  spsr b hirq hfiq hsvc := by rw [h.spsr, if_neg hsvc, if_neg hfiq, if_neg hirq]

theorem Written.congr {state : CPUState} {s₀ s s' s₁ : Cpu} (h : Written state s s')
    (hbefore : SameRegs s₀ s) (hafter : SameRegs s' s₁) : Written state s₀ s₁ where
  reg b r hr := by rw [hafter.reg b r hr, h.reg b r hr, hbefore.reg b r hr]
  spsr b := by rw [hafter.spsr, h.spsr, hbefore.spsr]

/-- `RestoreCPUState` brings the record back, changes nothing else, and has interrupts
disabled between its switches of the mode. -/
theorem switches_restoreCPUState (c : Compiler restoreBlocks) {state : CPUState} {s : Cpu}
    {m : Mode} (hmode : s.mode = some m) (hprivileged : m ≠ .usr)
    (hstate : state.cpsr.extractLsb' 0 5 = m.bits) :
    Switches m (readStatus c) (restoreBanks c state) (fun _ _ => restoreDone c state)
      (fun _ s' => Restored state s s') s := by
  refine (wp_readStatus c hmode).mono ?_
  rintro cpsr s₁ ⟨-, hs₁⟩
  refine (wp_restoreBanks c state (hs₁.mode.trans hmode) hprivileged cpsr).mono ?_
  rintro - s₂ ⟨hs₂mode, hs₂⟩
  refine wp_bind ((wp_writeCpsr (c.low 4) hs₂mode (by decide) hstate (c.allows 4 _ rfl)).mono ?_)
  rintro - s₃ ⟨hcpsr, hs₃⟩
  exact wp_pure ((hs₂.congr hs₁.toSameRegs hs₃).restored hcpsr)

theorem wp_restoreCPUState (c : Compiler restoreBlocks) {state : CPUState} {s : Cpu} {m : Mode}
    (hmode : s.mode = some m) (hprivileged : m ≠ .usr)
    (hstate : state.cpsr.extractLsb' 0 5 = m.bits) :
    wp (OnTheWay m) (restoreCPUState c state) (fun _ s' => Restored state s s') s :=
  (switches_restoreCPUState c hmode hprivileged hstate).wp

end NspireUtils.Ports.CPU
