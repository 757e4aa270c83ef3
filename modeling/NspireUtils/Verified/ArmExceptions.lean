import NspireUtils.Verified.ArmBanks
import NspireUtils.Verified.WordStores

/-!
# Taking an interrupt and returning from it

An ARM processor with banked registers, memory and a device, that takes interrupts
between two instructions.  Code is given instruction by instruction at its addresses;
a function outside the code runs from its call to its return.  A run is a list of
events, each an interrupt or an instruction, and each instruction says whether an
interrupt could have come before it.
-/

namespace NspireUtils.Verified.ArmExceptions

open NspireUtils.Verified.ArmBanks
open NspireUtils.Verified.ByteMemory (Memory readWord writeWord)
open NspireUtils.Verified.WordStores

/-- `r14`. -/
abbrev lr : Reg := 14

inductive Instr where
  | status (i : ArmBanks.Instr Reg)
  /-- `sub rd, rn, #imm` -/
  | sub (d n : Reg) (imm : Word)
  /-- `ldr rd, =value` -/
  | ldrValue (d : Reg) (value : Word)
  /-- `ldr pc, [pc, #offset]` -/
  | ldrPcLiteral (offset : Word)
  /-- `ldr pc, [rn, #offset]` -/
  | ldrPc (n : Reg) (offset : Word)
  /-- `str rd, [rn, #offset]` -/
  | str (d n : Reg) (offset : Word)
  /-- `stmfd sp!, {…}` -/
  | stmfd (rs : List Reg)
  /-- `ldmfd sp!, {…}` -/
  | ldmfd (rs : List Reg)
  | bl (target : Word)
  /-- `movs pc, lr` -/
  | movsPcLr
  deriving Repr, DecidableEq

/-- The processor, memory and the device. -/
@[ext]
structure State (δ : Type) where
  cpu : Cpu
  pc : Word
  mem : Memory
  device : δ

/-- What is outside: the code, functions by their addresses, the registers of the
device, and where interrupts go. -/
structure Platform (δ : Type) where
  code : Word → Option Instr
  functions : Word → Option (State δ → State δ)
  read : δ → Word → Option (Word × δ)
  write : δ → Word → Word → Option δ
  irqVector : Word

variable {δ : Type}

/-! ## The stack of a mode -/

/-- The registers get the words. -/
def loadAll (m : Mode) : List (Reg × Word) → Cpu → Cpu
  | [], s => s
  | (r, value) :: rest, s => loadAll m rest (s.set m r value)

/-- The registers go below the stack pointer, the first of them at the lowest address. -/
def push (m : Mode) (rs : List Reg) (s : State δ) : State δ :=
  let base := s.cpu.get m sp - BitVec.ofNat 32 (4 * rs.length)
  { s with
    cpu := s.cpu.set m sp base
    mem := putAll s.mem ((addresses base.toNat rs.length).zip (rs.map (s.cpu.get m))) }

/-- The registers come from above the stack pointer. -/
def pop (m : Mode) (rs : List Reg) (s : State δ) : State δ :=
  let base := s.cpu.get m sp
  { s with
    cpu := (loadAll m (rs.zip (readWords s.mem base.toNat rs.length)) s.cpu).set m sp
      (base + BitVec.ofNat 32 (4 * rs.length)) }

/-! ## Instructions and interrupts -/

/-- The program counter on the next instruction. -/
def State.next (s : State δ) : State δ := { s with pc := s.pc + 4#32 }

@[simp] theorem State.next_cpu (s : State δ) : s.next.cpu = s.cpu := rfl

@[simp] theorem State.next_pc (s : State δ) : s.next.pc = s.pc + 4#32 := rfl

@[simp] theorem State.next_mem (s : State δ) : s.next.mem = s.mem := rfl

@[simp] theorem State.next_device (s : State δ) : s.next.device = s.device := rfl

/-- One instruction in a mode. -/
def execute (P : Platform δ) (m : Mode) (s : State δ) : Instr → Option (State δ)
  | .status i => (perform m s.cpu i).map fun cpu => { s.next with cpu }
  | .sub d n imm => some { s.next with cpu := s.cpu.set m d (s.cpu.get m n - imm) }
  | .ldrValue d value => some { s.next with cpu := s.cpu.set m d value }
  | .ldrPcLiteral offset => some { s with pc := readWord s.mem (s.pc + 8#32 + offset).toNat }
  | .ldrPc n offset =>
      match P.read s.device (s.cpu.get m n + offset) with
      | some (value, device) => some { s with pc := value, device }
      | none => some { s with pc := readWord s.mem (s.cpu.get m n + offset).toNat }
  | .str d n offset =>
      match P.write s.device (s.cpu.get m n + offset) (s.cpu.get m d) with
      | some device => some { s.next with device }
      | none =>
          some { s.next with
            mem := writeWord s.mem (s.cpu.get m n + offset).toNat (s.cpu.get m d) }
  | .stmfd rs => some (push m rs s).next
  | .ldmfd rs => some (pop m rs s).next
  | .bl target =>
      let called := { s with cpu := s.cpu.set m lr (s.pc + 4#32) }
      match P.functions target with
      | some f => some { f called with pc := s.pc + 4#32 }
      | none => some { called with pc := target }
  | .movsPcLr =>
      let cpsr := s.cpu.spsr m.bank
      if m.bank = .usr ∨ (Mode.ofBits (cpsr.extractLsb' 0 5)).isNone then none
      else some { s with cpu := { s.cpu with cpsr }, pc := s.cpu.get m lr }

/-- Interrupts are enabled. -/
def interruptible (s : Cpu) : Bool := !s.cpsr.getLsbD 7

/-- The control byte of an interrupt handler: IRQ mode and no further interrupts. -/
def irqControl (control : BitVec 8) : BitVec 8 := (control &&& 0x40#8) ||| 0x92#8

/-- An interrupt is taken: status and return address are saved in the bank of its mode. -/
def takeIrq (P : Platform δ) (s : State δ) : State δ :=
  { s with
    cpu := Cpu.set .irq
      { s.cpu with
        cpsr := psr (s.cpu.cpsr.extractLsb' 8 24) (irqControl (s.cpu.cpsr.extractLsb' 0 8))
        spsr := Function.update s.cpu.spsr .irq s.cpu.cpsr }
      lr (s.pc + 4#32)
    pc := P.irqVector }

/-- An interrupt, of which the device knows more, or an instruction before which one
could have come or not. -/
inductive Event (δ : Type) where
  | irq (arrive : δ → δ)
  | instr (enabled : Bool)

/-- One event, if it can happen. -/
def step (P : Platform δ) (s : State δ) : Event δ → Option (State δ)
  | .irq arrive =>
      if interruptible s.cpu then some (takeIrq P { s with device := arrive s.device }) else none
  | .instr enabled =>
      if interruptible s.cpu = enabled then
        (P.code s.pc).bind fun i => s.cpu.mode.bind fun m => execute P m s i
      else none

/-- One event after the other. -/
def run (P : Platform δ) : List (Event δ) → State δ → Option (State δ)
  | [], s => some s
  | e :: rest, s => (step P s e).bind (run P rest)

variable {P : Platform δ}

theorem run_append (xs ys : List (Event δ)) (s : State δ) :
    run P (xs ++ ys) s = (run P xs s).bind (run P ys) := by
  induction xs generalizing s with
  | nil => rfl
  | cons e rest ih =>
      rw [List.cons_append, run, run, Option.bind_assoc]
      exact Option.bind_congr fun t _ => ih t

theorem run_cons {e : Event δ} {s t : State δ} (hstep : step P s e = some t)
    (rest : List (Event δ)) : run P (e :: rest) s = run P rest t := by
  rw [run, hstep, Option.bind_some]

theorem step_instr {s : State δ} {enabled : Bool} {i : Instr} {m : Mode}
    (henabled : interruptible s.cpu = enabled) (hcode : P.code s.pc = some i)
    (hmode : s.cpu.mode = some m) : step P s (.instr enabled) = execute P m s i := by
  rw [step, if_pos henabled, hcode, Option.bind_some, hmode, Option.bind_some]

theorem step_irq {s : State δ} (h : interruptible s.cpu = true) (arrive : δ → δ) :
    step P s (.irq arrive) = some (takeIrq P { s with device := arrive s.device }) :=
  if_pos h

/-! ## What loading and storing do -/

/-- Registers outside the list keep their values, in every bank. -/
theorem loadAll_reg (m : Mode) (rs : List Reg) (f : Reg → Word) (s : Cpu) (b : Bank) (r : Reg) :
    (loadAll m (rs.zip (rs.map f)) s).reg b r =
      if b = bankOf m r ∧ r ∈ rs then f r else s.reg b r := by
  induction rs generalizing s with
  | nil => simp [loadAll]
  | cons a rest ih =>
      rw [List.map_cons, List.zip_cons_cons, loadAll, ih, Cpu.set_reg]
      by_cases hr : r = a
      · subst hr
        by_cases hb : b = bankOf m r <;> simp [hb]
      · simp [hr]

@[simp] theorem loadAll_cpsr (m : Mode) (ps : List (Reg × Word)) (s : Cpu) :
    (loadAll m ps s).cpsr = s.cpsr := by
  induction ps generalizing s with
  | nil => rfl
  | cons p rest ih => exact ih _

@[simp] theorem loadAll_spsr (m : Mode) (ps : List (Reg × Word)) (s : Cpu) :
    (loadAll m ps s).spsr = s.spsr := by
  induction ps generalizing s with
  | nil => rfl
  | cons p rest ih => exact ih _

section Stack

variable (m : Mode) (rs : List Reg) (s : State δ)

@[simp] theorem push_pc : (push m rs s).pc = s.pc := rfl

@[simp] theorem push_device : (push m rs s).device = s.device := rfl

@[simp] theorem push_cpsr : (push m rs s).cpu.cpsr = s.cpu.cpsr := rfl

@[simp] theorem push_spsr : (push m rs s).cpu.spsr = s.cpu.spsr := rfl

theorem push_sp : (push m rs s).cpu.get m sp = s.cpu.get m sp - BitVec.ofNat 32 (4 * rs.length) :=
  Cpu.get_set_self ..

/-- Only the stack pointer changes. -/
theorem push_reg {b : Bank} {r : Reg} (h : ¬ (b = m.bank ∧ r = sp)) :
    (push m rs s).cpu.reg b r = s.cpu.reg b r := by
  rw [← bankOf_sp m] at h
  exact if_neg h

variable {rs s}

/-- With room below, the stack pointer goes down. -/
theorem push_sp_toNat (hroom : 4 * rs.length ≤ (s.cpu.get m sp).toNat) :
    ((push m rs s).cpu.get m sp).toNat = (s.cpu.get m sp).toNat - 4 * rs.length := by
  have hlt := (s.cpu.get m sp).isLt
  rw [push_sp, BitVec.toNat_sub_of_le]
  · rw [BitVec.toNat_ofNat, Nat.mod_eq_of_lt (by omega)]
  · rw [BitVec.le_def, BitVec.toNat_ofNat, Nat.mod_eq_of_lt (by omega)]
    exact hroom

/-- The words pushed are the registers. -/
theorem readWords_push :
    readWords (push m rs s).mem ((push m rs s).cpu.get m sp).toNat rs.length =
      rs.map (s.cpu.get m) := by
  rw [push_sp]
  exact readAll_written (by simp) (pairwise_addresses _ _) s.mem

/-- Nothing else is written. -/
theorem push_mem {x : Nat} (h : x < ((push m rs s).cpu.get m sp).toNat ∨
    ((push m rs s).cpu.get m sp).toNat + 4 * rs.length ≤ x) : (push m rs s).mem x = s.mem x := by
  rw [push_sp] at h
  refine putAll_of_outside s.mem _ fun p hp => ?_
  have hbounds := mem_addresses (List.of_mem_zip hp).1
  omega

/-- Popping words that were saved from registers. -/
theorem pop_reg {f : Reg → Word}
    (hsaved : readWords s.mem (s.cpu.get m sp).toNat rs.length = rs.map f) (hsp : sp ∉ rs)
    (b : Bank) (r : Reg) :
    (pop m rs s).cpu.reg b r =
      if b = m.bank ∧ r = sp then s.cpu.get m sp + BitVec.ofNat 32 (4 * rs.length)
      else if b = bankOf m r ∧ r ∈ rs then f r else s.cpu.reg b r := by
  rw [pop, hsaved]
  by_cases hr : r = sp
  · subst hr
    simp only [Cpu.set_reg, loadAll_reg, bankOf_sp, hsp, and_true, and_false, if_false]
  · simp only [Cpu.set_reg, loadAll_reg, hr, and_false, if_false]

variable (rs s)

@[simp] theorem pop_pc : (pop m rs s).pc = s.pc := rfl

@[simp] theorem pop_device : (pop m rs s).device = s.device := rfl

@[simp] theorem pop_mem : (pop m rs s).mem = s.mem := rfl

@[simp] theorem pop_cpsr : (pop m rs s).cpu.cpsr = s.cpu.cpsr := by simp [pop]

@[simp] theorem pop_spsr : (pop m rs s).cpu.spsr = s.cpu.spsr := by simp [pop]

end Stack

/-! ## The handler's status -/

theorem irqControl_mode (control : BitVec 8) :
    (irqControl control).extractLsb' 0 5 = Mode.irq.bits := by
  revert control
  decide

theorem irqControl_masked (control : BitVec 8) : (irqControl control).getLsbD 7 = true := by
  revert control
  decide

theorem interruptible_psr (s : Cpu) (high : BitVec 24) (control : BitVec 8) :
    interruptible { s with cpsr := psr high control } = !control.getLsbD 7 := by
  have hbit : (psr high control).getLsbD 7 = (high ++ control).getLsbD 7 := rfl
  rw [interruptible, hbit, BitVec.getLsbD_append, if_pos (by omega)]

theorem takeIrq_masked (s : State δ) : interruptible (takeIrq P s).cpu = false := by
  have hmasked := interruptible_psr s.cpu (s.cpu.cpsr.extractLsb' 8 24)
    (irqControl (s.cpu.cpsr.extractLsb' 0 8))
  rwa [irqControl_masked] at hmasked

theorem takeIrq_mode (s : State δ) : (takeIrq P s).cpu.mode = some .irq :=
  @Cpu.mode_of_control s.cpu _ _ _ (irqControl_mode _)

/-- The status of what was interrupted. -/
theorem takeIrq_spsr (s : State δ) : (takeIrq P s).cpu.spsr .irq = s.cpu.cpsr := by
  simp only [takeIrq, Cpu.set_spsr, Function.update_self]

theorem takeIrq_spsr_of_ne (s : State δ) {b : Bank} (h : b ≠ .irq) :
    (takeIrq P s).cpu.spsr b = s.cpu.spsr b := by
  simp only [takeIrq, Cpu.set_spsr, Function.update_of_ne h]

end NspireUtils.Verified.ArmExceptions
