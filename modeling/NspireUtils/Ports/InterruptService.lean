import NspireUtils.Ports.InterruptMask
import NspireUtils.Verified.ArmExceptions

/-!
# The interrupt service of `handleIRQ.S`

The vector jumps to `handleIRQ`, which jumps to the address the interrupt controller
answers with, `Timer_ISR` or `Timer_ISR2`.  `Timer_ISR` enables interrupts around
`HandleTimer1`, in interrupt mode, so services nest.  A nest of services says where
each service was interrupted and by which services in turn.

Interrupts stay enabled while `HandleTimer1` runs, and a service there takes `r0` and
the link register from it: before its first instruction it takes the return address
(`return_address_lost`).  What becomes of the function then depends on its code, so
the nests here have no service between its call and its return.

`Held` is what is true from the moment the context is on the stack until it is taken
off again.  `nested_service` is the theorem: a nest with none in `HandleTimer1` runs to
its end exactly when no service interrupts another between the read of the status
register and its write.
-/

namespace NspireUtils.Ports.InterruptService

open NspireUtils.Verified.ArmBanks (Word Reg Mode Bank Cpu sp psr bankOf)
open NspireUtils.Verified.ByteMemory (Memory readWord writeWord readWord_congr
  readWord_writeWord_self)
open NspireUtils.Verified.WordStores
open NspireUtils.Verified.ArmExceptions
open NspireUtils.Ports.CPU (mode_bits)
open NspireUtils.Ports.InterruptMask (masked getLsbD_masked masked_field field_ext
  getLsbD_of_control control_mode withControl)

/-! ## The code -/

/-- `exception_vector_jump`. -/
def exceptionVectorJump : Instr := .ldrPcLiteral 0x0F8

def handleIRQ : List Instr := [.ldrValue 0 0xDC000000, .ldrPc 0 0x30]

/-- `{r0-r12, lr}`. -/
def context : List Reg := [0, 1, 2, 3, 4, 5, 6, 7, 8, 9, 10, 11, 12, lr]

/-- Adjust `lr`, save the registers and `spsr`. -/
def saveContext : List Instr :=
  [.sub lr lr 4, .stmfd context, .status (.mrsSpsr 1), .stmfd [1]]

/-- Restore `spsr` and the registers, signal the end to the controller, return. -/
def restoreContext : List Instr :=
  [.ldmfd [1], .status (.msrSpsrCXSF 1), .ldmfd context, .ldrValue 0 0xDC000000,
    .str 0 0 0x30, .movsPcLr]

/-- `Timer_ISR`. -/
def timerISR (handleTimer1 : Word) : List Instr :=
  saveContext ++
    [.status (.mrsCpsr 0), .status (.bicImm 0 0 0x80), .status (.msrCpsrC 0),
      .bl handleTimer1,
      .status (.mrsCpsr 0), .status (.orrImm 0 0 0x80), .status (.msrCpsrC 0)] ++
    restoreContext

/-- `Timer_ISR2`. -/
def timerISR2 (handleTimer1 : Word) : List Instr :=
  saveContext ++ [.bl handleTimer1] ++ restoreContext

/-- The section after the vector's template. -/
def text (handleTimer1 : Word) : List Instr :=
  handleIRQ ++ timerISR handleTimer1 ++ timerISR2 handleTimer1

/-- The interrupt controller: the address it answers with, and how many services it
has started and not seen the end of. -/
structure Vic where
  vectAddr : Word
  inService : Nat
  deriving Repr, DecidableEq

/-- The code at `base`, the vector of high exception vectors, and the controller's
`VICVectAddr`: a read starts a service, a write ends it. -/
def platform (base handleTimer1 : Word) (f : State Vic → State Vic) : Platform Vic where
  code pc :=
    if pc = 0xFFFF0018 then some exceptionVectorJump
    else if (pc - base).toNat % 4 = 0 then (text handleTimer1)[(pc - base).toNat / 4]?
    else none
  functions a := if a = handleTimer1 then some f else none
  read d a :=
    if a = 0xDC000030 then some (d.vectAddr, { d with inService := d.inService + 1 }) else none
  write d a _ :=
    if a = 0xDC000030 then some { d with inService := d.inService - 1 } else none
  irqVector := 0xFFFF0018

/-- The `i`th instruction's address. -/
def address (base : Word) (i : Nat) : Word := base + BitVec.ofNat 32 (4 * i)

/-! ## Nests of services -/

/-- The services that come one after the other at a point where interrupts are enabled.
`timerISR` says what came in the four places of its own code where it has them enabled:
before the call, after it, after the read of the status register and after the `orr`.
None comes while `HandleTimer1` runs. -/
inductive Services where
  | none
  | timerISR2 (rest : Services)
  | timerISR (enabled called read masked rest : Services)
  deriving Repr, DecidableEq

namespace Services

/-- An interrupt with this service. -/
def arrive (isr : Word) : Event Vic := .irq fun d => { d with vectAddr := isr }

/-- What happens. -/
def events (base : Word) : Services → List (Event Vic)
  | none => []
  | timerISR2 rest =>
      arrive (address base 19) :: List.replicate 14 (.instr false) ++ rest.events base
  | timerISR enabled called read masked rest =>
      arrive (address base 2) :: List.replicate 10 (.instr false) ++
        (enabled.events base ++ .instr true ::
          (called.events base ++ .instr true ::
            (read.events base ++ .instr true ::
              (masked.events base ++ .instr true ::
                (List.replicate 6 (.instr false) ++ rest.events base)))))

/-- No service comes between the read of the status register and its write. -/
def Completes : Services → Prop
  | none => True
  | timerISR2 rest => rest.Completes
  | timerISR enabled called read masked rest =>
      enabled.Completes ∧ called.Completes ∧ read = none ∧ masked = none ∧ rest.Completes

/-- How many contexts are on the stack at most. -/
def depth : Services → Nat
  | none => 0
  | timerISR2 rest => max 1 rest.depth
  | timerISR enabled called read masked rest =>
      max (1 + max (max enabled.depth called.depth) (max read.depth masked.depth)) rest.depth

end Services

/-! ## What a service needs and what it leaves -/

/-- The interrupt stack. -/
structure Stack where
  bottom : Nat
  top : Nat

/-- The stack pointer of interrupt mode. -/
def irqSp (s : State Vic) : Nat := (s.cpu.reg .irq sp).toNat

/-- The registers of other modes, the stack from the stack pointer on, the handler's
address and the controller are as they were. -/
structure Kept (stack : Stack) (s t : State Vic) : Prop where
  reg : ∀ b r, (b ≠ .usr ∨ 13 ≤ r) → ¬ (b = .irq ∧ r = lr) → t.cpu.reg b r = s.cpu.reg b r
  spsr : ∀ b, b ≠ .irq → t.cpu.spsr b = s.cpu.spsr b
  frames : ∀ x, irqSp s ≤ x → x < stack.top → t.mem x = s.mem x
  vector : ∀ x, 0xFFFF0118 ≤ x → x < 0xFFFF011C → t.mem x = s.mem x
  inService : t.device.inService = s.device.inService

/-- A function that can be called in interrupt mode, if no interrupt comes before it
returns. -/
structure Conforms (stack : Stack) (f : State Vic → State Vic) : Prop where
  control : ∀ s, (f s).cpu.cpsr.extractLsb' 0 8 = s.cpu.cpsr.extractLsb' 0 8
  kept : ∀ s, stack.bottom ≤ irqSp s → Kept stack s (f s)

/-- A state in which so many nested services can run. -/
structure Ready (base : Word) (stack : Stack) (depth : Nat) (s : State Vic) : Prop where
  enabled : interruptible s.cpu = true
  mode : s.cpu.mode.isSome
  room : stack.bottom + 60 * depth ≤ irqSp s
  below : irqSp s ≤ stack.top
  vector : readWord s.mem 0xFFFF0118 = base

/-- The program goes on where it was interrupted, in the mode it had, with its
registers but `r0`. -/
structure Returned (stack : Stack) (s t : State Vic) : Prop extends Kept stack s t where
  pc : t.pc = s.pc
  cpsr : t.cpu.cpsr = s.cpu.cpsr
  low : ∀ r, r ≠ 0 → t.cpu.reg .usr r = s.cpu.reg .usr r

/-- What an interrupt costs the interrupted program. -/
structure Clobbered (s t : State Vic) : Prop where
  r0 : t.cpu.reg .usr 0 = 0xDC000000
  lr : t.cpu.reg .irq lr = s.pc
  spsr : t.cpu.spsr .irq = s.cpu.cpsr

/-- How a nest ends. -/
inductive Outcome (stack : Stack) (x : Services) (s : State Vic) : Option (State Vic) → Prop
  | completed {t : State Vic} (hcompletes : x.Completes) (hreturned : Returned stack s t)
      (hclobbered : x ≠ .none → Clobbered s t) : Outcome stack x s (some t)
  | stuck (hstuck : ¬ x.Completes) : Outcome stack x s none

/-! ## One instruction after the other -/

section Run

variable {base handleTimer1 : Word} {f : State Vic → State Vic}

/-- The code of interrupt mode, with interrupts enabled or not. -/
structure Running (enabled : Bool) (s : State Vic) : Prop where
  mode : s.cpu.mode = some .irq
  irqs : interruptible s.cpu = enabled

theorem Running.congr {enabled : Bool} {s t : State Vic} (h : Running enabled s)
    (hcpsr : t.cpu.cpsr = s.cpu.cpsr) : Running enabled t where
  mode := by rw [← h.mode, Cpu.mode, Cpu.mode, hcpsr]
  irqs := by rw [← h.irqs, interruptible, interruptible, hcpsr]

theorem address_zero : address base 0 = base := BitVec.add_zero base

theorem address_next (i : Nat) : address base i + 4#32 = address base (i + 1) := by
  rw [address, address, BitVec.add_assoc, ← BitVec.ofNat_add, Nat.mul_succ]

theorem code_vector :
    (platform base handleTimer1 f).code 0xFFFF0018 = some exceptionVectorJump := by
  simp only [platform, if_true]

/-- The image does not reach the vectors. -/
theorem code_address (hbase : base.toNat + 120 ≤ 0xFFFF0018) {i : Nat} (hi : i < 30) :
    (platform base handleTimer1 f).code (address base i) = (text handleTimer1)[i]? := by
  have hoffset : (address base i - base).toNat = 4 * i := by
    rw [address, BitVec.add_comm, BitVec.add_sub_cancel, BitVec.toNat_ofNat,
      Nat.mod_eq_of_lt (by omega)]
  have hne : address base i ≠ 0xFFFF0018 := by
    intro heq
    have hnat := congrArg BitVec.toNat heq
    rw [address, BitVec.toNat_add, BitVec.toNat_ofNat, Nat.mod_eq_of_lt (by omega),
      Nat.mod_eq_of_lt (by omega)] at hnat
    change base.toNat + 4 * i = 0xFFFF0018 at hnat
    omega
  simp only [platform]
  rw [if_neg hne, hoffset, if_pos (Nat.mul_mod_right 4 i), Nat.mul_div_cancel_left i (by omega)]

/-- One instruction of the code. -/
theorem Running.run_cons {enabled : Bool} {s t : State Vic} (h : Running enabled s)
    (hbase : base.toNat + 120 ≤ 0xFFFF0018) {i : Nat} {instr : Instr}
    (hpc : s.pc = address base i) (hi : (text handleTimer1)[i]? = some instr)
    (hexec : execute (platform base handleTimer1 f) .irq s instr = some t)
    (rest : List (Event Vic)) :
    run (platform base handleTimer1 f) (.instr enabled :: rest) s =
      run (platform base handleTimer1 f) rest t := by
  have hlt : i < 30 := (List.getElem?_eq_some_iff.mp hi).1
  refine Verified.ArmExceptions.run_cons ?_ rest
  rw [step_instr h.irqs (by rw [hpc, code_address hbase hlt, hi]) h.mode, hexec]

/-- An instruction without a result. -/
theorem Running.run_stuck {enabled : Bool} {s : State Vic} (h : Running enabled s)
    (hbase : base.toNat + 120 ≤ 0xFFFF0018) {i : Nat} {instr : Instr}
    (hpc : s.pc = address base i) (hi : (text handleTimer1)[i]? = some instr)
    (hexec : execute (platform base handleTimer1 f) .irq s instr = none)
    (rest : List (Event Vic)) :
    run (platform base handleTimer1 f) (.instr enabled :: rest) s = none := by
  have hlt : i < 30 := (List.getElem?_eq_some_iff.mp hi).1
  rw [run, step_instr h.irqs (by rw [hpc, code_address hbase hlt, hi]) h.mode, hexec,
    Option.bind_none]

end Run

/-! ## The context on the stack -/

/-- What the context has for a register: `handleIRQ` has used `r0`. -/
def saved (s : State Vic) (r : Reg) : Word :=
  if r = 0 then 0xDC000000 else if r = lr then s.pc else s.cpu.reg .usr r

/-- The context of `s` is on the stack, and what is not in it is as it was. -/
structure Held (stack : Stack) (s t : State Vic) : Prop where
  stackPointer : t.cpu.reg .irq sp = s.cpu.reg .irq sp - 60#32
  context : readWords t.mem (irqSp s - 60) 15 = s.cpu.cpsr :: context.map (saved s)
  reg : ∀ b r, (b ≠ .usr ∨ 13 ≤ r) → ¬ (b = .irq ∧ (r = 13 ∨ r = lr)) →
    t.cpu.reg b r = s.cpu.reg b r
  spsr : ∀ b, b ≠ .irq → t.cpu.spsr b = s.cpu.spsr b
  frames : ∀ x, irqSp s ≤ x → x < stack.top → t.mem x = s.mem x
  vector : ∀ x, 0xFFFF0118 ≤ x → x < 0xFFFF011C → t.mem x = s.mem x
  inService : t.device.inService = s.device.inService + 1

/-- The processor when `handleIRQ` has jumped. -/
def answered (P : Platform Vic) (isr : Word) (s : State Vic) : State Vic :=
  let t := takeIrq P s
  { t with
    cpu := t.cpu.set .irq 0 0xDC000000
    pc := isr
    device := { vectAddr := isr, inService := s.device.inService + 1 } }

/-- The processor when the registers are on the stack. -/
def pushed (s : State Vic) : State Vic :=
  (push .irq context { s.next with cpu := s.cpu.set .irq lr (s.cpu.get .irq lr - 4#32) }).next

/-- The processor when `spsr` is on the stack. -/
def stacked (s : State Vic) : State Vic :=
  (push .irq [1] { s.next with cpu := s.cpu.set .irq 1 (s.cpu.spsr .irq) }).next

section Entry

variable {base handleTimer1 isr : Word} {f : State Vic → State Vic} {stack : Stack}
  {s : State Vic}

theorem running_takeIrq (P : Platform Vic) (s : State Vic) : Running false (takeIrq P s) :=
  ⟨takeIrq_mode s, takeIrq_masked s⟩

theorem run_answer (hbase : base.toNat + 120 ≤ 0xFFFF0018) {depth : Nat}
    (hready : Ready base stack depth s) (rest : List (Event Vic)) :
    run (platform base handleTimer1 f)
        (Services.arrive isr :: List.replicate 3 (.instr false) ++ rest) s =
      run (platform base handleTimer1 f) rest (answered (platform base handleTimer1 f) isr s) := by
  let P := platform base handleTimer1 f
  let t := takeIrq P { s with device := { s.device with vectAddr := isr } }
  have hrunning : Running false t := running_takeIrq P _
  have hvector : step P t (.instr false) = some { t with pc := address base 0 } := by
    rw [step_instr hrunning.irqs (show P.code t.pc = _ from code_vector) hrunning.mode]
    have hslot : (0xFFFF0018#32 + 8#32 + 0x0F8).toNat = 0xFFFF0118 := by decide
    have hread : readWord t.mem (t.pc + 8#32 + 0x0F8).toNat = address base 0 := by
      rw [show t.pc = 0xFFFF0018#32 from rfl, hslot, address_zero]
      exact hready.vector
    rw [exceptionVectorJump, execute, hread]
  change run P (.irq _ :: .instr false :: .instr false :: .instr false :: rest) s = _
  rw [Verified.ArmExceptions.run_cons (step_irq hready.enabled _),
    Verified.ArmExceptions.run_cons hvector]
  have hbased : Running false { t with pc := address base 0 } := hrunning.congr rfl
  rw [hbased.run_cons hbase rfl rfl rfl]
  have hloaded : Running false
      { t with cpu := t.cpu.set .irq 0 0xDC000000, pc := address base 0 + 4#32 } :=
    hrunning.congr rfl
  exact hloaded.run_cons hbase (address_next 0) rfl rfl rest

/-- The two places where a context is saved. -/
def Entry (k : Nat) : Prop := k = 2 ∨ k = 19

theorem text_saveContext {k : Nat} (hk : Entry k) :
    (text handleTimer1)[k]? = some (.sub lr lr 4) ∧
    (text handleTimer1)[k + 1]? = some (.stmfd context) ∧
    (text handleTimer1)[k + 2]? = some (.status (.mrsSpsr 1)) ∧
    (text handleTimer1)[k + 3]? = some (.stmfd [1]) := by
  rcases hk with rfl | rfl <;> exact ⟨rfl, rfl, rfl, rfl⟩

theorem run_saveContext (hbase : base.toNat + 120 ≤ 0xFFFF0018) (hrunning : Running false s)
    {k : Nat} (hk : Entry k) (hpc : s.pc = address base k) (rest : List (Event Vic)) :
    run (platform base handleTimer1 f) (List.replicate 4 (.instr false) ++ rest) s =
        run (platform base handleTimer1 f) rest (stacked (pushed s)) ∧
      (stacked (pushed s)).pc = address base (k + 4) := by
  obtain ⟨hsub, hstmfd, hmrs, hstmfd'⟩ := @text_saveContext handleTimer1 k hk
  have hpc1 : s.pc + 4#32 = address base (k + 1) := by rw [hpc, address_next]
  have hpc2 : s.pc + 4#32 + 4#32 = address base (k + 2) := by rw [hpc1, address_next]
  have hpc3 : s.pc + 4#32 + 4#32 + 4#32 = address base (k + 3) := by rw [hpc2, address_next]
  have hpc4 : s.pc + 4#32 + 4#32 + 4#32 + 4#32 = address base (k + 4) := by
    rw [hpc3, address_next]
  have h1 : Running false
      { s.next with cpu := s.cpu.set .irq lr (s.cpu.get .irq lr - 4) } := hrunning.congr rfl
  have h2 : Running false (pushed s) := hrunning.congr rfl
  have h3 : Running false
      { (pushed s).next with
        cpu := (pushed s).cpu.set .irq 1 ((pushed s).cpu.spsr .irq) } := h2.congr rfl
  refine ⟨?_, hpc4⟩
  change run _ (.instr false :: .instr false :: .instr false :: .instr false :: rest) s = _
  refine (hrunning.run_cons hbase hpc hsub rfl _).trans ?_
  refine (h1.run_cons (t := pushed s) hbase hpc1 hstmfd rfl _).trans ?_
  refine (h2.run_cons hbase hpc2 hmrs rfl _).trans ?_
  exact h3.run_cons hbase hpc3 hstmfd' rfl rest

/-- Where the context comes from. -/
theorem bankOf_context_iff (b : Bank) (r : Reg) :
    b = bankOf .irq r ∧ r ∈ context ↔ b = .usr ∧ r < 13 ∨ b = .irq ∧ r = lr := by
  revert r
  cases b <;> decide

theorem bankOf_context : ∀ r ∈ context, r ≠ lr → bankOf .irq r = .usr := by decide

/-- The registers that go on the stack. -/
theorem answered_get (P : Platform Vic) {r : Reg} (hr : r ∈ context) :
    ((answered P isr s).cpu.set .irq lr ((answered P isr s).cpu.get .irq lr - 4#32)).get .irq r =
      saved s r := by
  by_cases hlr : r = lr
  · subst hlr
    rw [Cpu.get_set_self, saved, if_neg (by decide), if_pos rfl]
    change (takeIrq P s).cpu.get .irq lr - 4#32 = s.pc
    rw [takeIrq, Cpu.get_set_self, BitVec.add_sub_cancel]
  · rw [Cpu.get_set_of_ne _ _ _ hlr, saved, if_neg hlr]
    by_cases hzero : r = 0
    · subst hzero
      exact Cpu.get_set_self ..
    · rw [if_neg hzero]
      change ((takeIrq P s).cpu.set .irq 0 0xDC000000).get .irq r = _
      rw [Cpu.get_set_of_ne _ _ _ hzero, takeIrq, Cpu.get_set_of_ne _ _ _ hlr, Cpu.get,
        bankOf_context r hr hlr]

theorem stacked_reg (t : State Vic) {b : Bank} {r : Reg} (hsp : ¬ (b = .irq ∧ r = sp))
    (hone : ¬ (b = .usr ∧ r = 1)) : (stacked t).cpu.reg b r = t.cpu.reg b r := by
  rw [stacked, State.next_cpu, push_reg .irq _ _ hsp]
  exact if_neg hone

theorem pushed_reg (t : State Vic) {b : Bank} {r : Reg} (hsp : ¬ (b = .irq ∧ r = sp))
    (hlr : ¬ (b = .irq ∧ r = lr)) : (pushed t).cpu.reg b r = t.cpu.reg b r := by
  rw [pushed, State.next_cpu, push_reg .irq _ _ hsp]
  exact if_neg hlr

/-- Registers that are not saved are left alone. -/
theorem entered_reg (P : Platform Vic) {b : Bank} {r : Reg} (hsaved : b ≠ .usr ∨ 13 ≤ r)
    (hirq : ¬ (b = .irq ∧ (r = 13 ∨ r = lr))) :
    (stacked (pushed (answered P isr s))).cpu.reg b r = s.cpu.reg b r := by
  have hsp : ¬ (b = .irq ∧ r = sp) := fun h => hirq ⟨h.1, .inl h.2⟩
  have hlr : ¬ (b = .irq ∧ r = lr) := fun h => hirq ⟨h.1, .inr h.2⟩
  have hlow : ∀ r' : Reg, r' < 13 → ¬ (b = .usr ∧ r = r') := by
    rintro r' hr' ⟨rfl, rfl⟩
    rcases hsaved with hb | hr
    · exact hb rfl
    · exact absurd hr' (not_lt.mpr hr)
  rw [stacked_reg _ hsp (hlow 1 (by decide)), pushed_reg _ hsp hlr]
  exact (if_neg (hlow 0 (by decide))).trans (if_neg hlr)

section Pushes

variable {t : State Vic}

theorem pushed_sp : (pushed t).cpu.reg .irq sp = t.cpu.reg .irq sp - 56#32 := push_sp ..

theorem stacked_sp : (stacked t).cpu.reg .irq sp = t.cpu.reg .irq sp - 4#32 := push_sp ..

theorem irqSp_pushed (hroom : 56 ≤ irqSp t) : irqSp (pushed t) = irqSp t - 56 :=
  push_sp_toNat .irq hroom

theorem irqSp_stacked (hroom : 4 ≤ irqSp t) : irqSp (stacked t) = irqSp t - 4 :=
  push_sp_toNat .irq hroom

theorem pushed_mem (hroom : 56 ≤ irqSp t) {x : Nat} (hx : x < irqSp t - 56 ∨ irqSp t ≤ x) :
    (pushed t).mem x = t.mem x := by
  refine push_mem .irq ?_
  change x < irqSp (pushed t) ∨ irqSp (pushed t) + 56 ≤ x
  rw [irqSp_pushed hroom]
  omega

theorem stacked_mem (hroom : 4 ≤ irqSp t) {x : Nat} (hx : x < irqSp t - 4 ∨ irqSp t ≤ x) :
    (stacked t).mem x = t.mem x := by
  refine push_mem .irq ?_
  change x < irqSp (stacked t) ∨ irqSp (stacked t) + 4 ≤ x
  rw [irqSp_stacked hroom]
  omega

/-- The registers are at the new stack pointer. -/
theorem pushed_context (hroom : 56 ≤ irqSp t) :
    readWords (pushed t).mem (irqSp t - 56) 14 =
      context.map ((t.cpu.set .irq lr (t.cpu.get .irq lr - 4#32)).get .irq) := by
  rw [← irqSp_pushed hroom]
  exact @readWords_push _ .irq context
    { t.next with cpu := t.cpu.set .irq lr (t.cpu.get .irq lr - 4#32) }

/-- The saved status is at the new stack pointer. -/
theorem stacked_status (hroom : 4 ≤ irqSp t) :
    readWord (stacked t).mem (irqSp t - 4) = t.cpu.spsr .irq := by
  have hread := @readWords_push _ .irq [1]
    { t.next with cpu := t.cpu.set .irq 1 (t.cpu.spsr .irq) }
  rw [← irqSp_stacked hroom]
  exact (List.cons.inj hread).1.trans (Cpu.get_set_self ..)

theorem pushed_spsr : (pushed t).cpu.spsr = t.cpu.spsr := rfl

theorem stacked_spsr : (stacked t).cpu.spsr = t.cpu.spsr := rfl

end Pushes

theorem answered_spsr (P : Platform Vic) (b : Bank) :
    (answered P isr s).cpu.spsr b = if b = .irq then s.cpu.cpsr else s.cpu.spsr b := by
  by_cases hb : b = .irq
  · rw [if_pos hb, hb]
    exact @takeIrq_spsr _ P s
  · rw [if_neg hb]
    exact @takeIrq_spsr_of_ne _ P s _ hb

/-- The context is on the stack. -/
theorem held_stacked (P : Platform Vic) (hroom : stack.bottom + 60 ≤ irqSp s)
    (hbelow : irqSp s ≤ stack.top) (htop : stack.top ≤ 0xFFFF0118) :
    Held stack s (stacked (pushed (answered P isr s))) := by
  let a := answered P isr s
  have ha : irqSp a = irqSp s := rfl
  have hp : irqSp (pushed a) = irqSp s - 56 := irqSp_pushed (by omega)
  have houtside : ∀ x, x < irqSp s - 60 ∨ irqSp s ≤ x →
      (stacked (pushed a)).mem x = s.mem x := by
    intro x hx
    rw [stacked_mem (by omega) (by omega), pushed_mem (by omega) (by omega)]
    rfl
  have hsp : (stacked (pushed a)).cpu.reg .irq sp = s.cpu.reg .irq sp - 60#32 := by
    rw [stacked_sp, pushed_sp, BitVec.sub_sub]
    rfl
  have hstatus : readWord (stacked (pushed a)).mem (irqSp s - 60) = s.cpu.cpsr := by
    have hread := @stacked_status (pushed a) (by omega)
    rwa [hp, pushed_spsr, answered_spsr, if_pos rfl, Nat.sub_sub] at hread
  have hregs : readWords (stacked (pushed a)).mem (irqSp s - 60 + 4) 14 =
      context.map (saved s) := by
    rw [show irqSp s - 60 + 4 = irqSp a - 56 by omega,
      readWords_congr fun x hle _ => stacked_mem (by omega) (by omega),
      pushed_context (by omega)]
    exact List.map_congr_left fun r hr => answered_get P hr
  exact
    { stackPointer := hsp
      context := congrArg₂ List.cons hstatus hregs
      reg := fun b r => entered_reg P
      spsr := fun b hb => by
        rw [stacked_spsr, pushed_spsr, answered_spsr, if_neg hb]
      frames := fun x hle _ => houtside x (.inr hle)
      vector := fun x hle _ => houtside x (.inr (by omega))
      inService := rfl }

end Entry

theorem Kept.irqSp_eq {stack : Stack} {s t : State Vic} (h : Kept stack s t) :
    irqSp t = irqSp s :=
  congrArg BitVec.toNat (h.reg .irq sp (.inl (by decide)) (by decide))

theorem Kept.trans {stack : Stack} {s t u : State Vic} (hst : Kept stack s t)
    (htu : Kept stack t u) : Kept stack s u where
  reg b r hsaved hlr := (htu.reg b r hsaved hlr).trans (hst.reg b r hsaved hlr)
  spsr b hb := (htu.spsr b hb).trans (hst.spsr b hb)
  frames x hle hlt := (htu.frames x (hst.irqSp_eq.trans_le hle) hlt).trans (hst.frames x hle hlt)
  vector x hle hlt := (htu.vector x hle hlt).trans (hst.vector x hle hlt)
  inService := htu.inService.trans hst.inService

theorem Returned.refl (stack : Stack) (s : State Vic) : Returned stack s s :=
  ⟨⟨fun _ _ _ _ => rfl, fun _ _ => rfl, fun _ _ _ => rfl, fun _ _ _ => rfl, rfl⟩, rfl, rfl,
    fun _ _ => rfl⟩

theorem Returned.trans {stack : Stack} {s t u : State Vic} (hst : Returned stack s t)
    (htu : Returned stack t u) : Returned stack s u where
  toKept := hst.toKept.trans htu.toKept
  pc := htu.pc.trans hst.pc
  cpsr := htu.cpsr.trans hst.cpsr
  low r hr := (htu.low r hr).trans (hst.low r hr)

section Nest

variable {base handleTimer1 : Word} {f : State Vic → State Vic} {stack : Stack}
  {s t u : State Vic}

theorem Ready.of_returned {n : Nat} (h : Ready base stack n s) (hst : Returned stack s t) :
    Ready base stack n t where
  enabled := by rw [interruptible, hst.cpsr]; exact h.enabled
  mode := by rw [Cpu.mode, hst.cpsr]; exact h.mode
  room := h.room.trans_eq hst.irqSp_eq.symm
  below := hst.irqSp_eq.trans_le h.below
  vector := (readWord_congr hst.vector).trans h.vector

theorem Ready.mono {n m : Nat} (h : Ready base stack n s) (hm : m ≤ n) :
    Ready base stack m s where
  enabled := h.enabled
  mode := h.mode
  room := by have hroom := h.room; omega
  below := h.below
  vector := h.vector

theorem Held.irqSp_eq (h : Held stack s t) (hroom : 60 ≤ irqSp s) :
    irqSp t = irqSp s - 60 := by
  have hsub : irqSp t = (s.cpu.reg .irq sp - 60#32).toNat :=
    congrArg BitVec.toNat h.stackPointer
  rw [hsub, BitVec.toNat_sub_of_le hroom]
  rfl

/-- What keeps the stack keeps the context. -/
theorem Held.kept (h : Held stack s t) (hroom : 60 ≤ irqSp s) (hbelow : irqSp s ≤ stack.top)
    (htu : Kept stack t u) : Held stack s u where
  stackPointer := (htu.reg .irq sp (.inl (by decide)) (by decide)).trans h.stackPointer
  context := by
    rw [← h.context]
    refine readWords_congr fun x hle hlt => htu.frames x ?_ (by omega)
    rwa [h.irqSp_eq hroom]
  reg b r hsaved hirq := (htu.reg b r hsaved fun hlr => hirq ⟨hlr.1, .inr hlr.2⟩).trans
    (h.reg b r hsaved hirq)
  spsr b hb := (htu.spsr b hb).trans (h.spsr b hb)
  frames x hle hlt := (htu.frames x (by rw [h.irqSp_eq hroom]; omega) hlt).trans
    (h.frames x hle hlt)
  vector x hle hlt := (htu.vector x hle hlt).trans (h.vector x hle hlt)
  inService := htu.inService.trans h.inService

/-! ## The body of a service -/

/-- `mrs r0, cpsr`. -/
def readStatus (s : State Vic) : State Vic :=
  { s.next with cpu := s.cpu.set .irq 0 s.cpu.cpsr }

/-- `bic r0, r0, #0x80` or `orr r0, r0, #0x80`. -/
def maskStatus (enables : Bool) (s : State Vic) : State Vic :=
  { s.next with cpu := s.cpu.set .irq 0 (masked enables (s.cpu.get .irq 0)) }

/-- `msr cpsr_c, r0`. -/
def writeStatus (s : State Vic) : State Vic :=
  { s.next with cpu := withControl s.cpu (s.cpu.get .irq 0) }

/-- `bl HandleTimer1` and the function, without a service in it. -/
def called (f : State Vic → State Vic) (s : State Vic) : State Vic :=
  { f { s with cpu := s.cpu.set .irq lr (s.pc + 4#32) } with pc := s.pc + 4#32 }

/-- `r0` is lost anyway. -/
theorem kept_r0 (value pc : Word) : Kept stack s { s with cpu := s.cpu.set .irq 0 value, pc } where
  reg b r hsaved _ := if_neg fun h => by
    rcases hsaved with hb | hr
    · exact hb h.1
    · rw [h.2] at hr
      exact absurd hr (by decide)
  spsr _ _ := rfl
  frames _ _ _ := rfl
  vector _ _ _ := rfl
  inService := rfl

theorem kept_writeStatus : Kept stack s (writeStatus s) :=
  ⟨fun _ _ _ _ => rfl, fun _ _ => rfl, fun _ _ _ => rfl, fun _ _ _ => rfl, rfl⟩

theorem kept_called (hf : Conforms stack f) (hroom : stack.bottom ≤ irqSp s) :
    Kept stack s (called f s) := by
  let s' : State Vic := { s with cpu := s.cpu.set .irq lr (s.pc + 4#32) }
  have hlink : Kept stack s s' :=
    ⟨fun _ _ _ hlr => if_neg hlr, fun _ _ => rfl, fun _ _ _ => rfl, fun _ _ _ => rfl, rfl⟩
  have hcall := hf.kept s' (hroom.trans_eq hlink.irqSp_eq.symm)
  exact hlink.trans ⟨hcall.reg, hcall.spsr, hcall.frames, hcall.vector, hcall.inService⟩

theorem running_called {enabled : Bool} (hf : Conforms stack f) (h : Running enabled s) :
    Running enabled (called f s) := by
  have hcontrol := hf.control { s with cpu := s.cpu.set .irq lr (s.pc + 4#32) }
  refine ⟨?_, ?_⟩
  · rw [← h.mode, Cpu.mode, Cpu.mode]
    refine congrArg Mode.ofBits (field_ext fun i hi => ?_)
    exact getLsbD_of_control hcontrol (by omega)
  · rw [← h.irqs]
    exact congrArg not (getLsbD_of_control hcontrol (by decide))

theorem execute_called (handleTimer1 : Word) :
    execute (platform base handleTimer1 f) .irq s (.bl handleTimer1) = some (called f s) := by
  simp only [execute, platform, if_true, called]

theorem execute_writeStatus {P : Platform Vic}
    (h : (s.cpu.get .irq 0).extractLsb' 0 5 = Mode.irq.bits) :
    execute P .irq s (.status (.msrCpsrC 0)) = some (writeStatus s) := by
  have hirq : Mode.irq ≠ .usr := by decide
  have hset : s.cpu.setCpsr .irq (s.cpu.cpsr.extractLsb' 8 24)
      ((s.cpu.get .irq 0).extractLsb' 0 8) = some (withControl s.cpu (s.cpu.get .irq 0)) :=
    Cpu.setCpsr_of_privileged hirq (by rw [control_mode, h])
  rw [execute, Verified.ArmBanks.perform, hset]
  rfl

/-- No mode has the bits `00000`. -/
theorem execute_invalidStatus {P : Platform Vic}
    (h : (s.cpu.get .irq 0).extractLsb' 0 5 = 0) :
    execute P .irq s (.status (.msrCpsrC 0)) = none := by
  have hset : s.cpu.setCpsr .irq (s.cpu.cpsr.extractLsb' 8 24)
      ((s.cpu.get .irq 0).extractLsb' 0 8) = none := by
    rw [Cpu.setCpsr, if_neg (by decide : Mode.irq ≠ .usr),
      Verified.ArmBanks.extract_control 0 _ _ (by omega), control_mode, h]
    rfl
  rw [execute, Verified.ArmBanks.perform, hset]
  rfl

theorem running_writeStatus (h : (s.cpu.get .irq 0).extractLsb' 0 5 = Mode.irq.bits) :
    Running (!(s.cpu.get .irq 0).getLsbD 7) (writeStatus s) where
  mode := Cpu.mode_of_control (by rw [control_mode, h])
  irqs := by
    refine (interruptible_psr s.cpu _ _).trans ?_
    simp

/-! ## The return -/

/-- The processor when `spsr` is restored. -/
def unstacked (t : State Vic) : State Vic :=
  let u := (pop .irq [1] t).next
  { u.next with
    cpu := { u.cpu with spsr := fun b => if b = .irq then u.cpu.get .irq 1 else u.cpu.spsr b } }

/-- `ldr r0, =0xDC000000`. -/
def loaded (t : State Vic) : State Vic :=
  { t.next with cpu := t.cpu.set .irq 0 0xDC000000 }

theorem loaded_pc (t : State Vic) : (loaded t).pc = t.pc + 4#32 := rfl

theorem loaded_cpsr (t : State Vic) : (loaded t).cpu.cpsr = t.cpu.cpsr := rfl

theorem loaded_spsr (t : State Vic) : (loaded t).cpu.spsr = t.cpu.spsr := rfl

/-- `str r0, [r0, #0x30]`. -/
def signalled (t : State Vic) : State Vic :=
  { t.next with device := { t.device with inService := t.device.inService - 1 } }

theorem signalled_pc (t : State Vic) : (signalled t).pc = t.pc + 4#32 := rfl

theorem signalled_cpu (t : State Vic) : (signalled t).cpu = t.cpu := rfl

/-- The processor when the registers are restored and the controller has its signal. -/
def popped (t : State Vic) : State Vic := signalled (loaded (pop .irq context t).next)

/-- `movs pc, lr`. -/
def resumed (t : State Vic) : State Vic :=
  { t with
    cpu := { t.cpu with cpsr := t.cpu.spsr .irq }
    pc := t.cpu.get .irq lr }

/-- The two places where a context is restored. -/
def Exit (k : Nat) : Prop := k = 13 ∨ k = 24

theorem text_restoreContext {k : Nat} (hk : Exit k) :
    (text handleTimer1)[k]? = some (.ldmfd [1]) ∧
    (text handleTimer1)[k + 1]? = some (.status (.msrSpsrCXSF 1)) ∧
    (text handleTimer1)[k + 2]? = some (.ldmfd context) ∧
    (text handleTimer1)[k + 3]? = some (.ldrValue 0 0xDC000000) ∧
    (text handleTimer1)[k + 4]? = some (.str 0 0 0x30) ∧
    (text handleTimer1)[k + 5]? = some .movsPcLr := by
  rcases hk with rfl | rfl <;> exact ⟨rfl, rfl, rfl, rfl, rfl, rfl⟩

section Exit

variable (h : Held stack s t) (hroom : 60 ≤ irqSp s)
include h hroom

theorem pop_status (b : Bank) (r : Reg) :
    (pop .irq [1] t).cpu.reg b r =
      if b = .irq ∧ r = sp then s.cpu.reg .irq sp - 56#32
      else if b = .usr ∧ r = 1 then s.cpu.cpsr else t.cpu.reg b r := by
  have hword : readWords t.mem (t.cpu.get .irq sp).toNat 1 =
      [(1 : Reg)].map fun _ => s.cpu.cpsr := by
    change [readWord t.mem (irqSp t)] = [s.cpu.cpsr]
    rw [h.irqSp_eq hroom, (List.cons.inj h.context).1]
  have hup : t.cpu.get .irq sp + BitVec.ofNat 32 (4 * [(1 : Reg)].length) =
      s.cpu.reg .irq sp - 56#32 := by
    have hsp : t.cpu.get .irq sp = s.cpu.reg .irq sp - 60#32 := h.stackPointer
    rw [hsp]
    change s.cpu.reg .irq sp - 60#32 + 4#32 = s.cpu.reg .irq sp - 56#32
    bv_omega
  rw [@pop_reg _ .irq [1] t _ hword (by decide), hup]
  refine if_congr Iff.rfl rfl (if_congr ?_ rfl rfl)
  rw [List.mem_singleton]
  constructor
  · rintro ⟨rfl, rfl⟩
    exact ⟨rfl, rfl⟩
  · rintro ⟨rfl, rfl⟩
    exact ⟨rfl, rfl⟩

/-- The saved status comes back. -/
theorem unstacked_spsr : (unstacked t).cpu.spsr .irq = s.cpu.cpsr := by
  have hword := pop_status h hroom .usr 1
  rw [if_neg (by decide), if_pos ⟨rfl, rfl⟩] at hword
  exact hword

/-- The registers come back. -/
theorem popped_reg (b : Bank) (r : Reg) :
    (popped (unstacked t)).cpu.reg b r =
      if b = .usr ∧ r = 0 then 0xDC000000
      else if b = .irq ∧ r = lr then s.pc
      else s.cpu.reg b r := by
  let u := unstacked t
  have hsp : u.cpu.get .irq sp = s.cpu.reg .irq sp - 56#32 :=
    (pop_status h hroom .irq sp).trans (if_pos ⟨rfl, rfl⟩)
  have hwords : readWords u.mem (u.cpu.get .irq sp).toNat 14 = context.map (saved s) := by
    have htail : readWords t.mem (irqSp s - 60 + 4) 14 = context.map (saved s) :=
      (List.cons.inj h.context).2
    have hsub : (s.cpu.reg .irq sp - 56#32).toNat = irqSp s - 60 + 4 := by
      rw [BitVec.toNat_sub_of_le (le_trans (by decide : 56 ≤ 60) hroom)]
      change irqSp s - 56 = irqSp s - 60 + 4
      omega
    rw [hsp, hsub]
    exact htail
  have hup : u.cpu.get .irq sp + BitVec.ofNat 32 (4 * context.length) = s.cpu.reg .irq sp := by
    rw [hsp]
    exact BitVec.sub_add_cancel ..
  have hpop := @pop_reg _ .irq context u (saved s) hwords (by decide) b r
  rw [hup] at hpop
  change ((pop .irq context u).cpu.set .irq 0 0xDC000000).reg b r = _
  rw [Cpu.set_reg, hpop, show bankOf .irq 0 = .usr from rfl, show Mode.irq.bank = .irq from rfl]
  by_cases hzero : b = .usr ∧ r = 0
  · rw [if_pos hzero, if_pos hzero]
  rw [if_neg hzero, if_neg hzero]
  by_cases hstack : b = .irq ∧ r = sp
  · have hlr : ¬ (b = .irq ∧ r = lr) := by
      rw [hstack.2]
      exact fun hlr => absurd hlr.2 (by decide)
    rw [if_pos hstack, if_neg hlr, hstack.1, hstack.2]
  rw [if_neg hstack]
  by_cases hsaved : b = bankOf .irq r ∧ r ∈ context
  · rw [if_pos hsaved, saved]
    rcases (bankOf_context_iff b r).mp hsaved with ⟨rfl, hr⟩ | hlr
    · have hne : r ≠ lr := fun heq => absurd (heq ▸ hr) (by decide)
      rw [if_neg fun h0 => hzero ⟨rfl, h0⟩, if_neg hne,
        if_neg fun hirq => absurd hirq.1 (by decide)]
    · rw [if_pos hlr, hlr.2, if_neg (by decide), if_pos rfl]
  · rw [if_neg hsaved]
    rw [bankOf_context_iff, not_or] at hsaved
    have hpopped := pop_status h hroom b r
    have hone : ¬ (b = .usr ∧ r = 1) := fun hr => hsaved.1 ⟨hr.1, hr.2 ▸ by decide⟩
    rw [if_neg hstack, if_neg hone] at hpopped
    rw [if_neg hsaved.2]
    refine hpopped.trans (h.reg b r ?_ ?_)
    · by_cases hb : b = .usr
      · exact .inr (not_lt.mp fun hr => hsaved.1 ⟨hb, hr⟩)
      · exact .inl hb
    · rintro ⟨rfl, rfl | rfl⟩
      · exact hstack ⟨rfl, rfl⟩
      · exact hsaved.2 ⟨rfl, rfl⟩

/-- The service returns, and costs the program `r0`. -/
theorem resumed_returned :
    Returned stack s (resumed (popped (unstacked t))) ∧
      Clobbered s (resumed (popped (unstacked t))) := by
  have hreg := popped_reg h hroom
  have hlink : (popped (unstacked t)).cpu.reg .irq lr = s.pc :=
    (hreg .irq lr).trans ((if_neg (by decide)).trans (if_pos ⟨rfl, rfl⟩))
  refine ⟨{ reg := fun b r hsaved hlr => ?_, spsr := fun b hb => ?_, frames := h.frames,
            vector := h.vector, inService := ?_, pc := ?_, cpsr := unstacked_spsr h hroom,
            low := fun r hr => ?_ },
    { r0 := (hreg .usr 0).trans (if_pos ⟨rfl, rfl⟩), lr := ?_,
      spsr := unstacked_spsr h hroom }⟩
  · have hzero : ¬ (b = .usr ∧ r = 0) := by
      rintro ⟨rfl, rfl⟩
      rcases hsaved with hb | hr
      · exact hb rfl
      · exact absurd hr (by decide)
    exact (hreg b r).trans ((if_neg hzero).trans (if_neg hlr))
  · exact (if_neg hb).trans ((congrFun (pop_spsr .irq [1] t) b).trans (h.spsr b hb))
  · exact congrArg (· - 1) h.inService
  · exact hlink
  · exact (hreg .usr r).trans
      ((if_neg fun hzero => hr hzero.2).trans (if_neg fun hirq => absurd hirq.1 (by decide)))
  · exact hlink

end Exit

theorem popped_spsr (t : State Vic) : (popped t).cpu.spsr = t.cpu.spsr := by
  rw [popped, signalled_cpu, loaded_spsr, State.next_cpu, pop_spsr]

theorem popped_cpsr (t : State Vic) : (popped t).cpu.cpsr = t.cpu.cpsr := by
  rw [popped, signalled_cpu, loaded_cpsr, State.next_cpu, pop_cpsr]

theorem popped_pc (t : State Vic) : (popped t).pc = t.pc + 4#32 + 4#32 + 4#32 := by
  rw [popped, signalled_pc, loaded_pc, State.next_pc, pop_pc]

theorem unstacked_pc (t : State Vic) : (unstacked t).pc = t.pc + 4#32 + 4#32 := rfl

theorem run_unstacked (hbase : base.toNat + 120 ≤ 0xFFFF0018) (hrunning : Running false t)
    {k : Nat} (hk : Exit k) (hpc : t.pc = address base k) (rest : List (Event Vic)) :
    run (platform base handleTimer1 f) (.instr false :: .instr false :: rest) t =
      run (platform base handleTimer1 f) rest (unstacked t) := by
  obtain ⟨hldm, hmsr, -⟩ := @text_restoreContext handleTimer1 k hk
  have hpc1 : (pop .irq [1] t).next.pc = address base (k + 1) := by
    rw [State.next, pop_pc, hpc, address_next]
  have h1 : Running false (pop .irq [1] t).next := hrunning.congr (pop_cpsr .irq [1] t)
  refine (hrunning.run_cons hbase hpc hldm rfl _).trans ?_
  exact h1.run_cons hbase hpc1 hmsr rfl rest

/-- The signal to the controller. -/
theorem execute_signal {u : State Vic} (hu : u.cpu.get .irq 0 = 0xDC000000) :
    execute (platform base handleTimer1 f) .irq u (.str 0 0 0x30) =
      some (signalled u) := by
  simp only [execute, platform]
  rw [hu, if_pos (by decide), signalled]

theorem run_popped (hbase : base.toNat + 120 ≤ 0xFFFF0018) (hrunning : Running false t)
    {k : Nat} (hk : Exit k) (hpc : t.pc = address base (k + 2)) (rest : List (Event Vic)) :
    run (platform base handleTimer1 f)
        (.instr false :: .instr false :: .instr false :: rest) t =
      run (platform base handleTimer1 f) rest (popped t) := by
  obtain ⟨-, -, hldm, hldr, hstr, -⟩ := @text_restoreContext handleTimer1 k hk
  have h1 : Running false (pop .irq context t).next :=
    hrunning.congr (by rw [State.next_cpu, pop_cpsr])
  have h2 : Running false (loaded (pop .irq context t).next) := h1.congr (loaded_cpsr _)
  have hpc1 : (pop .irq context t).next.pc = address base (k + 3) := by
    rw [State.next, pop_pc, hpc, address_next]
  have hpc2 : (loaded (pop .irq context t).next).pc = address base (k + 4) := by
    rw [loaded_pc, hpc1, address_next]
  have hbase0 : (loaded (pop .irq context t).next).cpu.get .irq 0 = 0xDC000000 :=
    Cpu.get_set_self ..
  refine (hrunning.run_cons hbase hpc hldm rfl _).trans ?_
  refine (h1.run_cons hbase hpc1 hldr rfl _).trans ?_
  exact h2.run_cons hbase hpc2 hstr (execute_signal hbase0) rest

/-- The return is to a mode. -/
theorem run_resumed (hbase : base.toNat + 120 ≤ 0xFFFF0018) (hrunning : Running false t)
    (hmode : (Mode.ofBits ((t.cpu.spsr .irq).extractLsb' 0 5)).isSome) {k : Nat}
    (hk : Exit k) (hpc : t.pc = address base (k + 5)) (rest : List (Event Vic)) :
    run (platform base handleTimer1 f) (.instr false :: rest) t =
      run (platform base handleTimer1 f) rest (resumed t) := by
  obtain ⟨-, -, -, -, -, hmovs⟩ := @text_restoreContext handleTimer1 k hk
  have hvalid : ¬ (Mode.irq.bank = .usr ∨
      (Mode.ofBits ((t.cpu.spsr .irq).extractLsb' 0 5)).isNone) := by
    rintro (hbank | hnone)
    · exact absurd hbank (by decide)
    · rw [Option.isNone_iff_eq_none] at hnone
      rw [hnone] at hmode
      exact absurd hmode (by decide)
  exact hrunning.run_cons hbase hpc hmovs (if_neg hvalid) rest

/-! ## A service and the services in it -/

/-- The service that interrupted `s` is before its `k`th instruction. -/
structure Serving (base : Word) (stack : Stack) (s : State Vic) (enabled : Bool) (k : Nat)
    (t : State Vic) : Prop where
  held : Held stack s t
  running : Running enabled t
  pc : t.pc = address base k

section Service

variable (hbase : base.toNat + 120 ≤ 0xFFFF0018) (htop : stack.top ≤ 0xFFFF0118)
  {n : Nat} (hready : Ready base stack (n + 1) s)
include hbase htop hready

omit hbase in
/-- In the service there is room for the services it has room for. -/
theorem Serving.ready {k : Nat} (h : Serving base stack s true k t) : Ready base stack n t := by
  have hroom := hready.room
  have hbelow := hready.below
  have hsp := h.held.irqSp_eq (by omega)
  exact
    { enabled := h.running.irqs
      mode := by rw [h.running.mode]; rfl
      room := by omega
      below := by omega
      vector := (readWord_congr h.held.vector).trans hready.vector }

omit hbase htop in
theorem Serving.kept {enabled enabled' : Bool} {k k' : Nat}
    (h : Serving base stack s enabled k t) (htu : Kept stack t u)
    (hrunning : Running enabled' u) (hpc : u.pc = address base k') :
    Serving base stack s enabled' k' u :=
  have hroom := hready.room
  ⟨h.held.kept (by omega) hready.below htu, hrunning, hpc⟩

variable (handleTimer1 f) in
omit htop in
/-- One instruction of the service. -/
theorem Serving.step {enabled enabled' : Bool} {k : Nat} {instr : Instr}
    (h : Serving base stack s enabled k t) (hi : (text handleTimer1)[k]? = some instr)
    (hexec : execute (platform base handleTimer1 f) .irq t instr = some u)
    (htu : Kept stack t u) (hrunning : Running enabled' u) (hpc : u.pc = t.pc + 4#32) :
    (∀ rest, run (platform base handleTimer1 f) (.instr enabled :: rest) t =
      run (platform base handleTimer1 f) rest u) ∧ Serving base stack s enabled' (k + 1) u :=
  ⟨h.running.run_cons hbase h.pc hi hexec,
    h.kept hready htu hrunning (by rw [hpc, h.pc, address_next])⟩

/-- The interrupt, up to the context on the stack. -/
theorem run_entry {k : Nat} (hk : Entry k) : ∃ t,
    (∀ rest, run (platform base handleTimer1 f)
      (Services.arrive (address base k) :: (List.replicate 7 (.instr false) ++ rest)) s =
        run (platform base handleTimer1 f) rest t) ∧
    Serving base stack s false (k + 4) t := by
  have hroom := hready.room
  let P := platform base handleTimer1 f
  let a := answered P (address base k) s
  have hrunning : Running false a := (running_takeIrq P s).congr rfl
  refine ⟨stacked (pushed a), fun rest => ?_, held_stacked P (by omega) hready.below htop,
    (hrunning.congr rfl : Running false (stacked (pushed a))), ?_⟩
  · refine (run_answer hbase hready _).trans ?_
    exact (run_saveContext hbase hrunning hk rfl rest).1
  · exact (@run_saveContext base handleTimer1 f a hbase hrunning k hk rfl []).2

omit htop in
/-- The return. -/
theorem run_exit {k : Nat} (hk : Exit k) (h : Serving base stack s false k t) : ∃ u,
    (∀ rest, run (platform base handleTimer1 f) (List.replicate 6 (.instr false) ++ rest) t =
      run (platform base handleTimer1 f) rest u) ∧
    Returned stack s u ∧ Clobbered s u := by
  have hroom := hready.room
  have hunstacked : Running false (unstacked t) := h.running.congr (pop_cpsr .irq [1] t)
  have hpopped : Running false (popped (unstacked t)) := hunstacked.congr (popped_cpsr _)
  have hpc2 : (unstacked t).pc = address base (k + 2) := by
    rw [unstacked_pc, h.pc, address_next, address_next]
  have hpc5 : (popped (unstacked t)).pc = address base (k + 5) := by
    rw [popped_pc, hpc2, address_next, address_next, address_next]
  refine ⟨resumed (popped (unstacked t)), fun rest => ?_, resumed_returned h.held (by omega)⟩
  refine (run_unstacked hbase h.running hk h.pc _).trans ?_
  refine (run_popped hbase hunstacked hk hpc2 _).trans ?_
  refine run_resumed hbase hpopped ?_ hk hpc5 rest
  rw [popped_spsr, unstacked_spsr h.held (by omega)]
  exact hready.mode

omit hbase htop hready in
/-- The status with the mask changed is written. -/
theorem execute_masked {P : Platform Vic} {enables : Bool} {w : Word}
    (hw : w.extractLsb' 0 5 = Mode.irq.bits) (ht : t.cpu.get .irq 0 = masked enables w) :
    execute P .irq t (.status (.msrCpsrC 0)) = some (writeStatus t) ∧
      Running enables (writeStatus t) := by
  have hfield : (t.cpu.get .irq 0).extractLsb' 0 5 = Mode.irq.bits := by
    rw [ht, masked_field, hw]
  refine ⟨execute_writeStatus hfield, ?_⟩
  have hrunning := running_writeStatus hfield
  rwa [ht, getLsbD_masked enables w (by decide), if_pos rfl, Bool.not_not] at hrunning

omit htop in
/-- Interrupts are enabled. -/
theorem run_enable (h : Serving base stack s false 6 t) : ∃ u,
    (∀ rest, run (platform base handleTimer1 f) (List.replicate 3 (.instr false) ++ rest) t =
      run (platform base handleTimer1 f) rest u) ∧ Serving base stack s true 9 u := by
  obtain ⟨hrun₁, h₁⟩ := h.step handleTimer1 f (u := readStatus t) hbase hready rfl rfl
    (kept_r0 _ _) (h.running.congr rfl) rfl
  obtain ⟨hrun₂, h₂⟩ := h₁.step handleTimer1 f (u := maskStatus true (readStatus t)) hbase hready
    rfl rfl (kept_r0 _ _) (h₁.running.congr rfl) rfl
  have hstatus : (maskStatus true (readStatus t)).cpu.get .irq 0 = masked true t.cpu.cpsr := rfl
  obtain ⟨hexec, hrunning⟩ := @execute_masked _ (platform base handleTimer1 f) true t.cpu.cpsr
    (mode_bits h.running.mode) hstatus
  obtain ⟨hrun₃, h₃⟩ := h₂.step handleTimer1 f hbase hready rfl hexec kept_writeStatus hrunning rfl
  refine ⟨_, fun rest => ?_, h₃⟩
  exact (hrun₁ _).trans ((hrun₂ _).trans (hrun₃ rest))

omit htop in
/-- The call. -/
theorem run_call (hf : Conforms stack f) {enabled : Bool} {k : Nat}
    (h : Serving base stack s enabled k t)
    (hk : (text handleTimer1)[k]? = some (.bl handleTimer1)) : ∃ u,
    (∀ rest, run (platform base handleTimer1 f) (.instr enabled :: rest) t =
      run (platform base handleTimer1 f) rest u) ∧ Serving base stack s enabled (k + 1) u := by
  have hroom := hready.room
  have hsp := h.held.irqSp_eq (by omega)
  obtain ⟨hrun, hserving⟩ := h.step handleTimer1 f hbase hready hk (execute_called handleTimer1)
    (kept_called hf (by omega)) (running_called hf h.running) rfl
  exact ⟨_, hrun, hserving⟩

omit hbase htop in
/-- The service before and after the services that interrupt it. -/
theorem Serving.pause {P : Platform Vic} {x : Services} {k : Nat}
    (h : Serving base stack s true k t) (hx : Outcome stack x t (run P (x.events base) t)) :
    (¬ x.Completes ∧ ∀ rest, run P (x.events base ++ rest) t = none) ∨
    (x.Completes ∧ ∃ u, (∀ rest, run P (x.events base ++ rest) t = run P rest u) ∧
      Serving base stack s true k u ∧
      u.cpu.get .irq 0 = if x = .none then t.cpu.get .irq 0 else 0xDC000000) := by
  cases hrun : run P (x.events base) t with
  | none =>
      rw [hrun] at hx
      obtain ⟨⟩ | hstuck := hx
      exact .inl ⟨hstuck, fun rest => by rw [run_append, hrun, Option.bind_none]⟩
  | some u =>
      rw [hrun] at hx
      obtain ⟨hcompletes, hreturned, hclobbered⟩ := hx
      refine .inr ⟨hcompletes, u, fun rest => by rw [run_append, hrun, Option.bind_some],
        h.kept hready hreturned.toKept (h.running.congr hreturned.cpsr)
          (hreturned.pc.trans h.pc), ?_⟩
      by_cases hnone : x = .none
      · rw [if_pos hnone]
        subst hnone
        rw [← Option.some.inj hrun]
      · rw [if_neg hnone]
        exact (hclobbered hnone).r0

end Service

section Nested

variable {read mask : Services} (hbase : base.toNat + 120 ≤ 0xFFFF0018)
include hbase

/-- Interrupts are disabled, unless a service came in between: it leaves `r0` without a
mode. -/
theorem run_disable {n : Nat} (hready : Ready base stack (n + 1) s)
    (hinner : ∀ u, Serving base stack s true 11 u ∨ Serving base stack s true 12 u →
      ∀ x ∈ [read, mask],
        Outcome stack x u (run (platform base handleTimer1 f) (x.events base) u))
    (h : Serving base stack s true 10 t) (rest : List (Event Vic)) :
    ((read = .none ∧ mask = .none) ∧ ∃ u, Serving base stack s false 13 u ∧
      run (platform base handleTimer1 f) (.instr true :: (read.events base ++ .instr true ::
        (mask.events base ++ .instr true :: rest))) t =
      run (platform base handleTimer1 f) rest u) ∨
    (¬ (read = .none ∧ mask = .none) ∧
      run (platform base handleTimer1 f) (.instr true :: (read.events base ++ .instr true ::
        (mask.events base ++ .instr true :: rest))) t = none) := by
  obtain ⟨hrun₁, h₁⟩ := h.step handleTimer1 f (u := readStatus t) hbase hready rfl rfl
    (kept_r0 _ _) (h.running.congr rfl) rfl
  rw [hrun₁]
  rcases h₁.pause hready (hinner _ (.inl h₁) read (by simp)) with
    ⟨hstuck, hrun⟩ | ⟨-, u₁, hrun, hu₁, hr₁⟩
  · refine .inr ⟨fun hnone => hstuck (hnone.1 ▸ trivial), hrun _⟩
  rw [hrun]
  obtain ⟨hrun₂, h₂⟩ := hu₁.step handleTimer1 f (u := maskStatus false u₁) hbase hready rfl rfl
    (kept_r0 _ _) (hu₁.running.congr rfl) rfl
  rw [hrun₂]
  rcases h₂.pause hready (hinner _ (.inr h₂) mask (by simp)) with
    ⟨hstuck, hrun'⟩ | ⟨-, u₂, hrun', hu₂, hr₂⟩
  · refine .inr ⟨fun hnone => hstuck (hnone.2 ▸ trivial), hrun' _⟩
  rw [hrun']
  have hmask : (maskStatus false u₁).cpu.get .irq 0 = masked false (u₁.cpu.get .irq 0) := rfl
  by_cases hnone : read = .none ∧ mask = .none
  · refine .inl ⟨hnone, ?_⟩
    have hstatus : u₂.cpu.get .irq 0 = masked false t.cpu.cpsr := by
      rw [hr₂, if_pos hnone.2, hmask, hr₁, if_pos hnone.1]
      rfl
    obtain ⟨hexec, hrunning⟩ := @execute_masked _ (platform base handleTimer1 f) false t.cpu.cpsr
      (mode_bits h.running.mode) hstatus
    obtain ⟨hrun₃, h₃⟩ := hu₂.step handleTimer1 f hbase hready rfl hexec kept_writeStatus
      hrunning rfl
    exact ⟨_, h₃, hrun₃ rest⟩
  · refine .inr ⟨hnone, hu₂.running.run_stuck hbase hu₂.pc rfl (execute_invalidStatus ?_) rest⟩
    by_cases hlast : mask = .none
    · have hfirst : read ≠ .none := fun hread => hnone ⟨hread, hlast⟩
      rw [hr₂, if_pos hlast, hmask, hr₁, if_neg hfirst]
      decide
    · rw [hr₂, if_neg hlast]
      decide

/-- The return, and the services after it. -/
theorem outcome_exit {n k : Nat} (hready : Ready base stack (n + 1) s) (hk : Exit k)
    (h : Serving base stack s false k t) {x rest : Services}
    (hx : x.Completes ↔ rest.Completes) (hrest : ∀ {u}, Ready base stack rest.depth u →
      Outcome stack rest u (run (platform base handleTimer1 f) (rest.events base) u))
    (hdepth : rest.depth ≤ n + 1) :
    Outcome stack x s (run (platform base handleTimer1 f)
      (List.replicate 6 (.instr false) ++ rest.events base) t) := by
  obtain ⟨u, hrun, hreturned, hclobbered⟩ :=
    @run_exit base handleTimer1 f stack s t hbase n hready k hk h
  rw [hrun]
  have hout := hrest ((hready.of_returned hreturned).mono hdepth)
  cases hend : run (platform base handleTimer1 f) (rest.events base) u with
  | none =>
    rw [hend] at hout
    obtain ⟨⟩ | hstuck := hout
    exact .stuck fun h' => hstuck (hx.mp h')
  | some v =>
    rw [hend] at hout
    obtain ⟨hcompletes, hreturned', hclobbered'⟩ := hout
    refine .completed (hx.mpr hcompletes) (hreturned.trans hreturned') fun _ => ?_
    by_cases hnone : rest = .none
    · subst hnone
      rwa [← Option.some.inj hend]
    · have h' := hclobbered' hnone
      exact ⟨h'.r0, h'.lr.trans hreturned.pc, h'.spsr.trans hreturned.cpsr⟩

end Nested

theorem depth_timerISR (enabled called read mask rest : Services) : ∃ n,
    (Services.timerISR enabled called read mask rest).depth = n + 1 ∧ enabled.depth ≤ n ∧
      called.depth ≤ n ∧ read.depth ≤ n ∧ mask.depth ≤ n ∧ rest.depth ≤ n + 1 := by
  refine ⟨(Services.timerISR enabled called read mask rest).depth - 1, ?_⟩
  simp only [Services.depth]
  omega

/-- A nest, service by service. -/
theorem outcome_events (hbase : base.toNat + 120 ≤ 0xFFFF0018)
    (htop : stack.top ≤ 0xFFFF0118) (hf : Conforms stack f) (x : Services) {s : State Vic}
    (hready : Ready base stack x.depth s) :
    Outcome stack x s (run (platform base handleTimer1 f) (x.events base) s) := by
  induction x generalizing s with
  | none => exact .completed trivial (.refl stack s) fun h => absurd rfl h
  | timerISR2 rest ih =>
      have hdepth : rest.depth ≤ (Services.timerISR2 rest).depth := le_max_right ..
      have hone : 1 ≤ (Services.timerISR2 rest).depth := le_max_left ..
      obtain ⟨n, hn⟩ := Nat.exists_eq_add_of_le' hone
      rw [hn] at hready hdepth
      obtain ⟨t, hrun, hentry⟩ := run_entry hbase htop hready (.inr rfl)
      obtain ⟨u, hrun', hcalled⟩ := run_call hbase hready hf hentry rfl
      refine (congrArg (Outcome stack _ s) ((hrun _).trans (hrun' _))).mpr ?_
      exact outcome_exit hbase hready (.inr rfl) hcalled Iff.rfl ih hdepth
  | timerISR enabled called read mask rest ihEnabled ihCalled ihRead ihMask ih =>
      obtain ⟨n, hn, henabled, hcalled, hread, hmask, hdepth⟩ :=
        depth_timerISR enabled called read mask rest
      rw [hn] at hready
      obtain ⟨t₁, hrun₁, h₁⟩ := run_entry hbase htop hready (.inl rfl)
      obtain ⟨t₂, hrun₂, h₂⟩ := run_enable hbase hready h₁
      refine (congrArg (Outcome stack _ s) ((hrun₁ _).trans (hrun₂ _))).mpr ?_
      rcases h₂.pause hready (ihEnabled ((h₂.ready htop hready).mono henabled)) with
        ⟨hstuck, hrun⟩ | ⟨hcompletes, u₂, hrun, hu₂, -⟩
      · rw [hrun]
        exact .stuck fun h => hstuck h.1
      rw [hrun]
      obtain ⟨t₃, hrun₃, h₃⟩ := run_call hbase hready hf hu₂ rfl
      rw [hrun₃]
      rcases h₃.pause hready (ihCalled ((h₃.ready htop hready).mono hcalled)) with
        ⟨hstuck, hrun⟩ | ⟨hcompletes', u₃, hrun, hu₃, -⟩
      · rw [hrun]
        exact .stuck fun h => hstuck h.2.1
      rw [hrun]
      have hinner : ∀ u, Serving base stack s true 11 u ∨ Serving base stack s true 12 u →
          ∀ x ∈ [read, mask],
            Outcome stack x u (run (platform base handleTimer1 f) (x.events base) u) := by
        intro u hu x hx
        have hready' : Ready base stack n u := hu.elim (·.ready htop hready) (·.ready htop hready)
        rcases List.mem_pair.mp hx with rfl | rfl
        · exact ihRead (hready'.mono hread)
        · exact ihMask (hready'.mono hmask)
      rcases run_disable hbase hready hinner hu₃ _ with
        ⟨hnone, u₄, h₄, hrun⟩ | ⟨hsome, hrun⟩
      · rw [hrun]
        refine outcome_exit hbase hready (.inl rfl) h₄ ?_ ih hdepth
        exact ⟨fun h => h.2.2.2.2, fun h => ⟨hcompletes, hcompletes', hnone.1, hnone.2, h⟩⟩
      · rw [hrun]
        exact .stuck fun h => hsome ⟨h.2.2.1, h.2.2.2.1⟩

/-- **A nest of services with none in `HandleTimer1` runs to its end exactly when no
service comes between the read of the status register and its write; then the program
goes on where it was interrupted, and has lost `r0` and the link and saved status of
interrupt mode.** -/
theorem nested_service (hbase : base.toNat + 120 ≤ 0xFFFF0018)
    (htop : stack.top ≤ 0xFFFF0118) (hf : Conforms stack f) (x : Services) {s : State Vic}
    (hready : Ready base stack x.depth s) :
    Outcome stack x s (run (platform base handleTimer1 f) (x.events base) s) :=
  outcome_events hbase htop hf x hready

/-- Why none may come in the function: services before its first instruction, where the
return address is still in the link register, leave its own address there. -/
theorem return_address_lost (hbase : base.toNat + 120 ≤ 0xFFFF0018)
    (htop : stack.top ≤ 0xFFFF0118) (hf : Conforms stack f) {x : Services}
    (hcompletes : x.Completes) (hsome : x ≠ .none) {s : State Vic}
    (hready : Ready base stack x.depth s) (hmode : s.cpu.mode = some .irq)
    (hpc : s.pc = handleTimer1) :
    ∃ t, run (platform base handleTimer1 f) (x.events base) s = some t ∧
      t.cpu.mode = some .irq ∧ t.pc = handleTimer1 ∧ t.cpu.get .irq lr = handleTimer1 := by
  have hout : Outcome stack x s (run (platform base handleTimer1 f) (x.events base) s) :=
    outcome_events hbase htop hf x hready
  cases hrun : run (platform base handleTimer1 f) (x.events base) s with
  | none =>
      rw [hrun] at hout
      obtain ⟨⟩ | hstuck := hout
      exact absurd hcompletes hstuck
  | some t =>
      rw [hrun] at hout
      obtain ⟨-, hreturned, hclobbered⟩ := hout
      have hsame : t.cpu.mode = s.cpu.mode := by rw [Cpu.mode, Cpu.mode, hreturned.cpsr]
      exact ⟨t, rfl, hsame.trans hmode, hreturned.pc.trans hpc,
        (hclobbered hsome).lr.trans hpc⟩

end Nest

/-- A service function that spoils a register. -/
def spoils (s : State Vic) : State Vic := { s with cpu := s.cpu.set .irq 0 1#32 }

theorem spoils_conforms (stack : Stack) : Conforms stack spoils where
  control _ := rfl
  kept s _ := kept_r0 1#32 s.pc

/-- A supervisor with an interrupt stack of a page, `handleIRQ` at `0x10000`. -/
def supervisor : State Vic where
  cpu := (Cpu.ofMode .svc).set .irq sp 0x9000
  pc := 0x2000
  mem := writeWord (fun _ => 0) 0xFFFF0118 0x10000
  device := { vectAddr := 0, inService := 0 }

theorem supervisor_ready : Ready 0x10000 ⟨0x8000, 0x9000⟩ 2 supervisor where
  enabled := by decide
  mode := by decide
  room := by decide
  below := by decide
  vector := readWord_writeWord_self _ _ _

/-- `Timer_ISR2` interrupts `Timer_ISR` before its call, and another comes afterwards. -/
def threeServices : Services :=
  .timerISR (.timerISR2 .none) .none .none .none (.timerISR2 .none)

theorem nested_service_three :
    Outcome ⟨0x8000, 0x9000⟩ threeServices supervisor
      (run (platform 0x10000 0x20000 spoils) (threeServices.events 0x10000) supervisor) :=
  nested_service (by decide) (by decide) (spoils_conforms _) threeServices supervisor_ready

end NspireUtils.Ports.InterruptService
