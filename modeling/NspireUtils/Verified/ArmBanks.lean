import Mathlib

/-!
# ARM processor modes and banked registers

The part of an ARM processor that mode switching is about: the registers below
the program counter with their banked copies, the saved status registers, the
current status register, and the instructions that move between them.  What the
architecture calls unpredictable has no result.

`AsmBlock` is an inline assembly statement: a template over numbered operands and
the constraints under which a compiler chooses their registers.  `Asm` is code
that runs such blocks; it records the state after every instruction, so that `wp`
speaks about the final state and about every state on the way.
-/

namespace NspireUtils.Verified.ArmBanks

abbrev Word := BitVec 32

/-- A processor mode. -/
inductive Mode where
  | usr
  | fiq
  | irq
  | svc
  | abt
  | und
  | sys
  deriving Repr, DecidableEq

/-- A bank of registers; system mode shares the user's. -/
inductive Bank where
  | usr
  | fiq
  | irq
  | svc
  | abt
  | und
  deriving Repr, DecidableEq

/-- A register from `r0` to `r14`. -/
abbrev Reg := Fin 15

instance (priority := high) neZeroReg : NeZero 15 := ⟨by decide⟩

/-- `r13`. -/
abbrev sp : Reg := 13

namespace Mode

/-- The mode field of the status register. -/
def bits : Mode → BitVec 5
  | usr => 0x10
  | fiq => 0x11
  | irq => 0x12
  | svc => 0x13
  | abt => 0x17
  | und => 0x1B
  | sys => 0x1F

/-- The mode a field encodes, if any. -/
def ofBits (b : BitVec 5) : Option Mode :=
  [usr, fiq, irq, svc, abt, und, sys].find? fun m => m.bits = b

@[simp] theorem ofBits_bits (m : Mode) : ofBits m.bits = some m := by cases m <;> rfl

/-- The bank of the mode's stack pointer, link register and saved status. -/
def bank : Mode → Bank
  | usr => .usr
  | fiq => .fiq
  | irq => .irq
  | svc => .svc
  | abt => .abt
  | und => .und
  | sys => .usr

end Mode

/-- The bank in which a mode finds a register. -/
def bankOf (m : Mode) (r : Reg) : Bank :=
  if r < 8 then .usr else if r < 13 then (if m = .fiq then .fiq else .usr) else m.bank

theorem bankOf_low (m : Mode) {r : Reg} (h : r < 8) : bankOf m r = .usr := if_pos h

@[simp] theorem bankOf_sp (m : Mode) : bankOf m sp = m.bank := by
  simp [bankOf, sp]

/-- The processor. -/
@[ext]
structure Cpu where
  cpsr : Word
  reg : Bank → Reg → Word
  spsr : Bank → Word

namespace Cpu

/-- The current mode. -/
def mode (s : Cpu) : Option Mode := Mode.ofBits (s.cpsr.extractLsb' 0 5)

/-- The register as the mode sees it. -/
def get (m : Mode) (s : Cpu) (r : Reg) : Word := s.reg (bankOf m r) r

/-- A write to the register the mode sees. -/
def set (m : Mode) (s : Cpu) (r : Reg) (value : Word) : Cpu :=
  { s with reg := fun b r' => if b = bankOf m r ∧ r' = r then value else s.reg b r' }

@[simp] theorem set_cpsr (m : Mode) (s : Cpu) (r : Reg) (value : Word) :
    (s.set m r value).cpsr = s.cpsr := rfl

@[simp] theorem set_spsr (m : Mode) (s : Cpu) (r : Reg) (value : Word) :
    (s.set m r value).spsr = s.spsr := rfl

@[simp] theorem set_mode (m : Mode) (s : Cpu) (r : Reg) (value : Word) :
    (s.set m r value).mode = s.mode := rfl

theorem set_reg (m : Mode) (s : Cpu) (r : Reg) (value : Word) (b : Bank) (r' : Reg) :
    (s.set m r value).reg b r' = if b = bankOf m r ∧ r' = r then value else s.reg b r' := rfl

theorem get_set (m m' : Mode) (s : Cpu) (r r' : Reg) (value : Word) :
    (s.set m r value).get m' r' =
      if bankOf m' r' = bankOf m r ∧ r' = r then value else s.get m' r' := rfl

theorem get_set_self (m : Mode) (s : Cpu) (r : Reg) (value : Word) :
    (s.set m r value).get m r = value := if_pos ⟨rfl, rfl⟩

theorem get_set_of_ne (m m' : Mode) (s : Cpu) {r r' : Reg} (h : r' ≠ r) (value : Word) :
    (s.set m r value).get m' r' = s.get m' r' := if_neg fun heq => h heq.2

theorem set_set (m : Mode) (s : Cpu) (r : Reg) (value value' : Word) :
    (s.set m r value).set m r value' = s.set m r value' := by
  refine Cpu.ext rfl (funext fun b => funext fun r' => ?_) rfl
  simp only [set_reg]
  split_ifs <;> rfl

/-- The mode, and zero everywhere else. -/
def ofMode (m : Mode) : Cpu where
  cpsr := m.bits.setWidth 32
  reg _ _ := 0
  spsr _ := 0

theorem ofMode_mode (m : Mode) : (ofMode m).mode = some m := by cases m <;> rfl

/-- Interrupts of both kinds are disabled. -/
def Masked (s : Cpu) : Prop := s.cpsr.extractLsb' 6 2 = 0b11#2

end Cpu

/-! ## Instructions -/

/-- The instructions, over the names `ρ` of registers. -/
inductive Instr (ρ : Type) where
  | mrsCpsr (d : ρ)
  | mrsSpsr (d : ρ)
  | msrCpsrC (n : ρ)
  | msrCpsrCXSF (n : ρ)
  | msrSpsrCXSF (n : ρ)
  | mov (d n : ρ)
  | bicImm (d n : ρ) (imm : Word)
  | orr (d n m : ρ)
  | orrImm (d n : ρ) (imm : Word)
  deriving Repr, DecidableEq

/-- Other names. -/
def Instr.map {ρ ρ' : Type} (f : ρ → ρ') : Instr ρ → Instr ρ'
  | mrsCpsr d => .mrsCpsr (f d)
  | mrsSpsr d => .mrsSpsr (f d)
  | msrCpsrC n => .msrCpsrC (f n)
  | msrCpsrCXSF n => .msrCpsrCXSF (f n)
  | msrSpsrCXSF n => .msrSpsrCXSF (f n)
  | mov d n => .mov (f d) (f n)
  | bicImm d n imm => .bicImm (f d) (f n) imm
  | orr d n m => .orr (f d) (f n) (f m)
  | orrImm d n imm => .orrImm (f d) (f n) imm

/-- A status word from its upper part and its control byte. -/
def psr (high : BitVec 24) (control : BitVec 8) : Word := high ++ control

/-- A write of the status register: the control byte alone, or all of it.  User
mode cannot write the control byte.  A mode field that encodes no mode is
unpredictable. -/
def Cpu.setCpsr (m : Mode) (s : Cpu) (high : BitVec 24) (control : BitVec 8) : Option Cpu :=
  let cpsr := psr high (if m = .usr then s.cpsr.extractLsb' 0 8 else control)
  if (Mode.ofBits (cpsr.extractLsb' 0 5)).isSome then some { s with cpsr } else none

theorem extract_control {len : Nat} (start : Nat) (high : BitVec 24) (control : BitVec 8)
    (hfit : start + len ≤ 8) :
    (psr high control).extractLsb' start len = control.extractLsb' start len := by
  ext i hi
  have hbit : (psr high control).getLsbD (start + i) = (high ++ control).getLsbD (start + i) := rfl
  rw [BitVec.getElem_extractLsb', BitVec.getElem_extractLsb', hbit, BitVec.getLsbD_append,
    if_pos (by omega)]

theorem extract_high (high : BitVec 24) (control : BitVec 8) :
    (psr high control).extractLsb' 8 24 = high := by
  ext i hi
  have hbit : (psr high control).getLsbD (8 + i) = (high ++ control).getLsbD (8 + i) := rfl
  rw [BitVec.getElem_extractLsb', hbit, BitVec.getLsbD_append, if_neg (by omega),
    Nat.add_sub_cancel_left, BitVec.getLsbD_eq_getElem hi]

/-- A status word is its two parts. -/
theorem psr_extract (w : Word) : psr (w.extractLsb' 8 24) (w.extractLsb' 0 8) = w := by
  apply BitVec.eq_of_getLsbD_eq
  intro i hi
  have hbit : (psr (w.extractLsb' 8 24) (w.extractLsb' 0 8)).getLsbD i =
      (w.extractLsb' 8 24 ++ w.extractLsb' 0 8).getLsbD i := rfl
  rw [hbit, BitVec.getLsbD_append]
  split_ifs with h
  · simp [h]
  · rw [BitVec.getLsbD_extractLsb', Nat.add_sub_of_le (by omega)]
    simp
    omega

theorem Cpu.mode_of_control {s : Cpu} {high : BitVec 24} {control : BitVec 8} {m : Mode}
    (h : control.extractLsb' 0 5 = m.bits) :
    ({ s with cpsr := psr high control } : Cpu).mode = some m := by
  rw [Cpu.mode, extract_control 0 high control (by omega), h, Mode.ofBits_bits]

/-- A privileged mode writes the status register. -/
theorem Cpu.setCpsr_of_privileged {s : Cpu} {m m' : Mode} {high : BitVec 24}
    {control : BitVec 8} (hprivileged : m ≠ .usr) (h : control.extractLsb' 0 5 = m'.bits) :
    s.setCpsr m high control = some { s with cpsr := psr high control } := by
  rw [Cpu.setCpsr, if_neg hprivileged, extract_control 0 high control (by omega), h,
    Mode.ofBits_bits]
  rfl

/-- One instruction in the mode.  User and system mode have no saved status. -/
def perform (m : Mode) (s : Cpu) : Instr Reg → Option Cpu
  | .mrsCpsr d => some (s.set m d s.cpsr)
  | .mrsSpsr d => if m.bank = .usr then none else some (s.set m d (s.spsr m.bank))
  | .msrCpsrC n => s.setCpsr m (s.cpsr.extractLsb' 8 24) ((s.get m n).extractLsb' 0 8)
  | .msrCpsrCXSF n => s.setCpsr m ((s.get m n).extractLsb' 8 24) ((s.get m n).extractLsb' 0 8)
  | .msrSpsrCXSF n =>
      if m.bank = .usr then none
      else some { s with spsr := fun b => if b = m.bank then s.get m n else s.spsr b }
  | .mov d n => some (s.set m d (s.get m n))
  | .bicImm d n imm => some (s.set m d (s.get m n &&& ~~~imm))
  | .orr d n m' => some (s.set m d (s.get m n ||| s.get m m'))
  | .orrImm d n imm => some (s.set m d (s.get m n ||| imm))

theorem perform_mrsSpsr {m : Mode} (h : m.bank ≠ .usr) (s : Cpu) (d : Reg) :
    perform m s (.mrsSpsr d) = some (s.set m d (s.spsr m.bank)) := if_neg h

theorem perform_msrSpsr {m : Mode} (h : m.bank ≠ .usr) (s : Cpu) (n : Reg) :
    perform m s (.msrSpsrCXSF n) =
      some { s with spsr := fun b => if b = m.bank then s.get m n else s.spsr b } := if_neg h

/-- One instruction. -/
def exec (s : Cpu) (i : Instr Reg) : Option Cpu :=
  match s.mode with
  | some m => perform m s i
  | none => none

theorem exec_of_mode {s : Cpu} {m : Mode} (h : s.mode = some m) (i : Instr Reg) :
    exec s i = perform m s i := by
  simp [exec, h]

/-! ## Code -/

/-- The register an instruction writes. -/
def Instr.dest {ρ : Type} : Instr ρ → Option ρ
  | mrsCpsr d => some d
  | mrsSpsr d => some d
  | msrCpsrC _ => none
  | msrCpsrCXSF _ => none
  | msrSpsrCXSF _ => none
  | mov d _ => some d
  | bicImm d _ _ => some d
  | orr d _ _ => some d
  | orrImm d _ _ => some d

theorem Cpu.setCpsr_reg {s s' : Cpu} {m : Mode} {high : BitVec 24} {control : BitVec 8}
    (h : s.setCpsr m high control = some s') : s'.reg = s.reg := by
  simp only [Cpu.setCpsr] at h
  split_ifs at h <;> obtain rfl := Option.some.inj h <;> rfl

/-- An instruction leaves the other registers alone. -/
theorem exec_reg_of_ne {s s' : Cpu} {i : Instr Reg} {r : Reg} (hr : i.dest ≠ some r)
    (h : exec s i = some s') (b : Bank) : s'.reg b r = s.reg b r := by
  have hset : ∀ (m : Mode) (d : Reg) (v : Word), some d ≠ some r →
      (s.set m d v).reg b r = s.reg b r := by
    intro m d v hd
    exact if_neg fun heq => hd (by rw [heq.2])
  simp only [exec] at h
  split at h
  · rename_i m _
    cases i <;> simp only [perform] at h
    case msrCpsrC n => rw [Cpu.setCpsr_reg h]
    case msrCpsrCXSF n => rw [Cpu.setCpsr_reg h]
    case msrSpsrCXSF n => split_ifs at h; obtain rfl := Option.some.inj h; rfl
    case mrsSpsr d => split_ifs at h; obtain rfl := Option.some.inj h; exact hset _ _ _ hr
    all_goals obtain rfl := Option.some.inj h; exact hset _ _ _ hr
  · simp at h

/-- Code with a result, the states after its instructions recorded. -/
def Asm (α : Type) : Type := Cpu → Option (α × Cpu × List Cpu)

variable {α γ : Type}

instance : Monad Asm where
  pure a := fun s => some (a, s, [])
  bind p f := fun s =>
    match p s with
    | none => none
    | some (a, s', trace) =>
        match f a s' with
        | none => none
        | some (b, s'', trace') => some (b, s'', trace ++ trace')

/-- One instruction. -/
def instr (i : Instr Reg) : Asm Unit := fun s => (exec s i).map fun s' => ((), s', [s'])

/-- Compiled code between two blocks. -/
def compiled (f : Cpu → Cpu) : Asm Unit := fun s => some ((), f s, [f s])

/-- The instructions of the list. -/
def instrs : List (Instr Reg) → Asm Unit
  | [] => pure ()
  | i :: rest => do
      instr i
      instrs rest

/-- The code runs to its end in a state with `Q`, through states with `T`. -/
def wp (T : Cpu → Prop) (p : Asm α) (Q : α → Cpu → Prop) (s : Cpu) : Prop :=
  ∃ a s' trace, p s = some (a, s', trace) ∧ (∀ c ∈ trace, T c) ∧ Q a s'

variable {T : Cpu → Prop} {s : Cpu}

theorem wp.mono {p : Asm α} {Q R : α → Cpu → Prop} (h : wp T p Q s)
    (hQR : ∀ a s', Q a s' → R a s') : wp T p R s := by
  obtain ⟨a, s', trace, hp, htrace, hQ⟩ := h
  exact ⟨a, s', trace, hp, htrace, hQR a s' hQ⟩

/-- What the states on the way are may be weakened. -/
theorem wp.imp {U : Cpu → Prop} {p : Asm α} {Q : α → Cpu → Prop} (h : wp T p Q s)
    (hTU : ∀ c, T c → U c) : wp U p Q s := by
  obtain ⟨a, s', trace, hp, htrace, hQ⟩ := h
  exact ⟨a, s', trace, hp, fun c hc => hTU c (htrace c hc), hQ⟩

theorem wp_pure {a : α} {Q : α → Cpu → Prop} (h : Q a s) : wp T (pure a) Q s :=
  ⟨a, s, [], rfl, by simp, h⟩

theorem wp_bind {p : Asm α} {f : α → Asm γ} {Q : γ → Cpu → Prop}
    (h : wp T p (fun a s' => wp T (f a) Q s') s) : wp T (p >>= f) Q s := by
  obtain ⟨a, s', trace, hp, htrace, b, s'', trace', hf, htrace', hQ⟩ := h
  refine ⟨b, s'', trace ++ trace', ?_, ?_, hQ⟩
  · simp only [bind, hp, hf]
  · intro c hc
    exact (List.mem_append.mp hc).elim (htrace c) (htrace' c)

theorem wp.of_bind {p : Asm α} {f : α → Asm γ} {Q : γ → Cpu → Prop} (h : wp T (p >>= f) Q s) :
    wp T p (fun a s' => wp T (f a) Q s') s := by
  obtain ⟨b, s'', trace, hbind, htrace, hQ⟩ := h
  simp only [bind] at hbind
  split at hbind
  · simp at hbind
  · rename_i a s' first hp
    split at hbind
    · simp at hbind
    · rename_i b' s₂ second hf
      obtain ⟨rfl, rfl, rfl⟩ : b' = b ∧ s₂ = s'' ∧ first ++ second = trace := by
        simpa using hbind
      exact ⟨a, s', first, hp, fun c hc => htrace c (List.mem_append_left _ hc), b', s₂, second, hf,
        fun c hc => htrace c (List.mem_append_right _ hc), hQ⟩

theorem wp_instr {m : Mode} {i : Instr Reg} {s' : Cpu} {Q : Unit → Cpu → Prop}
    (hmode : s.mode = some m) (hperform : perform m s i = some s') (hT : T s') (hQ : Q () s') :
    wp T (instr i) Q s := by
  refine ⟨(), s', [s'], ?_, by simpa using hT, hQ⟩
  rw [instr, exec_of_mode hmode, hperform]
  rfl

theorem wp_compiled {f : Cpu → Cpu} {Q : Unit → Cpu → Prop} (hT : T (f s)) (hQ : Q () (f s)) :
    wp T (compiled f) Q s :=
  ⟨(), f s, [f s], rfl, by simpa using hT, hQ⟩

theorem wp_instrs_nil {Q : Unit → Cpu → Prop} (h : Q () s) : wp T (instrs []) Q s := wp_pure h

theorem wp_instrs_cons {m : Mode} {i : Instr Reg} {rest : List (Instr Reg)} {s' : Cpu}
    {Q : Unit → Cpu → Prop} (hmode : s.mode = some m) (hperform : perform m s i = some s')
    (hT : T s') (hrest : wp T (instrs rest) Q s') : wp T (instrs (i :: rest)) Q s :=
  wp_bind (wp_instr hmode hperform hT hrest)

/-- A run ends with the registers that no instruction writes as they were. -/
theorem instrs_reg_of_ne {r : Reg} {b : Bank} (is : List (Instr Reg))
    (hr : ∀ i ∈ is, i.dest ≠ some r) :
    ∀ {s s' : Cpu} {u : Unit} {trace : List Cpu}, instrs is s = some (u, s', trace) →
      s'.reg b r = s.reg b r := by
  induction is with
  | nil =>
      intro s s' u trace h
      obtain ⟨-, rfl, -⟩ : u = () ∧ s = s' ∧ [] = trace := by
        simpa [instrs, pure, eq_comm] using h
      rfl
  | cons i rest ih =>
      intro s s' u trace h
      simp only [instrs, bind, instr] at h
      cases hexec : exec s i with
      | none => simp [hexec] at h
      | some s₁ =>
          simp only [hexec, Option.map_some] at h
          split at h
          · simp at h
          · rename_i u₂ s₂ trace₂ hrest
            obtain ⟨-, rfl, -⟩ : u₂ = u ∧ s₂ = s' ∧ _ := by simpa using h
            rw [ih (fun j hj => hr j (List.mem_cons_of_mem _ hj)) hrest,
              exec_reg_of_ne (hr i List.mem_cons_self) hexec]

/-- The state after the instructions. -/
def runs : List (Instr Reg) → Cpu → Option Cpu
  | [], s => some s
  | i :: rest, s =>
      match exec s i with
      | some s' => runs rest s'
      | none => none

theorem runs_cons {i : Instr Reg} {rest : List (Instr Reg)} {s s' : Cpu} {m : Mode}
    (hmode : s.mode = some m) (hperform : perform m s i = some s') :
    runs (i :: rest) s = runs rest s' := by
  rw [runs, exec_of_mode hmode, hperform]

theorem runs_singleton (i : Instr Reg) (s : Cpu) : runs [i] s = exec s i := by
  rw [runs]
  cases exec s i <;> rfl

theorem runs_eq_instrs (is : List (Instr Reg)) :
    ∀ s, (instrs is s).map (fun r => r.2.1) = runs is s := by
  induction is with
  | nil => intro s; rfl
  | cons i rest ih =>
      intro s
      simp only [instrs, bind, instr, runs]
      cases hexec : exec s i with
      | none => rfl
      | some s₁ =>
          simp only [Option.map_some]
          rw [← ih s₁]
          cases instrs rest s₁ with
          | none => rfl
          | some r => rfl

/-! ## Inline assembly -/

instance (priority := high) neZeroOperand : NeZero 4 := ⟨by decide⟩

/-- A register of a template: an operand or the stack pointer. -/
inductive Arg where
  | op (n : Fin 4)
  | sp
  deriving Repr, DecidableEq

/-- An inline assembly statement.  Operands are numbered, outputs first; an
early-clobbered output shares no register with an input. -/
structure AsmBlock where
  outputs : List (Fin 4)
  early : Bool
  inputs : List (Fin 4)
  code : List (Instr Arg)

namespace AsmBlock

/-- The registers chosen for the operands. -/
abbrev Allocation := Fin 4 → Reg

/-- The register of a template's argument. -/
def place (a : Allocation) : Arg → Reg
  | .op n => a n
  | .sp => 13

/-- What the constraints permit: operands are in general registers, and outputs
do not share one. -/
structure Permits (b : AsmBlock) (a : Allocation) : Prop where
  general : ∀ n ∈ b.outputs ++ b.inputs, a n ≠ sp
  outputs : ∀ x ∈ b.outputs, ∀ y ∈ b.outputs, a x = a y → x = y
  early : b.early = true → ∀ x ∈ b.outputs, ∀ y ∈ b.inputs, a x ≠ a y

/-- What they allow for the values of the inputs: these share a register only if
they are equal. -/
structure Allows (b : AsmBlock) (a : Allocation) (values : Fin 4 → Word) : Prop
    extends Permits b a where
  inputs : ∀ x ∈ b.inputs, ∀ y ∈ b.inputs, a x = a y → values x = values y

/-- Operands in the registers of their numbers. -/
def inOrder : Allocation := Fin.castLE (by decide)

theorem inOrder_injective : Function.Injective inOrder := Fin.castLE_injective _

theorem inOrder_low (n : Fin 4) : inOrder n < 8 := by
  revert n
  decide

/-- The constraints permit it if no operand is output and input. -/
theorem inOrder_allows {b : AsmBlock} (hdisjoint : ∀ n ∈ b.outputs, n ∉ b.inputs)
    (values : Fin 4 → Word) : b.Allows inOrder values where
  general n _ h := absurd (h ▸ inOrder_low n) (by decide)
  outputs _ _ _ _ h := inOrder_injective h
  early _ x hx y hy h := hdisjoint x hx (by rwa [inOrder_injective h])
  inputs _ _ _ _ h := by rw [inOrder_injective h]

/-- The compiler puts the inputs into their registers. -/
def load (a : Allocation) (values : Fin 4 → Word) (m : Mode) : List (Fin 4) → Cpu → Cpu
  | [], s => s
  | n :: rest, s => load a values m rest (s.set m (a n) (values n))

/-- The block up to its last instruction. -/
def run (b : AsmBlock) (a : Allocation) (values : Fin 4 → Word) : Asm Unit := fun s =>
  match s.mode with
  | some m => instrs (b.code.map (Instr.map (place a))) (load a values m b.inputs s)
  | none => none

/-- The block as the code around it sees it: its outputs are taken from their
registers. -/
def asm (b : AsmBlock) (a : Allocation) (values : Fin 4 → Word) : Asm (Fin 4 → Word) := do
  b.run a values
  fun s =>
    match s.mode with
    | some m => some (fun n => s.get m (a n), s, [])
    | none => none

/-- The state in which the block ends. -/
def final (b : AsmBlock) (a : Allocation) (values : Fin 4 → Word) (s : Cpu) : Option Cpu :=
  (b.run a values s).map fun r => r.2.1

theorem final_eq {b : AsmBlock} {a : Allocation} {values : Fin 4 → Word} {s : Cpu} {m : Mode}
    (hmode : s.mode = some m) :
    b.final a values s = runs (b.code.map (Instr.map (place a))) (load a values m b.inputs s) := by
  rw [final, run, hmode, runs_eq_instrs]

theorem wp_asm {b : AsmBlock} {a : Allocation} {values : Fin 4 → Word} {T : Cpu → Prop} {s : Cpu}
    {m : Mode} {Q : (Fin 4 → Word) → Cpu → Prop} (hmode : s.mode = some m)
    (h : wp T (instrs (b.code.map (Instr.map (place a))))
      (fun _ s' => ∃ m', s'.mode = some m' ∧ Q (fun n => s'.get m' (a n)) s')
      (load a values m b.inputs s)) : wp T (b.asm a values) Q s := by
  apply wp_bind
  obtain ⟨_, s', trace, hrun, htrace, m', hmode', hQ⟩ := h
  refine ⟨(), s', trace, by rw [run, hmode]; exact hrun, htrace, ?_⟩
  exact ⟨_, s', [], by simp only [hmode'], by simp, hQ⟩

theorem of_wp_asm {b : AsmBlock} {a : Allocation} {values : Fin 4 → Word} {T : Cpu → Prop} {s : Cpu}
    {Q : (Fin 4 → Word) → Cpu → Prop} (h : wp T (b.asm a values) Q s) :
    ∃ m, s.mode = some m ∧ wp T (instrs (b.code.map (Instr.map (place a))))
      (fun _ s' => ∃ m', s'.mode = some m' ∧ Q (fun n => s'.get m' (a n)) s')
      (load a values m b.inputs s) := by
  obtain ⟨u, s', trace, hrun, htrace, out, s'', trace', hread, -, hQ⟩ := h.of_bind
  rw [run] at hrun
  split at hrun
  · rename_i m hmode
    refine ⟨m, hmode, u, s', trace, hrun, htrace, ?_⟩
    simp only at hread
    split at hread
    · rename_i m' hmode'
      obtain ⟨rfl, rfl, -⟩ : (fun n => s'.get m' (a n)) = out ∧ s' = s'' ∧ [] = trace' := by
        simpa using hread
      exact ⟨m', hmode', hQ⟩
    · simp at hread
  · simp at hrun

@[simp] theorem load_cpsr (a : Allocation) (values : Fin 4 → Word) (m : Mode) (ns : List (Fin 4)) :
    ∀ s, (load a values m ns s).cpsr = s.cpsr := by
  induction ns with
  | nil => intro s; rfl
  | cons n rest ih => intro s; exact ih _

@[simp] theorem load_spsr (a : Allocation) (values : Fin 4 → Word) (m : Mode) (ns : List (Fin 4)) :
    ∀ s, (load a values m ns s).spsr = s.spsr := by
  induction ns with
  | nil => intro s; rfl
  | cons n rest ih => intro s; exact ih _

@[simp] theorem load_mode (a : Allocation) (values : Fin 4 → Word) (m : Mode) (ns : List (Fin 4))
    (s : Cpu) : (load a values m ns s).mode = s.mode := by
  rw [Cpu.mode, load_cpsr, Cpu.mode]

/-- Loading reaches only the registers of the inputs. -/
theorem load_reg_of_notMem (a : Allocation) (values : Fin 4 → Word) (m : Mode) {b : Bank} {r : Reg}
    (ns : List (Fin 4)) (h : ∀ n ∈ ns, ¬ (b = bankOf m (a n) ∧ r = a n)) :
    ∀ s, (load a values m ns s).reg b r = s.reg b r := by
  induction ns with
  | nil => intro s; rfl
  | cons n rest ih =>
      intro s
      rw [load, ih fun n hn => h n (List.mem_cons_of_mem _ hn), Cpu.set_reg,
        if_neg (h n List.mem_cons_self)]

/-- A register holds what all inputs placed there agree on. -/
theorem load_get_of_mem (a : Allocation) (values : Fin 4 → Word) (m : Mode) {r : Reg} {value : Word}
    (ns : List (Fin 4)) (hplaced : ∃ n ∈ ns, a n = r)
    (hagree : ∀ n ∈ ns, a n = r → values n = value) :
    ∀ s, (load a values m ns s).get m r = value := by
  induction ns with
  | nil => simp at hplaced
  | cons n rest ih =>
      intro s
      have hrest : ∀ k ∈ rest, a k = r → values k = value :=
        fun k hk => hagree k (List.mem_cons_of_mem _ hk)
      by_cases hlater : ∃ k ∈ rest, a k = r
      · exact ih hlater hrest _
      · -- the last input placed there
        push Not at hlater
        have hn : a n = r := by
          obtain ⟨k, hk, hkr⟩ := hplaced
          rcases List.mem_cons.mp hk with rfl | hk
          · exact hkr
          · exact absurd hkr (hlater k hk)
        rw [load, Cpu.get, load_reg_of_notMem a values m rest
          (fun k hk h => hlater k hk h.2.symm), Cpu.set_reg, if_pos ⟨by rw [hn], hn.symm⟩]
        exact hagree n List.mem_cons_self hn

/-- An input finds its value. -/
theorem load_get {b : AsmBlock} {a : Allocation} {values : Fin 4 → Word}
    (hallows : b.Allows a values) (m : Mode) {n : Fin 4} (hn : n ∈ b.inputs) (s : Cpu) :
    (load a values m b.inputs s).get m (a n) = values n :=
  load_get_of_mem a values m b.inputs ⟨n, hn, rfl⟩
    (fun k hk hkn => hallows.inputs k hk n hn hkn) s

/-- In another mode, the same register holds the input's value or is another
register. -/
theorem load_get_mode {b : AsmBlock} {a : Allocation} {values : Fin 4 → Word}
    (hallows : b.Allows a values) (m t : Mode) {n : Fin 4} (hn : n ∈ b.inputs) (s : Cpu) :
    (load a values m b.inputs s).get t (a n) =
      if bankOf t (a n) = bankOf m (a n) then values n else s.get t (a n) := by
  split_ifs with hbank
  · rw [← load_get hallows m hn s, Cpu.get, Cpu.get, hbank]
  · exact load_reg_of_notMem a values m b.inputs
      (fun k _ h => hbank (by rw [h.1, h.2])) s

end AsmBlock

end NspireUtils.Verified.ArmBanks
