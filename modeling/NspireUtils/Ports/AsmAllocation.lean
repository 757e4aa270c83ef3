import NspireUtils.Ports.CPU
import NspireUtils.Ports.BankedSP

/-!
# Register allocation and mode switches

The blocks of `SaveCPUState`, `RestoreCPUState` and `SetBankedSP` under every
choice of registers their constraints permit.  An operand that the compiler
placed in one mode and the block touches in another survives only if both modes
find its register in the same bank; the constraints do not say so.
`independent_iff` is the exact condition.
-/

namespace NspireUtils.Ports.AsmAllocation

open NspireUtils.Verified.ArmBanks
open NspireUtils.Ports.CPU
open NspireUtils.Ports.BankedSP

/-- The blocks, with the mode they switch to. -/
inductive Block where
  | readCpsr
  | saveBank (t : Mode) (ht : t.bank ≠ .usr)
  | saveSpsr (t : Mode) (ht : t.bank ≠ .usr)
  | writeControl
  | restoreBank (t : Mode) (ht : t.bank ≠ .usr)
  | restoreSpsr (t : Mode) (ht : t.bank ≠ .usr)
  | writeCpsr
  | setBankedSP (target : CPUMode)

namespace Block

/-- The block's template. -/
def asm : Block → AsmBlock
  | readCpsr => CPU.readCpsr
  | saveBank _ _ => CPU.saveBank
  | saveSpsr _ _ => CPU.saveSpsr
  | writeControl => CPU.writeControl
  | restoreBank _ _ => CPU.restoreBank
  | restoreSpsr _ _ => CPU.restoreSpsr
  | writeCpsr => CPU.writeCpsr
  | setBankedSP _ => setBankedSPBlock

/-- The values the code gives to the inputs: the mode words are computed from a
status word, the others are free. -/
def Intended : Block → (Fin 4 → Word) → Prop
  | saveBank t _, values => ∃ cpsr, values 2 = modeCpsr cpsr t
  | saveSpsr t _, values => ∃ cpsr, values 1 = modeCpsr cpsr t
  | restoreBank t _, values => ∃ cpsr, values 0 = modeCpsr cpsr t
  | restoreSpsr t _, values => ∃ cpsr, values 0 = modeCpsr cpsr t
  | setBankedSP target, values => values 2 = target.value
  | _, _ => True

/-- The condition: with the operands placed in mode `c` and the outputs seen in
mode `o`, every operand touched in the target mode is in a register of the same
bank there.  User mode reaches no target mode. -/
def Portable : Block → Mode → Mode → AsmBlock.Allocation → Prop
  | readCpsr, c, o, a => bankOf o (a 0) = bankOf c (a 0)
  | saveBank t _, c, o, a =>
      c ≠ .usr → bankOf o (a 0) = bankOf t (a 0) ∧ bankOf o (a 1) = bankOf t (a 1)
  | saveSpsr t _, c, o, a => c ≠ .usr → bankOf o (a 0) = bankOf t (a 0)
  | writeControl, _, _, _ => True
  | restoreBank t _, c, _, a =>
      c ≠ .usr → bankOf t (a 1) = bankOf c (a 1) ∧ bankOf t (a 2) = bankOf c (a 2)
  | restoreSpsr t _, c, _, a => c ≠ .usr → bankOf t (a 1) = bankOf c (a 1)
  | writeCpsr, _, _, _ => True
  | setBankedSP target, c, o, a =>
      (c ≠ .usr → bankOf target.mode (a 3) = bankOf c (a 3) ∧
        bankOf target.mode (a 0) = bankOf c (a 0)) ∧
      bankOf o (a 0) = bankOf c (a 0) ∧ bankOf o (a 1) = bankOf c (a 1)

end Block

/-- What a block is for: the status register, the banked stack pointers, the
saved status registers and the outputs. -/
@[ext]
structure Effect where
  cpsr : Word
  sp : Bank → Word
  spsr : Bank → Word
  outputs : List Word

/-- The effect, its outputs seen in mode `o`. -/
def effectOf (b : AsmBlock) (a : AsmBlock.Allocation) (o : Mode) (s : Cpu) : Effect where
  cpsr := s.cpsr
  sp bank := s.reg bank sp
  spsr := s.spsr
  outputs := b.outputs.map fun n => s.get o (a n)

/-- The effect of a block; unpredictable code has none. -/
def effect (b : Block) (a : AsmBlock.Allocation) (values : Fin 4 → Word) (o : Mode) (s : Cpu) :
    Option Effect :=
  (b.asm.final a values s).map (effectOf b.asm a o)

/-- The block's effect is that of an allocation to unbanked registers, for every
processor in mode `c` and all values of the inputs. -/
def Independent (b : Block) (c o : Mode) (a : AsmBlock.Allocation) : Prop :=
  ∀ (s : Cpu) (values : Fin 4 → Word) (low : AsmBlock.Allocation), s.mode = some c →
    b.Intended values → b.asm.Allows a values → b.asm.Allows low values → (∀ n, low n < 8) →
    effect b a values o s = effect b low values o s

/-! ## The states the blocks end in -/

/-- The processor before the first switch of `SetBankedSP`. -/
def prepared (a : AsmBlock.Allocation) (values : Fin 4 → Word) (c : Mode) (target : CPUMode)
    (s : Cpu) : Cpu :=
  ((AsmBlock.load a values c setBankedSPBlock.inputs s).set c (a 0) s.cpsr).set c (a 1)
    (modeCpsr s.cpsr target.mode)

theorem prepared_cpsr (a : AsmBlock.Allocation) (values : Fin 4 → Word) (c : Mode)
    (target : CPUMode) (s : Cpu) : (prepared a values c target s).cpsr = s.cpsr := by
  rw [prepared, Cpu.set_cpsr, Cpu.set_cpsr, AsmBlock.load_cpsr]

theorem prepared_mode (a : AsmBlock.Allocation) (values : Fin 4 → Word) (c : Mode)
    (target : CPUMode) (s : Cpu) : (prepared a values c target s).mode = s.mode := by
  rw [Cpu.mode, prepared_cpsr, Cpu.mode]

section Final

variable {a : AsmBlock.Allocation} {values : Fin 4 → Word} {s : Cpu} {c : Mode}
  (hmode : s.mode = some c)
include hmode

theorem final_readCpsr :
    CPU.readCpsr.final a values s = some (s.set c (a 0) s.cpsr) := by
  rw [AsmBlock.final_eq hmode]
  exact runs_cons hmode rfl

theorem final_writeControl :
    CPU.writeControl.final a values s =
      (s.set c (a 0) (values 0)).setCpsr c (s.cpsr.extractLsb' 8 24)
        ((values 0).extractLsb' 0 8) := by
  have hloaded : (s.set c (a 0) (values 0)).get c (a 0) = values 0 := by
    rw [Cpu.get_set, if_pos ⟨rfl, rfl⟩]
  rw [AsmBlock.final_eq hmode]
  show runs [.msrCpsrC (a 0)] (s.set c (a 0) (values 0)) = _
  rw [runs_singleton, exec_of_mode (m := c) (by rw [Cpu.set_mode, hmode]), perform, hloaded]
  rfl

theorem final_writeCpsr :
    CPU.writeCpsr.final a values s =
      (s.set c (a 0) (values 0)).setCpsr c ((values 0).extractLsb' 8 24)
        ((values 0).extractLsb' 0 8) := by
  have hloaded : (s.set c (a 0) (values 0)).get c (a 0) = values 0 := by
    rw [Cpu.get_set, if_pos ⟨rfl, rfl⟩]
  rw [AsmBlock.final_eq hmode]
  show runs [.msrCpsrCXSF (a 0)] (s.set c (a 0) (values 0)) = _
  rw [runs_singleton, exec_of_mode (m := c) (by rw [Cpu.set_mode, hmode]), perform, hloaded]

/-- The mode word of `SetBankedSP` is computed in the first mode. -/
theorem final_prepared {target : CPUMode} (hallows : setBankedSPBlock.Allows a values)
    (hvalue : values 2 = target.value) :
    setBankedSPBlock.final a values s =
      runs [.msrCpsrC (a 1), .mov sp (a 3), .msrCpsrC (a 0)] (prepared a values c target s) := by
  have hzero : setBankedSPBlock.outputs = [0, 1] := rfl
  have htwo : setBankedSPBlock.inputs = [2, 3] := rfl
  have htarget := AsmBlock.load_get hallows c (n := 2) (by simp [htwo]) s
  have h20 : a 2 ≠ a 0 := (hallows.early rfl 0 (by simp [hzero]) 2 (by simp [htwo])).symm
  have h21 : a 2 ≠ a 1 := (hallows.early rfl 1 (by simp [hzero]) 2 (by simp [htwo])).symm
  have hmodeLoaded : (AsmBlock.load a values c setBankedSPBlock.inputs s).mode = some c := by
    rw [AsmBlock.load_mode, hmode]
  have hcpsr := AsmBlock.load_cpsr a values c setBankedSPBlock.inputs s
  rw [AsmBlock.final_eq hmode, prepared]
  generalize AsmBlock.load a values c setBankedSPBlock.inputs s = loaded at *
  have hsaved : perform c loaded (.mrsCpsr (a 0)) = some (loaded.set c (a 0) s.cpsr) := by
    rw [perform, hcpsr]
  have hclear : perform c (loaded.set c (a 0) s.cpsr) (.bicImm (a 1) (a 0) 0x1F#32) =
      some ((loaded.set c (a 0) s.cpsr).set c (a 1) (s.cpsr &&& ~~~0x1F#32)) := by
    rw [perform, Cpu.get_set_self]
  have hselect : perform c ((loaded.set c (a 0) s.cpsr).set c (a 1) (s.cpsr &&& ~~~0x1F#32))
      (.orr (a 1) (a 1) (a 2)) = some ((loaded.set c (a 0) s.cpsr).set c (a 1)
        ((s.cpsr &&& ~~~0x1F#32) ||| target.value)) := by
    rw [perform, Cpu.get_set_self, Cpu.get_set_of_ne _ _ _ h21, Cpu.get_set_of_ne _ _ _ h20,
      htarget, Cpu.set_set, hvalue]
  have hmask : perform c ((loaded.set c (a 0) s.cpsr).set c (a 1)
      ((s.cpsr &&& ~~~0x1F#32) ||| target.value)) (.orrImm (a 1) (a 1) 0xC0#32) =
      some ((loaded.set c (a 0) s.cpsr).set c (a 1) (modeCpsr s.cpsr target.mode)) := by
    rw [perform, Cpu.get_set_self, Cpu.set_set, CPUMode.value_eq]
    rfl
  apply (runs_cons hmodeLoaded hsaved).trans
  apply (runs_cons (by rw [Cpu.set_mode, hmodeLoaded]) hclear).trans
  apply (runs_cons (by simp only [Cpu.set_mode, hmodeLoaded]) hselect).trans
  exact runs_cons (by simp only [Cpu.set_mode, hmodeLoaded]) hmask

variable (hprivileged : c ≠ .usr)
include hprivileged

theorem final_saveBank {t : Mode} (ht : t.bank ≠ .usr) (hallows : CPU.saveBank.Allows a values)
    {cpsr : Word} (hvalue : values 2 = modeCpsr cpsr t) :
    CPU.saveBank.final a values s =
      some (((switchTo (s.set c (a 2) (values 2)) cpsr t).set t (a 0) (s.reg t.bank sp)).set t (a 1)
        (s.spsr t.bank)) := by
  have hloaded : (s.set c (a 2) (values 2)).get c (a 2) = modeCpsr cpsr t := by
    rw [Cpu.get_set, if_pos ⟨rfl, rfl⟩, hvalue]
  have hmodeLoaded : (s.set c (a 2) (values 2)).mode = some c := hmode
  have hsp : (switchTo (s.set c (a 2) (values 2)) cpsr t).get t sp = s.reg t.bank sp := by
    have hne : a 2 ≠ sp := hallows.general 2 (by simp [CPU.saveBank])
    show (s.set c (a 2) (values 2)).reg (bankOf t sp) sp = _
    rw [Cpu.set_reg, if_neg fun h => hne h.2.symm, bankOf_sp]
  rw [AsmBlock.final_eq hmode]
  apply (runs_cons hmodeLoaded (perform_switch hprivileged hloaded)).trans
  apply (runs_cons (switchTo_mode _ _ _) rfl).trans
  apply (runs_cons (m := t) (by rw [Cpu.set_mode, switchTo_mode]) (perform_mrsSpsr ht _ _)).trans
  rw [← hsp]
  rfl

theorem final_saveSpsr {t : Mode} (ht : t.bank ≠ .usr) {cpsr : Word}
    (hvalue : values 1 = modeCpsr cpsr t) :
    CPU.saveSpsr.final a values s =
      some ((switchTo (s.set c (a 1) (values 1)) cpsr t).set t (a 0) (s.spsr t.bank)) := by
  have hloaded : (s.set c (a 1) (values 1)).get c (a 1) = modeCpsr cpsr t := by
    rw [Cpu.get_set, if_pos ⟨rfl, rfl⟩, hvalue]
  have hmodeLoaded : (s.set c (a 1) (values 1)).mode = some c := hmode
  rw [AsmBlock.final_eq hmode]
  apply (runs_cons hmodeLoaded (perform_switch hprivileged hloaded)).trans
  exact runs_cons (switchTo_mode _ _ _) (perform_mrsSpsr ht _ _)

/-- After loading, the block finds in its target mode what is in the bank there. -/
theorem final_restoreBank {t : Mode} (ht : t.bank ≠ .usr)
    (hallows : CPU.restoreBank.Allows a values) {cpsr : Word}
    (hvalue : values 0 = modeCpsr cpsr t) :
    let s₀ := AsmBlock.load a values c CPU.restoreBank.inputs s
    CPU.restoreBank.final a values s =
      some { (switchTo s₀ cpsr t).set t sp (s₀.get t (a 1)) with
        spsr := fun b => if b = t.bank then s₀.get t (a 2) else s.spsr b } := by
  intro s₀
  have hloaded : s₀.get c (a 0) = modeCpsr cpsr t := by
    rw [← hvalue]
    exact AsmBlock.load_get hallows c (by simp [CPU.restoreBank]) s
  have hmodeLoaded : s₀.mode = some c := by rw [AsmBlock.load_mode, hmode]
  have hne : a 2 ≠ sp := hallows.general 2 (by simp [CPU.restoreBank])
  have hspsr : ((switchTo s₀ cpsr t).set t sp (s₀.get t (a 1))).get t (a 2) = s₀.get t (a 2) := by
    rw [Cpu.get_set, if_neg fun h => hne h.2]
    rfl
  rw [AsmBlock.final_eq hmode]
  apply (runs_cons hmodeLoaded (perform_switch hprivileged hloaded)).trans
  apply (runs_cons (switchTo_mode _ _ _) rfl).trans
  apply (runs_cons (m := t) (by rw [Cpu.set_mode, switchTo_mode]) (perform_msrSpsr ht _ _)).trans
  refine congrArg some (Cpu.ext rfl rfl (funext fun b => ?_))
  show (if b = t.bank then ((switchTo s₀ cpsr t).set t sp (s₀.get t (a 1))).get t (a 2)
    else s₀.spsr b) = _
  rw [hspsr, AsmBlock.load_spsr]

theorem final_restoreSpsr {t : Mode} (ht : t.bank ≠ .usr)
    (hallows : CPU.restoreSpsr.Allows a values) {cpsr : Word}
    (hvalue : values 0 = modeCpsr cpsr t) :
    let s₀ := AsmBlock.load a values c CPU.restoreSpsr.inputs s
    CPU.restoreSpsr.final a values s =
      some { switchTo s₀ cpsr t with
        spsr := fun b => if b = t.bank then s₀.get t (a 1) else s.spsr b } := by
  intro s₀
  have hloaded : s₀.get c (a 0) = modeCpsr cpsr t := by
    rw [← hvalue]
    exact AsmBlock.load_get hallows c (by simp [CPU.restoreSpsr]) s
  have hmodeLoaded : s₀.mode = some c := by rw [AsmBlock.load_mode, hmode]
  rw [AsmBlock.final_eq hmode]
  apply (runs_cons hmodeLoaded (perform_switch hprivileged hloaded)).trans
  apply (runs_cons (switchTo_mode _ _ _) (perform_msrSpsr ht _ _)).trans
  refine congrArg some (Cpu.ext rfl rfl (funext fun b => ?_))
  show (if b = t.bank then (switchTo s₀ cpsr t).get t (a 1) else s₀.spsr b) = _
  rw [AsmBlock.load_spsr]
  rfl

/-- The template of `SetBankedSP`, up to the switch back. -/
theorem final_setBankedSP {target : CPUMode} (hallows : setBankedSPBlock.Allows a values)
    (hvalue : values 2 = target.value) :
    let s₀ := prepared a values c target s
    let s₁ := (switchTo s₀ s.cpsr target.mode).set target.mode sp (s₀.get target.mode (a 3))
    setBankedSPBlock.final a values s =
      s₁.setCpsr target.mode (s.cpsr.extractLsb' 8 24)
        ((s₁.get target.mode (a 0)).extractLsb' 0 8) := by
  intro s₀ s₁
  have hmode₀ : s₀.mode = some c := by rw [prepared_mode, hmode]
  have htop : (switchTo s₀ s.cpsr target.mode).cpsr.extractLsb' 8 24 = s.cpsr.extractLsb' 8 24 := by
    rw [switchTo, extract_high, prepared_cpsr]
  rw [final_prepared hmode hallows hvalue]
  apply (runs_cons hmode₀ (perform_switch hprivileged (Cpu.get_set_self _ _ _ _))).trans
  apply (runs_cons (switchTo_mode _ _ _) rfl).trans
  apply (runs_singleton _ _).trans
  rw [exec_of_mode (m := target.mode) (by rw [Cpu.set_mode, switchTo_mode])]
  show Cpu.setCpsr target.mode s₁ ((switchTo s₀ s.cpsr target.mode).cpsr.extractLsb' 8 24) _ = _
  rw [htop]
  rfl

end Final

/-! ## The effects -/

/-- The banked stack pointers. -/
def spOf (s : Cpu) (b : Bank) : Word := s.reg b sp

/-- The effect with the operands in unbanked registers. -/
def ideal (values : Fin 4 → Word) (c : Mode) (s : Cpu) : Block → Option Effect
  | .readCpsr => some ⟨s.cpsr, spOf s, s.spsr, [s.cpsr]⟩
  | .saveBank t _ =>
      if c = .usr then none
      else some ⟨psr (s.cpsr.extractLsb' 8 24) ((values 2).extractLsb' 0 8), spOf s, s.spsr,
        [spOf s t.bank, s.spsr t.bank]⟩
  | .saveSpsr t _ =>
      if c = .usr then none
      else some ⟨psr (s.cpsr.extractLsb' 8 24) ((values 1).extractLsb' 0 8), spOf s, s.spsr,
        [s.spsr t.bank]⟩
  | .writeControl =>
      ((s.setCpsr c (s.cpsr.extractLsb' 8 24) ((values 0).extractLsb' 0 8)).map Cpu.cpsr).map
        fun cpsr => ⟨cpsr, spOf s, s.spsr, []⟩
  | .restoreBank t _ =>
      if c = .usr then none
      else some ⟨psr (s.cpsr.extractLsb' 8 24) ((values 0).extractLsb' 0 8),
        Function.update (spOf s) t.bank (values 1), Function.update s.spsr t.bank (values 2), []⟩
  | .restoreSpsr t _ =>
      if c = .usr then none
      else some ⟨psr (s.cpsr.extractLsb' 8 24) ((values 0).extractLsb' 0 8), spOf s,
        Function.update s.spsr t.bank (values 1), []⟩
  | .writeCpsr =>
      ((s.setCpsr c ((values 0).extractLsb' 8 24) ((values 0).extractLsb' 0 8)).map Cpu.cpsr).map
        fun cpsr => ⟨cpsr, spOf s, s.spsr, []⟩
  | .setBankedSP target =>
      let t := if c = .usr then .usr else target.mode
      some ⟨s.cpsr, Function.update (spOf s) t.bank (values 3), s.spsr,
        [s.cpsr, modeCpsr s.cpsr target.mode]⟩

/-- Setting a general register leaves the stack pointers alone. -/
theorem spOf_set (m : Mode) (s : Cpu) {r : Reg} (hr : r ≠ sp) (value : Word) :
    spOf (s.set m r value) = spOf s :=
  funext fun _ => if_neg fun h => hr h.2.symm

theorem spOf_set_sp (m : Mode) (s : Cpu) (value : Word) :
    spOf (s.set m sp value) = Function.update (spOf s) m.bank value := by
  funext b
  rw [spOf, Cpu.set_reg, bankOf_sp, Function.update_apply]
  simp [spOf]

theorem spOf_load (a : AsmBlock.Allocation) (values : Fin 4 → Word) (m : Mode) (ns : List (Fin 4))
    (h : ∀ n ∈ ns, a n ≠ sp) (s : Cpu) : spOf (AsmBlock.load a values m ns s) = spOf s :=
  funext fun _ => AsmBlock.load_reg_of_notMem a values m ns (fun n hn heq => h n hn heq.2.symm) s

/-- A status write is seen in the status register only. -/
theorem effect_setCpsr (b : AsmBlock) (a : AsmBlock.Allocation) (o m : Mode) (s : Cpu)
    (high : BitVec 24) (control : BitVec 8) :
    (s.setCpsr m high control).map (effectOf b a o) =
      ((s.setCpsr m high control).map Cpu.cpsr).map fun cpsr =>
        ⟨cpsr, spOf s, s.spsr, b.outputs.map fun n => s.get o (a n)⟩ := by
  rw [Cpu.setCpsr]
  split_ifs <;> rfl

theorem setCpsr_cpsr (m : Mode) {s s' : Cpu} (h : s'.cpsr = s.cpsr) (high : BitVec 24)
    (control : BitVec 8) :
    (s'.setCpsr m high control).map Cpu.cpsr = (s.setCpsr m high control).map Cpu.cpsr := by
  rw [Cpu.setCpsr, Cpu.setCpsr, h]
  split_ifs <;> rfl

theorem setCpsr_cpsr_of_privileged {m : Mode} (hm : m ≠ .usr) (s s' : Cpu) (high : BitVec 24)
    (control : BitVec 8) :
    (s.setCpsr m high control).map Cpu.cpsr = (s'.setCpsr m high control).map Cpu.cpsr := by
  rw [Cpu.setCpsr, Cpu.setCpsr, if_neg hm, if_neg hm]
  split_ifs <;> rfl

/-- Writing the status register back changes nothing. -/
theorem setCpsr_self {s : Cpu} {c m : Mode} (hmode : s.mode = some c) :
    (s.setCpsr m (s.cpsr.extractLsb' 8 24) (s.cpsr.extractLsb' 0 8)).map Cpu.cpsr =
      some s.cpsr := by
  have hvalid : (Mode.ofBits (s.cpsr.extractLsb' 0 5)).isSome := by
    rw [← Cpu.mode, hmode]
    rfl
  rw [Cpu.setCpsr, ite_self, psr_extract, if_pos hvalid]
  rfl

/-! ## The operands of `SetBankedSP` -/

section Prepared

variable {a : AsmBlock.Allocation} {values : Fin 4 → Word}
  (hallows : setBankedSPBlock.Allows a values) (c t : Mode) (target : CPUMode) (s : Cpu)
include hallows

/-- An output before its instruction. -/
theorem loaded_get_output {n : Fin 4} (hn : n ∈ setBankedSPBlock.outputs) :
    (AsmBlock.load a values c setBankedSPBlock.inputs s).get t (a n) = s.get t (a n) :=
  AsmBlock.load_reg_of_notMem a values c _ (fun k hk h => hallows.early rfl n hn k hk h.2) s

theorem prepared_get_original :
    (prepared a values c target s).get t (a 0) =
      if bankOf t (a 0) = bankOf c (a 0) then s.cpsr else s.get t (a 0) := by
  have h01 : a 0 ≠ a 1 := fun h =>
    absurd (hallows.outputs 0 (by decide) 1 (by decide) h) (by decide)
  rw [prepared, Cpu.get_set_of_ne _ _ _ h01, Cpu.get_set,
    loaded_get_output hallows c t s (by decide)]
  simp

theorem prepared_get_temp :
    (prepared a values c target s).get t (a 1) =
      if bankOf t (a 1) = bankOf c (a 1) then modeCpsr s.cpsr target.mode else s.get t (a 1) := by
  have h10 : a 1 ≠ a 0 := fun h =>
    absurd (hallows.outputs 1 (by decide) 0 (by decide) h) (by decide)
  rw [prepared, Cpu.get_set, Cpu.get_set_of_ne _ _ _ h10,
    loaded_get_output hallows c t s (by decide)]
  simp

theorem prepared_get_value :
    (prepared a values c target s).get t (a 3) =
      if bankOf t (a 3) = bankOf c (a 3) then values 3 else s.get t (a 3) := by
  have h30 : a 3 ≠ a 0 := (hallows.early rfl 0 (by decide) 3 (by decide)).symm
  have h31 : a 3 ≠ a 1 := (hallows.early rfl 1 (by decide) 3 (by decide)).symm
  rw [prepared, Cpu.get_set_of_ne _ _ _ h31, Cpu.get_set_of_ne _ _ _ h30]
  exact AsmBlock.load_get_mode hallows c t (by decide) s

theorem spOf_prepared : spOf (prepared a values c target s) = spOf s := by
  rw [prepared, spOf_set _ _ (hallows.general 1 (by decide)),
    spOf_set _ _ (hallows.general 0 (by decide))]
  exact spOf_load a values c _ (fun n hn => hallows.general n (List.mem_append_right _ hn)) s

end Prepared

/-- The status word `SetBankedSP` switches back with. -/
def switchBack (a : AsmBlock.Allocation) (s : Cpu) (c t : Mode) : Word :=
  if bankOf t (a 0) = bankOf c (a 0) then s.cpsr else s.get t (a 0)

section Effects

variable {a : AsmBlock.Allocation} {values : Fin 4 → Word} {s : Cpu} {c : Mode} {o : Mode}
  (hmode : s.mode = some c)
include hmode

theorem effect_readCpsr (hpermits : CPU.readCpsr.Permits a) :
    effect .readCpsr a values o s = some ⟨s.cpsr, spOf s, s.spsr,
      [if bankOf o (a 0) = bankOf c (a 0) then s.cpsr else s.get o (a 0)]⟩ := by
  have hne : a 0 ≠ sp := hpermits.general 0 (by simp [CPU.readCpsr])
  have hsp := spOf_set c s hne s.cpsr
  rw [effect, Block.asm, final_readCpsr hmode, Option.map_some]
  refine congrArg some (Effect.ext rfl hsp rfl ?_)
  simp [effectOf, CPU.readCpsr, Cpu.get_set]

theorem effect_writeControl (hpermits : CPU.writeControl.Permits a) :
    effect .writeControl a values o s =
      ((s.setCpsr c (s.cpsr.extractLsb' 8 24) ((values 0).extractLsb' 0 8)).map Cpu.cpsr).map
        fun cpsr => ⟨cpsr, spOf s, s.spsr, []⟩ := by
  have hsp := spOf_set c s (hpermits.general 0 (by simp [CPU.writeControl])) (values 0)
  rw [effect, Block.asm, final_writeControl hmode, effect_setCpsr, hsp,
    setCpsr_cpsr c (s := s) (Cpu.set_cpsr _ _ _ _)]
  rfl

theorem effect_writeCpsr (hpermits : CPU.writeCpsr.Permits a) :
    effect .writeCpsr a values o s =
      ((s.setCpsr c ((values 0).extractLsb' 8 24) ((values 0).extractLsb' 0 8)).map Cpu.cpsr).map
        fun cpsr => ⟨cpsr, spOf s, s.spsr, []⟩ := by
  have hsp := spOf_set c s (hpermits.general 0 (by simp [CPU.writeCpsr])) (values 0)
  rw [effect, Block.asm, final_writeCpsr hmode, effect_setCpsr, hsp,
    setCpsr_cpsr c (s := s) (Cpu.set_cpsr _ _ _ _)]
  rfl

variable (hprivileged : c ≠ .usr)
include hprivileged

theorem effect_saveBank {t : Mode} (ht : t.bank ≠ .usr) (hallows : CPU.saveBank.Allows a values)
    (hvalue : ∃ cpsr, values 2 = modeCpsr cpsr t) :
    effect (.saveBank t ht) a values o s =
      some ⟨psr (s.cpsr.extractLsb' 8 24) ((values 2).extractLsb' 0 8), spOf s, s.spsr,
        [if bankOf o (a 0) = bankOf t (a 0) then spOf s t.bank
          else (s.set c (a 2) (values 2)).get o (a 0),
        if bankOf o (a 1) = bankOf t (a 1) then s.spsr t.bank
          else (s.set c (a 2) (values 2)).get o (a 1)]⟩ := by
  obtain ⟨cpsr, hvalue⟩ := hvalue
  have hne := fun n hn => hallows.general n hn
  have h01 : a 0 ≠ a 1 := fun h =>
    absurd (hallows.outputs 0 (by simp [CPU.saveBank]) 1 (by simp [CPU.saveBank]) h) (by decide)
  rw [effect, Block.asm, final_saveBank hmode hprivileged ht hallows hvalue, Option.map_some]
  refine congrArg some (Effect.ext ?_ ?_ rfl ?_)
  · rw [hvalue]
    rfl
  · apply (spOf_set _ _ (hne 1 (by simp [CPU.saveBank])) _).trans
    apply (spOf_set _ _ (hne 0 (by simp [CPU.saveBank])) _).trans
    exact spOf_set c s (hne 2 (by simp [CPU.saveBank])) _
  · simp [effectOf, CPU.saveBank, Cpu.get_set, h01, h01.symm, spOf]

theorem effect_saveSpsr {t : Mode} (ht : t.bank ≠ .usr) (hallows : CPU.saveSpsr.Allows a values)
    (hvalue : ∃ cpsr, values 1 = modeCpsr cpsr t) :
    effect (.saveSpsr t ht) a values o s =
      some ⟨psr (s.cpsr.extractLsb' 8 24) ((values 1).extractLsb' 0 8), spOf s, s.spsr,
        [if bankOf o (a 0) = bankOf t (a 0) then s.spsr t.bank
          else (s.set c (a 1) (values 1)).get o (a 0)]⟩ := by
  obtain ⟨cpsr, hvalue⟩ := hvalue
  rw [effect, Block.asm, final_saveSpsr hmode hprivileged ht hvalue, Option.map_some]
  refine congrArg some (Effect.ext ?_ ?_ rfl ?_)
  · rw [hvalue]
    rfl
  · apply (spOf_set _ _ (hallows.general 0 (by simp [CPU.saveSpsr])) _).trans
    exact spOf_set c s (hallows.general 1 (by simp [CPU.saveSpsr])) _
  · simp [effectOf, CPU.saveSpsr, Cpu.get_set]

theorem effect_restoreBank {t : Mode} (ht : t.bank ≠ .usr)
    (hallows : CPU.restoreBank.Allows a values) (hvalue : ∃ cpsr, values 0 = modeCpsr cpsr t) :
    effect (.restoreBank t ht) a values o s =
      some ⟨psr (s.cpsr.extractLsb' 8 24) ((values 0).extractLsb' 0 8),
        Function.update (spOf s) t.bank
          (if bankOf t (a 1) = bankOf c (a 1) then values 1 else s.get t (a 1)),
        Function.update s.spsr t.bank
          (if bankOf t (a 2) = bankOf c (a 2) then values 2 else s.get t (a 2)), []⟩ := by
  obtain ⟨cpsr, hvalue⟩ := hvalue
  have hsp := AsmBlock.load_get_mode hallows c t (n := 1) (by simp [CPU.restoreBank]) s
  have hspsr := AsmBlock.load_get_mode hallows c t (n := 2) (by simp [CPU.restoreBank]) s
  have hload := spOf_load a values c CPU.restoreBank.inputs
    (fun n hn => hallows.general n (List.mem_append_right _ hn)) s
  have hcpsr := AsmBlock.load_cpsr a values c CPU.restoreBank.inputs s
  rw [effect, Block.asm, final_restoreBank hmode hprivileged ht hallows hvalue, Option.map_some]
  rw [hsp, hspsr]
  refine congrArg some (Effect.ext ?_ ?_ ?_ rfl)
  · rw [hvalue, ← hcpsr]
    rfl
  · rw [← hload]
    exact spOf_set_sp t _ _
  · funext b
    exact (Function.update_apply _ _ _ _).symm

theorem effect_restoreSpsr {t : Mode} (ht : t.bank ≠ .usr)
    (hallows : CPU.restoreSpsr.Allows a values) (hvalue : ∃ cpsr, values 0 = modeCpsr cpsr t) :
    effect (.restoreSpsr t ht) a values o s =
      some ⟨psr (s.cpsr.extractLsb' 8 24) ((values 0).extractLsb' 0 8), spOf s,
        Function.update s.spsr t.bank
          (if bankOf t (a 1) = bankOf c (a 1) then values 1 else s.get t (a 1)), []⟩ := by
  obtain ⟨cpsr, hvalue⟩ := hvalue
  have hspsr := AsmBlock.load_get_mode hallows c t (n := 1) (by simp [CPU.restoreSpsr]) s
  have hload := spOf_load a values c CPU.restoreSpsr.inputs
    (fun n hn => hallows.general n (List.mem_append_right _ hn)) s
  have hcpsr := AsmBlock.load_cpsr a values c CPU.restoreSpsr.inputs s
  rw [effect, Block.asm, final_restoreSpsr hmode hprivileged ht hallows hvalue, Option.map_some]
  rw [hspsr]
  refine congrArg some (Effect.ext ?_ hload ?_ rfl)
  · rw [hvalue, ← hcpsr]
    rfl
  · funext b
    exact (Function.update_apply _ _ _ _).symm

theorem effect_setBankedSP {target : CPUMode} (hallows : setBankedSPBlock.Allows a values)
    (hvalue : values 2 = target.value) :
    effect (.setBankedSP target) a values o s =
      ((s.setCpsr target.mode (s.cpsr.extractLsb' 8 24)
        ((switchBack a s c target.mode).extractLsb' 0 8)).map Cpu.cpsr).map fun cpsr =>
        ⟨cpsr, Function.update (spOf s) target.mode.bank
          (if bankOf target.mode (a 3) = bankOf c (a 3) then values 3 else s.get target.mode (a 3)),
          s.spsr,
          [if bankOf o (a 0) = bankOf c (a 0) then s.cpsr else s.get o (a 0),
          if bankOf o (a 1) = bankOf c (a 1) then modeCpsr s.cpsr target.mode
            else s.get o (a 1)]⟩ := by
  have hne : a 0 ≠ sp := hallows.general 0 (by decide)
  have hne₁ : a 1 ≠ sp := hallows.general 1 (by decide)
  have htarget : target.mode ≠ .usr := by cases target <;> decide
  rw [effect, Block.asm, final_setBankedSP hmode hprivileged hallows hvalue, effect_setCpsr,
    setCpsr_cpsr_of_privileged htarget _ s, spOf_set_sp, Cpu.get_set_of_ne _ _ _ hne,
    switchTo_get, prepared_get_original hallows, prepared_get_value hallows]
  refine congrArg (Option.map · _) (funext fun cpsr => Effect.ext rfl ?_ ?_ ?_)
  · exact congrArg (Function.update · _ _) (spOf_prepared hallows c target s)
  · exact AsmBlock.load_spsr a values c setBankedSPBlock.inputs s
  · rw [← prepared_get_original hallows c o target s, ← prepared_get_temp hallows]
    simp only [setBankedSPBlock, List.map_cons, List.map_nil, Cpu.get_set_of_ne _ _ _ hne,
      Cpu.get_set_of_ne _ _ _ hne₁, switchTo_get]

end Effects

/-! ## User mode -/

section User

variable {a : AsmBlock.Allocation} {values : Fin 4 → Word} {s : Cpu} {o : Mode}
  (hmode : s.mode = some .usr)
include hmode

/-- In user mode, a write of the control byte does nothing. -/
theorem perform_user (n : Reg) : perform .usr s (.msrCpsrC n) = some s := by
  have hvalid : (Mode.ofBits (s.cpsr.extractLsb' 0 5)).isSome := by
    rw [← Cpu.mode, hmode]
    rfl
  rw [perform, Cpu.setCpsr, if_pos rfl, psr_extract, if_pos hvalid]

/-- A block that goes on to a saved status register has no result. -/
theorem effect_user {b : Block} {n : Reg} {rest : List (Instr Reg)} 
    (hcode : b.asm.code.map (Instr.map (AsmBlock.place a)) = .msrCpsrC n :: rest)
    (hrest : ∀ s' : Cpu, s'.mode = some .usr → runs rest s' = none) :
    effect b a values o s = none := by
  have hloaded : (AsmBlock.load a values .usr b.asm.inputs s).mode = some .usr := by
    rw [AsmBlock.load_mode, hmode]
  rw [effect, AsmBlock.final_eq hmode, hcode, runs_cons hloaded (perform_user hloaded n),
    hrest _ hloaded]
  rfl

omit hmode in
theorem runs_mrsSpsr_user (d : Reg) (rest : List (Instr Reg)) (s' : Cpu)
    (hs' : s'.mode = some .usr) :
    runs (.mrsSpsr d :: rest) s' = none := by
  rw [runs, exec_of_mode hs']
  rfl

omit hmode in
theorem runs_msrSpsr_user (n : Reg) (rest : List (Instr Reg)) (s' : Cpu)
    (hs' : s'.mode = some .usr) :
    runs (.msrSpsrCXSF n :: rest) s' = none := by
  rw [runs, exec_of_mode hs']
  rfl

omit hmode in
theorem runs_mov_user {d n : Reg} {rest : List (Instr Reg)}
    (hrest : ∀ s' : Cpu, s'.mode = some .usr → runs rest s' = none) (s' : Cpu)
    (hs' : s'.mode = some .usr) : runs (.mov d n :: rest) s' = none := by
  rw [runs_cons hs' rfl]
  exact hrest _ hs'

theorem effect_setBankedSP_user {target : CPUMode} (hallows : setBankedSPBlock.Allows a values)
    (hvalue : values 2 = target.value) :
    effect (.setBankedSP target) a values o s =
      some ⟨s.cpsr, Function.update (spOf s) .usr (values 3), s.spsr,
          [if bankOf o (a 0) = bankOf .usr (a 0) then s.cpsr else s.get o (a 0),
          if bankOf o (a 1) = bankOf .usr (a 1) then modeCpsr s.cpsr target.mode
            else s.get o (a 1)]⟩ := by
  have hne : a 0 ≠ sp := hallows.general 0 (by decide)
  have hne₁ : a 1 ≠ sp := hallows.general 1 (by decide)
  have hmode₀ : (prepared a values .usr target s).mode = some .usr := by rw [prepared_mode, hmode]
  have hfinal : setBankedSPBlock.final a values s =
      some ((prepared a values .usr target s).set .usr sp (values 3)) := by
    rw [final_prepared hmode hallows hvalue, runs_cons hmode₀ (perform_user hmode₀ _),
      runs_cons hmode₀ rfl, runs_singleton, exec_of_mode (m := .usr) (by exact hmode₀),
      perform_user (by exact hmode₀), prepared_get_value hallows, if_pos rfl]
  rw [effect, Block.asm, hfinal, Option.map_some]
  refine congrArg some (Effect.ext ?_ ?_ ?_ ?_)
  · exact prepared_cpsr a values .usr target s
  · apply (spOf_set_sp _ _ _).trans
    rw [spOf_prepared hallows]
    rfl
  · exact AsmBlock.load_spsr a values .usr setBankedSPBlock.inputs s
  · rw [← prepared_get_original hallows .usr o target s, ← prepared_get_temp hallows]
    simp only [effectOf, setBankedSPBlock, List.map_cons, List.map_nil, Cpu.get_set_of_ne _ _ _ hne,
      Cpu.get_set_of_ne _ _ _ hne₁]

end User

/-! ## Independence -/

/-- Placed where the modes agree, the operands do not matter. -/
theorem effect_of_portable {b : Block} {c o : Mode} {a : AsmBlock.Allocation}
    {values : Fin 4 → Word} {s : Cpu} (hmode : s.mode = some c) (hportable : b.Portable c o a)
    (hintended : b.Intended values) (hallows : b.asm.Allows a values) :
    effect b a values o s = ideal values c s b := by
  cases b with
  | readCpsr =>
      have h : bankOf o (a 0) = bankOf c (a 0) := hportable
      rw [effect_readCpsr hmode hallows.toPermits, if_pos h]
      rfl
  | writeControl => exact effect_writeControl hmode hallows.toPermits
  | writeCpsr => exact effect_writeCpsr hmode hallows.toPermits
  | saveBank t ht =>
      rw [ideal]
      split_ifs with hc
      · subst hc
        exact effect_user hmode rfl (runs_mov_user (runs_mrsSpsr_user _ _))
      · obtain ⟨h₀, h₁⟩ := hportable hc
        rw [effect_saveBank hmode hc ht hallows hintended, if_pos h₀, if_pos h₁]
  | saveSpsr t ht =>
      rw [ideal]
      split_ifs with hc
      · subst hc
        exact effect_user hmode rfl (runs_mrsSpsr_user _ _)
      · rw [effect_saveSpsr hmode hc ht hallows hintended, if_pos (hportable hc)]
  | restoreBank t ht =>
      rw [ideal]
      split_ifs with hc
      · subst hc
        exact effect_user hmode rfl (runs_mov_user (runs_msrSpsr_user _ _))
      · obtain ⟨h₁, h₂⟩ := hportable hc
        rw [effect_restoreBank hmode hc ht hallows hintended, if_pos h₁, if_pos h₂]
  | restoreSpsr t ht =>
      rw [ideal]
      split_ifs with hc
      · subst hc
        exact effect_user hmode rfl (runs_msrSpsr_user _ _)
      · rw [effect_restoreSpsr hmode hc ht hallows hintended, if_pos (hportable hc)]
  | setBankedSP target =>
      obtain ⟨harrive, h₀, h₁⟩ := hportable
      by_cases hc : c = .usr
      · subst hc
        rw [effect_setBankedSP_user hmode hallows hintended, if_pos h₀, if_pos h₁]
        rfl
      · obtain ⟨h₃, hback⟩ := harrive hc
        rw [effect_setBankedSP hmode hc hallows hintended, if_pos h₀, if_pos h₁, if_pos h₃,
          switchBack, if_pos hback, setCpsr_self hmode, ideal, if_neg hc]
        rfl

/-- Unbanked registers are the same in all modes. -/
theorem portable_low (b : Block) (c o : Mode) {a : AsmBlock.Allocation} (hlow : ∀ n, a n < 8) :
    b.Portable c o a := by
  cases b <;> simp [Block.Portable, bankOf_low, hlow]

/-- A processor that tells the banks apart: the stack pointers and saved status
words are one, the other registers zero. -/
def probe (c : Mode) : Cpu where
  cpsr := modeCpsr 0 c
  reg _ r := if r = sp then 1 else 0
  spsr _ := 1

theorem probe_mode (c : Mode) : (probe c).mode = some c := by
  cases c <;> decide

theorem probe_get (c m : Mode) {r : Reg} (hr : r ≠ sp) : (probe c).get m r = 0 := if_neg hr

/-- The one value given to all inputs of a block. -/
def probeWord : Block → Word
  | .saveBank t _ => modeCpsr 0 t
  | .saveSpsr t _ => modeCpsr 0 t
  | .restoreBank t _ => modeCpsr 0 t
  | .restoreSpsr t _ => modeCpsr 0 t
  | .setBankedSP target => target.value
  | _ => 0

theorem intended_probeWord (b : Block) : b.Intended fun _ => probeWord b := by
  cases b <;> first | trivial | exact ⟨0, rfl⟩

theorem modeCpsr_ne (t : Mode) : modeCpsr 0 t ≠ 0 ∧ modeCpsr 0 t ≠ 1 := by
  cases t <;> decide

/-- A register of the probe is not one, whatever mode word was put beside it. -/
theorem probe_set_get (c m t : Mode) (r' : Reg) {r : Reg} (hr : r ≠ sp) :
    ((probe c).set c r' (modeCpsr 0 t)).get m r ≠ 1 := by
  rw [Cpu.get_set, probe_get c m hr]
  split_ifs
  · exact (modeCpsr_ne t).2
  · decide

theorem of_ite_eq {p : Prop} [Decidable p] {x y : Word} (h : (if p then x else y) = x)
    (hne : y ≠ x) : p := by
  by_contra hp
  exact hne (by rwa [if_neg hp] at h)

/-- No mode has the field zero. -/
theorem setCpsr_zero {m : Mode} (hm : m ≠ .usr) (s : Cpu) (high : BitVec 24) :
    s.setCpsr m high ((0 : Word).extractLsb' 0 8) = none := by
  have hinvalid : ¬ (Mode.ofBits (((0 : Word).extractLsb' 0 8).extractLsb' 0 5)).isSome := by decide
  rw [Cpu.setCpsr, if_neg hm, extract_control 0 _ _ (by omega), if_neg hinvalid]

/-- An operand the target mode finds in another bank is lost. -/
theorem portable_of_probe {b : Block} {c o : Mode} {a : AsmBlock.Allocation}
    (hpermits : b.asm.Permits a)
    (h : effect b a (fun _ => probeWord b) o (probe c) =
      ideal (fun _ => probeWord b) c (probe c) b) :
    b.Portable c o a := by
  have hallows : b.asm.Allows a fun _ => probeWord b := ⟨hpermits, fun _ _ _ _ _ => rfl⟩
  have hmode := probe_mode c
  have hintended := intended_probeWord b
  have hne := hpermits.general
  cases b with
  | writeControl => trivial
  | writeCpsr => trivial
  | readCpsr =>
      rw [effect_readCpsr hmode hpermits, ideal, probe_get c o (hne 0 (by decide))] at h
      have houtputs := congrArg Effect.outputs (Option.some.inj h)
      show bankOf o (a 0) = bankOf c (a 0)
      exact of_ite_eq (List.cons.inj houtputs).1 (modeCpsr_ne c).1.symm
  | saveBank t ht =>
      intro hc
      rw [effect_saveBank hmode hc ht hallows hintended, ideal, if_neg hc] at h
      have houtputs := congrArg Effect.outputs (Option.some.inj h)
      obtain ⟨h₀, h₁⟩ : _ ∧ _ := by simpa only [List.cons.injEq, and_true] using houtputs
      exact ⟨of_ite_eq h₀ (probe_set_get c o t (a 2) (hne 0 (by simp [Block.asm, CPU.saveBank]))),
        of_ite_eq h₁ (probe_set_get c o t (a 2) (hne 1 (by simp [Block.asm, CPU.saveBank])))⟩
  | saveSpsr t ht =>
      intro hc
      rw [effect_saveSpsr hmode hc ht hallows hintended, ideal, if_neg hc] at h
      have houtputs := congrArg Effect.outputs (Option.some.inj h)
      show bankOf o (a 0) = bankOf t (a 0)
      exact of_ite_eq (List.cons.inj houtputs).1
        (probe_set_get c o t (a 1) (hne 0 (by simp [Block.asm, CPU.saveSpsr])))
  | restoreBank t ht =>
      intro hc
      have hne₁ := hne 1 (by simp [Block.asm, CPU.restoreBank])
      have hne₂ := hne 2 (by simp [Block.asm, CPU.restoreBank])
      rw [effect_restoreBank hmode hc ht hallows hintended, ideal, if_neg hc, probe_get c t hne₁,
        probe_get c t hne₂] at h
      have hsp := congrFun (congrArg Effect.sp (Option.some.inj h)) t.bank
      have hspsr := congrFun (congrArg Effect.spsr (Option.some.inj h)) t.bank
      simp only [Function.update_self] at hsp hspsr
      exact ⟨of_ite_eq hsp (modeCpsr_ne t).1.symm, of_ite_eq hspsr (modeCpsr_ne t).1.symm⟩
  | restoreSpsr t ht =>
      intro hc
      have hne₁ := hne 1 (by simp [Block.asm, CPU.restoreSpsr])
      rw [effect_restoreSpsr hmode hc ht hallows hintended, ideal, if_neg hc,
        probe_get c t hne₁] at h
      have hspsr := congrFun (congrArg Effect.spsr (Option.some.inj h)) t.bank
      simp only [Function.update_self] at hspsr
      show bankOf t (a 1) = bankOf c (a 1)
      exact of_ite_eq hspsr (modeCpsr_ne t).1.symm
  | setBankedSP target =>
      have hne₀ := hne 0 (by simp [Block.asm, setBankedSPBlock])
      have hne₁ := hne 1 (by simp [Block.asm, setBankedSPBlock])
      have hne₃ := hne 3 (by simp [Block.asm, setBankedSPBlock])
      have htarget : target.mode ≠ .usr := by cases target <;> decide
      have hvalue : (0 : Word) ≠ target.value := by cases target <;> decide
      by_cases hc : c = .usr
      · subst hc
        rw [effect_setBankedSP_user hmode hallows hintended, ideal, probe_get _ o hne₀,
          probe_get _ o hne₁] at h
        have houtputs := congrArg Effect.outputs (Option.some.inj h)
        obtain ⟨h₀, h₁⟩ : _ ∧ _ := by simpa only [List.cons.injEq, and_true] using houtputs
        exact ⟨fun hc => absurd rfl hc, of_ite_eq h₀ (by decide),
          of_ite_eq h₁ (by cases target <;> decide)⟩
      · rw [effect_setBankedSP hmode hc hallows hintended, ideal, probe_get _ o hne₀,
          probe_get _ o hne₁, probe_get _ _ hne₃, if_neg hc, Option.map_eq_some_iff] at h
        obtain ⟨cpsr, hcpsr, h⟩ := h
        have hback : bankOf target.mode (a 0) = bankOf c (a 0) := by
          by_contra hbank
          rw [switchBack, if_neg hbank, probe_get c _ hne₀, setCpsr_zero htarget] at hcpsr
          exact absurd hcpsr (by simp)
        have hsp := congrFun (congrArg Effect.sp h) target.mode.bank
        have houtputs := congrArg Effect.outputs h
        simp only [Function.update_self] at hsp
        obtain ⟨h₀, h₁⟩ : _ ∧ _ := by simpa only [List.cons.injEq, and_true] using houtputs
        have hword : (0 : Word) ≠ modeCpsr (probe c).cpsr target.mode := fun hzero => by
          have hmode := modeCpsr_mode (probe c).cpsr target.mode
          rw [← hzero] at hmode
          cases target <;> exact absurd hmode (by decide)
        exact ⟨fun _ => ⟨of_ite_eq hsp hvalue, hback⟩, of_ite_eq h₀ (modeCpsr_ne c).1.symm,
          of_ite_eq h₁ hword⟩

theorem Block.inOrder_allows (b : Block) (values : Fin 4 → Word) :
    b.asm.Allows AsmBlock.inOrder values :=
  AsmBlock.inOrder_allows (by cases b <;> simp only [Block.asm] <;> decide) values

/-- Unbanked registers give the probe its effect, so the others must too. -/
theorem portable_of_independent {b : Block} {c o : Mode} {a : AsmBlock.Allocation}
    (hpermits : b.asm.Permits a) (h : Independent b c o a) : b.Portable c o a := by
  have hlow := b.inOrder_allows fun _ => probeWord b
  apply portable_of_probe hpermits
  rw [h (probe c) _ AsmBlock.inOrder (probe_mode c) (intended_probeWord b)
    ⟨hpermits, fun _ _ _ _ _ => rfl⟩ hlow AsmBlock.inOrder_low]
  exact effect_of_portable (probe_mode c) (portable_low b c o AsmBlock.inOrder_low)
    (intended_probeWord b) hlow

/-- **Register allocation.**  A block does the same under an allocation as under
those to unbanked registers exactly if every operand touched in the target mode
is in a register that the target mode shares. -/
theorem independent_iff (b : Block) (c o : Mode) (a : AsmBlock.Allocation)
    (hpermits : b.asm.Permits a) : Independent b c o a ↔ b.Portable c o a := by
  constructor
  · exact portable_of_independent hpermits
  · intro h s values low hmode hintended hallows hallowsLow hlow
    rw [effect_of_portable hmode h hintended hallows,
      effect_of_portable hmode (portable_low b c o hlow) hintended hallowsLow]

/-- `mode`, `sp` and `spsr` in `r0`, `r8` and `r1`. -/
def spInR8 : AsmBlock.Allocation := ![0, 8, 1, 2]

/-- The FIQ block of `RestoreCPUState`. -/
def restoreFiq : Block := .restoreBank .fiq (by decide)

theorem spInR8_permits : restoreFiq.asm.Permits spInR8 where
  general := by decide
  outputs := by decide
  early := by decide

theorem independent_iff_spInR8 :
    restoreFiq.asm.Permits spInR8 ∧
      (Independent restoreFiq .irq .svc spInR8 ↔ restoreFiq.Portable .irq .svc spInR8) :=
  ⟨spInR8_permits, independent_iff restoreFiq .irq .svc spInR8 spInR8_permits⟩

/-- Out of `r8`, `RestoreCPUState` does not restore the stack pointer of FIQ
mode. -/
theorem fiq_sp_lost :
    ¬ ∀ (b : Block) (c o : Mode) (a : AsmBlock.Allocation), b.asm.Permits a →
      Independent b c o a := by
  intro hall
  have hportable := portable_of_independent spInR8_permits
    (hall restoreFiq .irq .svc spInR8 spInR8_permits)
  exact absurd (hportable (by decide)).1 (by decide)

end NspireUtils.Ports.AsmAllocation
