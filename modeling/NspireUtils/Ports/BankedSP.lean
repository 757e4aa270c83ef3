import NspireUtils.Ports.CPU

/-!
# `GetBankedSP` and `SetBankedSP`

The two inline assembly blocks of `platform/CPU.hpp` that reach the stack pointer
of another mode.  `SetBankedSP` has two outputs, so its target mode is `%2` and
its value `%3`.  `GetBankedSP` has three outputs and the same template: there
`%2` is the output `sp_value`, which nothing has written yet, and `%3` the target
mode, into which the stack pointer goes.

`wp_setBankedSP` is what the one does, `never_readsBack` what the other does not.
-/

namespace NspireUtils.Ports.BankedSP

open NspireUtils.Verified.ArmBanks
open NspireUtils.Ports.CPU

/-- `enum class CPU_Mode`. -/
inductive CPUMode where
  | fiq
  | irq
  | supervisor
  | abort
  | undefined
  | system
  deriving Repr, DecidableEq

namespace CPUMode

/-- The enumerator's value. -/
def value : CPUMode → Word
  | fiq => 0x11#32
  | irq => 0x12#32
  | supervisor => 0x13#32
  | abort => 0x17#32
  | undefined => 0x1B#32
  | system => 0x1F#32

/-- The mode it stands for. -/
def mode : CPUMode → Mode
  | fiq => .fiq
  | irq => .irq
  | supervisor => .svc
  | abort => .abt
  | undefined => .und
  | system => .sys

theorem value_eq (m : CPUMode) : m.value = m.mode.bits.setWidth 32 := by cases m <;> rfl

end CPUMode

/-- The operands are `original_cpsr`, `temp_cpsr`, `sp_value` and `target_mode`. -/
def getBankedSPBlock : AsmBlock where
  outputs := [0, 1, 2]
  early := true
  inputs := [3]
  code :=
    [ .mrsCpsr (.op 0)                      -- save original cpsr
    , .bicImm (.op 1) (.op 0) 0x1F#32       -- clear mode bits
    , .orr (.op 1) (.op 1) (.op 2)          -- set target mode bits
    , .orrImm (.op 1) (.op 1) 0xC0#32       -- disable FIQ and IRQ
    , .msrCpsrC (.op 1)                     -- switch to target mode
    , .mov (.op 3) .sp                      -- get banked sp
    , .msrCpsrC (.op 0) ]                   -- switch back

/-- The operands are `original_cpsr`, `temp_cpsr`, `target_mode` and `sp_value`. -/
def setBankedSPBlock : AsmBlock where
  outputs := [0, 1]
  early := true
  inputs := [2, 3]
  code :=
    [ .mrsCpsr (.op 0)                      -- save original cpsr
    , .bicImm (.op 1) (.op 0) 0x1F#32       -- clear mode bits
    , .orr (.op 1) (.op 1) (.op 2)          -- set target mode bits
    , .orrImm (.op 1) (.op 1) 0xC0#32       -- disable FIQ and IRQ
    , .msrCpsrC (.op 1)                     -- switch to target mode
    , .mov .sp (.op 3)                      -- set banked sp
    , .msrCpsrC (.op 0) ]                   -- switch back

/-- `GetBankedSP`. -/
def getBankedSP (a : AsmBlock.Allocation) (target : CPUMode) : Asm Word := do
  let out ← getBankedSPBlock.asm a ![0, 0, 0, target.value]
  return out 2

/-- `SetBankedSP`. -/
def setBankedSP (a : AsmBlock.Allocation) (target : CPUMode) (value : Word) : Asm Unit := do
  let _ ← setBankedSPBlock.asm a ![0, 0, target.value, value]

/-- The code around the calls leaves anything in the unbanked registers. -/
def leftover (junk : Reg → Word) (s : Cpu) : Cpu :=
  { s with reg := fun b r => if r < 8 then junk r else s.reg b r }

/-- A write, anything in the registers, and a read. -/
def setThenGet (a a' : AsmBlock.Allocation) (junk : Reg → Word) (target : CPUMode) (value : Word) :
    Asm Word := do
  setBankedSP a target value
  compiled (leftover junk)
  getBankedSP a' target

/-- However the compiler places the operands in distinct unbanked registers, and
whatever these hold, the read returns what was written. -/
def ReadsBack (s : Cpu) (target : CPUMode) (value : Word) : Prop :=
  ∀ (a a' : AsmBlock.Allocation) (junk : Reg → Word), Function.Injective a →
    Function.Injective a' → (∀ n, a n < 8) → (∀ n, a' n < 8) →
    wp (fun _ => True) (setThenGet a a' junk target value) (fun result _ => result = value) s

/-! ## `SetBankedSP` -/

section Set

variable {a : AsmBlock.Allocation} {s : Cpu} {m : Mode} {target : CPUMode} {value : Word}

/-- The processor before the switch: the mode word is in `temp_cpsr`. -/
def prepared (a : AsmBlock.Allocation) (m : Mode) (s : Cpu) : Cpu :=
  let s₁ := s.set m (a 0) s.cpsr
  let s₂ := s₁.set m (a 1) (s₁.get m (a 0) &&& ~~~0x1F#32)
  let s₃ := s₂.set m (a 1) (s₂.get m (a 1) ||| s₂.get m (a 2))
  s₃.set m (a 1) (s₃.get m (a 1) ||| 0xC0#32)

theorem prepared_same (hlow : ∀ n, a n < 8) : SameBanks s (prepared a m s) :=
  (((SameBanks.set_low m s (hlow 0) _).trans (.set_low m _ (hlow 1) _)).trans
    (.set_low m _ (hlow 1) _)).trans (.set_low m _ (hlow 1) _)

theorem prepared_input {n : Fin 4} (hzero : a n ≠ a 0) (hone : a n ≠ a 1) :
    (prepared a m s).get m (a n) = s.get m (a n) := by
  rw [prepared, Cpu.get_set_of_ne _ _ _ hone, Cpu.get_set_of_ne _ _ _ hone,
    Cpu.get_set_of_ne _ _ _ hone, Cpu.get_set_of_ne _ _ _ hzero]

theorem prepared_original (hne : a 0 ≠ a 1) : (prepared a m s).get m (a 0) = s.cpsr := by
  rw [prepared, Cpu.get_set_of_ne _ _ _ hne, Cpu.get_set_of_ne _ _ _ hne,
    Cpu.get_set_of_ne _ _ _ hne, Cpu.get_set_self]

theorem prepared_temp (htarget : s.get m (a 2) = target.value) (hzero : a 2 ≠ a 0)
    (hone : a 2 ≠ a 1) :
    (prepared a m s).get m (a 1) = modeCpsr s.cpsr target.mode := by
  rw [prepared, Cpu.get_set_self, Cpu.get_set_self, Cpu.get_set_self, Cpu.get_set_self,
    Cpu.get_set_of_ne _ _ _ hone, Cpu.get_set_of_ne _ _ _ hzero, htarget, CPUMode.value_eq,
    modeCpsr]

end Set

/-- `SetBankedSP` sets the stack pointer of the mode it is given and nothing else that is
banked, with interrupts disabled while it is in that mode. -/
theorem wp_setBankedSP {a : AsmBlock.Allocation} (hlow : ∀ n, a n < 8)
    (hallows : ∀ values, setBankedSPBlock.Allows a values) {s : Cpu} {m : Mode}
    (hmode : s.mode = some m) (hprivileged : m ≠ .usr) (target : CPUMode) (value : Word) :
    wp (OnTheWay m) (setBankedSP a target value)
      (fun _ s' => SameBanks (s.set target.mode sp value) s') s := by
  have hload := SameBanks.load a hlow ![0, 0, target.value, value] m setBankedSPBlock.inputs s
  have hinput : ∀ n ∈ setBankedSPBlock.inputs, _ := fun n hn =>
    AsmBlock.load_get (hallows ![0, 0, target.value, value]) m hn s
  have hearly : ∀ x ∈ setBankedSPBlock.outputs, ∀ y ∈ setBankedSPBlock.inputs, a y ≠ a x :=
    fun x hx y hy h => (hallows 0).early rfl x hx y hy h.symm
  have hne : a 0 ≠ a 1 := fun h => absurd ((hallows 0).outputs 0 (by decide) 1 (by decide) h)
    (by decide)
  refine wp_bind ((AsmBlock.wp_asm (Q := fun _ s' => SameBanks (s.set target.mode sp value) s')
    hmode ?_).mono fun _ _ h => wp_pure h)
  generalize AsmBlock.load a ![0, 0, target.value, value] m setBankedSPBlock.inputs s = s₀
    at hload hinput
  have hmode₀ : s₀.mode = some m := hload.mode.trans hmode
  have htwo : a 2 ≠ a 0 ∧ a 2 ≠ a 1 :=
    ⟨hearly 0 (by decide) 2 (by decide), hearly 1 (by decide) 2 (by decide)⟩
  have hthree : a 3 ≠ a 0 ∧ a 3 ≠ a 1 :=
    ⟨hearly 0 (by decide) 3 (by decide), hearly 1 (by decide) 3 (by decide)⟩
  iterate 4 refine wp_instrs_cons hmode₀ rfl (.inl hmode₀) ?_
  change wp (OnTheWay m) (instrs [.msrCpsrC (a 1), .mov sp (a 3), .msrCpsrC (a 0)]) _
    (prepared a m s₀)
  have hprepared := prepared_same (m := m) hlow (s := s₀)
  have htemp := prepared_temp (m := m) (hinput 2 (by decide)) htwo.1 htwo.2
  have hvalue : (prepared a m s₀).get m (a 3) = value :=
    (prepared_input hthree.1 hthree.2).trans (hinput 3 (by decide))
  have horiginal := prepared_original (m := m) (s := s₀) hne
  generalize prepared a m s₀ = s₄ at hprepared htemp hvalue horiginal
  have hmasked := switchTo_masked s₄ s₀.cpsr target.mode
  have hlowGet : ∀ (t : Cpu) (n : Fin 4), t.get target.mode (a n) = t.get m (a n) := fun t n => by
    rw [Cpu.get, Cpu.get, bankOf_low target.mode (hlow n), bankOf_low m (hlow n)]
  refine wp_instrs_cons (hprepared.mode.trans hmode₀) (perform_switch hprivileged htemp)
    (.inr hmasked) ?_
  let s₅ := (switchTo s₄ s₀.cpsr target.mode).set target.mode sp value
  have hmov : perform target.mode (switchTo s₄ s₀.cpsr target.mode) (.mov sp (a 3)) = some s₅ := by
    rw [perform, switchTo_get, hlowGet, hvalue]
  refine wp_instrs_cons (switchTo_mode _ _ _) hmov (.inr hmasked) ?_
  -- back
  have hback : s₅.get target.mode (a 0) = s₀.cpsr := by
    rw [Cpu.get_set_of_ne _ _ _ fun h => absurd (h ▸ hlow 0) (by decide), switchTo_get, hlowGet,
      horiginal]
  have hbits : (s₀.cpsr.extractLsb' 0 8).extractLsb' 0 5 = m.bits := by
    rw [← extract_control 0 (s₀.cpsr.extractLsb' 8 24) _ (by omega), psr_extract, mode_bits hmode₀]
  have htarget : target.mode ≠ .usr := by cases target <;> decide
  have hreturn : perform target.mode s₅ (.msrCpsrC (a 0)) = some { s₅ with
      cpsr := psr (s₅.cpsr.extractLsb' 8 24) (s₀.cpsr.extractLsb' 0 8) } := by
    rw [perform, hback]
    exact Cpu.setCpsr_of_privileged htarget hbits
  refine wp_instrs_cons (switchTo_mode _ _ _) hreturn (.inl (Cpu.mode_of_control hbits))
    (wp_instrs_nil ⟨m, Cpu.mode_of_control hbits, ?_⟩)
  have hsame := hload.trans hprepared
  refine ⟨⟨hsame.spsr, fun b r hr => ?_⟩, ?_⟩
  · change s₅.reg b r = _
    rw [Cpu.set_reg, Cpu.set_reg, (switchTo_regs _ _ _).reg b r hr, hsame.reg b r hr]
  · rw [extract_control 0 _ _ (by omega), BitVec.extractLsb'_eq_self]
    exact hload.control

/-! ## `GetBankedSP` -/

/-- What `GetBankedSP` returns is what its output register held. -/
theorem getBankedSP_leftover {a : AsmBlock.Allocation} (hinjective : Function.Injective a)
    (hlow : ∀ n, a n < 8) {s : Cpu} {target : CPUMode} {Q : Word → Cpu → Prop} {T : Cpu → Prop}
    (h : wp T (getBankedSP a target) Q s) : ∃ s', Q (s.reg .usr (a 2)) s' := by
  obtain ⟨m, -, u, s', trace, hrun, -, m', -, result, s'', trace', hpure, -, hQ⟩ :=
    AsmBlock.of_wp_asm h.of_bind
  obtain ⟨rfl, -⟩ : s'.get m' (a 2) = result ∧ s' = s'' ∧ [] = trace' := by simpa [pure] using hpure
  have hne : ∀ n, n ≠ 2 → a n ≠ a 2 := fun n hn heq => hn (hinjective heq)
  have hkept : s'.reg .usr (a 2) = (AsmBlock.load a ![0, 0, 0, target.value] m
      getBankedSPBlock.inputs s).reg .usr (a 2) :=
    instrs_reg_of_ne _ (by simp [getBankedSPBlock, Instr.map, AsmBlock.place, Instr.dest, hne]) hrun
  have hloaded : (AsmBlock.load a ![0, 0, 0, target.value] m getBankedSPBlock.inputs s).reg .usr
      (a 2) = s.reg .usr (a 2) :=
    AsmBlock.load_reg_of_notMem a _ m _ (by simp [getBankedSPBlock, (hne 3 (by decide)).symm]) s
  refine ⟨s'', ?_⟩
  rw [← hloaded, ← hkept]
  rwa [Cpu.get, bankOf_low m' (hlow 2)] at hQ

/-- If the read returns what was written, it was left over in the output's
register. -/
theorem junk_of_readsBack {s : Cpu} {target : CPUMode} {value : Word}
    (h : ReadsBack s target value) (junk : Reg → Word) : junk 2 = value := by
  have hrun := h AsmBlock.inOrder AsmBlock.inOrder junk AsmBlock.inOrder_injective
    AsmBlock.inOrder_injective AsmBlock.inOrder_low AsmBlock.inOrder_low
  obtain ⟨_, s₀, _, _, _, hrest⟩ := hrun.of_bind
  obtain ⟨_, s₁, trace, hcompiled, _, hget⟩ := hrest.of_bind
  obtain ⟨s', hresult⟩ := getBankedSP_leftover AsmBlock.inOrder_injective AsmBlock.inOrder_low hget
  obtain ⟨rfl, -⟩ : leftover junk s₀ = s₁ ∧ _ = trace := by simpa [compiled] using hcompiled
  exact hresult

/-- **`GetBankedSP` never reads back.**  For every processor, mode and value there
are register contents with which the value written is not returned. -/
theorem never_readsBack (s : Cpu) (target : CPUMode) (value : Word) :
    ¬ ReadsBack s target value := by
  intro h
  have hjunk := junk_of_readsBack h fun _ => value + 1
  simp at hjunk

/-- With `0x13` left over in the output's register, the stack pointer of IRQ mode
does not read `0x1000` after it was set to that. -/
theorem leftover_read :
    ¬ ∀ (s : Cpu) (m : Mode) (target : CPUMode) (value : Word), s.mode = some m → m ≠ .usr →
      target.mode ≠ m → ReadsBack s target value := by
  intro hall
  have h := hall (Cpu.ofMode .svc) .svc .irq 0x1000#32 rfl (by decide) (by decide)
  exact absurd (junk_of_readsBack h fun _ => 0x13#32) (by decide)

end NspireUtils.Ports.BankedSP
