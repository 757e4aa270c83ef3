import NspireUtils.Ports.CPUCheckpoint
import NspireUtils.Verified.InterruptSchedules

/-!
# `IRQEnable`, `IRQDisable`, `IRQSave` and `IRQRestore`

The functions of `platform/CPU.hpp` that reach the interrupt mask, and code that uses
them: a scope saves the mask, enables or disables interrupts, and restores the mask at
its end.  `IRQSave` only reads; interrupts are as they were until the call that follows.
Interrupts arrive between any two instructions, those of the four functions included, and
leave the processor as they found it.

`execute_points` says that the mask follows the scopes, and that in user mode it follows
nothing; `critical_atomic` says what scopes that disable interrupts are worth.
-/

namespace NspireUtils.Ports.InterruptMask

open NspireUtils.Verified.ArmBanks
open NspireUtils.Verified.InterruptSchedules
open NspireUtils.Ports.CPU

/-! ## The functions -/

/-- `1u << 7`. -/
def irqBit : Word := 1#32 <<< 7

/-- The blocks of `IRQEnable` and `IRQDisable`. -/
def maskBlocks : List AsmBlock := [readCpsr, writeControl]

/-- The status register is read, and its control byte written after a change. -/
def changeControl (c : Compiler maskBlocks) (change : Word → Word) : Asm Unit := do
  let out ← readCpsr.asm (c.alloc 0) 0
  compiled (c.after 0)
  let _ ← writeControl.asm (c.alloc 1) fun _ => change (out 0)

/-- `IRQEnable`. -/
def irqEnable (c : Compiler maskBlocks) : Asm Unit :=
  changeControl c fun cpsr => cpsr &&& ~~~irqBit   -- clear I

/-- `IRQDisable`. -/
def irqDisable (c : Compiler maskBlocks) : Asm Unit :=
  changeControl c fun cpsr => cpsr ||| irqBit      -- set I

/-- `IRQSave`. -/
def irqSave (c : Compiler [readCpsr]) : Asm Bool := do
  let out ← readCpsr.asm (c.alloc 0) 0
  return (out 0 &&& irqBit) == 0#32                -- previous state of I

/-- `IRQRestore`. -/
def irqRestore (c : Bool → Compiler maskBlocks) (enabled : Bool) : Asm Unit :=
  if enabled then irqEnable (c true) else irqDisable (c false)

/-- Interrupts are enabled. -/
def enabled (s : Cpu) : Bool := !s.cpsr.getLsbD 7

/-! ## The mask in the control byte -/

theorem getLsbD_irqBit (i : Nat) (hi : i < 8) : irqBit.getLsbD i = decide (i = 7) := by
  have hall : ∀ i : Fin 8, irqBit.getLsbD i = decide (i.val = 7) := by decide
  exact hall ⟨i, hi⟩

/-- The previous state of the mask. -/
theorem saved_eq (w : Word) : ((w &&& irqBit) == 0#32) = !w.getLsbD 7 := by
  have hbit : w &&& irqBit = if w.getLsbD 7 then irqBit else 0#32 := by
    rw [irqBit, ← BitVec.twoPow_eq, BitVec.and_twoPow]
  rw [hbit]
  cases w.getLsbD 7 <;> decide

/-- Fields are the same if their bits are. -/
theorem field_ext {len : Nat} {w w' : Word} (h : ∀ i < len, w.getLsbD i = w'.getLsbD i) :
    w.extractLsb' 0 len = w'.extractLsb' 0 len := by
  apply BitVec.eq_of_getLsbD_eq
  intro i hi
  rw [BitVec.getLsbD_extractLsb', BitVec.getLsbD_extractLsb', Nat.zero_add, h i hi]

theorem getLsbD_of_control {w w' : Word} (h : w.extractLsb' 0 8 = w'.extractLsb' 0 8) {i : Nat}
    (hi : i < 8) : w.getLsbD i = w'.getLsbD i := by
  have hbit := congrArg (fun b : BitVec 8 => b.getLsbD i) h
  simpa [BitVec.getLsbD_extractLsb', hi] using hbit

theorem enabled_of_same {s s' : Cpu} (h : SameBanks s s') : enabled s' = enabled s := by
  rw [enabled, enabled, getLsbD_of_control h.control (by decide)]

/-- The status register with the mask cleared or set. -/
def masked (enables : Bool) (cpsr : Word) : Word :=
  if enables then cpsr &&& ~~~irqBit else cpsr ||| irqBit

/-- The mask is the only bit of the control byte that changes. -/
theorem getLsbD_masked (enables : Bool) (w : Word) {i : Nat} (hi : i < 8) :
    (masked enables w).getLsbD i = if i = 7 then !enables else w.getLsbD i := by
  have hlt : i < 32 := by omega
  cases enables with
  | true =>
      rw [masked, if_pos rfl, BitVec.getLsbD_and, BitVec.getLsbD_not, getLsbD_irqBit i hi]
      by_cases h : i = 7 <;> simp [h, hlt]
  | false =>
      rw [masked, if_neg Bool.false_ne_true, BitVec.getLsbD_or, getLsbD_irqBit i hi]
      by_cases h : i = 7 <;> simp [h]

theorem masked_field (enables : Bool) (w : Word) :
    (masked enables w).extractLsb' 0 5 = w.extractLsb' 0 5 :=
  field_ext fun i hi => by rw [getLsbD_masked enables w (by omega), if_neg (by omega)]

/-- The mode field is in the control byte. -/
theorem control_mode (w : Word) : (w.extractLsb' 0 8).extractLsb' 0 5 = w.extractLsb' 0 5 := by
  rw [← extract_control 0 (w.extractLsb' 8 24) _ (by omega), psr_extract]

/-- The processor with the control byte of a word. -/
def withControl (s : Cpu) (w : Word) : Cpu :=
  { s with cpsr := psr (s.cpsr.extractLsb' 8 24) (w.extractLsb' 0 8) }

theorem withControl_control (s : Cpu) (w : Word) :
    (withControl s w).cpsr.extractLsb' 0 8 = w.extractLsb' 0 8 := by
  rw [withControl, extract_control 0 _ _ (by omega), BitVec.extractLsb'_eq_self]

theorem withControl_regs (s : Cpu) (w : Word) : SameRegs s (withControl s w) :=
  ⟨rfl, fun _ _ _ => rfl⟩

/-- Saved status, banked registers and control byte agree but for the mask. -/
structure SameButMask (s s' : Cpu) : Prop extends SameRegs s s' where
  bits : ∀ i < 7, s'.cpsr.getLsbD i = s.cpsr.getLsbD i

theorem SameButMask.of_same {s s' : Cpu} (h : SameBanks s s') : SameButMask s s' :=
  ⟨h.toSameRegs, fun _ hi => getLsbD_of_control h.control (by omega)⟩

theorem SameButMask.trans {s s' s'' : Cpu} (h : SameButMask s s') (h' : SameButMask s' s'') :
    SameButMask s s'' :=
  ⟨h.toSameRegs.trans h'.toSameRegs, fun i hi => (h'.bits i hi).trans (h.bits i hi)⟩

theorem SameButMask.mode {s s' : Cpu} (h : SameButMask s s') : s'.mode = s.mode := by
  rw [Cpu.mode, Cpu.mode, field_ext fun i hi => h.bits i (by omega)]

/-- With the mask, everything agrees. -/
theorem SameButMask.same {s s' : Cpu} (h : SameButMask s s') (henabled : enabled s' = enabled s) :
    SameBanks s s' := by
  refine ⟨h.toSameRegs, field_ext fun i hi => ?_⟩
  by_cases hmask : i = 7
  · rw [hmask]
    simpa [enabled] using henabled
  · exact h.bits i (by omega)

/-! ## One call -/

section Calls

variable {s : Cpu} {m : Mode} (hmode : s.mode = some m)
include hmode

theorem readCpsr_eq (a : AsmBlock.Allocation) (values : Fin 4 → Word) :
    readCpsr.asm a values s =
      some (fun n => (s.set m (a 0) s.cpsr).get m (a n), s.set m (a 0) s.cpsr,
        [s.set m (a 0) s.cpsr]) := by
  simp [AsmBlock.asm, AsmBlock.run, bind, hmode, readCpsr, AsmBlock.load, instrs, instr, exec,
    perform, Instr.map, AsmBlock.place, pure]

/-- User mode keeps its control byte. -/
theorem writeControl_eq (a : AsmBlock.Allocation) {w : Word}
    (hfield : w.extractLsb' 0 5 = s.cpsr.extractLsb' 0 5) :
    ∃ s', writeControl.asm a (fun _ => w) s = some (fun n => s'.get m (a n), s', [s']) ∧
      s' = withControl (s.set m (a 0) w) (if m = .usr then s.cpsr else w) := by
  have hcontrol : ((if m = .usr then s.cpsr else w).extractLsb' 0 8).extractLsb' 0 5 = m.bits := by
    rw [control_mode, ← mode_bits hmode]
    split_ifs
    · rfl
    · exact hfield
  refine ⟨withControl (s.set m (a 0) w) (if m = .usr then s.cpsr else w), ?_, rfl⟩
  have hback : (withControl (s.set m (a 0) w) (if m = .usr then s.cpsr else w)).mode = some m :=
    Cpu.mode_of_control hcontrol
  have hload : AsmBlock.load a (fun _ => w) m [0] s = s.set m (a 0) w := rfl
  have hexec : exec (s.set m (a 0) w) (.msrCpsrC (a 0)) =
      some (withControl (s.set m (a 0) w) (if m = .usr then s.cpsr else w)) := by
    rw [exec_of_mode (by rw [Cpu.set_mode, hmode]), perform, Cpu.get_set_self, Cpu.set_cpsr]
    have hsplit : (if m = .usr then (s.set m (a 0) w).cpsr.extractLsb' 0 8
        else w.extractLsb' 0 8) = (if m = .usr then s.cpsr else w).extractLsb' 0 8 := by
      split_ifs <;> rfl
    rw [Cpu.setCpsr, hsplit, extract_control 0 _ _ (by omega), hcontrol, Mode.ofBits_bits]
    rfl
  simp [AsmBlock.asm, AsmBlock.run, bind, hmode, writeControl, hload, instrs, instr, hexec,
    hback, Instr.map, AsmBlock.place, pure]

/-- The mask is read. -/
theorem irqSave_eq (c : Compiler [readCpsr]) :
    ∃ s', irqSave c s = some (enabled s, s', [s']) ∧ SameBanks s s' := by
  refine ⟨s.set m (c.alloc 0 0) s.cpsr, ?_, .set_low m s (c.low 0 0) _⟩
  simp only [irqSave, bind, readCpsr_eq hmode, pure]
  rw [Cpu.get_set_self, saved_eq, List.append_nil, enabled]

/-- The control byte is changed at the last of three boundaries. -/
theorem changeControl_eq (c : Compiler maskBlocks) {change : Word → Word}
    (hfield : ∀ w, (change w).extractLsb' 0 5 = w.extractLsb' 0 5) :
    ∃ s₁ s₂ s', changeControl c change s = some ((), s', [s₁, s₂, s']) ∧ SameBanks s s₁ ∧
      SameBanks s s₂ ∧ SameRegs s s' ∧ s'.cpsr.extractLsb' 0 8 =
        (if m = .usr then s.cpsr else change s.cpsr).extractLsb' 0 8 := by
  have h₁ := SameBanks.set_low m s (c.low 0 0) s.cpsr
  have h₂ := h₁.trans (c.harmless 0 _)
  have hsameField : (change s.cpsr).extractLsb' 0 5 =
      (c.after 0 (s.set m (c.alloc 0 0) s.cpsr)).cpsr.extractLsb' 0 5 := by
    rw [hfield, mode_bits hmode, mode_bits (h₂.mode.trans hmode)]
  obtain ⟨s', hwrite, hs'⟩ := writeControl_eq (h₂.mode.trans hmode) (c.alloc 1) hsameField
  refine ⟨_, _, s', ?_, h₁, h₂, ?_, ?_⟩
  · simp only [changeControl, bind, readCpsr_eq hmode, compiled, Cpu.get_set_self, hwrite, pure]
    rfl
  · rw [hs']
    exact (h₂.toSameRegs.trans (.set_low m _ (c.low 1 0) _)).trans (withControl_regs _ _)
  · rw [hs', withControl_control]
    split_ifs
    · exact h₂.control
    · rfl

/-- Interrupts are enabled or disabled at the last of three boundaries, but not in user
mode. -/
theorem setMask_eq (c : Compiler maskBlocks) (enables : Bool) :
    ∃ s₁ s₂ s', (if enables then irqEnable c else irqDisable c) s = some ((), s', [s₁, s₂, s']) ∧
      SameBanks s s₁ ∧ SameBanks s s₂ ∧ SameButMask s s' ∧
      enabled s' = if m = .usr then enabled s else enables := by
  have hchange : (if enables then irqEnable c else irqDisable c) =
      changeControl c (masked enables) := by cases enables <;> rfl
  obtain ⟨s₁, s₂, s', hcall, h₁, h₂, hregs, hcontrol⟩ :=
    changeControl_eq hmode c (masked_field enables)
  have hbit : ∀ i < 8, s'.cpsr.getLsbD i =
      if m = .usr then s.cpsr.getLsbD i else (masked enables s.cpsr).getLsbD i := by
    intro i hi
    rw [getLsbD_of_control hcontrol hi]
    split_ifs <;> rfl
  refine ⟨s₁, s₂, s', by rw [hchange, hcall], h₁, h₂, ⟨hregs, fun i hi => ?_⟩, ?_⟩
  · have hne : i ≠ 7 := by omega
    rw [hbit i (by omega), getLsbD_masked enables _ (by omega), if_neg hne, ite_self]
  · rw [enabled, hbit 7 (by decide), getLsbD_masked enables _ (by decide), if_pos rfl]
    split_ifs
    · rfl
    · exact Bool.not_not enables

end Calls

/-! ## Scopes -/

/-- What stands between an access and the next: code that leaves mode, masks and banks
alone. -/
structure Plain where
  after : Cpu → Cpu
  harmless : ∀ s, SameBanks s (after s)

/-- How a scope's calls are compiled. -/
structure ScopeCompiler where
  save : Compiler [readCpsr]
  enter : Compiler maskBlocks
  restore : Bool → Compiler maskBlocks

/-- Code that accesses state it shares with interrupt handlers, and has scopes
`bool enabled = IRQSave(); IRQEnable(); …; IRQRestore(enabled);`, or the same with
`IRQDisable`. -/
inductive Code (σ : Type) where
  | skip
  | access (f : σ → σ) (k : Plain) (rest : Code σ)
  | scope (enables : Bool) (c : ScopeCompiler) (body rest : Code σ)

variable {σ : Type}

/-- The boundaries after the instructions of a call. -/
def boundaries (trace : List Cpu) : List (Point σ) := trace.map fun s => .boundary (enabled s)

/-- The code, with its accesses and boundaries. -/
def execute : Code σ → Cpu → Option (Cpu × List (Point σ))
  | .skip, s => some (s, [])
  | .access f k rest, s => do
      let (s', points) ← execute rest (k.after s)
      return (s', .access f :: .boundary (enabled (k.after s)) :: points)
  | .scope enables c body rest, s => do
      let (saved, s₁, save) ← irqSave c.save s
      let (_, s₂, enter) ← (if enables then irqEnable c.enter else irqDisable c.enter) s₁
      let (s₃, inside) ← execute body s₂
      let (_, s₄, restore) ← irqRestore c.restore saved s₃
      let (s₅, after) ← execute rest s₄
      return (s₅, boundaries (save ++ enter) ++ inside ++ boundaries restore ++ after)

/-- The scopes alone. -/
def Code.block : Code σ → Block σ
  | .skip => .skip
  | .access f _ rest => .access f rest.block
  | .scope enables _ body rest => .scope enables body.block rest.block

/-- What counts of a call's boundaries is whether one of them is enabled. -/
theorem same_calls {H : σ → σ → Prop} {ts : List Cpu} {bs : List Bool}
    (h : true ∈ ts.map enabled ↔ true ∈ bs) : Same H (boundaries ts) (bs.map .boundary) := by
  have hflags : boundaries ts = (ts.map enabled).map (@Point.boundary σ) := by
    simp [boundaries]
  rw [hflags]
  exact same_boundaries h

/-- **The mask follows the scopes.**  In any mode, code runs to its end with the mask it
started with.  Whatever the handlers do, it can make of the state what its scopes let it;
in user mode these change nothing. -/
theorem execute_points (code : Code σ) {s : Cpu} {m : Mode} (hmode : s.mode = some m) :
    ∃ s' points, execute code s = some (s', points) ∧ SameBanks s s' ∧
      ∀ H : σ → σ → Prop, Same H points (code.block.points (m ≠ .usr) (enabled s)) := by
  induction code generalizing s with
  | skip => exact ⟨s, [], rfl, .refl s, fun _ => .refl _⟩
  | access f k rest ih =>
      have hk := k.harmless s
      obtain ⟨s', points, hrest, hsame, hpoints⟩ := ih (hk.mode.trans hmode)
      refine ⟨s', _, by simp only [execute, hrest]; rfl, hk.trans hsame, fun H => ?_⟩
      rw [enabled_of_same hk] at hpoints ⊢
      exact (hpoints H).cons (.boundary _) |>.cons (.access f)
  | scope enables c body rest ihBody ihRest =>
      -- the calls before the body
      obtain ⟨s₁, hsave, h₁⟩ := irqSave_eq hmode c.save
      obtain ⟨a, b, s₂, henter, ha, hb, h₂, hinner⟩ :=
        setMask_eq (h₁.mode.trans hmode) c.enter enables
      have hbegin := (SameButMask.of_same h₁).trans h₂
      obtain ⟨s₃, inside, hbody, h₃, hinside⟩ := ihBody (hbegin.mode.trans hmode)
      -- and the one after it
      have hmiddle := hbegin.trans (.of_same h₃)
      obtain ⟨a', b', s₄, hrestore, ha', hb', h₄, hend⟩ :=
        setMask_eq (hmiddle.mode.trans hmode) (c.restore (enabled s)) (enabled s)
      have hback : enabled s₄ = enabled s := by
        rw [hend, enabled_of_same h₃, hinner, enabled_of_same h₁]
        split_ifs <;> rfl
      have hscope : SameBanks s s₄ := (hmiddle.trans h₄).same hback
      obtain ⟨s₅, after, hrest, h₅, hafter⟩ := ihRest (hscope.mode.trans hmode)
      have hrestore' : irqRestore c.restore (enabled s) s₃ = some ((), s₄, [a', b', s₄]) := by
        rw [← hrestore, irqRestore]
        cases enabled s <;> rfl
      have hexecute : execute (.scope enables c body rest) s = some (s₅,
          boundaries ([s₁] ++ [a, b, s₂]) ++ inside ++ boundaries [a', b', s₄] ++ after) := by
        simp only [execute, hsave, henter, hbody, hrestore', hrest, Option.bind_eq_bind,
          Option.bind_some]
        rfl
      refine ⟨s₅, _, hexecute, hscope.trans h₅, fun H => ?_⟩
      have he₁ := enabled_of_same h₁
      have hinner' : enabled s₂ = if (m ≠ .usr) then enables else enabled s := by
        rw [hinner, he₁, ite_not]
      have hbefore : Same H (boundaries ([s₁] ++ [a, b, s₂]))
          ([enabled s, enabled s₂].map .boundary) :=
        same_calls (by simp [enabled_of_same ha, enabled_of_same hb, he₁])
      have hafterBody : Same H (boundaries [a', b', s₄]) ([enabled s₂, enabled s].map .boundary) :=
        same_calls (by simp [enabled_of_same ha', enabled_of_same hb', enabled_of_same h₃, hback])
      have hall := ((hbefore.append (hinside H)).append hafterBody).append (hafter H)
      rw [hback] at hall
      rw [Code.block, Block.points]
      simp only [decide_eq_true_eq]
      rw [← hinner']
      exact hall

/-- **Critical sections.**  In a privileged mode with interrupts enabled, code that
disables them in all its scopes can do what it does when each outermost scope is a single
access, and nothing else; afterwards interrupts are enabled. -/
theorem critical_atomic (code : Code σ) (hcritical : code.block.Critical) {s : Cpu} {m : Mode}
    (hmode : s.mode = some m) (hprivileged : m ≠ .usr) (henabled : enabled s = true) :
    ∃ s' points, execute code s = some (s', points) ∧ enabled s' = true ∧
      ∀ H : σ → σ → Prop, Same H (.boundary true :: points) (Block.serial code.block.atoms) := by
  obtain ⟨s', points, hexecute, hsame, hpoints⟩ := execute_points code hmode
  refine ⟨s', points, hexecute, (enabled_of_same hsame).trans henabled, fun H => ?_⟩
  have hscopes := hpoints H
  rw [henabled, decide_eq_true hprivileged] at hscopes
  exact (hscopes.cons (.boundary true)).trans (Block.outcome_points_serial code.block hcritical)

/-- Code that is compiled to the blocks and nothing else. -/
def bare : ScopeCompiler where
  save := CPUCheckpoint.plain _ (by decide)
  enter := CPUCheckpoint.plain _ (by decide)
  restore _ := CPUCheckpoint.plain _ (by decide)

def nothing : Plain := ⟨id, .refl⟩

/-- A counter is read and written back, in a critical section inside another. -/
def counter : Code (Nat × Nat) :=
  .scope false bare
    (.scope false bare
      (.access (fun c => (c.2, c.2)) nothing (.access (fun c => (c.1, c.1 + 1)) nothing .skip))
      .skip)
    .skip

theorem critical_atomic_counter :
    ∃ s' points, execute counter (Cpu.ofMode .svc) = some (s', points) ∧ enabled s' = true ∧
      ∀ H : Nat × Nat → Nat × Nat → Prop, Same H (.boundary true :: points)
        (Block.serial [fun c => (c.2, c.2 + 1)]) :=
  critical_atomic counter ⟨rfl, ⟨rfl, trivial, trivial⟩, trivial⟩ (Cpu.ofMode_mode .svc)
    (by decide) (by decide)

end NspireUtils.Ports.InterruptMask
