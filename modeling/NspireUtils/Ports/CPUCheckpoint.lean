import NspireUtils.Ports.CPU

/-!
# `CPU_State_Checkpoint`

Runs of a program that constructs and destroys checkpoints, the last one
constructed first, and does anything to the processor in between.  Each live
checkpoint keeps, beside its record, the processor as it was when its constructor
was called; the code never reads that copy.
-/

namespace NspireUtils.Ports.CPUCheckpoint

open NspireUtils.Verified.ArmBanks
open NspireUtils.Verified.Runs
open NspireUtils.Ports.CPU

/-- `class CPU_State_Checkpoint`, with the processor at its constructor. -/
structure Checkpoint where
  state : CPUState
  saved : Cpu

/-- The processor and the live checkpoints, the last one first. -/
structure Config where
  cpu : Cpu
  live : List Checkpoint
  crashed : Bool

/-- One step of a run. -/
inductive Event where
  | change (cpu : Cpu)
  | construct (c : Compiler saveBlocks)
  | destroy (c : Compiler restoreBlocks)

namespace Config

/-- One step.  Unpredictable code crashes. -/
def step (k : Config) : Event → Config
  | .change cpu => { k with cpu }
  | .construct c =>
      match saveCPUState c k.cpu with
      | some (state, cpu, _) => { k with cpu, live := ⟨state, k.cpu⟩ :: k.live }
      | none => { k with crashed := true }
  | .destroy c =>
      match k.live with
      | [] => k
      | checkpoint :: rest =>
          match restoreCPUState c checkpoint.state k.cpu with
          | some (_, cpu, _) => { k with cpu, live := rest }
          | none => { k with crashed := true }

/-- Checkpoints are constructed in a privileged mode other than IRQ and FIQ, and
destroyed in the mode they were constructed in. -/
def Legal (k : Config) : Event → Prop
  | .change _ => True
  | .construct _ => ∃ m, k.cpu.mode = some m ∧ m ≠ .usr ∧ m ≠ .irq ∧ m ≠ .fiq
  | .destroy _ => ∃ checkpoint rest, k.live = checkpoint :: rest ∧
      k.cpu.mode = checkpoint.saved.mode

/-- What a step is to do: a constructor changes no bank, no mode and no mask, a
destructor restores what its own constructor found, and both keep interrupts
disabled in every mode but the one they started in, and in this one too between their
switches of the mode. -/
def Correct (k : Config) : Event → Prop
  | .change _ => True
  | .construct c => ∃ home, k.cpu.mode = some home ∧
      wp (OnTheWay home) (saveCPUState c) (fun state s' => state = record k.cpu ∧
        SameBanks k.cpu s') k.cpu ∧
      Switches home (readStatus c) (saveBanks c) (saveDone c) (fun state s' =>
        state = record k.cpu ∧ SameBanks k.cpu s') k.cpu
  | .destroy c => ∃ checkpoint rest home, k.live = checkpoint :: rest ∧
      k.cpu.mode = some home ∧
      wp (OnTheWay home) (restoreCPUState c checkpoint.state)
        (fun _ s' => Restored (record checkpoint.saved) k.cpu s') k.cpu ∧
      Switches home (readStatus c) (restoreBanks c checkpoint.state)
        (fun _ _ => restoreDone c checkpoint.state)
        (fun _ s' => Restored (record checkpoint.saved) k.cpu s') k.cpu

end Config

/-- Nothing has crashed, and every live checkpoint holds the record of the
processor at its constructor, which was privileged. -/
structure Sound (k : Config) : Prop where
  running : k.crashed = false
  record : ∀ c ∈ k.live, c.state = record c.saved
  privileged : ∀ c ∈ k.live, ∃ m, c.saved.mode = some m ∧ m ≠ .usr

theorem correct_of_sound {k : Config} {e : Event} (hlegal : k.Legal e) (h : Sound k) :
    k.Correct e := by
  cases e with
  | change cpu => trivial
  | construct c =>
      obtain ⟨m, hmode, hprivileged, -, -⟩ := hlegal
      exact ⟨m, hmode, wp_saveCPUState c hmode hprivileged,
        switches_saveCPUState c hmode hprivileged⟩
  | destroy c =>
      obtain ⟨checkpoint, rest, hlive, hmode⟩ := hlegal
      have hmem : checkpoint ∈ k.live := by simp [hlive]
      obtain ⟨m, hsaved, hprivileged⟩ := h.privileged checkpoint hmem
      refine ⟨checkpoint, rest, m, hlive, hmode.trans hsaved, ?_⟩
      have hstate : checkpoint.state.cpsr.extractLsb' 0 5 = m.bits := by
        rw [h.record checkpoint hmem]
        exact mode_bits hsaved
      rw [← h.record checkpoint hmem]
      exact ⟨wp_restoreCPUState c (hmode.trans hsaved) hprivileged hstate,
        switches_restoreCPUState c (hmode.trans hsaved) hprivileged hstate⟩

theorem sound_step (k : Config) (e : Event) (hlegal : k.Legal e) (h : Sound k) :
    Sound (k.step e) := by
  have hcorrect := correct_of_sound hlegal h
  cases e with
  | change cpu => exact ⟨h.running, h.record, h.privileged⟩
  | construct c =>
      obtain ⟨home, -, ⟨state, cpu, trace, hsave, -, hstate, -⟩, -⟩ := hcorrect
      obtain ⟨m, hmode, hprivileged, -, -⟩ := hlegal
      simp only [Config.step, hsave]
      exact
        { running := h.running
          record := by simpa [hstate] using h.record
          privileged := by simpa using ⟨⟨m, hmode, hprivileged⟩, h.privileged⟩ }
  | destroy c =>
      obtain ⟨checkpoint, rest, home, hlive, -, ⟨_, cpu, trace, hrestore, -⟩, -⟩ := hcorrect
      simp only [Config.step, hlive, hrestore]
      have hrest : ∀ c ∈ rest, c ∈ k.live := by
        intro c hc
        rw [hlive]
        exact List.mem_cons_of_mem _ hc
      exact
        { running := h.running
          record := fun c hc => h.record c (hrest c hc)
          privileged := fun c hc => h.privileged c (hrest c hc) }

/-- **Round trip.**  In every properly nested run from any processor, every
constructor and every destructor does what it is to do. -/
theorem checkpoints_run (s : Cpu) (es : List Event) (e : Event)
    (hallowed : Allowed Config.step Config.Legal ⟨s, [], false⟩ (es ++ [e])) :
    (run Config.step ⟨s, [], false⟩ es).Correct e := by
  obtain ⟨hes, hlegal, -⟩ := (allowed_append Config.step Config.Legal es [e] _).mp hallowed
  exact correct_of_sound hlegal (run_invariant Config.step Config.Legal sound_step es _ hes
    ⟨rfl, by simp, by simp⟩)

/-- A compiler that numbers the registers like the operands and puts nothing
between the blocks. -/
def plain (blocks : List AsmBlock) (h : ∀ b ∈ blocks, ∀ n ∈ b.outputs, n ∉ b.inputs) :
    Compiler blocks where
  alloc _ := AsmBlock.inOrder
  low _ := AsmBlock.inOrder_low
  allows _ b hb := AsmBlock.inOrder_allows (h b (List.mem_of_getElem? hb))
  after _ := id
  harmless _ := .refl

def plainSave : Compiler saveBlocks := plain saveBlocks (by decide)

def plainRestore : Compiler restoreBlocks := plain restoreBlocks (by decide)

/-- Supervisor mode with everything else changed. -/
def scrambled : Cpu where
  cpsr := 0xF00000D3#32
  reg _ _ := 1
  spsr _ := 2

theorem checkpoints_run_scrambled :
    (run Config.step ⟨Cpu.ofMode .svc, [], false⟩ [.construct plainSave, .change scrambled]).Correct
      (.destroy plainRestore) := by
  apply checkpoints_run _ _ _
  have hmode := Cpu.ofMode_mode .svc
  have hscrambled : scrambled.mode = some .svc := by decide
  obtain ⟨state, cpu, trace, hsave, -⟩ := wp_saveCPUState plainSave hmode (by decide)
  refine ⟨⟨.svc, hmode, by decide⟩, trivial, ?_, trivial⟩
  simp only [Config.step, hsave]
  exact ⟨_, _, rfl, hscrambled.trans hmode.symm⟩

end NspireUtils.Ports.CPUCheckpoint
