import NspireUtils.Ports.InterruptMask
import NspireUtils.Ports.SetterInterrupts

/-!
# Setters in critical sections

The setters of `PL190VIC_Editor`, each called between `IRQDisable` and `IRQRestore`.
`setInterruptType` reads the select register and writes it back; handlers that change it
in between would lose their change, or undo the setter's.  `guarded_lossless` says that
in critical sections nothing is lost: whatever handlers call and whenever they arrive,
the registers are as if all calls had been made one after the other.
-/

namespace NspireUtils.Ports.GuardedSetters

open NspireUtils.Verified.ArmBanks (Cpu Mode)
open NspireUtils.Verified.DeviceIO
open NspireUtils.Verified.Runs
open NspireUtils.Verified.InterruptSchedules
open NspireUtils.Ports.PL190
open NspireUtils.Ports.SetterInterrupts
open NspireUtils.Ports.InterruptMask

/-- The controller with the rest of the call that is being made, and the calls that
handlers have made. -/
structure Underway where
  call : Config Vic ReadRegister WriteRegister Word Unit
  handled : List Setter

/-- The controller's registers. -/
abbrev Underway.registers (x : Underway) : Registers := x.call.state.registers

/-- A setter that is called in a critical section. -/
structure GuardedCall where
  setter : Setter
  scope : ScopeCompiler
  between : Plain

/-- The next access of the call. -/
def access (x : Underway) : Underway :=
  { x with call := step vicDevice x.call (.access : Action Word) }

/-- `bool enabled = IRQSave(); IRQDisable(); editor.…(); IRQRestore(enabled);` for each
call.  No setter makes more than two accesses. -/
def code : List GuardedCall → Code Underway
  | [] => .skip
  | call :: rest =>
      .scope false call.scope
        (.access (fun x => { x with call := ⟨x.call.state, program [call.setter]⟩ }) call.between
          (.access access call.between (.access access call.between .skip)))
        (code rest)

/-- An interrupt: the raw lines change, and the handler makes some of the calls that
handlers make. -/
def Handler (calls : Setter → Prop) (x x' : Underway) : Prop :=
  ∃ (setters : List Setter) (lines : Word), (∀ s ∈ setters, calls s) ∧
    x' =
      { call :=
          { x.call with
            state := { finish vicDevice (program setters) x.call.state with lines } }
        handled := x.handled ++ setters }

/-- A critical section makes its call. -/
theorem effect_call (call : GuardedCall) (rest : List GuardedCall) :
    (code (call :: rest)).block.atoms =
      (fun x : Underway => { x with
        call := ⟨{ x.call.state with registers := effect x.registers call.setter }, .done ()⟩ }) ::
        (code rest).block.atoms := by
  obtain ⟨setter, scope, between⟩ := call
  cases setter with
  | setInterruptType n type => cases type <;> rfl
  | enableInterrupt n | disableInterrupt n | setSoftwareInterrupt n | clearSoftwareInterrupt n =>
      rfl

theorem code_critical (main : List GuardedCall) : (code main).block.Critical := by
  induction main with
  | nil => trivial
  | cons call rest ih => exact ⟨rfl, trivial, ih⟩

/-- Handlers make their calls one after the other. -/
theorem registers_serviced {calls : Setter → Prop} {x x' : Underway}
    (h : Serviced (Handler calls) x x') :
    ∃ made : List Setter, (∀ s ∈ made, calls s) ∧ x'.handled = x.handled ++ made ∧
      x'.registers = run effect x.registers made := by
  induction h with
  | refl => exact ⟨[], by simp, by simp, rfl⟩
  | tail _ hlast ih =>
      obtain ⟨made, hall, hhandled, hrun⟩ := ih
      obtain ⟨more, lines, hmore, rfl⟩ := hlast
      refine ⟨made ++ more, fun s hs => ?_, ?_, ?_⟩
      · exact (List.mem_append.mp hs).elim (hall s) (hmore s)
      · rw [hhandled, List.append_assoc]
      · rw [run_append, ← hrun, Underway.registers, finish_program]

/-- A call in the order in which calls took effect; `own` are the main line's. -/
structure Entry where
  setter : Setter
  own : Bool

/-- Calls of handlers. -/
def foreign (setters : List Setter) : List Entry := setters.map fun s => ⟨s, false⟩

@[simp] theorem foreign_setters (setters : List Setter) :
    (foreign setters).map Entry.setter = setters := by
  simp [foreign, Function.comp_def]

@[simp] theorem foreign_own (setters : List Setter) : (foreign setters).filter Entry.own = [] := by
  simp [foreign]

@[simp] theorem foreign_others (setters : List Setter) :
    (foreign setters).filter (!·.own) = foreign setters := by
  simp [foreign]

/-- The order has the main line's calls, in their order, and the calls that handlers made,
in theirs, and no others. -/
structure Serializes (main made : List Setter) (order : List Entry) : Prop where
  own : (order.filter Entry.own).map Entry.setter = main
  others : (order.filter (!·.own)).map Entry.setter = made

theorem serializes_foreign (made : List Setter) : Serializes [] made (foreign made) where
  own := by simp
  others := by simp

/-- Handlers, a call of the main line, and the rest. -/
theorem Serializes.cons {main made : List Setter} {order : List Entry} (before : List Setter)
    (s : Setter) (h : Serializes main made order) :
    Serializes (s :: main) (before ++ made) (foreign before ++ ⟨s, true⟩ :: order) where
  own := by simp [h.own]
  others := by simp [h.others]

/-- One access after the other, with handlers in between. -/
theorem registers_serial {calls : Setter → Prop} (main : List GuardedCall) {x x' : Underway}
    (h : Outcome (Handler calls) (Block.serial (code main).block.atoms) x x') :
    ∃ made order, x'.handled = x.handled ++ made ∧
      Serializes (main.map GuardedCall.setter) made order ∧
      x'.registers = run effect x.registers (order.map Entry.setter) := by
  induction main generalizing x with
  | nil =>
      obtain ⟨t, hserviced, rfl⟩ := h
      obtain ⟨made, -, hhandled, hrun⟩ := registers_serviced hserviced
      exact ⟨made, foreign made, hhandled, serializes_foreign made, by rw [foreign_setters, hrun]⟩
  | cons call rest ih =>
      rw [effect_call] at h
      obtain ⟨t, hserviced, hrest⟩ := h
      obtain ⟨before, -, hbefore, hrun⟩ := registers_serviced hserviced
      obtain ⟨made, order, hhandled, hserializes, hregisters⟩ := ih hrest
      refine ⟨before ++ made, _, ?_, hserializes.cons before call.setter, ?_⟩
      · rw [hhandled, hbefore, List.append_assoc]
      · rw [hregisters, List.map_append, foreign_setters, List.map_cons, run_append, run_cons,
          ← hrun]

/-- **Nothing is lost.**  In a privileged mode, every bit ends with the value that the
last call about it asked for, in an order of all calls that were made: the main line's as
they stand in the program, and those that handlers made meanwhile. -/
theorem guarded_lossless (main : List GuardedCall) (calls : Setter → Prop) {s : Cpu} {m : Mode}
    (hmode : s.mode = some m) (hprivileged : m ≠ .usr) :
    ∃ s' points, execute (code main) s = some (s', points) ∧ enabled s' = enabled s ∧
      ∀ x x' : Underway, Outcome (Handler calls) (.boundary (enabled s) :: points) x x' →
        ∃ made order, x'.handled = x.handled ++ made ∧
          Serializes (main.map GuardedCall.setter) made order ∧
          ∀ f n, bit x'.registers f n =
            (lastAsked (order.map Entry.setter) f n).getD (bit x.registers f n) := by
  obtain ⟨s', points, hexecute, hsame, hpoints⟩ := execute_points (code main) hmode
  refine ⟨s', points, hexecute, enabled_of_same hsame, fun x x' h => ?_⟩
  have hscopes := ((hpoints (Handler calls)).cons (.boundary (enabled s)) x x').mp h
  rw [decide_eq_true hprivileged] at hscopes
  have hserial := Block.serial_of_points (code main).block (code_critical main) hscopes
  obtain ⟨made, order, hhandled, hserializes, hregisters⟩ := registers_serial main hserial
  exact ⟨made, order, hhandled, hserializes, fun f n => by rw [hregisters, bit_run]⟩

/-- The main line makes the first timer a fast interrupt while handlers do the same with
the keypad. -/
theorem guarded_lossless_timer :
    ∃ s' points, execute (code [⟨.setInterruptType 18 .fiq, bare, nothing⟩]) (Cpu.ofMode .svc) =
        some (s', points) ∧ enabled s' = enabled (Cpu.ofMode .svc) ∧
      ∀ x x' : Underway, Outcome (Handler (· = .setInterruptType 16 .fiq))
          (.boundary (enabled (Cpu.ofMode .svc)) :: points) x x' →
        ∃ made order, x'.handled = x.handled ++ made ∧
          Serializes [.setInterruptType 18 .fiq] made order ∧
          ∀ f n, bit x'.registers f n =
            (lastAsked (order.map Entry.setter) f n).getD (bit x.registers f n) :=
  guarded_lossless [⟨.setInterruptType 18 .fiq, bare, nothing⟩] _ (Cpu.ofMode_mode .svc) (by decide)

end NspireUtils.Ports.GuardedSetters
