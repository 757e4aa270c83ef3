import NspireUtils.Ports.PL190Editor

/-!
# Setters and an interrupt handler

The methods of `PL190VIC_Editor` that set something for one interrupt number, called by
the main line and by an interrupt handler that runs between two of its accesses.  Enable
and software interrupt bits are written by single accesses, but the type is written by
reading the whole select register first: a handler that runs between the two accesses
loses what it set.  `undisturbed_iff` says for which sequences nothing is lost.
-/

namespace NspireUtils.Ports.SetterInterrupts

open NspireUtils.Verified.Runs
open NspireUtils.Verified.DeviceIO
open NspireUtils.Ports.PL190
open NspireUtils.Ports.PL190Editor

/-- A call that sets something for one interrupt number. -/
inductive Setter where
  | enableInterrupt (interruptNumber : Fin 32)
  | disableInterrupt (interruptNumber : Fin 32)
  | setSoftwareInterrupt (interruptNumber : Fin 32)
  | clearSoftwareInterrupt (interruptNumber : Fin 32)
  | setInterruptType (interruptNumber : Fin 32) (type : InterruptType)
  deriving Repr, DecidableEq

/-- What can be set for an interrupt number. -/
inductive Field where
  | select
  | enable
  | software
  deriving Repr, DecidableEq

/-- The bit of an interrupt number. -/
def bit (k : Registers) : Field → Fin 32 → Bool
  | .select, n => k.interruptSelect.getLsbD n
  | .enable, n => k.interruptEnable.getLsbD n
  | .software, n => k.softwareInt.getLsbD n

namespace Setter

def call : Setter → Call
  | enableInterrupt n => .enableInterrupt n
  | disableInterrupt n => .disableInterrupt n
  | setSoftwareInterrupt n => .setSoftwareInterrupt n
  | clearSoftwareInterrupt n => .clearSoftwareInterrupt n
  | setInterruptType n type => .setInterruptType n type

def number : Setter → Fin 32
  | enableInterrupt n => n
  | disableInterrupt n => n
  | setSoftwareInterrupt n => n
  | clearSoftwareInterrupt n => n
  | setInterruptType n _ => n

def field : Setter → Field
  | enableInterrupt _ => .enable
  | disableInterrupt _ => .enable
  | setSoftwareInterrupt _ => .software
  | clearSoftwareInterrupt _ => .software
  | setInterruptType _ _ => .select

/-- The value that is asked for. -/
def value : Setter → Bool
  | enableInterrupt _ => true
  | disableInterrupt _ => false
  | setSoftwareInterrupt _ => true
  | clearSoftwareInterrupt _ => false
  | setInterruptType _ type => type = .fiq

/-- The setter is about the bit. -/
def Covers (s : Setter) (i : Field × Fin 32) : Prop := s.field = i.1 ∧ s.number = i.2

instance (s : Setter) (i : Field × Fin 32) : Decidable (s.Covers i) := by
  unfold Covers
  infer_instance

end Setter

/-- What the last setter asked for. -/
def lastAsked (setters : List Setter) (f : Field) (n : Fin 32) : Option Bool :=
  (lastCovering Setter.Covers setters (f, n)).map Setter.value

/-- The program of a sequence of calls. -/
def program (setters : List Setter) : Driver Unit := performAll (setters.map Setter.call)

/-- The main line is interrupted after `k` accesses, and continues when the handler has
returned. -/
def interrupted (d : Vic) (main handler : List Setter) (k : Nat) : Vic :=
  let c := run (step vicDevice) ⟨d, program main⟩ (List.replicate k .access)
  finish vicDevice c.prog (finish vicDevice (program handler) c.state)

/-- Every bit has the value its last setter asked for. -/
def Undisturbed (d : Vic) (main handler : List Setter) (k : Nat) : Prop :=
  ∀ f n, bit (interrupted d main handler k).registers f n =
    ((lastAsked main f n).or (lastAsked handler f n)).getD (bit d.registers f n)

/-- After `k` accesses the program has read the select register and not yet written
it. -/
def BetweenAccesses : List Setter → Nat → Prop
  | [], _ => False
  | .setInterruptType _ _ :: _, 1 => True
  | .setInterruptType _ _ :: rest, k + 2 => BetweenAccesses rest k
  | _ :: _, 0 => False
  | _ :: rest, k + 1 => BetweenAccesses rest k

/-! ## Calls without interruption -/

/-- The select register with the type of one interrupt. -/
def withType (current : Word) (n : Fin 32) : InterruptType → Word
  | .fiq => current ||| bitOf n
  | .irq => current &&& ~~~bitOf n

/-- A setter's effect on the registers. -/
def effect (k : Registers) : Setter → Registers
  | .enableInterrupt n => k.write .interruptEnable (bitOf n)
  | .disableInterrupt n => k.write .interruptEnableClear (bitOf n)
  | .setSoftwareInterrupt n => k.write .softwareInt (bitOf n)
  | .clearSoftwareInterrupt n => k.write .softwareIntClear (bitOf n)
  | .setInterruptType n type => k.write .interruptSelect (withType k.interruptSelect n type)

/-- A type is set by a read and a write. -/
theorem program_setInterruptType (n : Fin 32) (type : InterruptType) (rest : List Setter) :
    program (.setInterruptType n type :: rest) =
      .read .interruptSelect fun current =>
        .write .interruptSelect (withType current n type) (program rest) := by
  cases type <;> rfl

theorem finish_program (setters : List Setter) (d : Vic) :
    finish vicDevice (program setters) d =
      { d with registers := run effect d.registers setters } := by
  induction setters generalizing d with
  | nil => rfl
  | cons s rest ih =>
      cases s with
      | setInterruptType n type =>
          rw [program_setInterruptType]
          exact ih _
      | enableInterrupt n => exact ih _
      | disableInterrupt n => exact ih _
      | setSoftwareInterrupt n => exact ih _
      | clearSoftwareInterrupt n => exact ih _

theorem getLsbD_bitOf (n m : Fin 32) : (bitOf n).getLsbD m = decide (n = m) := by
  revert n m
  decide

/-- A setter sets its bit and no other. -/
theorem bit_effect (k : Registers) (s : Setter) (f : Field) (n : Fin 32) :
    bit (effect k s) f n = if s.Covers (f, n) then s.value else bit k f n := by
  cases s with
  | setInterruptType m type =>
      cases f <;> cases type <;>
        simp only [effect, Registers.write, withType, bit, Setter.Covers, Setter.field,
          Setter.number, Setter.value, BitVec.getLsbD_or, BitVec.getLsbD_and, BitVec.getLsbD_not,
          getLsbD_bitOf, n.isLt] <;>
        by_cases hm : m = n <;> simp [hm]
  | enableInterrupt m | disableInterrupt m | setSoftwareInterrupt m | clearSoftwareInterrupt m =>
      cases f <;>
        simp only [effect, Registers.write, bit, Setter.Covers, Setter.field, Setter.number,
          Setter.value, BitVec.getLsbD_or, BitVec.getLsbD_and, BitVec.getLsbD_not, getLsbD_bitOf,
          n.isLt] <;>
        by_cases hm : m = n <;> simp [hm]

/-- **Last setter wins.** -/
theorem bit_run (setters : List Setter) (k : Registers) (f : Field) (n : Fin 32) :
    bit (run effect k setters) f n = (lastAsked setters f n).getD (bit k f n) := by
  have hinv : ∀ (k : Registers) (_ : Setter), True → True → True := fun _ _ _ _ => trivial
  have hrun := observe_run effect (fun _ _ => True) Setter.Covers
    (fun k (i : Field × Fin 32) => bit k i.1 i.2) (fun s _ => s.value) hinv
    (fun k s i _ _ => bit_effect k s i.1 i.2) setters k (f, n)
    ((allowed_const effect (fun _ => True) setters k).mpr fun _ _ => trivial) trivial
  exact hrun

theorem lastAsked_append (xs ys : List Setter) (f : Field) (n : Fin 32) :
    lastAsked (xs ++ ys) f n = (lastAsked ys f n).or (lastAsked xs f n) := by
  rw [lastAsked, lastCovering_append]
  cases hlast : lastCovering Setter.Covers ys (f, n) <;> simp [lastAsked, hlast]

/-- Nobody asks for the bit of a number that is not used. -/
theorem lastAsked_of_unused {setters : List Setter} {n : Fin 32}
    (h : ∀ s ∈ setters, s.number ≠ n) (f : Field) : lastAsked setters f n = none := by
  rw [lastAsked, Option.map_eq_none_iff, lastCovering, List.find?_eq_none]
  intro s hs
  simp only [decide_eq_true_eq]
  exact fun hcovers => h s (List.mem_reverse.mp hs) hcovers.2

/-! ## Interrupted calls -/

/-- A setter of a single access. -/
theorem access_single {s : Setter} (hs : s.field ≠ .select) (rest : List Setter) (d : Vic)
    (k : Nat) :
    (BetweenAccesses (s :: rest) (k + 1) ↔ BetweenAccesses rest k) ∧
      run (step vicDevice) ⟨d, program (s :: rest)⟩ (List.replicate (k + 1) .access) =
        run (step vicDevice) ⟨{ d with registers := effect d.registers s }, program rest⟩
          (List.replicate k .access) := by
  cases s with
  | setInterruptType n type => exact absurd rfl hs
  | enableInterrupt n => exact ⟨Iff.rfl, rfl⟩
  | disableInterrupt n => exact ⟨Iff.rfl, rfl⟩
  | setSoftwareInterrupt n => exact ⟨Iff.rfl, rfl⟩
  | clearSoftwareInterrupt n => exact ⟨Iff.rfl, rfl⟩

/-- The setter of a type has two. -/
theorem access_pair (n : Fin 32) (type : InterruptType) (rest : List Setter) (d : Vic) (k : Nat) :
    run (step vicDevice) ⟨d, program (.setInterruptType n type :: rest)⟩
        (List.replicate (k + 2) .access) =
      run (step vicDevice) ⟨{ d with registers := effect d.registers (.setInterruptType n type) },
        program rest⟩ (List.replicate k .access) := by
  rw [program_setInterruptType]
  rfl

theorem eq_setInterruptType {s : Setter} (hs : s.field = .select) :
    ∃ n type, s = .setInterruptType n type := by
  cases s with
  | setInterruptType n type => exact ⟨n, type, rfl⟩
  | _ => exact absurd hs (by simp [Setter.field])

/-- Between two calls the main line has performed some of them. -/
theorem run_between_calls {main : List Setter} {k : Nat} (h : ¬ BetweenAccesses main k) (d : Vic) :
    ∃ before after, main = before ++ after ∧
      run (step vicDevice) ⟨d, program main⟩ (List.replicate k .access) =
        ⟨{ d with registers := run effect d.registers before }, program after⟩ := by
  induction main generalizing k d with
  | nil =>
      refine ⟨[], [], rfl, ?_⟩
      induction k with
      | zero => rfl
      | succ k ih => exact ih h
  | cons s rest ih =>
      match k, h with
      | 0, _ => exact ⟨[], s :: rest, rfl, rfl⟩
      | k + 1, h =>
          by_cases hs : s.field = .select
          · obtain ⟨n, type, rfl⟩ := eq_setInterruptType hs
            match k, h with
            | 0, h => exact absurd trivial h
            | k + 1, h =>
                obtain ⟨before, after, rfl, hrun⟩ := ih h { d with
                  registers := effect d.registers (.setInterruptType n type) }
                exact ⟨.setInterruptType n type :: before, after, rfl,
                  (access_pair n type _ d k).trans hrun⟩
          · obtain ⟨hiff, haccess⟩ := access_single hs rest d k
            obtain ⟨before, after, rfl, hrun⟩ := ih (mt hiff.mpr h)
              { d with registers := effect d.registers s }
            exact ⟨s :: before, after, rfl, haccess.trans hrun⟩

/-- Between the two accesses of a call it still has to write what it made of the old
types. -/
theorem run_between_accesses {main : List Setter} {k : Nat} (h : BetweenAccesses main k) (d : Vic) :
    ∃ before n type after, main = before ++ .setInterruptType n type :: after ∧
      run (step vicDevice) ⟨d, program main⟩ (List.replicate k .access) =
        ⟨{ d with registers := run effect d.registers before },
          .write .interruptSelect
            (withType (run effect d.registers before).interruptSelect n type) (program after)⟩ := by
  induction main generalizing k d with
  | nil => exact h.elim
  | cons s rest ih =>
      by_cases hs : s.field = .select
      · obtain ⟨n, type, rfl⟩ := eq_setInterruptType hs
        match k, h with
        | 1, _ =>
            refine ⟨[], n, type, rest, rfl, ?_⟩
            rw [program_setInterruptType]
            rfl
        | k + 2, h =>
            obtain ⟨before, m, other, after, rfl, hrun⟩ := ih h { d with
              registers := effect d.registers (.setInterruptType n type) }
            exact ⟨.setInterruptType n type :: before, m, other, after, rfl,
              (access_pair n type _ d k).trans hrun⟩
      · match k, h with
        | 0, h => cases s <;> exact absurd h (by simp [BetweenAccesses])
        | k + 1, h =>
            obtain ⟨hiff, haccess⟩ := access_single hs rest d k
            obtain ⟨before, m, other, after, rfl, hrun⟩ := ih (hiff.mp h)
              { d with registers := effect d.registers s }
            exact ⟨s :: before, m, other, after, rfl, haccess.trans hrun⟩

section Interrupted

variable {d : Vic} {main handler : List Setter} {k : Nat}

/-- A handler between two calls is one more sequence of calls. -/
theorem interrupted_between_calls (h : ¬ BetweenAccesses main k) :
    ∃ before after, main = before ++ after ∧
      (interrupted d main handler k).registers =
        run effect d.registers (before ++ handler ++ after) := by
  obtain ⟨before, after, rfl, hrun⟩ := run_between_calls h d
  refine ⟨before, after, rfl, ?_⟩
  rw [interrupted, hrun, finish_program, finish_program, run_append, run_append]

/-- The type of one interrupt, written over what the handler left. -/
def overwritten (old new : Registers) (n : Fin 32) (type : InterruptType) : Registers :=
  new.write .interruptSelect (withType old.interruptSelect n type)

theorem bit_overwritten_select (old new : Registers) (n : Fin 32) (type : InterruptType)
    (m : Fin 32) : bit (overwritten old new n type) .select m =
      bit (effect old (.setInterruptType n type)) .select m := rfl

theorem bit_overwritten_of_ne (old new : Registers) (n : Fin 32) (type : InterruptType)
    {f : Field} (hf : f ≠ .select) (m : Fin 32) :
    bit (overwritten old new n type) f m = bit new f m := by
  cases f with
  | select => exact absurd rfl hf
  | enable => rfl
  | software => rfl

theorem interrupted_between_accesses (h : BetweenAccesses main k) :
    ∃ before n type after, main = before ++ .setInterruptType n type :: after ∧
      (interrupted d main handler k).registers =
        run effect (overwritten (run effect d.registers before)
          (run effect d.registers (before ++ handler)) n type) after := by
  obtain ⟨before, n, type, after, rfl, hrun⟩ := run_between_accesses h d
  refine ⟨before, n, type, after, rfl, ?_⟩
  rw [interrupted, hrun, finish_program, run_append]
  exact congrArg Vic.registers (finish_program after _)

/-- No number is used by both. -/
theorem unused_of_disjoint (hdisjoint : ∀ a ∈ main, ∀ b ∈ handler, a.number ≠ b.number) (f : Field)
    (n : Fin 32) :
    (∀ setters : List Setter, (∀ s ∈ setters, s ∈ main) → lastAsked setters f n = none) ∨
      lastAsked handler f n = none := by
  by_cases hused : ∃ a ∈ main, a.number = n
  · obtain ⟨a, ha, rfl⟩ := hused
    exact .inr (lastAsked_of_unused (fun b hb heq => hdisjoint a ha b hb heq.symm) f)
  · push Not at hused
    exact .inl fun setters hall => lastAsked_of_unused (fun s hs => hused s (hall s hs)) f

/-- A handler between two calls loses nothing. -/
theorem undisturbed_between_calls
    (hdisjoint : ∀ a ∈ main, ∀ b ∈ handler, a.number ≠ b.number) (h : ¬ BetweenAccesses main k) :
    Undisturbed d main handler k := by
  obtain ⟨before, after, rfl, hregisters⟩ := @interrupted_between_calls d main handler k h
  intro f n
  rw [hregisters, bit_run, lastAsked_append, lastAsked_append, lastAsked_append]
  rcases unused_of_disjoint hdisjoint f n with hmain | hhandler
  · rw [hmain before fun s hs => List.mem_append_left _ hs,
      hmain after fun s hs => List.mem_append_right _ hs]
    simp
  · rw [hhandler]
    simp

/-- Between two accesses it loses the types it set. -/
theorem bit_between_accesses (hdisjoint : ∀ a ∈ main, ∀ b ∈ handler, a.number ≠ b.number)
    (h : BetweenAccesses main k) (f : Field) (n : Fin 32) :
    bit (interrupted d main handler k).registers f n =
      (if f = .select then lastAsked main f n
        else (lastAsked main f n).or (lastAsked handler f n)).getD (bit d.registers f n) := by
  obtain ⟨before, m, type, after, rfl, hregisters⟩ :=
    @interrupted_between_accesses d main handler k h
  have hsplit : before ++ .setInterruptType m type :: after =
      before ++ [.setInterruptType m type] ++ after := by simp
  rw [hregisters, bit_run]
  by_cases hf : f = .select
  · subst hf
    -- the handler's registers are not looked at
    have hold : bit (effect (run effect d.registers before) (.setInterruptType m type)) .select n =
        bit (run effect d.registers (before ++ [.setInterruptType m type])) .select n := by
      rw [run_append]
      rfl
    rw [bit_overwritten_select, hold, bit_run, if_pos rfl, hsplit, lastAsked_append _ after]
    cases lastAsked after .select n <;> rfl
  · have hnone : lastAsked [.setInterruptType m type] f n = none := by
      have hcovers : ¬ Setter.Covers (.setInterruptType m type) (f, n) := fun hc => hf hc.1.symm
      simp [lastAsked, lastCovering, hcovers]
    rw [bit_overwritten_of_ne _ _ _ _ hf, bit_run, if_neg hf, hsplit, lastAsked_append _ after,
      lastAsked_append before [_], hnone, lastAsked_append before handler]
    rcases unused_of_disjoint hdisjoint f n with hmain | hhandler
    · rw [hmain before fun s hs => List.mem_append_left _ hs,
        hmain after fun s hs => List.mem_append_right _ (List.mem_cons_of_mem _ hs)]
      simp
    · rw [hhandler]
      cases lastAsked after f n <;> simp

end Interrupted

/-- **Who loses nothing.**  Every bit ends with the value its last setter asked for, if
and only if the handler does not run between the two accesses of `setInterruptType`, or
asks for types its interrupts already have. -/
theorem undisturbed_iff (d : Vic) (main handler : List Setter) (k : Nat)
    (hdisjoint : ∀ a ∈ main, ∀ b ∈ handler, a.number ≠ b.number) :
    Undisturbed d main handler k ↔
      (BetweenAccesses main k → ∀ n type, lastAsked handler .select n = some type →
        bit d.registers .select n = type) := by
  constructor
  · intro h hbetween n type hasked
    have hbit := h .select n
    rw [bit_between_accesses hdisjoint hbetween, if_pos rfl, hasked] at hbit
    rcases unused_of_disjoint hdisjoint .select n with hmain | hhandler
    · simpa [hmain main fun _ hs => hs] using hbit
    · rw [hhandler] at hasked
      exact absurd hasked (by simp)
  · intro h
    by_cases hbetween : BetweenAccesses main k
    · intro f n
      rw [bit_between_accesses hdisjoint hbetween]
      split_ifs with hf
      · subst hf
        cases hmain : lastAsked main .select n with
        | some type => rfl
        | none =>
            cases hhandler : lastAsked handler .select n with
            | none => rfl
            | some type => exact h hbetween n type hhandler
      · rfl
    · exact undisturbed_between_calls hdisjoint hbetween

/-- Enable bits are not lost: the handler enables the keypad between the accesses that
make the first timer a fast interrupt. -/
theorem undisturbed_enable :
    Undisturbed keypadVic [.setInterruptType 18 .fiq, .enableInterrupt 18]
      [.enableInterrupt 16, .setInterruptType 16 .irq] 1 :=
  (undisturbed_iff keypadVic _ _ 1 (by decide)).mpr fun _ => by decide

/-- A type is: the handler makes the keypad a fast interrupt, and the main line makes it
a normal one again. -/
theorem type_lost :
    ¬ ∀ (d : Vic) (main handler : List Setter) (k : Nat),
      (∀ a ∈ main, ∀ b ∈ handler, a.number ≠ b.number) → Undisturbed d main handler k := by
  intro hall
  have hbit := hall keypadVic [.setInterruptType 18 .fiq] [.setInterruptType 16 .fiq] 1 (by decide)
    .select 16
  exact absurd hbit (by decide)

end NspireUtils.Ports.SetterInterrupts
