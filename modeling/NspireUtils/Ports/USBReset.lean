import NspireUtils.Ports.USBSchedules
import NspireUtils.Verified.DeviceTraces

/-!
# Resetting the USB controller

`FOTG210::Reset` of `devices/usb/reset.cpp`, as a program on the registers: it
disables the interrupts, clears the Run bit, waits for the controller to halt,
sets the Reset bit and waits for the controller to clear it.  Both waits give up
when their countdown is zero.

The controller may do what it likes with every register but the command
register, and with that one it may only clear the Reset bit.
-/

namespace NspireUtils.Ports.USBReset

open NspireUtils.Verified.ByteMemory
open NspireUtils.Verified.Runs
open NspireUtils.Verified.DeviceIO
open NspireUtils.Verified.DeviceTraces
open NspireUtils.Ports.USBStructures (USBOp)
open NspireUtils.Ports.USBSchedules (FOTG210 commandRegister commandRun)

/-- `FOTG210_StatusRegister`. -/
def statusRegister : Word := 0x04#32

/-- `FOTG210_InterruptEnable`. -/
def interruptEnable : Word := 0x08#32

/-- `FOTG210_CommandRegisterBits::Reset`. -/
def commandReset : Word := 1#32 <<< 1

/-- `FOTG210_CommandRegisterBits::IAAD_Doorbell`. -/
def commandDoorbell : Word := 1#32 <<< 6

/-- `FOTG210_StatusRegisterBits::HostControllerHalted`. -/
def statusHalted : Word := 1#32 <<< 12

/-- A program on the registers, which are addressed. -/
abbrev Driver := Prog Word Word Word

section Functions

variable (c : FOTG210)

/-- `FOTG210::GetCommandRegister`. -/
def getCommandRegister : Driver Word := read (c.register commandRegister)

/-- `FOTG210::SetCommandRegister`. -/
def setCommandRegister (value : Word) : Driver Unit := write (c.register commandRegister) value

/-- The first loop of `FOTG210::Reset`: until `GetStatusRegister` has the halted bit. -/
def waitForHalt : Driver Bool :=
  poll (c.register statusRegister) (fun status => status &&& statusHalted != 0#32) 10000000#32

/-- The second: until `GetCommandRegister` has no Reset bit. -/
def waitForReset : Driver Bool :=
  poll (c.register commandRegister) (fun command => command &&& commandReset == 0#32) 100000000#32

/-- `FOTG210::Reset`. -/
def reset : Driver Bool := do
  -- disable interrupts
  write (c.register interruptEnable) 0#32
  -- read current command register
  let commandReg ← getCommandRegister c
  let commandReg := commandReg &&& ~~~commandRun
  let commandReg := commandReg &&& ~~~commandDoorbell
  setCommandRegister c commandReg
  -- wait for halt
  if ← waitForHalt c then
    -- issue reset
    let commandReg ← getCommandRegister c
    setCommandRegister c (commandReg ||| commandReset)
    waitForReset c
  else
    return false

/-- An access among the operations of a schedule. -/
def operation : Access Word Word Word → USBOp
  | .read address _ => .readRegister address
  | .write address value => .writeRegister address value

theorem operation_getCommandRegister {t : List (Access Word Word Word)} {value : Word}
    (h : Returns (getCommandRegister c) t value) : t.map operation = c.getCommandRegister := by
  obtain ⟨_, t, rfl, rfl, -⟩ := h
  rfl

theorem operation_setCommandRegister {t : List (Access Word Word Word)} {value : Word}
    (h : Returns (setCommandRegister c value) t ()) :
    t.map operation = c.setCommandRegister value := by
  obtain ⟨t, rfl, rfl, -⟩ := h
  rfl

end Functions

/-! ## The controller -/

/-- The command register, and everything else. -/
structure Controller where
  command : Word
  others : Word → Word

/-- What the controller does of its own. -/
inductive Change where
  | clearReset
  | others (registers : Word → Word)

/-- The controller as a device. -/
def controller (c : FOTG210) : Device Controller Word Word Word Change where
  read s address :=
    if address = c.register commandRegister then s.command else s.others address
  write s address value :=
    if address = c.register commandRegister then { s with command := value }
    else { s with others := Function.update s.others address value }
  env s
    | .clearReset => { s with command := s.command &&& ~~~commandReset }
    | .others registers => { s with others := registers }

/-- Bits that are clear stay so under a mask. -/
theorem masked_and_eq_zero {x bits : Word} (mask : Word) (h : x &&& bits = 0#32) :
    x &&& mask &&& bits = 0#32 := by
  rw [BitVec.and_assoc, BitVec.and_comm mask, ← BitVec.and_assoc, h, BitVec.zero_and]

theorem cleared_and_self (x bits : Word) : x &&& ~~~bits &&& bits = 0#32 := by
  rw [BitVec.and_assoc, BitVec.not_and_self]
  exact BitVec.and_zero

/-- A command the controller can make of another. -/
def Cleared (x y : Word) : Prop := y = x ∨ y = x &&& ~~~commandReset

theorem Cleared.trans {x y z : Word} (hxy : Cleared x y) (hyz : Cleared y z) : Cleared x z := by
  rcases hxy with rfl | rfl
  · exact hyz
  · rcases hyz with rfl | rfl
    · exact .inr rfl
    · exact .inr (by rw [BitVec.and_assoc, BitVec.and_self])

/-- Without the Reset bit the command stays. -/
theorem Cleared.eq_of_clear {x y : Word} (h : Cleared x y) (hx : x &&& commandReset = 0#32) :
    y = x := by
  rcases h with rfl | rfl
  · rfl
  · apply BitVec.eq_of_getLsbD_eq
    intro i hi
    have hbit := congrArg (fun v => v.getLsbD i) hx
    simp only [BitVec.getLsbD_and, BitVec.getLsbD_zero, Bool.and_eq_false_iff] at hbit
    simp only [BitVec.getLsbD_and, BitVec.getLsbD_not, hi]
    rcases hbit with hbit | hbit <;> simp [hbit]

/-- A bit that is clear stays so. -/
theorem Cleared.and_eq_zero {x y bits : Word} (h : Cleared x y) (hx : x &&& bits = 0#32) :
    y &&& bits = 0#32 := by
  rcases h with rfl | rfl
  · exact hx
  · exact masked_and_eq_zero _ hx

section Serving

variable {c : FOTG210}

theorem interruptEnable_ne : c.register interruptEnable ≠ c.register commandRegister :=
  fun h => absurd (FOTG210.register_inj h) (by decide)

theorem status_ne : c.register statusRegister ≠ c.register commandRegister :=
  fun h => absurd (FOTG210.register_inj h) (by decide)

theorem read_command (s : Controller) :
    (controller c).read s (c.register commandRegister) = s.command := if_pos rfl

theorem command_write (s : Controller) (value : Word) :
    ((controller c).write s (c.register commandRegister) value).command = value := by
  simp [controller]

theorem command_write_of_ne (s : Controller) {address : Word} (value : Word)
    (h : address ≠ c.register commandRegister) :
    ((controller c).write s address value).command = s.command := by
  simp [controller, h]

theorem cleared_of_drifts {s s' : Controller} (h : Drifts (controller c) s s') :
    Cleared s.command s'.command := by
  obtain ⟨es, rfl⟩ := h
  have hstep : ∀ (m : Controller) (e : Change), True → Cleared s.command m.command →
      Cleared s.command ((controller c).env m e).command := by
    intro m e _ hm
    cases e with
    | clearReset => exact hm.trans (.inr rfl)
    | others registers => exact hm
  exact run_invariant (controller c).env (fun _ _ => True) hstep es s
    ((allowed_const (controller c).env (fun _ => True) es s).mpr fun _ _ => trivial) (.inl rfl)

/-- Until the command register is written, it reads as it was or with the Reset bit
cleared. -/
theorem cleared_of_serves {t : List (Access Word Word Word)} : ∀ {s s' : Controller},
    Serves (controller c) s t s' → (∀ value, .write (c.register commandRegister) value ∉ t) →
      Cleared s.command s'.command ∧
        ∀ value, .read (c.register commandRegister) value ∈ t → Cleared s.command value := by
  induction t with
  | nil => intro s s' h _; exact ⟨cleared_of_drifts h, by simp⟩
  | cons x rest ih =>
      intro s s' h hquiet
      have hrestquiet := fun value hin => hquiet value (List.mem_cons_of_mem x hin)
      cases x with
      | read r v =>
          obtain ⟨m, hm, hv, hrest⟩ := h
          obtain ⟨hend, hreads⟩ := ih hrest hrestquiet
          have hdrift := cleared_of_drifts hm
          refine ⟨hdrift.trans hend, fun value hin => ?_⟩
          rcases List.mem_cons.mp hin with heq | hin
          · obtain ⟨rfl, rfl⟩ := Access.read.inj heq
            rw [hv, read_command]
            exact hdrift
          · exact hdrift.trans (hreads value hin)
      | write w v =>
          obtain ⟨m, hm, hrest⟩ := h
          obtain ⟨hend, hreads⟩ := ih hrest hrestquiet
          have hne : w ≠ c.register commandRegister := by
            rintro rfl
            exact hquiet v List.mem_cons_self
          rw [command_write_of_ne m v hne] at hend hreads
          have hdrift := cleared_of_drifts hm
          refine ⟨hdrift.trans hend, fun value hin => hdrift.trans (hreads value ?_)⟩
          exact (List.mem_cons.mp hin).resolve_left (by simp)

end Serving

/-! ## What `Reset` does -/

section Executions

variable (c : FOTG210)

/-- The command without the Run bit and the doorbell. -/
def stopped (w : Word) : Word := w &&& ~~~commandRun &&& ~~~commandDoorbell

/-- The accesses up to the end of the first loop. -/
def haltAccesses (w : Word) (statuses : List Word) : List (Access Word Word Word) :=
  .write (c.register interruptEnable) 0#32 :: .read (c.register commandRegister) w ::
    .write (c.register commandRegister) (stopped w) ::
      statuses.map (.read (c.register statusRegister))

/-- The accesses from there on. -/
def resetAccesses (w : Word) (commands : List Word) : List (Access Word Word Word) :=
  .read (c.register commandRegister) w ::
    .write (c.register commandRegister) (w ||| commandReset) ::
      commands.map (.read (c.register commandRegister))

/-- The executions that start with the command `w`. -/
inductive Execution (w : Word) : List (Access Word Word Word) → Bool → Prop
  | notHalted {statuses : List Word}
      (hstatuses : Polled (fun status => status &&& statusHalted != 0#32) 10000000 statuses false) :
      Execution w (haltAccesses c w statuses) false
  | issued {statuses commands : List Word} {b : Bool}
      (hstatuses : Polled (fun status => status &&& statusHalted != 0#32) 10000000 statuses true)
      (hcommands :
        Polled (fun command => command &&& commandReset == 0#32) 100000000 commands b) :
      Execution w (haltAccesses c w statuses ++ resetAccesses c (stopped w) commands) b

variable {c}

/-- A whole execution of the program. -/
theorem accesses_of_returns {t : List (Access Word Word Word)} {b : Bool}
    (h : Returns (reset c) t b) :
    ∃ w statuses halted,
      Polled (fun status => status &&& statusHalted != 0#32) 10000000 statuses halted ∧
        if halted then
          ∃ w' commands,
            Polled (fun command => command &&& commandReset == 0#32) 100000000 commands b ∧
              t = haltAccesses c w statuses ++ resetAccesses c w' commands
        else b = false ∧ t = haltAccesses c w statuses := by
  obtain ⟨t, rfl, w, t, rfl, t, rfl, hloop⟩ := h
  obtain ⟨t₁, halted, t₂, rfl, hwait, hrest⟩ :=
    (returns_bind (waitForHalt c) _ _ _).mp hloop
  obtain ⟨statuses, rfl, hstatuses⟩ := polled_of_returns (k := 9999999) rfl hwait
  refine ⟨w, statuses, halted, hstatuses, ?_⟩
  cases halted with
  | false =>
      obtain ⟨rfl, rfl⟩ := hrest
      exact ⟨rfl, by simp [haltAccesses, stopped]⟩
  | true =>
      obtain ⟨w', t, rfl, t, rfl, hwait'⟩ := hrest
      obtain ⟨commands, rfl, hcommands⟩ := polled_of_returns (k := 99999999) rfl hwait'
      exact ⟨w', commands, hcommands, by simp [haltAccesses, resetAccesses, stopped]⟩

theorem stopped_and_eq_zero {w bits : Word} (h : w &&& bits = 0#32) :
    stopped w &&& bits = 0#32 :=
  masked_and_eq_zero _ (masked_and_eq_zero _ h)

theorem stopped_run (w : Word) : stopped w &&& commandRun = 0#32 :=
  masked_and_eq_zero _ (cleared_and_self w commandRun)

theorem stopped_doorbell (w : Word) : stopped w &&& commandDoorbell = 0#32 :=
  cleared_and_self _ commandDoorbell

/-- What is clear stays so when the Reset bit is set. -/
theorem issued_and_eq_zero {w bits : Word} (h : w &&& bits = 0#32)
    (hbits : commandReset &&& bits = 0#32) : (w ||| commandReset) &&& bits = 0#32 := by
  rw [BitVec.and_or_distrib_right, h, hbits]
  rfl

/-- The values the first part reads and leaves. -/
theorem serves_haltAccesses {s m : Controller} {w : Word} {statuses : List Word}
    (hentry : s.command &&& commandReset = 0#32)
    (h : Serves (controller c) s (haltAccesses c w statuses) m) :
    w = s.command ∧ m.command = stopped w := by
  obtain ⟨m₁, hm₁, m₂, hm₂, hw, m₃, -, hrest⟩ := h
  have hread : Cleared s.command w := by
    have hsecond := cleared_of_drifts hm₂
    rw [command_write_of_ne m₁ _ interruptEnable_ne] at hsecond
    rw [hw, read_command]
    exact (cleared_of_drifts hm₁).trans hsecond
  obtain rfl := hread.eq_of_clear hentry
  obtain ⟨hend, -⟩ := cleared_of_serves hrest (by simp)
  rw [command_write] at hend
  exact ⟨rfl, hend.eq_of_clear (stopped_and_eq_zero hentry)⟩

/-- The same for the second. -/
theorem serves_resetAccesses {s m : Controller} {w : Word} {commands : List Word}
    (hentry : s.command &&& commandReset = 0#32)
    (h : Serves (controller c) s (resetAccesses c w commands) m) :
    w = s.command ∧ Cleared (w ||| commandReset) m.command := by
  obtain ⟨m₁, hm₁, hw, m₂, -, hrest⟩ := h
  have hread : w = s.command := by
    rw [hw, read_command]
    exact (cleared_of_drifts hm₁).eq_of_clear hentry
  obtain ⟨hend, -⟩ := cleared_of_serves hrest (by simp)
  rw [command_write] at hend
  exact ⟨hread, hend⟩

/-- **The executions against the controller.** -/
theorem execution_of_serves {s s' : Controller} {t : List (Access Word Word Word)} {b : Bool}
    (hentry : s.command &&& commandReset = 0#32) (hreturns : Returns (reset c) t b)
    (hserves : Serves (controller c) s t s') :
    Execution c s.command t b ∧ s'.command &&& commandRun = 0#32 := by
  obtain ⟨w, statuses, halted, hstatuses, h⟩ := accesses_of_returns hreturns
  cases halted with
  | false =>
      obtain ⟨rfl, rfl⟩ := h
      obtain ⟨rfl, hend⟩ := serves_haltAccesses hentry hserves
      exact ⟨.notHalted hstatuses, by rw [hend, stopped_run]⟩
  | true =>
      obtain ⟨w', commands, hcommands, rfl⟩ := h
      obtain ⟨m, hhalt, hreset⟩ := serves_append _ _ hserves
      obtain ⟨rfl, hm⟩ := serves_haltAccesses hentry hhalt
      have hclear : m.command &&& commandReset = 0#32 := by
        rw [hm]
        exact stopped_and_eq_zero hentry
      obtain ⟨rfl, hend⟩ := serves_resetAccesses hclear hreset
      rw [hm] at hend ⊢
      exact ⟨.issued hstatuses hcommands,
        hend.and_eq_zero (issued_and_eq_zero (stopped_run s.command) (by decide))⟩

end Executions

/-! ## The protocol -/

section Protocol

variable (c : FOTG210)

/-- A write of the command register with the Reset bit. -/
def isResetWrite : Access Word Word Word → Bool
  | .read _ _ => false
  | .write address value =>
      address == c.register commandRegister && value &&& commandReset != 0#32

/-- The accesses after that write. -/
def completion (t : List (Access Word Word Word)) : List (Access Word Word Word) :=
  (t.dropWhile fun x => !isResetWrite c x).tail

/-- The bits of the command a write changes on purpose. -/
def changedBits (value : Word) : Word :=
  if value &&& commandReset = 0#32 then commandRun ||| commandDoorbell else commandReset

/-- The halt-then-reset protocol. -/
structure Protocol (t : List (Access Word Word Word)) : Prop where
  statusReads : (answers (c.register statusRegister) t).length ≤ 10000000
  completionPolls : (answers (c.register commandRegister) (completion c t)).length ≤ 100000000
  interruptsFirst : Each (fun before x => ∀ value, x = .write (c.register commandRegister) value →
    .write (c.register interruptEnable) 0#32 ∈ before) t
  interruptsOff : Each (fun _ x => ∀ value, x = .write (c.register interruptEnable) value →
    value = 0#32) t
  resetOnce : t.countP (isResetWrite c) ≤ 1
  resetHalted : Each (fun before x => isResetWrite c x = true →
    ∃ status ∈ answers (c.register statusRegister) before, status &&& statusHalted ≠ 0#32) t
  resetStopped : Each (fun _ x => ∀ value, x = .write (c.register commandRegister) value →
    value &&& commandReset ≠ 0#32 →
      value &&& commandRun = 0#32 ∧ value &&& commandDoorbell = 0#32) t
  writtenBack : Each (fun before x => ∀ value, x = .write (c.register commandRegister) value →
    ∃ w, (answers (c.register commandRegister) before).getLast? = some w ∧
      value &&& ~~~changedBits value = w &&& ~~~changedBits value) t

variable {c}

section Answers

variable (w : Word) (statuses commands : List Word)

theorem status_haltAccesses :
    answers (c.register statusRegister) (haltAccesses c w statuses) = statuses := by
  rw [haltAccesses, answers_write, answers_read_of_ne _ status_ne.symm, answers_write, answers_map]

theorem command_haltAccesses :
    answers (c.register commandRegister) (haltAccesses c w statuses) = [w] := by
  rw [haltAccesses, answers_write, answers_read, answers_write, answers_map_of_ne _ status_ne]

theorem status_resetAccesses :
    answers (c.register statusRegister) (resetAccesses c w commands) = [] := by
  rw [resetAccesses, answers_read_of_ne _ status_ne.symm, answers_write,
    answers_map_of_ne _ status_ne.symm]

end Answers

section Executions

variable {w : Word} (hentry : w &&& commandReset = 0#32)

/-- The issued command has the Reset bit. -/
theorem issued_ne_zero (v : Word) : (v ||| commandReset) &&& commandReset ≠ 0#32 := by
  intro h
  have hbit := congrArg (fun x => x.getLsbD 1) h
  simp [commandReset] at hbit

include hentry in
theorem isResetWrite_haltAccesses {statuses : List Word} :
    ∀ x ∈ haltAccesses c w statuses, isResetWrite c x = false := by
  intro x hx
  rcases List.mem_cons.mp hx with rfl | hx
  · simp [isResetWrite]
  · rcases List.mem_cons.mp hx with rfl | hx
    · rfl
    · rcases List.mem_cons.mp hx with rfl | hx
      · simp [isResetWrite, stopped_and_eq_zero hentry]
      · obtain ⟨value, -, rfl⟩ := List.mem_map.mp hx
        rfl

include hentry in
theorem completion_haltAccesses {statuses : List Word} :
    completion c (haltAccesses c w statuses) = [] := by
  have hdrop : (haltAccesses c w statuses).dropWhile (fun x => !isResetWrite c x) = [] :=
    List.dropWhile_eq_nil_iff.mpr fun x hx => by rw [isResetWrite_haltAccesses hentry x hx]; rfl
  rw [completion, hdrop]
  rfl

include hentry in
theorem completion_issued {statuses commands : List Word} (v : Word) :
    completion c (haltAccesses c w statuses ++ resetAccesses c v commands) =
      commands.map (.read (c.register commandRegister)) := by
  have hissue :
      isResetWrite c (.write (c.register commandRegister) (v ||| commandReset)) = true := by
    simp [isResetWrite, issued_ne_zero v]
  rw [completion, List.dropWhile_append_of_pos fun x hx => by
    rw [isResetWrite_haltAccesses hentry x hx]; rfl]
  rw [resetAccesses, List.dropWhile_cons_of_pos rfl,
    List.dropWhile_cons_of_neg (by rw [hissue]; decide), List.tail_cons]

/-- What holds of the three writes holds of every access. -/
theorem Execution.each {F : List (Access Word Word Word) → Access Word Word Word → Prop}
    {t : List (Access Word Word Word)} {b : Bool} (h : Execution c w t b)
    (hread : ∀ before r value, F before (.read r value))
    (hdisable : F [] (.write (c.register interruptEnable) 0#32))
    (hstop : F [.write (c.register interruptEnable) 0#32, .read (c.register commandRegister) w]
      (.write (c.register commandRegister) (stopped w)))
    (hissue : ∀ statuses : List Word, (∃ status ∈ statuses, status &&& statusHalted ≠ 0#32) →
      F (haltAccesses c w statuses ++ [.read (c.register commandRegister) (stopped w)])
        (.write (c.register commandRegister) (stopped w ||| commandReset))) : Each F t := by
  have hreads : ∀ (G : List (Access Word Word Word) → Access Word Word Word → Prop) (r : Word)
      (values : List Word), (∀ before value, G before (.read r value)) →
        Each G (values.map (.read r)) := by
    intro G r values hG
    apply each_of_forall
    intro before x hx
    obtain ⟨value, -, rfl⟩ := List.mem_map.mp hx
    exact hG before value
  have hhalt : ∀ statuses, Each F (haltAccesses c w statuses) := fun statuses =>
    each_cons.mpr ⟨hdisable, each_cons.mpr ⟨hread _ _ _, each_cons.mpr ⟨hstop,
      hreads _ _ _ fun _ _ => hread _ _ _⟩⟩⟩
  cases h with
  | notHalted hstatuses => exact hhalt _
  | issued hstatuses hcommands =>
      refine each_append.mpr ⟨hhalt _, each_cons.mpr ⟨hread _ _ _, each_cons.mpr ⟨?_,
        hreads _ _ _ fun _ _ => hread _ _ _⟩⟩⟩
      exact hissue _ (by simpa using hstatuses.passed_iff.mp rfl)

/-- A stopped command differs from the one that was read in the Run bit and the
doorbell. -/
theorem stopped_kept (hentry : w &&& commandReset = 0#32) :
    stopped w &&& ~~~changedBits (stopped w) = w &&& ~~~changedBits (stopped w) := by
  rw [changedBits, if_pos (stopped_and_eq_zero hentry), stopped, BitVec.and_assoc w,
    ← BitVec.not_or, BitVec.and_assoc, BitVec.and_self]

/-- An issued command differs from it in the Reset bit. -/
theorem issued_kept (v : Word) :
    (v ||| commandReset) &&& ~~~changedBits (v ||| commandReset) =
      v &&& ~~~changedBits (v ||| commandReset) := by
  rw [changedBits, if_neg (issued_ne_zero v), BitVec.and_or_distrib_right, BitVec.and_not_self]
  exact BitVec.or_zero

end Executions

namespace Execution

variable {w : Word} {t : List (Access Word Word Word)} {b : Bool} (h : Execution c w t b)
include h

theorem statusReads : (answers (c.register statusRegister) t).length ≤ 10000000 := by
  cases h with
  | notHalted hstatuses =>
      rw [status_haltAccesses]
      exact hstatuses.length_le
  | issued hstatuses hcommands =>
      rw [answers_append, status_haltAccesses, status_resetAccesses, List.append_nil]
      exact hstatuses.length_le

theorem interruptsFirst :
    Each (fun before x => ∀ value, x = .write (c.register commandRegister) value →
      .write (c.register interruptEnable) 0#32 ∈ before) t := by
  refine h.each (fun _ _ _ _ hx => nomatch hx) (fun value hx => ?_)
    (fun _ _ => List.mem_cons_self) fun _ _ _ _ => List.mem_append_left _ List.mem_cons_self
  exact absurd (Access.write.inj hx).1 interruptEnable_ne

theorem interruptsOff :
    Each (fun _ x => ∀ value, x = .write (c.register interruptEnable) value → value = 0#32) t := by
  refine h.each (fun _ _ _ _ hx => nomatch hx) (fun value hx => (Access.write.inj hx).2.symm)
    (fun value hx => ?_) fun _ _ value hx => ?_
  · exact absurd (Access.write.inj hx).1 interruptEnable_ne.symm
  · exact absurd (Access.write.inj hx).1 interruptEnable_ne.symm

variable (hentry : w &&& commandReset = 0#32)
include hentry

theorem completionPolls :
    (answers (c.register commandRegister) (completion c t)).length ≤ 100000000 := by
  cases h with
  | notHalted hstatuses =>
      rw [completion_haltAccesses hentry]
      exact Nat.zero_le _
  | issued hstatuses hcommands =>
      rw [completion_issued hentry, answers_map]
      exact hcommands.length_le

theorem resetOnce : t.countP (isResetWrite c) ≤ 1 := by
  have hhalt : ∀ statuses, (haltAccesses c w statuses).countP (isResetWrite c) = 0 := by
    intro statuses
    rw [List.countP_eq_zero]
    intro x hx
    rw [isResetWrite_haltAccesses hentry x hx]
    exact Bool.false_ne_true
  have hreads : ∀ commands : List Word,
      (commands.map (.read (c.register commandRegister))).countP (isResetWrite c) = 0 := by
    intro commands
    rw [List.countP_eq_zero]
    intro x hx
    obtain ⟨value, -, rfl⟩ := List.mem_map.mp hx
    exact Bool.false_ne_true
  cases h with
  | notHalted hstatuses =>
      rw [hhalt]
      exact Nat.zero_le 1
  | issued hstatuses hcommands =>
      rw [List.countP_append, hhalt, resetAccesses, List.countP_cons, List.countP_cons, hreads,
        if_neg (show isResetWrite c (.read _ (stopped w)) ≠ true from Bool.false_ne_true)]
      split_ifs <;> omega

theorem resetHalted :
    Each (fun before x => isResetWrite c x = true →
      ∃ status ∈ answers (c.register statusRegister) before,
        status &&& statusHalted ≠ 0#32) t := by
  have hnone : ∀ x ∈ haltAccesses c w [], isResetWrite c x ≠ true := fun x hx => by
    rw [isResetWrite_haltAccesses hentry x hx]
    exact Bool.false_ne_true
  refine h.each (fun _ _ _ hx => nomatch hx) (fun hx => ?_) (fun hx => ?_)
    fun statuses hstatuses _ => ?_
  · exact absurd hx (hnone _ List.mem_cons_self)
  · exact absurd hx (hnone _ (by simp [haltAccesses]))
  · rw [answers_append, status_haltAccesses]
    obtain ⟨status, hmem, hhalted⟩ := hstatuses
    exact ⟨status, List.mem_append_left _ hmem, hhalted⟩

theorem resetStopped :
    Each (fun _ x => ∀ value, x = .write (c.register commandRegister) value →
      value &&& commandReset ≠ 0#32 →
        value &&& commandRun = 0#32 ∧ value &&& commandDoorbell = 0#32) t := by
  refine h.each (fun _ _ _ _ hx => nomatch hx) (fun value hx => ?_) (fun value hx hreset => ?_)
    fun _ _ value hx _ => ?_
  · exact absurd (Access.write.inj hx).1 interruptEnable_ne
  · obtain ⟨-, rfl⟩ := Access.write.inj hx
    exact absurd (stopped_and_eq_zero hentry) hreset
  · obtain ⟨-, rfl⟩ := Access.write.inj hx
    exact ⟨issued_and_eq_zero (stopped_run w) (by decide),
      issued_and_eq_zero (stopped_doorbell w) (by decide)⟩

theorem writtenBack :
    Each (fun before x => ∀ value, x = .write (c.register commandRegister) value →
      ∃ w, (answers (c.register commandRegister) before).getLast? = some w ∧
        value &&& ~~~changedBits value = w &&& ~~~changedBits value) t := by
  refine h.each (fun _ _ _ _ hx => nomatch hx) (fun value hx => ?_) (fun value hx => ?_)
    fun statuses _ value hx => ?_
  · exact absurd (Access.write.inj hx).1 interruptEnable_ne
  · obtain ⟨-, rfl⟩ := Access.write.inj hx
    exact ⟨w, by simp, stopped_kept hentry⟩
  · obtain ⟨-, rfl⟩ := Access.write.inj hx
    refine ⟨stopped w, ?_, issued_kept (stopped w)⟩
    rw [answers_append, command_haltAccesses]
    simp

/-- **An execution keeps the protocol.** -/
theorem protocol : Protocol c t :=
  ⟨h.statusReads, h.completionPolls hentry, h.interruptsFirst, h.interruptsOff,
    h.resetOnce hentry, h.resetHalted hentry, h.resetStopped hentry, h.writtenBack hentry⟩

/-- What an execution returns. -/
theorem result : b = true ↔
    (∃ status ∈ answers (c.register statusRegister) t, status &&& statusHalted ≠ 0#32) ∧
      ∃ command ∈ answers (c.register commandRegister) (completion c t),
        command &&& commandReset = 0#32 := by
  cases h with
  | notHalted hstatuses =>
      have hnone := hstatuses.passed_iff
      simp only [bne_iff_ne] at hnone
      rw [status_haltAccesses, hnone, iff_self_and]
      exact fun hcon => absurd (hnone.mpr hcon) Bool.false_ne_true
  | issued hstatuses hcommands =>
      have hhalted := hstatuses.passed_iff.mp rfl
      have hcleared := hcommands.passed_iff
      simp only [bne_iff_ne, beq_iff_eq] at hhalted hcleared
      rw [answers_append, status_haltAccesses, status_resetAccesses, List.append_nil,
        completion_issued hentry, answers_map, hcleared, iff_and_self]
      exact fun _ => hhalted

end Execution

/-! ## Every run -/

/-- What happened first, happened at the first write with the Reset bit. -/
theorem completion_append (t t' : List (Access Word Word Word)) :
    completion c t <+: completion c (t ++ t') := by
  rw [completion, completion, List.dropWhile_append]
  split_ifs with hall
  · rw [List.isEmpty_iff.mp hall]
    exact List.nil_prefix
  · have hne : (t.dropWhile fun x => !isResetWrite c x) ≠ [] := fun hcon =>
      hall (List.isEmpty_iff.mpr hcon)
    rw [List.tail_append_of_ne_nil hne]
    exact List.prefix_append _ t'

/-- What is kept to the end is kept on the way. -/
theorem Protocol.of_append {t t' : List (Access Word Word Word)} (h : Protocol c (t ++ t')) :
    Protocol c t where
  statusReads := by
    have hlen := h.statusReads
    rw [answers_append, List.length_append] at hlen
    omega
  completionPolls := by
    obtain ⟨more, hmore⟩ := completion_append (c := c) t t'
    have hlen := h.completionPolls
    rw [← hmore, answers_append, List.length_append] at hlen
    omega
  interruptsFirst := h.interruptsFirst.of_append
  interruptsOff := h.interruptsOff.of_append
  resetOnce := by
    have hcount := h.resetOnce
    rw [List.countP_append] at hcount
    omega
  resetHalted := h.resetHalted.of_append
  resetStopped := h.resetStopped.of_append
  writtenBack := h.writtenBack.of_append

end Protocol

/-- `Reset` makes so many accesses at most. -/
theorem within_reset (c : FOTG210) : Within 110000005 (reset c) := by
  have hissue : Within 100000002 (do
      let commandReg ← getCommandRegister c
      setCommandRegister c (commandReg ||| commandReset)
      waitForReset c) := fun _ => within_poll (k := 99999999) rfl
  have hloop : Within (10000000 + 100000002) (do
      if ← waitForHalt c then
        let commandReg ← getCommandRegister c
        setCommandRegister c (commandReg ||| commandReset)
        waitForReset c
      else
        return false) := by
    refine within_bind (fun halted => ?_) (within_poll (k := 9999999) rfl)
    cases halted with
    | false => exact within_done 100000002 false
    | true => exact hissue
  exact fun _ => hloop

/-- A run of `Reset` that starts with the controller in the state `s`. -/
structure HaltsThenResets (c : FOTG210) (s : Controller) (actions : List (Action Change)) :
    Prop where
  terminates : 110000005 ≤ accesses actions →
    ∃ b, (run (step (controller c)) ⟨s, reset c⟩ actions).prog = .done b
  protocol : Protocol c (trace (controller c) ⟨s, reset c⟩ actions)
  result : ∀ b, (run (step (controller c)) ⟨s, reset c⟩ actions).prog = .done b → (b = true ↔
    (∃ status ∈ answers (c.register statusRegister) (trace (controller c) ⟨s, reset c⟩ actions),
        status &&& statusHalted ≠ 0#32) ∧
      ∃ command ∈ answers (c.register commandRegister)
          (completion c (trace (controller c) ⟨s, reset c⟩ actions)),
        command &&& commandReset = 0#32)
  stopped : (run (step (controller c)) ⟨s, reset c⟩ actions).prog = .done false →
    (run (step (controller c)) ⟨s, reset c⟩ actions).state.command &&& commandRun = 0#32

/-- A run that has ended. -/
theorem execution_of_run {c : FOTG210} {s : Controller} (hentry : s.command &&& commandReset = 0#32)
    {actions : List (Action Change)} {b : Bool}
    (hdone : (run (step (controller c)) ⟨s, reset c⟩ actions).prog = .done b) :
    Execution c s.command (trace (controller c) ⟨s, reset c⟩ actions) b ∧
      (run (step (controller c)) ⟨s, reset c⟩ actions).state.command &&& commandRun = 0#32 :=
  execution_of_serves hentry (returns_run (c := ⟨s, reset c⟩) actions hdone)
    (serves_run actions ⟨s, reset c⟩)

/-- **Halt, then reset.**  Whatever the controller does, `Reset` comes to its end, keeps
the protocol all the way, and returns what it has seen. -/
theorem haltsThenResets (c : FOTG210) {s : Controller}
    (hentry : s.command &&& commandReset = 0#32) (actions : List (Action Change)) :
    HaltsThenResets c s actions where
  terminates hcount := (within_reset c).run_done (controller c) actions hcount
  protocol := by
    -- the run goes on to its end, and keeps the protocol to there
    obtain ⟨more, b, hdone⟩ := run_completes (controller c) (reset c) s actions
    have hwhole := (execution_of_run hentry hdone).1.protocol hentry
    rw [trace_append] at hwhole
    exact hwhole.of_append
  result b hdone := (execution_of_run hentry hdone).1.result hentry
  stopped hdone := (execution_of_run hentry hdone).2

/-- The top controller. -/
def topController : FOTG210 := ⟨0xB0000000#32, 0x10#8⟩

/-- A run in which it halts and clears the Reset bit at once. -/
def promptRun : List (Action Change) :=
  [ .access, .access, .access, .env (.others fun _ => statusHalted), .access, .access, .access
  , .env .clearReset, .access ]

theorem haltsThenResets_prompt :
    (run (step (controller topController)) ⟨⟨0x00080B41#32, fun _ => 0#32⟩, reset topController⟩
        promptRun).prog = .done true ∧
      HaltsThenResets topController ⟨0x00080B41#32, fun _ => 0#32⟩ promptRun := by
  refine ⟨?_, haltsThenResets topController (by decide) promptRun⟩
  unfold reset waitForHalt waitForReset
  rw [poll_eq (topController.register statusRegister),
    poll_eq (topController.register commandRegister)]
  rfl

end NspireUtils.Ports.USBReset
