import NspireUtils.Ports.PL190

/-!
# Editing sessions of the interrupt controller

The methods of `PL190VIC_Editor`, and a session: the constructor saves the state,
any calls follow, the destructor restores it.  `session_lossless` is the theorem
about all sessions and all interleavings with the raw interrupt lines, and
`restore_atomic` the one about the states in the middle of a restore.
-/

namespace NspireUtils.Ports.PL190Editor

open NspireUtils.Verified.Runs
open NspireUtils.Verified.DeviceIO
open NspireUtils.Ports.PL190

/-- `enum class PL190InterruptType`. -/
inductive InterruptType where
  | irq
  | fiq
  deriving Repr, DecidableEq

/-- `1 << interruptNumber`. -/
def bitOf (interruptNumber : Fin 32) : Word := 1#32 <<< interruptNumber.val

/-- `(status & (1 << interruptNumber)) != 0`. -/
def hasBit (status : Word) (interruptNumber : Fin 32) : Bool :=
  status &&& bitOf interruptNumber ≠ 0#32

/-! ## The methods -/

def getCurrentState : Driver PL190State := savePL190State
def setState (state : PL190State) : Driver Unit := restorePL190State state

/-- `PL190VIC_Editor::clear`: the record is `{}`. -/
def clear : Driver Unit :=
  restorePL190State
    { intSelect := 0, intEnable := 0, softwareInt := 0, protection := 0, defaultVectAddr := 0
      vectAddr := fun _ => 0, vectControl := fun _ => 0 }

def getIRQStatus : Driver Word := read .irqStatus
def getFIQStatus : Driver Word := read .fiqStatus
def getRawInterruptStatus : Driver Word := read .rawInterruptStatus
def setInterruptTypes (bitmask : Word) : Driver Unit := write .interruptSelect bitmask
def getInterruptTypes : Driver Word := read .interruptSelect
def enableInterrupts (bitmask : Word) : Driver Unit := write .interruptEnable bitmask
def disableInterrupts (bitmask : Word) : Driver Unit := write .interruptEnableClear bitmask
def getEnabledInterrupts : Driver Word := read .interruptEnable
def setSoftwareInterrupts (bitmask : Word) : Driver Unit := write .softwareInt bitmask
def clearSoftwareInterrupts (bitmask : Word) : Driver Unit := write .softwareIntClear bitmask
def getSoftwareInterrupts : Driver Word := read .softwareInt

/-- `PL190VIC_Editor::setInterruptType`, a read and a write of the same register. -/
def setInterruptType (interruptNumber : Fin 32) (type : InterruptType) : Driver Unit := do
  let current ← getInterruptTypes
  match type with
  | .fiq => setInterruptTypes (current ||| bitOf interruptNumber)
  | .irq => setInterruptTypes (current &&& ~~~bitOf interruptNumber)

def getInterruptType (interruptNumber : Fin 32) : Driver InterruptType := do
  let current ← getInterruptTypes
  return if hasBit current interruptNumber then .fiq else .irq

def enableInterrupt (interruptNumber : Fin 32) : Driver Unit :=
  enableInterrupts (bitOf interruptNumber)
def disableInterrupt (interruptNumber : Fin 32) : Driver Unit :=
  disableInterrupts (bitOf interruptNumber)
def setSoftwareInterrupt (interruptNumber : Fin 32) : Driver Unit :=
  setSoftwareInterrupts (bitOf interruptNumber)
def clearSoftwareInterrupt (interruptNumber : Fin 32) : Driver Unit :=
  clearSoftwareInterrupts (bitOf interruptNumber)

/-- The getters of a single interrupt: a status word and one of its bits. -/
def getBit (status : Driver Word) (interruptNumber : Fin 32) : Driver Bool := do
  let current ← status
  return hasBit current interruptNumber

def getIRQStatusOf (interruptNumber : Fin 32) : Driver Bool := getBit getIRQStatus interruptNumber
def getFIQStatusOf (interruptNumber : Fin 32) : Driver Bool := getBit getFIQStatus interruptNumber
def getRawInterruptStatusOf (interruptNumber : Fin 32) : Driver Bool :=
  getBit getRawInterruptStatus interruptNumber
def isInterruptEnabled (interruptNumber : Fin 32) : Driver Bool :=
  getBit getEnabledInterrupts interruptNumber
def getSoftwareInterrupt (interruptNumber : Fin 32) : Driver Bool :=
  getBit getSoftwareInterrupts interruptNumber

def setProtection (protect : Bool) : Driver Unit :=
  if protect then write .protection 1#32 else write .protection 0#32

def isProtected : Driver Bool := do
  let current ← read .protection
  return current &&& 1#32 ≠ 0#32

def setDefaultVectorAddress (address : Word) : Driver Unit := write .defaultVectAddr address
def getDefaultVectorAddress : Driver Word := read .defaultVectAddr
def setVectorAddress (index : Fin 16) (address : Word) : Driver Unit :=
  write (.vectAddrTable index) address
def getVectorAddress (index : Fin 16) : Driver Word := read (.vectAddrTable index)
def setVectorControl (index : Fin 16) (control : Word) : Driver Unit :=
  write (.vectControlTable index) control
def getVectorControl (index : Fin 16) : Driver Word := read (.vectControlTable index)

/-- A call of a method. -/
inductive Call where
  | getCurrentState
  | setState (state : PL190State)
  | clear
  | getIRQStatus
  | getFIQStatus
  | getRawInterruptStatus
  | setInterruptTypes (bitmask : Word)
  | getInterruptTypes
  | enableInterrupts (bitmask : Word)
  | disableInterrupts (bitmask : Word)
  | getEnabledInterrupts
  | setSoftwareInterrupts (bitmask : Word)
  | clearSoftwareInterrupts (bitmask : Word)
  | getSoftwareInterrupts
  | setInterruptType (interruptNumber : Fin 32) (type : InterruptType)
  | getInterruptType (interruptNumber : Fin 32)
  | enableInterrupt (interruptNumber : Fin 32)
  | disableInterrupt (interruptNumber : Fin 32)
  | setSoftwareInterrupt (interruptNumber : Fin 32)
  | clearSoftwareInterrupt (interruptNumber : Fin 32)
  | getIRQStatusOf (interruptNumber : Fin 32)
  | getFIQStatusOf (interruptNumber : Fin 32)
  | getRawInterruptStatusOf (interruptNumber : Fin 32)
  | isInterruptEnabled (interruptNumber : Fin 32)
  | getSoftwareInterrupt (interruptNumber : Fin 32)
  | setProtection (protect : Bool)
  | isProtected
  | setDefaultVectorAddress (address : Word)
  | getDefaultVectorAddress
  | setVectorAddress (index : Fin 16) (address : Word)
  | getVectorAddress (index : Fin 16)
  | setVectorControl (index : Fin 16) (control : Word)
  | getVectorControl (index : Fin 16)

/-- The call, its result dropped. -/
def Call.perform : Call → Driver Unit
  | getCurrentState => do let _ ← PL190Editor.getCurrentState
  | setState state => PL190Editor.setState state
  | clear => PL190Editor.clear
  | getIRQStatus => do let _ ← PL190Editor.getIRQStatus
  | getFIQStatus => do let _ ← PL190Editor.getFIQStatus
  | getRawInterruptStatus => do let _ ← PL190Editor.getRawInterruptStatus
  | setInterruptTypes bitmask => PL190Editor.setInterruptTypes bitmask
  | getInterruptTypes => do let _ ← PL190Editor.getInterruptTypes
  | enableInterrupts bitmask => PL190Editor.enableInterrupts bitmask
  | disableInterrupts bitmask => PL190Editor.disableInterrupts bitmask
  | getEnabledInterrupts => do let _ ← PL190Editor.getEnabledInterrupts
  | setSoftwareInterrupts bitmask => PL190Editor.setSoftwareInterrupts bitmask
  | clearSoftwareInterrupts bitmask => PL190Editor.clearSoftwareInterrupts bitmask
  | getSoftwareInterrupts => do let _ ← PL190Editor.getSoftwareInterrupts
  | setInterruptType n type => PL190Editor.setInterruptType n type
  | getInterruptType n => do let _ ← PL190Editor.getInterruptType n
  | enableInterrupt n => PL190Editor.enableInterrupt n
  | disableInterrupt n => PL190Editor.disableInterrupt n
  | setSoftwareInterrupt n => PL190Editor.setSoftwareInterrupt n
  | clearSoftwareInterrupt n => PL190Editor.clearSoftwareInterrupt n
  | getIRQStatusOf n => do let _ ← PL190Editor.getIRQStatusOf n
  | getFIQStatusOf n => do let _ ← PL190Editor.getFIQStatusOf n
  | getRawInterruptStatusOf n => do let _ ← PL190Editor.getRawInterruptStatusOf n
  | isInterruptEnabled n => do let _ ← PL190Editor.isInterruptEnabled n
  | getSoftwareInterrupt n => do let _ ← PL190Editor.getSoftwareInterrupt n
  | setProtection protect => PL190Editor.setProtection protect
  | isProtected => do let _ ← PL190Editor.isProtected
  | setDefaultVectorAddress address => PL190Editor.setDefaultVectorAddress address
  | getDefaultVectorAddress => do let _ ← PL190Editor.getDefaultVectorAddress
  | setVectorAddress index address => PL190Editor.setVectorAddress index address
  | getVectorAddress index => do let _ ← PL190Editor.getVectorAddress index
  | setVectorControl index control => PL190Editor.setVectorControl index control
  | getVectorControl index => do let _ ← PL190Editor.getVectorControl index

/-! ## Sessions -/

/-- The calls between constructor and destructor. -/
def performAll : List Call → Driver Unit
  | [] => pure ()
  | call :: rest => do
      call.perform
      performAll rest

/-- The life of a `PL190VIC_Editor`. -/
def session (calls : List Call) : Driver Unit := do
  let oldState ← savePL190State
  performAll calls
  restorePL190State oldState

/-- A program after which anything may be in the registers comes to its end. -/
theorem ensures_true {α : Type} (p : Driver α) : ∀ k, Ensures shadow p (fun _ _ => True) k := by
  induction p with
  | done a => intro k; trivial
  | read r next ih => intro k b _; exact ih b k
  | write w value next ih => intro k; exact ih _

/-- Whatever the calls did, the destructor loads the registers of before. -/
theorem ensures_session (calls : List Call) (k : Registers) :
    Ensures shadow (session calls) (fun _ k' => k' = k) k := by
  rw [session, ensures_bind]
  apply (ensures_save k).mono shadow
  rintro oldState k' ⟨rfl, rfl⟩
  rw [ensures_bind]
  refine (ensures_true (performAll calls) _).mono shadow fun _ k'' _ => ?_
  refine (ensures_restore k'.save k'').mono shadow fun _ k''' hloaded => ?_
  rw [hloaded, load_save]

/-- **Saving and restoring is lossless.**  Saving after a restore returns the
record, if its reserved bits are zero, and a session of any calls leaves the
registers as they were; the raw interrupt lines may change before and after every
access.  Every run comes to its end. -/
theorem session_lossless (d : Vic) :
    (∀ (s : PL190State) (actions : List (Action Word)), s.Reserved →
      let p := restorePL190State s >>= fun _ => savePL190State
      (∃ more saved, (run (step vicDevice) ⟨d, p⟩ (actions ++ more)).prog = .done saved) ∧
      ∀ saved, (run (step vicDevice) ⟨d, p⟩ actions).prog = .done saved → saved = s) ∧
    ∀ (calls : List Call) (actions : List (Action Word)),
      (∃ more, (run (step vicDevice) ⟨d, session calls⟩ (actions ++ more)).prog = .done ()) ∧
      ((run (step vicDevice) ⟨d, session calls⟩ actions).prog = .done () →
        (run (step vicDevice) ⟨d, session calls⟩ actions).state.registers = d.registers) := by
  refine ⟨fun s actions hreserved => ⟨run_completes vicDevice _ d actions, fun saved hdone => ?_⟩,
    fun calls actions => ⟨?_, fun hdone => ?_⟩⟩
  · have hensures : Ensures shadow (restorePL190State s >>= fun _ => savePL190State)
        (fun saved _ => saved = s) d.registers := by
      rw [ensures_bind]
      refine (ensures_restore s _).mono shadow fun _ k hloaded => ?_
      apply (ensures_save k).mono shadow
      rintro saved - ⟨-, rfl⟩
      rw [hloaded, save_load hreserved]
    exact hensures.run shadow actions hdone
  · obtain ⟨more, _, hdone⟩ := run_completes vicDevice (session calls) d actions
    exact ⟨more, hdone⟩
  · exact (ensures_session calls d.registers).run shadow actions hdone

/-- A controller with a pending keypad interrupt on slot 0. -/
def keypadVic : Vic where
  registers :=
    { interruptSelect := 0, interruptEnable := 0x00010000, softwareInt := 0, protection := 0
      defaultVectAddr := 0x20, vectAddrTable := fun _ => 0x1000
      vectControlTable := fun i => if i = 0 then 0x30 else 0 }
  lines := 0x00010000

/-- A round trip of the controller's own record, and a session that clears
everything and triggers an interrupt while the lines change. -/
theorem session_lossless_keypad :
    (∃ actions, (run (step vicDevice) ⟨keypadVic,
      restorePL190State keypadVic.registers.save >>= fun _ => savePL190State⟩ actions).prog =
        .done keypadVic.registers.save) ∧
    ∃ actions, (run (step vicDevice) ⟨keypadVic, session [.clear, .setSoftwareInterrupt 31]⟩
      (.env 0x00000001 :: actions)).state.registers = keypadVic.registers := by
  obtain ⟨htrip, hsession⟩ := session_lossless keypadVic
  refine ⟨?_, ?_⟩
  · obtain ⟨⟨more, saved, hdone⟩, -⟩ := htrip keypadVic.registers.save [] ⟨by decide, by decide⟩
    have hsaved :=
      (htrip keypadVic.registers.save ([] ++ more) ⟨by decide, by decide⟩).2 saved hdone
    exact ⟨_, hsaved ▸ hdone⟩
  · obtain ⟨more, hdone⟩ := (hsession [.clear, .setSoftwareInterrupt 31] [.env 0x00000001]).1
    exact ⟨more, (hsession _ _).2 hdone⟩

/-! ## In the middle of a restore -/

/-- A write after which no source is enabled, if none was before. -/
def KeepsDisabled : WriteRegister → Prop
  | .interruptEnable => False
  | _ => True

theorem writes_disabled (ws : List (WriteRegister × Word)) (hws : ∀ w ∈ ws, KeepsDisabled w.1) :
    ∀ k : Registers, k.interruptEnable = 0#32 → (writes shadow k ws).interruptEnable = 0#32 := by
  induction ws with
  | nil => intro k h; exact h
  | cons w rest ih =>
      intro k h
      obtain ⟨register, value⟩ := w
      refine ih (fun w hw => hws w (List.mem_cons_of_mem _ hw)) _ ?_
      have hkeeps : KeepsDisabled register := hws _ List.mem_cons_self
      cases register with
      | interruptEnable => exact hkeeps.elim
      | interruptEnableClear => simp [shadow, Registers.write, h]
      | _ => exact h

/-- All but the first and the last write of a restore. -/
def middleWrites (state : PL190State) : List (WriteRegister × Word) :=
  [ (.softwareIntClear, 0xFFFFFFFF#32)
  , (.vectAddr, 0#32)
  , (.interruptSelect, state.intSelect)
  , (.protection, state.protection)
  , (.defaultVectAddr, state.defaultVectAddr) ] ++
  ((List.finRange 16).flatMap fun i =>
    [(.vectAddrTable i, state.vectAddr i), (.vectControlTable i, state.vectControl i)]) ++
  [(.softwareInt, state.softwareInt)]

theorem restoreWrites_eq (state : PL190State) :
    restoreWrites state = (.interruptEnableClear, 0xFFFFFFFF#32) ::
      (middleWrites state ++ [(.interruptEnable, state.intEnable)]) := by
  simp [restoreWrites, middleWrites]

theorem middleWrites_disabled (state : PL190State) :
    ∀ w ∈ middleWrites state, KeepsDisabled w.1 := by
  intro w hw
  simp only [middleWrites, List.mem_append, List.mem_flatMap, List.mem_cons, List.not_mem_nil,
    or_false] at hw
  rcases hw with ((rfl | rfl | rfl | rfl | rfl) | ⟨i, -, rfl | rfl⟩) | rfl <;> trivial

/-- After the first write and before the last no source is enabled. -/
theorem restore_disabled (state : PL190State) (k : Registers) {n : Nat} (hfirst : n ≠ 0)
    (hlast : n < (restoreWrites state).length) :
    (writes shadow k ((restoreWrites state).take n)).interruptEnable = 0#32 := by
  obtain ⟨m, rfl⟩ := Nat.exists_eq_succ_of_ne_zero hfirst
  rw [restoreWrites_eq] at hlast ⊢
  rw [List.take_succ_cons, List.take_append_of_le_length (by simp at hlast; omega), writes_cons]
  refine writes_disabled _
    (fun w hw => middleWrites_disabled state w (List.mem_of_mem_take hw)) _ ?_
  simp [shadow, Registers.write]

theorem writeAll_done {ws : List (WriteRegister × Word)}
    (h : (writeAll ws : Driver Unit) = .done ()) : ws = [] := by
  cases ws with
  | nil => rfl
  | cons w rest => simp [writeAll] at h

/-- **A restore is atomic.**  Before its first write the registers are the old
ones, after its last they hold the record, and in between no source is enabled:
neither `IRQStatus` nor `FIQStatus` shows anything, however the raw interrupt
lines change. -/
theorem restore_atomic (d : Vic) (s : PL190State) (actions : List (Action Word)) :
    let c := run (step vicDevice) ⟨d, restorePL190State s⟩ actions
    (Action.access ∉ actions → c.state.registers = d.registers) ∧
    (Action.access ∈ actions → c.prog ≠ .done () →
      c.state.irqStatus = 0#32 ∧ c.state.fiqStatus = 0#32) ∧
    (c.prog = .done () → c.state.registers = s.load) := by
  intro c
  obtain ⟨n, hn, hprog, hview⟩ := run_writeAll shadow (restoreWrites s) d actions
  have hne : restoreWrites s ≠ [] := by simp [restoreWrites]
  have hcprog : c.prog = writeAll ((restoreWrites s).drop n) := hprog
  have hregisters : c.state.registers =
      writes shadow d.registers ((restoreWrites s).take n) := hview
  refine ⟨fun hnone => ?_, fun haccess hrunning => ?_, fun hdone => ?_⟩
  · rw [hregisters, hn.mpr (.inl hnone)]
    rfl
  · have hfirst : n ≠ 0 := fun h => (hn.mp h).elim (· haccess) hne
    have hlast : n < (restoreWrites s).length := by
      by_contra hcon
      rw [hcprog, List.drop_eq_nil_of_le (Nat.le_of_not_lt hcon)] at hrunning
      exact hrunning rfl
    have hdisabled := restore_disabled s d.registers hfirst hlast
    rw [← hregisters] at hdisabled
    simp [Vic.irqStatus, Vic.fiqStatus, hdisabled]
  · rw [hcprog] at hdone
    have hlast : (restoreWrites s).length ≤ n := List.drop_eq_nil_iff.mp (writeAll_done hdone)
    rw [hregisters, List.take_of_length_le hlast, writes_restore]

/-- The keypad's line is up, but after the first write nothing shows. -/
theorem restore_atomic_keypad :
    let c := run (step vicDevice) ⟨keypadVic, restorePL190State keypadVic.registers.save⟩
      [.env 0xFFFFFFFF, .access, .env 0x00010000]
    c.state.irqStatus = 0#32 ∧ c.state.fiqStatus = 0#32 :=
  (restore_atomic keypadVic keypadVic.registers.save
    [.env 0xFFFFFFFF, .access, .env 0x00010000]).2.1 (by simp) (by simp [run, step,
      restorePL190State, restoreWrites, writeAll])

end NspireUtils.Ports.PL190Editor
