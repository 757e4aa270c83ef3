import NspireUtils.Verified.DeviceIO

/-!
# The watchdog and its lock

`Watchdog_Device` of `devices/Watchdog.hpp`, on an SP805.  The lock register of
the device decides whether the other registers can be written: the key opens
them, any other value closes them, and it reads as one while they are closed.  A
write to a closed register vanishes without an error.

The counter runs of its own while the control register enables it; no call waits
for it.
-/

namespace NspireUtils.Ports.Watchdog

open NspireUtils.Verified.Runs
open NspireUtils.Verified.DeviceIO

abbrev Word := BitVec 32

/-! ## The device -/

/-- The registers that are read. -/
inductive ReadRegister where
  | load
  | value
  | control
  | rawIntStat
  | maskedIntStat
  | lock
  deriving Repr, DecidableEq

/-- The registers that are written. -/
inductive WriteRegister where
  | load
  | control
  | intClear
  | lock
  deriving Repr, DecidableEq

/-- `Watchdog_*`: where a register is read. -/
def ReadRegister.offset : ReadRegister → Nat
  | load => 0x00
  | value => 0x04
  | control => 0x08
  | rawIntStat => 0x10
  | maskedIntStat => 0x14
  | lock => 0xC00

/-- `Watchdog_*`: where a register is written. -/
def WriteRegister.offset : WriteRegister → Nat
  | load => 0x00
  | control => 0x08
  | intClear => 0x0C
  | lock => 0xC00

/-- No two registers are written at one address. -/
theorem WriteRegister.offset_injective : Function.Injective WriteRegister.offset := by
  intro a b h
  cases a <;> cases b <;> first | rfl | exact absurd h (by decide)

/-- `Watchdog_Lock_Key`. -/
def lockKey : Word := 0x1ACCE551#32

/-- The state of the device. -/
structure Registers where
  load : Word
  value : Word
  control : BitVec 2
  rawInterrupt : Bool
  resetOutput : Bool
  locked : Bool
  deriving Repr, DecidableEq

namespace Registers

/-- `WatchdogControl_Enable`: counter and interrupt are enabled. -/
def enabled (d : Registers) : Bool := d.control.getLsbD 0

/-- `WatchdogControl_EnableResetBit`. -/
def resetEnabled (d : Registers) : Bool := d.control.getLsbD 1

/-- A read. -/
def read (d : Registers) : ReadRegister → Word
  | .load => d.load
  | .value => d.value
  | .control => d.control.setWidth 32
  | .rawIntStat => (BitVec.ofBool d.rawInterrupt).setWidth 32
  | .maskedIntStat => (BitVec.ofBool (d.rawInterrupt && d.enabled)).setWidth 32
  | .lock => (BitVec.ofBool d.locked).setWidth 32

/-- A write that is let through.  The counter starts anew when it is loaded, when it is
enabled and when the interrupt is cleared. -/
def accept (d : Registers) : WriteRegister → Word → Registers
  | .load, value => { d with load := value, value }
  | .control, value =>
      { d with
        control := value.setWidth 2
        value := if value.getLsbD 0 && !d.enabled then d.load else d.value }
  | .intClear, _ => { d with rawInterrupt := false, value := d.load }
  | .lock, value => { d with locked := value != lockKey }

/-- A write. -/
def write (d : Registers) (w : WriteRegister) (value : Word) : Registers :=
  if d.locked && w != .lock then d else d.accept w value

/-- A tick of the counter.  At zero it raises the interrupt and starts anew, and if the
interrupt is still up the reset output follows. -/
def tick (d : Registers) : Registers :=
  if d.enabled then
    if d.value = 0#32 then
      { d with
        value := d.load
        rawInterrupt := true
        resetOutput := d.resetOutput || (d.rawInterrupt && d.resetEnabled) }
    else { d with value := d.value - 1#32 }
  else d

theorem write_of_locked {d : Registers} (h : d.locked = true) {w : WriteRegister} (v : Word)
    (hw : w ≠ .lock) : d.write w v = d := by
  rw [write, if_pos (by simp [h, hw])]

theorem write_of_unlocked {d : Registers} (h : d.locked = false) (w : WriteRegister) (v : Word) :
    d.write w v = d.accept w v := by
  rw [write, if_neg (by simp [h])]

theorem locked_write_lock (d : Registers) (v : Word) :
    (d.write .lock v).locked = (v != lockKey) := by
  rw [write, if_neg (by simp)]
  rfl

theorem locked_write (d : Registers) {w : WriteRegister} (v : Word) (hw : w ≠ .lock) :
    (d.write w v).locked = d.locked := by
  cases hlocked : d.locked with
  | true => rw [write_of_locked hlocked v hw, hlocked]
  | false =>
      rw [write_of_unlocked hlocked]
      cases w with
      | lock => exact absurd rfl hw
      | load | control | intClear => exact hlocked

theorem locked_tick (d : Registers) : d.tick.locked = d.locked := by
  unfold tick
  split_ifs <;> rfl

end Registers

/-- The watchdog as a device; of its own it ticks. -/
def watchdog : Device Registers ReadRegister WriteRegister Word Unit where
  read := Registers.read
  write := Registers.write
  env d _ := d.tick

/-! ## `class Watchdog_Device` -/

/-- A program on the watchdog. -/
abbrev Driver := Prog ReadRegister WriteRegister Word

namespace WatchdogDevice

/-- `Load`. -/
def load (value : Word) : Driver Unit := write .load value

/-- `LoadedValue`. -/
def loadedValue : Driver Word := read .load

/-- `Value`. -/
def value : Driver Word := read .value

/-- `setControl`. -/
def setControl (controlBits : Word) : Driver Unit := write .control controlBits

/-- `getControl`. -/
def getControl : Driver Word := read .control

/-- `clearInterrupt`. -/
def clearInterrupt : Driver Unit := write .intClear 1#32

/-- `rawInterruptStatus`. -/
def rawInterruptStatus : Driver Bool := do
  let status ← read .rawIntStat
  return status != 0#32

/-- `maskedInterruptStatus`. -/
def maskedInterruptStatus : Driver Bool := do
  let status ← read .maskedIntStat
  return status != 0#32

/-- `lock`. -/
def lock : Driver Unit := write .lock lockKey

/-- `unlock`. -/
def unlock : Driver Unit := write .lock 0#32

/-- `isLocked`. -/
def isLocked : Driver Bool := do
  let status ← read .lock
  return status != 0#32

end WatchdogDevice

/-- A call. -/
inductive Call where
  | load (value : Word)
  | loadedValue
  | value
  | setControl (controlBits : Word)
  | getControl
  | clearInterrupt
  | rawInterruptStatus
  | maskedInterruptStatus
  | lock
  | unlock
  | isLocked
  deriving Repr, DecidableEq

/-- The device after a call.  Every call is one access. -/
def Call.after (d : Registers) : Call → Registers
  | .load v => finish watchdog (WatchdogDevice.load v) d
  | .loadedValue => finish watchdog WatchdogDevice.loadedValue d
  | .value => finish watchdog WatchdogDevice.value d
  | .setControl controlBits => finish watchdog (WatchdogDevice.setControl controlBits) d
  | .getControl => finish watchdog WatchdogDevice.getControl d
  | .clearInterrupt => finish watchdog WatchdogDevice.clearInterrupt d
  | .rawInterruptStatus => finish watchdog WatchdogDevice.rawInterruptStatus d
  | .maskedInterruptStatus => finish watchdog WatchdogDevice.maskedInterruptStatus d
  | .lock => finish watchdog WatchdogDevice.lock d
  | .unlock => finish watchdog WatchdogDevice.unlock d
  | .isLocked => finish watchdog WatchdogDevice.isLocked d

/-- What happens to the device. -/
inductive Event where
  | call (c : Call)
  | tick
  deriving Repr, DecidableEq

/-- The device after it. -/
def step (d : Registers) : Event → Registers
  | .call c => c.after d
  | .tick => d.tick

/-! ## The lock -/

/-- A call of `lock` or `unlock`. -/
def MovesLock (e : Event) (_ : Unit) : Prop := e = .call .lock ∨ e = .call .unlock

instance (e : Event) (i : Unit) : Decidable (MovesLock e i) := by
  unfold MovesLock
  infer_instance

/-- The last of these. -/
def lastLock (history : List Event) : Option Event := lastCovering MovesLock history ()

/-- The calls that write what the lock should protect. -/
def Call.Configures : Call → Prop
  | .load _ | .setControl _ | .clearInterrupt => True
  | _ => False

/-- What such a call is for, as the other calls show it. -/
def Call.TakesEffect (d : Registers) : Call → Prop
  | .load v => result watchdog WatchdogDevice.loadedValue ((Call.load v).after d) = v
  | .setControl controlBits =>
      result watchdog WatchdogDevice.getControl ((Call.setControl controlBits).after d) =
        controlBits &&& 0b11#32
  | .clearInterrupt =>
      result watchdog WatchdogDevice.rawInterruptStatus (Call.clearInterrupt.after d) = false
  | _ => True

/-- What the lock should do for a device with this history. -/
structure Protected (history : List Event) (d : Registers) : Prop where
  locked : lastLock history = some (.call .lock) →
    result watchdog WatchdogDevice.isLocked d = true ∧
      ∀ c : Call, c.Configures → c.after d = d
  unlocked : lastLock history = some (.call .unlock) →
    result watchdog WatchdogDevice.isLocked d = false ∧
      ∀ c : Call, c.Configures → c.TakesEffect d

/-- It does so all along a run. -/
def Protects (d : Registers) (events : List Event) : Prop :=
  ∀ history, history <+: events → Protected history (run step d history)

/-- `isLocked` tells the state of the lock. -/
theorem result_isLocked (d : Registers) :
    result watchdog WatchdogDevice.isLocked d = d.locked := by
  show ((BitVec.ofBool d.locked).setWidth 32 != 0#32) = d.locked
  cases d.locked <;> rfl

/-- A locked device takes nothing. -/
theorem after_of_locked {d : Registers} (h : d.locked = true) {c : Call} (hc : c.Configures) :
    c.after d = d := by
  cases c with
  | load v => exact Registers.write_of_locked h v (by decide)
  | setControl controlBits => exact Registers.write_of_locked h controlBits (by decide)
  | clearInterrupt => exact Registers.write_of_locked h 1#32 (by decide)
  | _ => exact absurd hc id

/-- The control register is two bits wide. -/
theorem setWidth_control (v : Word) : (v.setWidth 2).setWidth 32 = v &&& 0b11#32 := by
  apply BitVec.eq_of_toNat_eq
  have hmask : (v &&& 0b11#32).toNat = v.toNat % 2 ^ 2 := by
    rw [BitVec.toNat_and]
    exact Nat.and_two_pow_sub_one_eq_mod v.toNat 2
  rw [hmask, BitVec.toNat_setWidth, BitVec.toNat_setWidth]
  omega

/-- An unlocked device takes what it is given. -/
theorem takesEffect_of_unlocked {d : Registers} (h : d.locked = false) {c : Call}
    (hc : c.Configures) : c.TakesEffect d := by
  have hwrite := Registers.write_of_unlocked h
  cases c with
  | load v => exact congrArg Registers.load (hwrite .load v)
  | setControl controlBits =>
      have hcontrol := congrArg Registers.control (hwrite .control controlBits)
      exact (congrArg (BitVec.setWidth 32) hcontrol).trans (setWidth_control controlBits)
  | clearInterrupt =>
      show ((d.write .intClear 1#32).read .rawIntStat != 0#32) = false
      rw [hwrite]
      rfl
  | _ => exact absurd hc id

/-- `lock` opens the device and `unlock` closes it; nothing else moves the lock. -/
theorem locked_step (d : Registers) (e : Event) :
    (step d e).locked = if MovesLock e () then decide (e = .call .unlock) else d.locked := by
  cases e with
  | tick => exact d.locked_tick
  | call c =>
      cases c with
      | lock => exact d.locked_write_lock lockKey
      | unlock => exact d.locked_write_lock 0#32
      | load v => exact d.locked_write v (by decide)
      | setControl controlBits => exact d.locked_write controlBits (by decide)
      | clearInterrupt => exact d.locked_write 1#32 (by decide)
      | _ => rfl

/-- The lock after a run. -/
theorem locked_run (d : Registers) (events : List Event) :
    (run step d events).locked =
      ((lastLock events).map fun e => decide (e = .call .unlock)).getD d.locked := by
  have hinv : ∀ (d : Registers) (_ : Event), True → True → True := fun _ _ _ _ => trivial
  exact observe_run step (fun _ _ => True) MovesLock (fun d _ => d.locked)
    (fun e _ => decide (e = .call .unlock)) hinv (fun d e _ _ _ => locked_step d e) events d ()
    ((allowed_const step (fun _ => True) events d).mpr fun _ _ => trivial) trivial

/-- **The lock works the other way round.**  After `lock` the device is open, after
`unlock` it is closed. -/
theorem protected_exchanged (d : Registers) (history : List Event) :
    (lastLock history = some (.call .lock) →
      result watchdog WatchdogDevice.isLocked (run step d history) = false ∧
        ∀ c : Call, c.Configures → c.TakesEffect (run step d history)) ∧
    (lastLock history = some (.call .unlock) →
      result watchdog WatchdogDevice.isLocked (run step d history) = true ∧
        ∀ c : Call, c.Configures → c.after (run step d history) = run step d history) := by
  have hlocked := locked_run d history
  constructor
  · intro hlast
    rw [hlast] at hlocked
    exact ⟨(result_isLocked _).trans hlocked, fun c hc => takesEffect_of_unlocked hlocked hc⟩
  · intro hlast
    rw [hlast] at hlocked
    exact ⟨(result_isLocked _).trans hlocked, fun c hc => after_of_locked hlocked hc⟩

/-- A history that ends with a move of the lock. -/
theorem lastLock_concat (history : List Event) {e : Event} (he : MovesLock e ()) :
    lastLock (history ++ [e]) = some e := by
  rw [lastLock, lastCovering_append, lastCovering_cons, lastCovering_nil, if_pos he]
  rfl

theorem lastLock_mem {history : List Event} {e : Event} (h : lastLock history = some e) :
    e ∈ history :=
  List.mem_reverse.mp (List.mem_of_find?_eq_some h)

/-- **When the lock protects.**  It does what it should if and only if it is never
moved. -/
theorem protects_iff (d : Registers) (events : List Event) :
    Protects d events ↔ .call .lock ∉ events ∧ .call .unlock ∉ events := by
  have hmoved : Protects d events → ∀ e ∈ events, ¬ MovesLock e () := by
    intro h e he hmoves
    obtain ⟨before, after, rfl⟩ := List.append_of_mem he
    have hbefore : before ++ [e] <+: before ++ e :: after := ⟨after, by simp⟩
    have hlast := lastLock_concat before hmoves
    have hprotected := h _ hbefore
    obtain ⟨hlocked, hunlocked⟩ := protected_exchanged d (before ++ [e])
    rcases hmoves with rfl | rfl
    · have hclosed := (hprotected.locked hlast).1
      rw [(hlocked hlast).1] at hclosed
      exact Bool.false_ne_true hclosed
    · have hopen := (hprotected.unlocked hlast).1
      rw [(hunlocked hlast).1] at hopen
      exact Bool.false_ne_true hopen.symm
  constructor
  · intro h
    exact ⟨fun hin => hmoved h _ hin (.inl rfl), fun hin => hmoved h _ hin (.inr rfl)⟩
  · rintro ⟨hlock, hunlock⟩ history hbefore
    exact ⟨fun hlast => absurd (hbefore.subset (lastLock_mem hlast)) hlock,
      fun hlast => absurd (hbefore.subset (lastLock_mem hlast)) hunlock⟩

/-- A device out of reset that is locked and then given a load value takes it. -/
theorem lock_opens :
    ¬ Protects ⟨0xFFFFFFFF#32, 0xFFFFFFFF#32, 0#2, false, false, false⟩ [.call .lock] := by
  intro h
  have hlocked := (h [.call .lock] (List.prefix_refl _)).locked rfl
  exact absurd (hlocked.2 (.load 1#32) trivial) (by decide)

end NspireUtils.Ports.Watchdog
