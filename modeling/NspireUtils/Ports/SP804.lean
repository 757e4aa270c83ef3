import NspireUtils.Verified.DeviceIO

/-!
# The SP804 timers

`SP804Timer_Adjustable` of `devices/SP804.hpp`.  A device has two timers, each with its
own block of registers, and one register that sets the speed of both.  A timer counts
down while it is enabled, and its interrupt goes up when it comes to zero.

How many clock cycles a count takes depends on prescaler and speed; here it is the
outside world that makes a timer count.
-/

namespace NspireUtils.Ports.SP804

open NspireUtils.Verified.DeviceIO

abbrev Word := BitVec 32

/-! ## The device -/

/-- `enum class SP804SelectedTimer`. -/
inductive SelectedTimer where
  | timer1
  | timer2
  deriving Repr, DecidableEq

/-- The other timer of the device. -/
def SelectedTimer.other : SelectedTimer → SelectedTimer
  | timer1 => timer2
  | timer2 => timer1

theorem SelectedTimer.other_ne (t : SelectedTimer) : t ≠ t.other := by
  cases t <;> decide

/-- `GetSelectedTimerOffset`. -/
def SelectedTimer.offset : SelectedTimer → Nat
  | timer1 => 0x00
  | timer2 => 0x20

/-- The registers of a timer that are read. -/
inductive ReadRegister where
  | load
  | value
  | control
  | ris
  | mis
  | bgLoad
  deriving Repr, DecidableEq

/-- The registers of a timer that are written. -/
inductive TimerRegister where
  | load
  | control
  | intClr
  | bgLoad
  deriving Repr, DecidableEq

/-- `Timer*Offset`: where a register is read. -/
def ReadRegister.offset : ReadRegister → Nat
  | load => 0x00
  | value => 0x04
  | control => 0x08
  | ris => 0x10
  | mis => 0x14
  | bgLoad => 0x18

/-- `Timer*Offset`: where a register is written. -/
def TimerRegister.offset : TimerRegister → Nat
  | load => 0x00
  | control => 0x08
  | intClr => 0x0C
  | bgLoad => 0x18

/-- What is written. -/
inductive WriteRegister where
  | timer (t : SelectedTimer) (r : TimerRegister)
  | speedControl
  deriving Repr, DecidableEq

/-- Where it is written. -/
def WriteRegister.offset : WriteRegister → Nat
  | timer t r => t.offset + r.offset
  | speedControl => 0x80

/-- No two registers are written at one address. -/
theorem WriteRegister.offset_injective : Function.Injective WriteRegister.offset := by
  rintro (⟨t, r⟩ | -) (⟨t', r'⟩ | -) h
  · cases t <;> cases r <;> cases t' <;> cases r' <;> first | rfl | exact absurd h (by decide)
  · cases t <;> cases r <;> exact absurd h (by decide)
  · cases t' <;> cases r' <;> exact absurd h (by decide)
  · rfl

/-- A timer. -/
structure Timer where
  load : Word
  value : Word
  control : BitVec 8
  rawInterrupt : Bool
  deriving Repr, DecidableEq

namespace Timer

/-- `TimerControl_WrapBit`: it stops at zero. -/
def oneShot (t : Timer) : Bool := t.control.getLsbD 0

/-- `TimerControl_TimerSizeBit`: all of the value counts. -/
def wide (t : Timer) : Bool := t.control.getLsbD 1

/-- `TimerControl_InterruptEnabledBit`. -/
def interruptEnabled (t : Timer) : Bool := t.control.getLsbD 5

/-- `TimerControl_ModeBit`: it starts anew from the load value. -/
def periodic (t : Timer) : Bool := t.control.getLsbD 6

/-- `TimerControl_TimerEnableBit`. -/
def enabled (t : Timer) : Bool := t.control.getLsbD 7

/-- The greatest count. -/
def top (t : Timer) : Word := if t.wide then 0xFFFFFFFF#32 else 0xFFFF#32

/-- What it counts to. -/
def next (t : Timer) : Option Word :=
  if t.enabled then
    if t.value &&& t.top = 0#32 then
      if t.oneShot then none else some (if t.periodic then t.load else t.top)
    else some (t.value - 1#32)
  else none

/-- It comes to zero. -/
def expires (t : Timer) : Bool := t.next.any fun value => value &&& t.top = 0#32

/-- One count. -/
def tick (t : Timer) : Timer :=
  { t with value := t.next.getD t.value, rawInterrupt := t.rawInterrupt || t.expires }

/-- A read.  The background load register always reads zero. -/
def read (t : Timer) : ReadRegister → Word
  | .load => t.load
  | .value => t.value
  | .control => t.control.setWidth 32
  | .ris => (BitVec.ofBool t.rawInterrupt).setWidth 32
  | .mis => (BitVec.ofBool (t.rawInterrupt && t.interruptEnabled)).setWidth 32
  | .bgLoad => 0#32

/-- A write.  The load register starts the count anew, the background load register
does not. -/
def write (t : Timer) : TimerRegister → Word → Timer
  | .load, value => { t with load := value, value }
  | .control, value => { t with control := value.setWidth 8 }
  | .intClr, _ => { t with rawInterrupt := false }
  | .bgLoad, value => { t with load := value }

end Timer

/-- The device. -/
structure Registers where
  timers : SelectedTimer → Timer
  speed : BitVec 2

namespace Registers

def setTimer (d : Registers) (t : SelectedTimer) (timer : Timer) : Registers :=
  { d with timers := Function.update d.timers t timer }

def read (d : Registers) (r : SelectedTimer × ReadRegister) : Word := (d.timers r.1).read r.2

def write (d : Registers) : WriteRegister → Word → Registers
  | .timer t r, value => d.setTimer t ((d.timers t).write r value)
  | .speedControl, value => { d with speed := value.setWidth 2 }

@[simp] theorem setTimer_self (d : Registers) (t : SelectedTimer) (timer : Timer) :
    (d.setTimer t timer).timers t = timer := by
  simp [setTimer]

theorem setTimer_of_ne (d : Registers) {t t' : SelectedTimer} (timer : Timer) (h : t ≠ t') :
    (d.setTimer t' timer).timers t = d.timers t := by
  simp [setTimer, h]

/-- A write to a timer reaches that timer. -/
theorem write_self (d : Registers) (t : SelectedTimer) (r : TimerRegister) (value : Word) :
    (d.write (.timer t r) value).timers t = (d.timers t).write r value :=
  d.setTimer_self t _

theorem write_of_ne (d : Registers) {t t' : SelectedTimer} (r : TimerRegister) (value : Word)
    (h : t ≠ t') : (d.write (.timer t' r) value).timers t = d.timers t :=
  d.setTimer_of_ne _ h

end Registers

/-! ## `struct SP804Timer_Adjustable` -/

/-- A program on the device. -/
abbrev Driver := Prog (SelectedTimer × ReadRegister) WriteRegister Word

namespace TimerAdjustable

/-- `setLoadReg`. -/
def setLoadReg (timer : SelectedTimer) (value : Word) : Driver Unit :=
  write (.timer timer .load) value

/-- `getLoadReg`. -/
def getLoadReg (timer : SelectedTimer) : Driver Word := read (timer, .load)

/-- `getCurrentValue32`. -/
def getCurrentValue32 (timer : SelectedTimer) : Driver Word := read (timer, .value)

/-- `getCurrentValue16`. -/
def getCurrentValue16 (timer : SelectedTimer) : Driver (BitVec 16) := do
  let value ← read (timer, .value)
  return (value &&& 0xFFFF#32).setWidth 16

/-- `setControl`. -/
def setControl (timer : SelectedTimer) (controlFlags : BitVec 8) : Driver Unit :=
  write (.timer timer .control) (controlFlags.setWidth 32)

/-- `getControl`. -/
def getControl (timer : SelectedTimer) : Driver (BitVec 8) := do
  let control ← read (timer, .control)
  return control.setWidth 8

/-- `clearInterrupt`. -/
def clearInterrupt (timer : SelectedTimer) : Driver Unit := write (.timer timer .intClr) 1#32

/-- `getRawInterruptStatus`. -/
def getRawInterruptStatus (timer : SelectedTimer) : Driver Bool := do
  let ris ← read (timer, .ris)
  return ris &&& 1#32 != 0#32

/-- `getMaskedInterruptStatus`. -/
def getMaskedInterruptStatus (timer : SelectedTimer) : Driver Bool := do
  let mis ← read (timer, .mis)
  return mis &&& 1#32 != 0#32

/-- `setBackgroundLoadReg`. -/
def setBackgroundLoadReg (timer : SelectedTimer) (value : Word) : Driver Unit :=
  write (.timer timer .bgLoad) value

/-- `getBackgroundLoadReg`. -/
def getBackgroundLoadReg (timer : SelectedTimer) : Driver Word := read (timer, .bgLoad)

/-- `setSpeed`. -/
def setSpeed (speed : BitVec 8) : Driver Unit :=
  write .speedControl ((speed &&& 0x3#8).setWidth 32)

end TimerAdjustable

end NspireUtils.Ports.SP804
