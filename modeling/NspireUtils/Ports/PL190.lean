import NspireUtils.Verified.DeviceIO

/-!
# The PL190 interrupt controller

The vectored interrupt controller behind `devices/PL190.hpp` and the functions of
`devices/pl190/` that drive it: `SavePL190State`, `RestorePL190State` and
`PL190VIC_Editor`.  The enable and software interrupt registers are written
through a pair of addresses, one that sets the bits of the value and one that
clears them; the other registers hold what is written, as far as they are wide.

The raw interrupt lines are the outside world's.  They reach the status registers
only, so all other registers form a shadow of the device.
-/

namespace NspireUtils.Ports.PL190

open NspireUtils.Verified.DeviceIO

abbrev Word := BitVec 32

/-! ## The device -/

/-- The registers that can be read. -/
inductive ReadRegister where
  | irqStatus
  | fiqStatus
  | rawInterruptStatus
  | interruptSelect
  | interruptEnable
  | softwareInt
  | protection
  | defaultVectAddr
  | vectAddrTable (i : Fin 16)
  | vectControlTable (i : Fin 16)
  deriving Repr, DecidableEq

/-- The registers that can be written. -/
inductive WriteRegister where
  | interruptSelect
  | interruptEnable
  | interruptEnableClear
  | softwareInt
  | softwareIntClear
  | protection
  | vectAddr
  | defaultVectAddr
  | vectAddrTable (i : Fin 16)
  | vectControlTable (i : Fin 16)
  deriving Repr, DecidableEq

/-- `PL190VIC_*`: where a register is read. -/
def ReadRegister.offset : ReadRegister → Nat
  | irqStatus => 0x00
  | fiqStatus => 0x04
  | rawInterruptStatus => 0x08
  | interruptSelect => 0x0C
  | interruptEnable => 0x10
  | softwareInt => 0x18
  | protection => 0x20
  | defaultVectAddr => 0x34
  | vectAddrTable i => 0x100 + i * 4
  | vectControlTable i => 0x200 + i * 4

/-- `PL190VIC_*`: where a register is written. -/
def WriteRegister.offset : WriteRegister → Nat
  | interruptSelect => 0x0C
  | interruptEnable => 0x10
  | interruptEnableClear => 0x14
  | softwareInt => 0x18
  | softwareIntClear => 0x1C
  | protection => 0x20
  | vectAddr => 0x30
  | defaultVectAddr => 0x34
  | vectAddrTable i => 0x100 + i * 4
  | vectControlTable i => 0x200 + i * 4

/-- No two registers are written at one address. -/
theorem WriteRegister.offset_injective : Function.Injective WriteRegister.offset := by
  intro a b h
  cases a <;> cases b <;> simp only [offset, vectAddrTable.injEq, vectControlTable.injEq] at h ⊢ <;>
    omega

/-- What the device stores. -/
@[ext]
structure Registers where
  interruptSelect : Word
  interruptEnable : Word
  softwareInt : Word
  protection : BitVec 1
  defaultVectAddr : Word
  vectAddrTable : Fin 16 → Word
  vectControlTable : Fin 16 → BitVec 6

/-- The device with its raw interrupt lines. -/
structure Vic where
  registers : Registers
  lines : Word

/-- A write.  A write to `VectAddr` ends the service of an interrupt and changes
no register. -/
def Registers.write (r : Registers) : WriteRegister → Word → Registers
  | .interruptSelect, value => { r with interruptSelect := value }
  | .interruptEnable, value => { r with interruptEnable := r.interruptEnable ||| value }
  | .interruptEnableClear, value => { r with interruptEnable := r.interruptEnable &&& ~~~value }
  | .softwareInt, value => { r with softwareInt := r.softwareInt ||| value }
  | .softwareIntClear, value => { r with softwareInt := r.softwareInt &&& ~~~value }
  | .protection, value => { r with protection := value.setWidth 1 }
  | .vectAddr, _ => r
  | .defaultVectAddr, value => { r with defaultVectAddr := value }
  | .vectAddrTable i, value =>
      { r with vectAddrTable := Function.update r.vectAddrTable i value }
  | .vectControlTable i, value =>
      { r with vectControlTable := Function.update r.vectControlTable i (value.setWidth 6) }

namespace Vic

/-- `RawInterruptStatus`: the requests before masking. -/
def rawStatus (d : Vic) : Word := d.lines ||| d.registers.softwareInt

/-- `IRQStatus`. -/
def irqStatus (d : Vic) : Word :=
  d.rawStatus &&& d.registers.interruptEnable &&& ~~~d.registers.interruptSelect

/-- `FIQStatus`. -/
def fiqStatus (d : Vic) : Word :=
  d.rawStatus &&& d.registers.interruptEnable &&& d.registers.interruptSelect

/-- A read. -/
def read (d : Vic) : ReadRegister → Word
  | .irqStatus => d.irqStatus
  | .fiqStatus => d.fiqStatus
  | .rawInterruptStatus => d.rawStatus
  | .interruptSelect => d.registers.interruptSelect
  | .interruptEnable => d.registers.interruptEnable
  | .softwareInt => d.registers.softwareInt
  | .protection => d.registers.protection.setWidth 32
  | .defaultVectAddr => d.registers.defaultVectAddr
  | .vectAddrTable i => d.registers.vectAddrTable i
  | .vectControlTable i => (d.registers.vectControlTable i).setWidth 32

end Vic

/-- The controller as a device; the outside world sets the raw lines. -/
def vicDevice : Device Vic ReadRegister WriteRegister Word Word where
  read := Vic.read
  write d w value := { d with registers := d.registers.write w value }
  env d lines := { d with lines }

/-- The registers are a shadow: a read of them is determined, a read of a status
register is not. -/
def shadow : Shadow vicDevice Registers where
  view := Vic.registers
  write := Registers.write
  Reads k r b := ∃ lines, b = Vic.read ⟨k, lines⟩ r
  view_env _ _ := rfl
  view_write _ _ _ := rfl
  reads s _ := ⟨s.lines, rfl⟩

/-- A program on the controller. -/
abbrev Driver := Prog ReadRegister WriteRegister Word

/-! ## `State.cpp` -/

/-- `struct PL190VIC_State`. -/
@[ext]
structure PL190State where
  intSelect : Word
  intEnable : Word
  softwareInt : Word
  protection : Word
  vectAddr : Fin 16 → Word
  vectControl : Fin 16 → Word
  defaultVectAddr : Word

/-- The reserved bits of the record are zero. -/
structure PL190State.Reserved (s : PL190State) : Prop where
  protection : s.protection.toNat < 2 ^ 1
  vectControl : ∀ i, (s.vectControl i).toNat < 2 ^ 6

/-- The loop of `SavePL190State` over the vector slots. -/
def saveVectors : List (Fin 16) → PL190State → Driver PL190State
  | [], state => pure state
  | i :: rest, state => do
      let addr ← read (.vectAddrTable i)
      let control ← read (.vectControlTable i)
      saveVectors rest
        { state with
          vectAddr := Function.update state.vectAddr i addr
          vectControl := Function.update state.vectControl i control }

/-- `SavePL190State`.  The tables of the record are filled slot by slot. -/
def savePL190State : Driver PL190State := do
  let intSelect ← read .interruptSelect
  let intEnable ← read .interruptEnable
  let softwareInt ← read .softwareInt
  let protection ← read .protection
  let defaultVectAddr ← read .defaultVectAddr
  saveVectors (List.finRange 16)
    { intSelect, intEnable, softwareInt, protection, defaultVectAddr
      vectAddr := fun _ => 0, vectControl := fun _ => 0 }

/-- The writes of `RestorePL190State`. -/
def restoreWrites (state : PL190State) : List (WriteRegister × Word) :=
  -- disable all interrupts before restoring state
  [ (.interruptEnableClear, 0xFFFFFFFF#32)
  , (.softwareIntClear, 0xFFFFFFFF#32)
  -- clear any pending interrupts
  , (.vectAddr, 0#32)
  -- restore configuration
  , (.interruptSelect, state.intSelect)
  , (.protection, state.protection)
  , (.defaultVectAddr, state.defaultVectAddr) ] ++
  -- restore vector tables
  ((List.finRange 16).flatMap fun i =>
    [(.vectAddrTable i, state.vectAddr i), (.vectControlTable i, state.vectControl i)]) ++
  -- restore software interrupts, re-enable interrupts
  [(.softwareInt, state.softwareInt), (.interruptEnable, state.intEnable)]

/-- `RestorePL190State`. -/
def restorePL190State (state : PL190State) : Driver Unit := writeAll (restoreWrites state)

/-! ## What the two functions do -/

/-- The record of the registers. -/
def Registers.save (k : Registers) : PL190State where
  intSelect := k.interruptSelect
  intEnable := k.interruptEnable
  softwareInt := k.softwareInt
  protection := k.protection.setWidth 32
  defaultVectAddr := k.defaultVectAddr
  vectAddr := k.vectAddrTable
  vectControl i := (k.vectControlTable i).setWidth 32

/-- The registers that hold the record, each as far as it is wide. -/
def PL190State.load (s : PL190State) : Registers where
  interruptSelect := s.intSelect
  interruptEnable := s.intEnable
  softwareInt := s.softwareInt
  protection := s.protection.setWidth 1
  defaultVectAddr := s.defaultVectAddr
  vectAddrTable := s.vectAddr
  vectControlTable i := (s.vectControl i).setWidth 6

theorem setWidth_setWidth_of_lt {w : Nat} {v : Word} (hlt : v.toNat < 2 ^ w) :
    (v.setWidth w).setWidth 32 = v := by
  apply BitVec.eq_of_toNat_eq
  rw [BitVec.toNat_setWidth, BitVec.toNat_setWidth, Nat.mod_eq_of_lt hlt, Nat.mod_eq_of_lt v.isLt]

/-- Nothing of a record is lost in the registers but its reserved bits. -/
theorem save_load {s : PL190State} (h : s.Reserved) : s.load.save = s := by
  ext1
  · rfl
  · rfl
  · rfl
  · exact setWidth_setWidth_of_lt h.protection
  · rfl
  · funext i
    exact setWidth_setWidth_of_lt (h.vectControl i)
  · rfl

/-- Nothing of the registers is lost in the record. -/
theorem load_save (k : Registers) : k.save.load = k := by
  have hwidth : ∀ {w : Nat} (v : BitVec w), w ≤ 32 → (v.setWidth 32).setWidth w = v := by
    intro w v hle
    rw [BitVec.setWidth_setWidth_of_le _ hle, BitVec.setWidth_eq]
  ext1
  · rfl
  · rfl
  · rfl
  · exact hwidth _ (by omega)
  · rfl
  · rfl
  · funext i
    exact hwidth _ (by omega)

/-- One slot more. -/
theorem slot_cons {β : Type} (f g : Fin 16 → β) (i : Fin 16) (rest : List (Fin 16)) :
    (fun j => if j ∈ rest then f j else Function.update g i (f i) j) =
      fun j => if j ∈ i :: rest then f j else g j := by
  funext j
  by_cases hrest : j ∈ rest
  · simp [hrest]
  · by_cases hi : j = i
    · subst hi
      simp [hrest]
    · simp [hrest, hi]

/-- The loop fills the slots of the list. -/
theorem ensures_saveVectors (is : List (Fin 16)) (k : Registers) :
    ∀ state, Ensures shadow (saveVectors is state) (fun s k' => k' = k ∧ s =
      { state with
        vectAddr := fun i => if i ∈ is then k.vectAddrTable i else state.vectAddr i
        vectControl := fun i =>
          if i ∈ is then (k.vectControlTable i).setWidth 32 else state.vectControl i }) k := by
  induction is with
  | nil => intro state; exact ⟨rfl, by simp⟩
  | cons i rest ih =>
      rintro state addr ⟨lines, rfl⟩ control ⟨lines', rfl⟩
      apply (ih _).mono shadow
      rintro s k' ⟨hk, rfl⟩
      refine ⟨hk, ?_⟩
      simp only [Vic.read, PL190State.mk.injEq, true_and, and_true]
      exact ⟨slot_cons k.vectAddrTable state.vectAddr i rest,
        slot_cons (fun j => (k.vectControlTable j).setWidth 32) state.vectControl i rest⟩

/-- `SavePL190State` returns the record of the registers. -/
theorem ensures_save (k : Registers) :
    Ensures shadow savePL190State (fun s k' => k' = k ∧ s = k.save) k := by
  rintro intSelect ⟨_, rfl⟩ intEnable ⟨_, rfl⟩ softwareInt ⟨_, rfl⟩ protection ⟨_, rfl⟩
    defaultVectAddr ⟨_, rfl⟩
  apply (ensures_saveVectors (List.finRange 16) k _).mono shadow
  rintro s k' ⟨hk, rfl⟩
  refine ⟨hk, ?_⟩
  simp [Registers.save, Vic.read]

/-- The loop of `RestorePL190State` loads the slots of the list. -/
theorem writes_vectors (s : PL190State) (is : List (Fin 16)) :
    ∀ k, writes shadow k (is.flatMap fun i =>
        [(.vectAddrTable i, s.vectAddr i), (.vectControlTable i, s.vectControl i)]) =
      { k with
        vectAddrTable := fun i => if i ∈ is then s.vectAddr i else k.vectAddrTable i
        vectControlTable := fun i =>
          if i ∈ is then (s.vectControl i).setWidth 6 else k.vectControlTable i } := by
  induction is with
  | nil => intro k; simp
  | cons i rest ih =>
      intro k
      rw [List.flatMap_cons, writes_append, ih]
      simp only [writes_cons, writes_nil, shadow, Registers.write, Registers.mk.injEq, true_and]
      exact ⟨slot_cons s.vectAddr k.vectAddrTable i rest,
        slot_cons (fun j => (s.vectControl j).setWidth 6) k.vectControlTable i rest⟩

/-- `RestorePL190State` loads the record, whatever the registers held. -/
theorem writes_restore (s : PL190State) (k : Registers) :
    writes shadow k (restoreWrites s) = s.load := by
  rw [restoreWrites, writes_append, writes_append, writes_vectors]
  simp [shadow, Registers.write, PL190State.load]

theorem ensures_restore (s : PL190State) (k : Registers) :
    Ensures shadow (restorePL190State s) (fun _ k' => k' = s.load) k := by
  rw [restorePL190State, ensures_writeAll]
  exact writes_restore s k

end NspireUtils.Ports.PL190
