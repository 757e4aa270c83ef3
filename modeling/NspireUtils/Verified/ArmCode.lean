import NspireUtils.Verified.ArmBanks
import NspireUtils.Verified.WordStores

/-!
# ARM code in memory

Instructions as they stand in memory, and a processor that fetches them.  Five
instructions are given in full: loads from the literal pool, `stmdb sp!` and
`ldmia sp!`, `blx` and `bx`.  An instruction that does not read `pc` is a function of
registers, flags and memory that an `Environment` supplies, with the address it goes
on at if it writes `pc`; so is a function outside the code in question, which runs
from its call to its return.

A machine records the calls it has made of such functions.
-/

namespace NspireUtils.Verified.ArmCode

open NspireUtils.Verified.ByteMemory
open NspireUtils.Verified.ArmBanks (Reg sp)
open NspireUtils.Verified.WordStores

/-- `r14`. -/
abbrev lr : Reg := 14

/-! ## Instructions and their encodings -/

inductive Instr where
  /-- `ldr rd, [pc, #±offset]` -/
  | ldr (rd : Reg) (add : Bool) (offset : BitVec 12)
  /-- `ldr pc, [pc, #±offset]` -/
  | ldrPc (add : Bool) (offset : BitVec 12)
  /-- `stmdb sp!, {list}` -/
  | stmdb (list : BitVec 16)
  /-- `ldmia sp!, {list}` -/
  | ldmia (list : BitVec 16)
  | blx (rm : Reg)
  | bx (rm : Reg)
  deriving Repr, DecidableEq

/-- The word of an instruction. -/
def encode : Instr → Word
  | .ldr rd add offset =>
      0xE5#8 ++ BitVec.ofBool add ++ 0b0011111#7 ++ BitVec.ofNat 4 rd ++ offset
  | .ldrPc add offset => 0xE5#8 ++ BitVec.ofBool add ++ 0b0011111#7 ++ 0xF#4 ++ offset
  | .stmdb list => 0xE92D#16 ++ list
  | .ldmia list => 0xE8BD#16 ++ list
  | .blx rm => 0xE12FFF3#28 ++ BitVec.ofNat 4 rm
  | .bx rm => 0xE12FFF1#28 ++ BitVec.ofNat 4 rm

/-- The register of a field; fifteen is `pc`. -/
def regOf (field : BitVec 4) : Option Reg :=
  if h : field.toNat < 15 then some ⟨field.toNat, h⟩ else none

/-- The instruction a word encodes, if it is one of those above. -/
def decode (w : Word) : Option Instr :=
  if w.extractLsb' 24 8 = 0xE5#8 ∧ w.extractLsb' 16 7 = 0b0011111#7 then
    match regOf (w.extractLsb' 12 4) with
    | some rd => some (.ldr rd (w.getLsbD 23) (w.extractLsb' 0 12))
    | none => some (.ldrPc (w.getLsbD 23) (w.extractLsb' 0 12))
  else if w.extractLsb' 16 16 = 0xE92D#16 then some (.stmdb (w.extractLsb' 0 16))
  else if w.extractLsb' 16 16 = 0xE8BD#16 then some (.ldmia (w.extractLsb' 0 16))
  else if w.extractLsb' 4 28 = 0xE12FFF3#28 then (regOf (w.extractLsb' 0 4)).map .blx
  else if w.extractLsb' 4 28 = 0xE12FFF1#28 then (regOf (w.extractLsb' 0 4)).map .bx
  else none

/-- Above the offset, a literal load is the same for all offsets. -/
theorem decode_head {head : BitVec 20} {offset : BitVec 12} {w : Word} (hw : w = head ++ offset)
    (hopcode : head.extractLsb' 12 8 = 0xE5#8 ∧ head.extractLsb' 4 7 = 0b0011111#7) :
    decode w = match regOf (head.extractLsb' 0 4) with
      | some rd => some (.ldr rd (head.getLsbD 11) offset)
      | none => some (.ldrPc (head.getLsbD 11) offset) := by
  have h24 : w.extractLsb' 24 8 = head.extractLsb' 12 8 := by
    rw [hw, BitVec.extractLsb'_append_eq_of_le (by decide)]
  have h16 : w.extractLsb' 16 7 = head.extractLsb' 4 7 := by
    rw [hw, BitVec.extractLsb'_append_eq_of_le (by decide)]
  have h12 : w.extractLsb' 12 4 = head.extractLsb' 0 4 := by
    rw [hw, BitVec.extractLsb'_append_eq_of_le (by decide)]
  have h23 : w.getLsbD 23 = head.getLsbD 11 := by
    rw [hw, BitVec.getLsbD_append, if_neg (by decide)]
  have h0 : w.extractLsb' 0 12 = offset := by
    rw [hw, BitVec.extractLsb'_append_eq_right]
  rw [decode, h24, h16, h12, h23, h0, if_pos hopcode]

/-- The instruction comes back. -/
theorem decode_encode (i : Instr) : decode (encode i) = some i := by
  cases i with
  | ldr rd add offset =>
      have hhead : ∀ (rd : Reg) (add : Bool),
          let head := 0xE5#8 ++ BitVec.ofBool add ++ 0b0011111#7 ++ BitVec.ofNat 4 rd
          (head.extractLsb' 12 8 = 0xE5#8 ∧ head.extractLsb' 4 7 = 0b0011111#7) ∧
            regOf (head.extractLsb' 0 4) = some rd ∧ head.getLsbD 11 = add := by decide
      obtain ⟨hopcode, hrd, hadd⟩ := hhead rd add
      rw [decode_head (w := encode _) rfl hopcode, hrd, hadd]
  | ldrPc add offset =>
      have hhead : ∀ add : Bool,
          let head := 0xE5#8 ++ BitVec.ofBool add ++ 0b0011111#7 ++ 0xF#4
          (head.extractLsb' 12 8 = 0xE5#8 ∧ head.extractLsb' 4 7 = 0b0011111#7) ∧
            regOf (head.extractLsb' 0 4) = none ∧ head.getLsbD 11 = add := by decide
      obtain ⟨hopcode, hrd, hadd⟩ := hhead add
      rw [decode_head (w := encode _) rfl hopcode, hrd, hadd]
  | stmdb list =>
      have h24 : (encode (.stmdb list)).extractLsb' 24 8 = 0xE9#8 :=
        (BitVec.extractLsb'_append_eq_of_le (by decide)).trans (by decide)
      have h16 : (encode (.stmdb list)).extractLsb' 16 16 = 0xE92D#16 :=
        BitVec.extractLsb'_append_eq_left
      have h0 : (encode (.stmdb list)).extractLsb' 0 16 = list := BitVec.extractLsb'_append_eq_right
      rw [decode, h24, h16, h0, if_neg fun h => absurd h.1 (by decide), if_pos rfl]
  | ldmia list =>
      have h24 : (encode (.ldmia list)).extractLsb' 24 8 = 0xE8#8 :=
        (BitVec.extractLsb'_append_eq_of_le (by decide)).trans (by decide)
      have h16 : (encode (.ldmia list)).extractLsb' 16 16 = 0xE8BD#16 :=
        BitVec.extractLsb'_append_eq_left
      have h0 : (encode (.ldmia list)).extractLsb' 0 16 = list := BitVec.extractLsb'_append_eq_right
      rw [decode, h24, h16, h0, if_neg fun h => absurd h.1 (by decide), if_neg (by decide),
        if_pos rfl]
  | blx rm =>
      revert rm
      decide
  | bx rm =>
      revert rm
      decide

/-! ## Machines -/

/-- Registers, flags and memory. -/
@[ext]
structure Core where
  regs : Reg → Word
  flags : Word
  mem : Memory

/-- The registers of a list, the lowest first. -/
def listed (list : BitVec 16) : List Reg :=
  (List.finRange 15).filter fun r => list.getLsbD r

namespace Core

def setReg (c : Core) (r : Reg) (value : Word) : Core :=
  { c with regs := Function.update c.regs r value }

/-- `stmdb sp!`: the lowest register at the lowest address. -/
def push (c : Core) (rs : List Reg) : Core :=
  let base := c.regs sp - BitVec.ofNat 32 (4 * rs.length)
  { c with
    regs := Function.update c.regs sp base
    mem := putAll c.mem ((addresses base.toNat rs.length).zip (rs.map c.regs)) }

/-- The registers of the list get the words. -/
def load (regs : Reg → Word) : List (Reg × Word) → Reg → Word
  | [] => regs
  | (r, value) :: rest => load (Function.update regs r value) rest

/-- `ldmia sp!`. -/
def pop (c : Core) (rs : List Reg) : Core :=
  { c with
    regs := Function.update
      (load c.regs (rs.zip (readWords c.mem (c.regs sp).toNat rs.length))) sp
      (c.regs sp + BitVec.ofNat 32 (4 * rs.length)) }

end Core

/-- What is outside the code: instructions that neither read nor write `pc`,
instructions that may write it but do not read it, and functions by their addresses. -/
structure Environment where
  plain : Word → Option (Core → Core)
  leaving : Word → Option (Core → Core × Option Word) := fun _ => none
  functions : Word → Option (Core → Core)

/-- A call of an outside function: its address and `r0`. -/
abbrev Call := Word × Word

structure Machine where
  core : Core
  pc : Word
  calls : List Call

variable (E : Environment)

/-- What a word does that neither reads nor writes `pc`.  Lists with `sp` or `pc`
are left out. -/
def effect (w : Word) : Option (Core → Core) :=
  match decode w with
  | some (.stmdb list) =>
      if list.getLsbD 13 ∨ list.getLsbD 15 then none else some (·.push (listed list))
  | some (.ldmia list) =>
      if list.getLsbD 13 ∨ list.getLsbD 15 then none else some (·.pop (listed list))
  | some _ => none
  | none => E.plain w

/-- What a word does that does not read `pc`, and where it goes on if it writes `pc`. -/
def behaviour (w : Word) : Option (Core → Core × Option Word) :=
  match effect E w with
  | some f => some fun k => (f k, none)
  | none =>
      match decode w with
      | some (.bx rm) => some fun k => (k, some (k.regs rm))
      | some (.ldr ..) | some (.ldrPc ..) | some (.blx _) => none
      | _ => E.leaving w

/-- The address of a literal: `pc` reads eight ahead. -/
def literal (pc : Word) (add : Bool) (offset : BitVec 12) : Word :=
  if add then pc + 8#32 + offset.setWidth 32 else pc + 8#32 - offset.setWidth 32

/-- One instruction. -/
def step (m : Machine) : Option Machine :=
  let w := readWord m.core.mem m.pc.toNat
  match decode w with
  | some (.ldr rd add offset) =>
      some { m with
        core := m.core.setReg rd (readWord m.core.mem (literal m.pc add offset).toNat)
        pc := m.pc + 4#32 }
  | some (.ldrPc add offset) =>
      some { m with pc := readWord m.core.mem (literal m.pc add offset).toNat }
  | some (.blx rm) =>
      let target := m.core.regs rm
      let called := m.core.setReg lr (m.pc + 4#32)
      match E.functions target with
      | some f =>
          some
            { core := f called, pc := m.pc + 4#32, calls := m.calls ++ [(target, called.regs 0)] }
      | none => some { m with core := called, pc := target }
  | _ =>
      (behaviour E w).map fun f =>
        { m with core := (f m.core).1, pc := (f m.core).2.getD (m.pc + 4#32) }

/-- So many instructions. -/
def steps : Nat → Machine → Option Machine
  | 0, m => some m
  | n + 1, m => (step E m).bind (steps n)

/-- The code runs from one machine to the other. -/
def Runs (m m' : Machine) : Prop := ∃ n, steps E n m = some m'

variable {E}

theorem Runs.refl (m : Machine) : Runs E m m := ⟨0, rfl⟩

theorem Runs.step {m m' m'' : Machine} (hstep : step E m = some m') (h : Runs E m' m'') :
    Runs E m m'' := by
  obtain ⟨n, hn⟩ := h
  exact ⟨n + 1, by rw [steps, hstep, Option.bind_some, hn]⟩

theorem steps_add (n k : Nat) (m : Machine) :
    steps E (n + k) m = (steps E n m).bind (steps E k) := by
  induction n generalizing m with
  | zero => simp [steps]
  | succ n ih =>
      rw [Nat.succ_add, steps, steps, Option.bind_assoc]
      exact Option.bind_congr fun m' _ => ih m'

theorem Runs.trans {m m' m'' : Machine} (h : Runs E m m') (h' : Runs E m' m'') :
    Runs E m m'' := by
  obtain ⟨n, hn⟩ := h
  obtain ⟨k, hk⟩ := h'
  exact ⟨n + k, by rw [steps_add, hn, Option.bind_some, hk]⟩

/-! ## One lemma an instruction -/

theorem behaviour_effect {w : Word} {f : Core → Core} (h : effect E w = some f) :
    behaviour E w = some fun k => (f k, none) := by
  simp only [behaviour, h]

theorem behaviour_bx {w : Word} {rm : Reg} (h : decode w = some (.bx rm)) :
    behaviour E w = some fun k => (k, some (k.regs rm)) := by
  simp only [behaviour, effect, h]

section Steps

variable {m : Machine} {w : Word} (hfetch : readWord m.core.mem m.pc.toNat = w)
include hfetch

theorem step_ldr {rd : Reg} {add : Bool} {offset : BitVec 12}
    (hdecode : decode w = some (.ldr rd add offset)) :
    step E m = some { m with
      core := m.core.setReg rd (readWord m.core.mem (literal m.pc add offset).toNat)
      pc := m.pc + 4#32 } := by
  simp only [step, hfetch, hdecode]

theorem step_ldrPc {add : Bool} {offset : BitVec 12}
    (hdecode : decode w = some (.ldrPc add offset)) :
    step E m = some { m with pc := readWord m.core.mem (literal m.pc add offset).toNat } := by
  simp only [step, hfetch, hdecode]

theorem step_call {rm : Reg} {f : Core → Core} (hdecode : decode w = some (.blx rm))
    (hf : E.functions (m.core.regs rm) = some f) :
    step E m = some
      { core := f (m.core.setReg lr (m.pc + 4#32))
        pc := m.pc + 4#32
        calls := m.calls ++ [(m.core.regs rm, (m.core.setReg lr (m.pc + 4#32)).regs 0)] } := by
  simp only [step, hfetch, hdecode, hf]

theorem step_branch {rm : Reg} (hdecode : decode w = some (.blx rm))
    (hf : E.functions (m.core.regs rm) = none) :
    step E m = some { m with
      core := m.core.setReg lr (m.pc + 4#32)
      pc := m.core.regs rm } := by
  simp only [step, hfetch, hdecode, hf]

theorem step_behaviour {f : Core → Core × Option Word} (hbehaviour : behaviour E w = some f) :
    step E m = some { m with
      core := (f m.core).1
      pc := (f m.core).2.getD (m.pc + 4#32) } := by
  simp only [step, hfetch]
  cases hdecode : decode w with
  | none => simp only [hbehaviour, Option.map_some]
  | some i =>
      cases i with
      | stmdb list => simp only [hbehaviour, Option.map_some]
      | ldmia list => simp only [hbehaviour, Option.map_some]
      | bx rm => simp only [hbehaviour, Option.map_some]
      | ldr rd add offset => simp [behaviour, effect, hdecode] at hbehaviour
      | ldrPc add offset => simp [behaviour, effect, hdecode] at hbehaviour
      | blx rm => simp [behaviour, effect, hdecode] at hbehaviour

theorem step_bx {rm : Reg} (hdecode : decode w = some (.bx rm)) :
    step E m = some { m with pc := m.core.regs rm } :=
  step_behaviour hfetch (behaviour_bx hdecode)

theorem step_effect {f : Core → Core} (heffect : effect E w = some f) :
    step E m = some { m with core := f m.core, pc := m.pc + 4#32 } :=
  step_behaviour hfetch (behaviour_effect heffect)

/-- An undefined word stops the machine. -/
theorem step_undefined (hdecode : decode w = none) (hplain : E.plain w = none)
    (hleaving : E.leaving w = none) : step E m = none := by
  simp only [step, hfetch, hdecode, behaviour, effect, hplain, hleaving, Option.map_none]

end Steps

/-! ## Saving registers on the stack -/

namespace Core

theorem setReg_self (c : Core) (r : Reg) (value : Word) : (c.setReg r value).regs r = value :=
  Function.update_self ..

theorem setReg_of_ne (c : Core) {r r' : Reg} (h : r' ≠ r) (value : Word) :
    (c.setReg r value).regs r' = c.regs r' := Function.update_of_ne h ..

@[simp] theorem setReg_flags (c : Core) (r : Reg) (value : Word) :
    (c.setReg r value).flags = c.flags := rfl

variable (c : Core) (rs : List Reg)

theorem push_regs_of_ne {r : Reg} (h : r ≠ sp) : (c.push rs).regs r = c.regs r :=
  Function.update_of_ne h ..

theorem push_sp : (c.push rs).regs sp = c.regs sp - BitVec.ofNat 32 (4 * rs.length) := by
  simp only [push, Function.update_self]

/-- With room below, the stack pointer goes down. -/
theorem push_sp_toNat (h : 4 * rs.length ≤ (c.regs sp).toNat) :
    ((c.push rs).regs sp).toNat = (c.regs sp).toNat - 4 * rs.length := by
  have hlt := (c.regs sp).isLt
  rw [push_sp, BitVec.toNat_sub_of_le]
  · rw [BitVec.toNat_ofNat, Nat.mod_eq_of_lt (by omega)]
  · rw [BitVec.le_def, BitVec.toNat_ofNat, Nat.mod_eq_of_lt (by omega)]
    exact h

/-- The words pushed are the registers. -/
theorem readWords_push :
    readWords (c.push rs).mem ((c.push rs).regs sp).toNat rs.length = rs.map c.regs := by
  rw [push_sp]
  exact readAll_written (by simp) (pairwise_addresses _ _) c.mem

/-- Nothing else is written. -/
theorem push_mem_of_outside {x : Nat} (h : x < ((c.push rs).regs sp).toNat ∨
    ((c.push rs).regs sp).toNat + 4 * rs.length ≤ x) : (c.push rs).mem x = c.mem x := by
  rw [push_sp] at h
  refine putAll_of_outside c.mem _ fun p hp => ?_
  have hbounds := mem_addresses (List.of_mem_zip hp).1
  omega

/-- Registers that are not loaded keep their values. -/
theorem load_of_notMem {r : Reg} (hr : r ∉ rs) (regs : Reg → Word) (ws : List Word) :
    load regs (rs.zip ws) r = regs r := by
  induction rs generalizing regs ws with
  | nil => rfl
  | cons a rest ih =>
      obtain ⟨hne, hrest⟩ := List.ne_and_not_mem_of_not_mem_cons hr
      cases ws with
      | nil => rfl
      | cons w ws =>
          rw [List.zip_cons_cons, load, ih hrest]
          exact Function.update_of_ne hne ..

/-- The words loaded are those the registers hold. -/
theorem load_eq_iff (hnodup : rs.Nodup) (regs g : Reg → Word) {ws : List Word}
    (hlen : ws.length = rs.length) :
    (∀ r ∈ rs, load regs (rs.zip ws) r = g r) ↔ ws = rs.map g := by
  induction rs generalizing regs ws with
  | nil => simpa using hlen
  | cons a rest ih =>
      obtain ⟨hnot, hrest⟩ := List.nodup_cons.mp hnodup
      cases ws with
      | nil => exact absurd hlen (by simp)
      | cons w ws =>
          have hfirst : load (Function.update regs a w) (rest.zip ws) a = w := by
            rw [load_of_notMem rest hnot, Function.update_self]
          have hshort : ws.length = rest.length := by simpa using hlen
          have htail := ih hrest (Function.update regs a w) hshort
          rw [List.zip_cons_cons, load, List.forall_mem_cons, List.map_cons, List.cons_eq_cons,
            hfirst, htail]

theorem pop_sp : (c.pop rs).regs sp = c.regs sp + BitVec.ofNat 32 (4 * rs.length) := by
  simp only [pop, Function.update_self]

theorem pop_of_notMem {r : Reg} (hr : r ∉ rs) (hne : r ≠ sp) : (c.pop rs).regs r = c.regs r := by
  simp only [pop, Function.update_of_ne hne]
  exact load_of_notMem rs hr _ _

/-- What is popped is what the stack holds. -/
theorem pop_eq_iff (hnodup : rs.Nodup) (hsp : sp ∉ rs) (g : Reg → Word) :
    (∀ r ∈ rs, (c.pop rs).regs r = g r) ↔
      readWords c.mem (c.regs sp).toNat rs.length = rs.map g := by
  rw [← load_eq_iff rs hnodup c.regs g (by simp)]
  refine forall₂_congr fun r hr => ?_
  simp only [pop, Function.update_of_ne (ne_of_mem_of_not_mem hr hsp)]

/-- The stack pointer is back. -/
theorem pop_push_sp {k : Core} (hsp : k.regs sp = (c.push rs).regs sp) :
    (k.pop rs).regs sp = c.regs sp := by
  rw [pop_sp, hsp, push_sp, BitVec.sub_add_cancel]

/-- **Saved registers.**  Popping what was pushed restores the registers, if those
not in the list were preserved. -/
theorem pop_regs {k : Core} (hnodup : rs.Nodup) (hnot : sp ∉ rs)
    (hsp : k.regs sp = (c.push rs).regs sp)
    (hsaved : readWords k.mem (k.regs sp).toNat rs.length = rs.map c.regs)
    (hothers : ∀ r, r ∉ rs → r ≠ sp → k.regs r = c.regs r) : (k.pop rs).regs = c.regs := by
  funext r
  by_cases hr : r = sp
  · rw [hr]
    exact c.pop_push_sp rs hsp
  · by_cases hmem : r ∈ rs
    · exact (k.pop_eq_iff rs hnodup hnot c.regs).mpr hsaved r hmem
    · rw [k.pop_of_notMem rs hmem hr]
      exact hothers r hmem hr

@[simp] theorem pop_mem : (c.pop rs).mem = c.mem := rfl

@[simp] theorem pop_flags : (c.pop rs).flags = c.flags := rfl

end Core

/-! ## Effects and addresses -/

theorem effect_stmdb {list : BitVec 16} (hsp : list.getLsbD 13 = false)
    (hpc : list.getLsbD 15 = false) :
    effect E (encode (.stmdb list)) = some (·.push (listed list)) := by
  simp only [effect, decode_encode]
  rw [if_neg (by rw [hsp, hpc]; decide)]

theorem effect_ldmia {list : BitVec 16} (hsp : list.getLsbD 13 = false)
    (hpc : list.getLsbD 15 = false) :
    effect E (encode (.ldmia list)) = some (·.pop (listed list)) := by
  simp only [effect, decode_encode]
  rw [if_neg (by rw [hsp, hpc]; decide)]

/-- A machine that stops has nowhere else to go. -/
theorem stuck_unique {m a b : Machine} (ha : Runs E m a) (hb : Runs E m b)
    (hstuckA : step E a = none) (hstuckB : step E b = none) : a = b := by
  obtain ⟨n, hn⟩ := ha
  obtain ⟨k, hk⟩ := hb
  have hover : ∀ {x : Machine} {j : Nat}, step E x = none → steps E (j + 1) x = none := by
    intro x j hx
    rw [steps, hx, Option.bind_none]
  rcases Nat.lt_trichotomy n k with hlt | heq | hgt
  · obtain ⟨j, rfl⟩ : ∃ j, k = n + (j + 1) := ⟨k - n - 1, by omega⟩
    rw [steps_add, hn, Option.bind_some, hover hstuckA] at hk
    exact absurd hk (by simp)
  · subst heq
    exact Option.some.inj (hn.symm.trans hk)
  · obtain ⟨j, rfl⟩ : ∃ j, n = k + (j + 1) := ⟨n - k - 1, by omega⟩
    rw [steps_add, hk, Option.bind_some, hover hstuckB] at hn
    exact absurd hn (by simp)

/-! ## Code at an address -/

/-- The words stand at the address. -/
structure CodeAt (m : Memory) (a : Nat) (ws : List Word) : Prop where
  words : readWords m a ws.length = ws
  fits : a + 4 * ws.length ≤ 2 ^ 32

theorem CodeAt.congr {m m' : Memory} {a : Nat} {ws : List Word} (h : CodeAt m a ws)
    (hsame : ∀ x, a ≤ x → x < a + 4 * ws.length → m' x = m x) : CodeAt m' a ws :=
  ⟨(readWords_congr hsame).trans h.words, h.fits⟩

/-- The words behind the first. -/
theorem CodeAt.tail {m : Memory} {a : Nat} {w : Word} {ws : List Word} (h : CodeAt m a (w :: ws)) :
    CodeAt m (a + 4) ws := by
  have hfits := h.fits
  rw [List.length_cons] at hfits
  exact ⟨(List.cons.inj h.words).2, by omega⟩

/-- The `pc` of the word with this number. -/
def pcAt (a i : Nat) : Word := BitVec.ofNat 32 (a + 4 * i)

theorem pcAt_next (a i : Nat) : pcAt a i + 4#32 = pcAt a (i + 1) :=
  (BitVec.ofNat_add (a + 4 * i) 4).symm

theorem pcAt_add_four (a i : Nat) : pcAt (a + 4) i = pcAt a (i + 1) :=
  congrArg (BitVec.ofNat 32) (by omega)

theorem pcAt_toNat (t : Word) (i : Nat) : pcAt t.toNat i = t + BitVec.ofNat 32 (4 * i) := by
  rw [pcAt, BitVec.ofNat_add, BitVec.ofNat_toNat, BitVec.setWidth_eq]

theorem pcAt_ahead (a i : Nat) : pcAt a i + 8#32 = BitVec.ofNat 32 (a + 4 * i + 8) :=
  (BitVec.ofNat_add (a + 4 * i) 8).symm

theorem literal_add {offset : BitVec 12} {i j : Nat} (a : Nat)
    (h : 4 * i + 8 + offset.toNat = 4 * j) : literal (pcAt a i) true offset = pcAt a j := by
  have hj : a + 4 * j = a + 4 * i + 8 + offset.toNat := by omega
  rw [literal, if_pos rfl, pcAt_ahead, pcAt, hj, BitVec.ofNat_add (a + 4 * i + 8),
    BitVec.ofNat_toNat]

theorem literal_sub {offset : BitVec 12} {i j : Nat} (a : Nat)
    (h : 4 * i + 8 = 4 * j + offset.toNat) : literal (pcAt a i) false offset = pcAt a j := by
  have hj : a + 4 * i + 8 = a + 4 * j + offset.toNat := by omega
  rw [literal, if_neg (by decide), pcAt_ahead, hj, BitVec.ofNat_add (a + 4 * j),
    BitVec.ofNat_toNat, BitVec.add_sub_cancel, pcAt]

theorem CodeAt.fetch {m : Memory} {a : Nat} {ws : List Word} (h : CodeAt m a ws) (i : Nat)
    {w : Word} (hw : ws[i]? = some w) : readWord m (pcAt a i).toNat = w := by
  have hi := (List.getElem?_eq_some_iff.mp hw).1
  have hfits := h.fits
  rw [pcAt, BitVec.toNat_ofNat, Nat.mod_eq_of_lt (by omega)]
  exact word_of_readWords h.words i hw

namespace CodeAt

variable {k : Core} {a : Nat} {ws : List Word} (h : CodeAt k.mem a ws) (i : Nat) {w v : Word}
  (hw : ws[i]? = some w) {calls : List Call} {m' : Machine}
include h hw

theorem step_effect {f : Core → Core} (heffect : effect E w = some f) :
    step E ⟨k, pcAt a i, calls⟩ = some ⟨f k, pcAt a (i + 1), calls⟩ := by
  rw [← pcAt_next]
  exact ArmCode.step_effect (m := ⟨k, pcAt a i, calls⟩) (h.fetch i hw) heffect

theorem step_behaviour {f : Core → Core × Option Word} (hbehaviour : behaviour E w = some f) :
    step E ⟨k, pcAt a i, calls⟩ = some ⟨(f k).1, (f k).2.getD (pcAt a (i + 1)), calls⟩ := by
  rw [← pcAt_next]
  exact ArmCode.step_behaviour (m := ⟨k, pcAt a i, calls⟩) (h.fetch i hw) hbehaviour

theorem step_ldr {rd : Reg} {add : Bool} {offset : BitVec 12} {j : Nat}
    (hinstr : encode (.ldr rd add offset) = w)
    (hliteral : literal (pcAt a i) add offset = pcAt a j) (hv : ws[j]? = some v) :
    step E ⟨k, pcAt a i, calls⟩ = some ⟨k.setReg rd v, pcAt a (i + 1), calls⟩ := by
  rw [← pcAt_next, ← h.fetch j hv, ← hliteral]
  exact ArmCode.step_ldr (m := ⟨k, pcAt a i, calls⟩) (h.fetch i hw) (hinstr ▸ decode_encode _)

theorem step_ldrPc {add : Bool} {offset : BitVec 12} {j : Nat}
    (hinstr : encode (.ldrPc add offset) = w)
    (hliteral : literal (pcAt a i) add offset = pcAt a j) (hv : ws[j]? = some v) :
    step E ⟨k, pcAt a i, calls⟩ = some ⟨k, v, calls⟩ := by
  rw [← h.fetch j hv, ← hliteral]
  exact ArmCode.step_ldrPc (m := ⟨k, pcAt a i, calls⟩) (h.fetch i hw) (hinstr ▸ decode_encode _)

theorem step_call {rm : Reg} {f : Core → Core} (hinstr : encode (.blx rm) = w)
    (hf : E.functions (k.regs rm) = some f) :
    step E ⟨k, pcAt a i, calls⟩ = some
      ⟨f (k.setReg lr (pcAt a (i + 1))), pcAt a (i + 1),
        calls ++ [(k.regs rm, (k.setReg lr (pcAt a (i + 1))).regs 0)]⟩ := by
  rw [← pcAt_next]
  exact ArmCode.step_call (m := ⟨k, pcAt a i, calls⟩) (h.fetch i hw) (hinstr ▸ decode_encode _) hf

theorem step_branch {rm : Reg} (hinstr : encode (.blx rm) = w)
    (hf : E.functions (k.regs rm) = none) :
    step E ⟨k, pcAt a i, calls⟩ = some ⟨k.setReg lr (pcAt a (i + 1)), k.regs rm, calls⟩ := by
  rw [← pcAt_next]
  exact ArmCode.step_branch (m := ⟨k, pcAt a i, calls⟩) (h.fetch i hw) (hinstr ▸ decode_encode _) hf

theorem step_bx {rm : Reg} (hinstr : encode (.bx rm) = w) :
    step E ⟨k, pcAt a i, calls⟩ = some ⟨k, k.regs rm, calls⟩ :=
  ArmCode.step_bx (m := ⟨k, pcAt a i, calls⟩) (h.fetch i hw) (hinstr ▸ decode_encode _)

theorem runs_effect {f : Core → Core} (heffect : effect E w = some f)
    (hrest : Runs E ⟨f k, pcAt a (i + 1), calls⟩ m') : Runs E ⟨k, pcAt a i, calls⟩ m' :=
  .step (h.step_effect i hw heffect) hrest

theorem runs_ldr {rd : Reg} {add : Bool} {offset : BitVec 12} {j : Nat}
    (hinstr : encode (.ldr rd add offset) = w)
    (hliteral : literal (pcAt a i) add offset = pcAt a j) (hv : ws[j]? = some v)
    (hrest : Runs E ⟨k.setReg rd v, pcAt a (i + 1), calls⟩ m') :
    Runs E ⟨k, pcAt a i, calls⟩ m' :=
  .step (h.step_ldr i hw hinstr hliteral hv) hrest

theorem runs_ldrPc {add : Bool} {offset : BitVec 12} {j : Nat}
    (hinstr : encode (.ldrPc add offset) = w)
    (hliteral : literal (pcAt a i) add offset = pcAt a j) (hv : ws[j]? = some v)
    (hrest : Runs E ⟨k, v, calls⟩ m') : Runs E ⟨k, pcAt a i, calls⟩ m' :=
  .step (h.step_ldrPc i hw hinstr hliteral hv) hrest

theorem runs_call {rm : Reg} {f : Core → Core} (hinstr : encode (.blx rm) = w)
    (hf : E.functions (k.regs rm) = some f) (hrest : Runs E
      ⟨f (k.setReg lr (pcAt a (i + 1))), pcAt a (i + 1),
        calls ++ [(k.regs rm, (k.setReg lr (pcAt a (i + 1))).regs 0)]⟩ m') :
    Runs E ⟨k, pcAt a i, calls⟩ m' :=
  .step (h.step_call i hw hinstr hf) hrest

end CodeAt

end NspireUtils.Verified.ArmCode
