import NspireUtils.Verified.ArmCalls
import NspireUtils.Ports.EntryHooks

/-!
# Exit hooks

What a call of a function with an exit hook executes.  The stub saves four
registers on the stack and calls the function as a whole, then saves its results,
calls the hook function and returns to the caller.

The function finds the four registers where its stack arguments should be.
`transparent_iff_unmoved` says for which calls that makes no difference.
-/

namespace NspireUtils.Ports.ExitHooks

open NspireUtils.Verified.ByteMemory
open NspireUtils.Verified.ArmBanks (Reg sp)
open NspireUtils.Verified.WordStores
open NspireUtils.Verified.ArmCode
open NspireUtils.Verified.ArmCalls
open NspireUtils.Ports.Hooks
open NspireUtils.Ports.EntryHooks (OnStack Conforms callOf)

/-! ## Functions -/

/-- A function: its first two instructions, with the address they go on at if they write
`pc`, and what is behind them up to the return. -/
structure Target where
  first : Core → Core × Option Word
  second : Core → Core × Option Word
  rest : Core → Core × Word

namespace Target

variable (E : Environment) (t : Word) (g : Target)

/-- What is behind the first two instructions of the function at `t`. -/
def body : Body := ⟨t + 8#32, g.rest⟩

/-- The function as a whole: the processor when it is done, where it goes on, and the
calls it makes, of its body or of a function its first instructions branch to. -/
def call (k : Core) : Machine :=
  match (g.first k).2, (g.second (g.first k).1).2 with
  | some a, _ => goOn E (g.body t) (k.regs lr) a (g.first k).1
  | none, some a => goOn E (g.body t) (k.regs lr) a (g.second (g.first k).1).1
  | none, none =>
      ⟨(g.rest (g.second (g.first k).1).1).1, (g.rest (g.second (g.first k).1).1).2,
        [(t + 8#32, (g.second (g.first k).1).1.regs 0)]⟩

/-- A call that keeps to the procedure call standard, and leaves the patched code as it
is. -/
structure Keeps (patched : Nat → Prop) (k : Core) : Prop where
  returns : (g.call E t k).pc = k.regs lr
  regs : ∀ r, 4 ≤ r → r ≤ 11 → (g.call E t k).core.regs r = k.regs r
  stackPointer : (g.call E t k).core.regs sp = k.regs sp
  first : (g.first k).2 = none → ∀ x, patched x → (g.first k).1.mem x = k.mem x
  second : (g.first k).2 = none → (g.second (g.first k).1).2 = none →
    ∀ x, patched x → (g.second (g.first k).1).1.mem x = k.mem x
  patched : ∀ x, patched x → (g.call E t k).core.mem x = k.mem x

variable {E t g} {k : Core} {a : Word}

theorem call_first (h : (g.first k).2 = some a) :
    g.call E t k = goOn E (g.body t) (k.regs lr) a (g.first k).1 := by
  simp only [call, h]

theorem call_second (hfirst : (g.first k).2 = none) (h : (g.second (g.first k).1).2 = some a) :
    g.call E t k = goOn E (g.body t) (k.regs lr) a (g.second (g.first k).1).1 := by
  simp only [call, hfirst, h]

theorem call_rest (hfirst : (g.first k).2 = none) (hsecond : (g.second (g.first k).1).2 = none) :
    g.call E t k =
      ⟨(g.rest (g.second (g.first k).1).1).1, (g.rest (g.second (g.first k).1).1).2,
        [(t + 8#32, (g.second (g.first k).1).1.regs 0)]⟩ := by
  simp only [call, hfirst, hsecond]

/-- A function that returns with its second instruction has no body to run. -/
theorem call_of_return (hfirst : (g.first k).2 = none)
    (h : (g.second (g.first k).1).2 = some (k.regs lr)) :
    g.call E t k = ⟨(g.second (g.first k).1).1, k.regs lr, []⟩ := by
  rw [call_second hfirst h, goOn_link]

/-- The first two instructions, wherever they are, and the rest of the function. -/
theorem reaches_call {stop : Word → Prop} {p : Nat} {first second : Word} (ws : List Word)
    (calls : List Call) (hcode : CodeAt k.mem p (first :: second :: ws))
    (hfirst : behaviour E first = some g.first) (hsecond : behaviour E second = some g.second)
    (hkept : (g.first k).2 = none → CodeAt (g.first k).1.mem p (first :: second :: ws))
    (hstep : ∀ i < 2, Stepwise E (g.body t) stop (pcAt p i))
    (hstop : ∀ a k' d, a ≠ k.regs lr → atOnce E (g.body t) a k' = some d → ¬ stop a)
    (hrest : (g.first k).2 = none → (g.second (g.first k).1).2 = none →
      Reaches E (g.body t) stop ⟨(g.second (g.first k).1).1, pcAt p 2, calls⟩
        ⟨(g.call E t k).core, (g.call E t k).pc, calls ++ (g.call E t k).calls⟩) :
    Reaches E (g.body t) stop ⟨k, pcAt p 0, calls⟩
      ⟨(g.call E t k).core, (g.call E t k).pc, calls ++ (g.call E t k).calls⟩ := by
  have hone : step E ⟨k, pcAt p 0, calls⟩ = _ := hcode.step_behaviour 0 rfl hfirst
  cases hleaves : (g.first k).2 with
  | some a =>
      rw [hleaves, Option.getD_some] at hone
      refine .instruction (hstep 0 (by omega)) hone ?_
      rw [call_first hleaves]
      exact .goOn (fun hlink d hd => hstop a _ d hlink hd) calls
  | none =>
      rw [hleaves, Option.getD_none] at hone
      refine .instruction (hstep 0 (by omega)) hone ?_
      have htwo : step E ⟨(g.first k).1, pcAt p 1, calls⟩ = _ :=
        (hkept hleaves).step_behaviour 1 rfl hsecond
      cases hleaves' : (g.second (g.first k).1).2 with
      | some a =>
          rw [hleaves', Option.getD_some] at htwo
          refine .instruction (hstep 1 (by omega)) htwo ?_
          rw [call_second hleaves hleaves']
          exact .goOn (fun hlink d hd => hstop a _ d hlink hd) calls
      | none =>
          rw [hleaves', Option.getD_none] at htwo
          exact .instruction (hstep 1 (by omega)) htwo (hrest hleaves hleaves')

end Target

/-! ## Calls of a hooked function -/

/-- The patched instructions of the function and its context. -/
def Patched (c : Context) (x : Nat) : Prop :=
  (entryBlock c.targetFunction).Holds x ∨ c.block.Holds x

instance (c : Context) : DecidablePred (Patched c) := fun x =>
  inferInstanceAs (Decidable ((_ ≤ x ∧ x < _) ∨ (_ ≤ x ∧ x < _)))

/-- `{r4, r5, r9, lr}`. -/
def frame : List Reg := listed 0x4230

/-- `{r0-r3}`. -/
def results : List Reg := listed 0x000F

/-- The processor when the stub has called the function. -/
def entered (c : Context) (k : Core) : Core :=
  ((k.push frame).setReg 12 (BitVec.ofNat 32 c.trampoline)).setReg lr (pcAt c.hookStub 3)

/-- The function when it has returned to the stub. -/
def returned (E : Environment) (c : Context) (g : Target) (k : Core) : Machine :=
  g.call E c.targetFunction (entered c k)

/-- The processor then. -/
def finished (E : Environment) (c : Context) (g : Target) (k : Core) : Core :=
  (returned E c g k).core

/-- The processor when the stub has called the hook function. -/
def reported (E : Environment) (c : Context) (g : Target) (k : Core) : Core :=
  ((((finished E c g k).push results).setReg 0 c.userData).setReg 12 c.hookFunction).setReg lr
    (pcAt c.hookStub 7)

/-- The processor when the stub returns. -/
def left (E : Environment) (c : Context) (g : Target) (f : Core → Core) (k : Core) : Core :=
  ((f (reported E c g k)).pop results).pop frame

/-- The same call without the hook. -/
def without (m₀ : Memory) (c : Context) (k : Core) : Core :=
  { k with mem := fun x => if Patched c x then m₀ x else k.mem x }

/-- A function whose first two words do not read `pc`, and an exit hook for it.  The hook
function writes `touched` at most. -/
structure Hooking (E : Environment) (stack : Block) (m₀ : Memory) (c : Context) (g : Target)
    (f : Core → Core) (touched : Nat → Prop) : Prop where
  kind : c.kind = .exit
  firstWord : behaviour E (readWord m₀ c.targetFunction.toNat) = some g.first
  secondWord : behaviour E (readWord m₀ (c.targetFunction.toNat + 4)) = some g.second
  behind : ¬ c.block.Holds (c.targetFunction + 8#32).toNat
  outside : ∀ x, Patched c x → E.functions (BitVec.ofNat 32 x) = none
  hook : E.functions c.hookFunction = some f
  conforms : Conforms stack (Patched c) f
  touches : ∀ k, OnStack stack k → ∀ x, ¬ touched x → (f k).mem x = k.mem x
  offStack : ∀ x, Patched c x → ¬ stack.Holds x

/-- The hook is installed. -/
def Installed (m₀ : Memory) (c : Context) (k : Core) : Prop :=
  ∀ x, Patched c x → k.mem x = execAll m₀ c.hook x

/-- A processor that calls the hooked function. -/
structure Situation (E : Environment) (stack : Block) (m₀ : Memory) (c : Context) (g : Target)
    (f : Core → Core) (touched : Nat → Prop) (k : Core) : Prop
    extends Hooking E stack m₀ c g f touched where
  below : stack.start + 32 ≤ (k.regs sp).toNat
  above : (k.regs sp).toNat ≤ stack.start + stack.size
  code : Installed m₀ c k
  keeps : g.Keeps E c.targetFunction (Patched c) (entered c k)
  keepsWithout : g.Keeps E c.targetFunction (Patched c) (without m₀ c k)

/-- The call ends as without the hook: same `r0` to `r11`, `sp`, return address and
memory at or above `sp`, up to what the hook function wrote beside the stack. -/
structure EndsAs (stack : Block) (c : Context) (touched : Nat → Prop) (k u : Core) (m' : Machine) :
    Prop where
  returns : m'.pc = k.regs lr
  regs : ∀ r ≤ 11, m'.core.regs r = u.regs r
  stackPointer : m'.core.regs sp = u.regs sp
  memory : ∀ x, (k.regs sp).toNat ≤ x → (¬ stack.Holds x → ¬ touched x) → ¬ Patched c x →
    m'.core.mem x = u.mem x

/-- The call comes to the stub's return as it ends without the hook, having called the
hook function once, with its `user_data`, after all that the function ran. -/
def Transparent (E : Environment) (stack : Block) (m₀ : Memory) (c : Context) (g : Target)
    (touched : Nat → Prop) (k : Core) (calls : List Call) : Prop :=
  ∃ m',
    Returns E (g.body c.targetFunction) (pcAt c.hookStub 9) ⟨k, c.targetFunction, calls⟩ m' ∧
    m'.calls = calls ++ ((returned E c g k).calls ++ [callOf c]) ∧
    EndsAs stack c touched k (g.call E c.targetFunction (without m₀ c k)).core m'

/-- Entered with `{r4, r5, r9, lr}` on top of its stack arguments, the function gives
the same results, writes the same to its caller's memory, and leaves the four words. -/
structure Unmoved (E : Environment) (stack : Block) (m₀ : Memory) (c : Context) (g : Target)
    (touched : Nat → Prop) (k : Core) : Prop where
  results : ∀ r ≤ 3, (finished E c g k).regs r =
    (g.call E c.targetFunction (without m₀ c k)).core.regs r
  memory : ∀ x, (k.regs sp).toNat ≤ x → (¬ stack.Holds x → ¬ touched x) → ¬ Patched c x →
    (finished E c g k).mem x = (g.call E c.targetFunction (without m₀ c k)).core.mem x
  frame : readWords (finished E c g k).mem ((k.regs sp).toNat - 16) 4 =
    [k.regs 4, k.regs 5, k.regs 9, k.regs lr]

/-! ## The run -/

theorem length_frame : frame.length = 4 := by decide

theorem length_results : results.length = 4 := by decide

theorem frame_eq : frame = [4, 5, 9, lr] := by decide

theorem mem_results_iff : ∀ r : Reg, r ∈ results ↔ r ≤ 3 := by decide

/-- The registers that the stub neither saves nor loads. -/
theorem preserved_of_notMem : ∀ r : Reg, r ≤ 11 → r ∉ frame → r ∉ results →
    4 ≤ r ∧ r ≠ 0 ∧ r ≠ 12 ∧ r ≠ lr ∧ r ≠ sp := by decide

section Situation

variable {E : Environment} {stack : Block} {m₀ : Memory} {c : Context} {g : Target}
  {f : Core → Core} {touched : Nat → Prop} {k : Core}

theorem entered_sp : (entered c k).regs sp = (k.push frame).regs sp := by
  simp only [entered]
  rw [Core.setReg_of_ne _ (by decide), Core.setReg_of_ne _ (by decide)]

theorem reported_sp : (reported E c g k).regs sp = ((finished E c g k).push results).regs sp := by
  simp only [reported]
  rw [Core.setReg_of_ne _ (by decide), Core.setReg_of_ne _ (by decide),
    Core.setReg_of_ne _ (by decide)]

variable (h : Situation E stack m₀ c g f touched k)
include h

theorem entered_sp_toNat : ((entered c k).regs sp).toNat = (k.regs sp).toNat - 16 := by
  have hbelow := h.below
  rw [entered_sp, k.push_sp_toNat frame (by rw [length_frame]; omega), length_frame]

theorem finished_sp : (finished E c g k).regs sp = (entered c k).regs sp :=
  h.keeps.stackPointer

theorem finished_sp_toNat : ((finished E c g k).regs sp).toNat = (k.regs sp).toNat - 16 := by
  rw [finished_sp h, entered_sp_toNat h]

theorem reported_sp_toNat : ((reported E c g k).regs sp).toNat = (k.regs sp).toNat - 32 := by
  have hbelow := h.below
  have hfinished := finished_sp_toNat h
  rw [reported_sp, Core.push_sp_toNat _ results (by rw [length_results]; omega), length_results]
  omega

theorem reported_onStack : OnStack stack (reported E c g k) := by
  have hbelow := h.below
  have habove := h.above
  rw [OnStack, reported_sp_toNat h]
  omega

/-- Saving the results writes below the saved registers. -/
theorem reported_mem {x : Nat} (hx : ¬ stack.Holds x ∨ (k.regs sp).toNat - 16 ≤ x) :
    (reported E c g k).mem x = (finished E c g k).mem x := by
  have hbelow := h.below
  have habove := h.above
  have hsp := reported_sp_toNat h
  rw [reported_sp] at hsp
  apply (finished E c g k).push_mem_of_outside results
  rw [hsp, length_results]
  simp only [Block.Holds] at hx
  omega

/-- Entering the function writes below its arguments. -/
theorem entered_mem {x : Nat} (hx : ¬ stack.Holds x ∨ (k.regs sp).toNat ≤ x) :
    (entered c k).mem x = k.mem x := by
  have hbelow := h.below
  have habove := h.above
  have hsp := entered_sp_toNat h
  rw [entered_sp] at hsp
  apply k.push_mem_of_outside frame
  rw [hsp, length_frame]
  simp only [Block.Holds] at hx
  omega

/-- The hook function finds the stack and the code, and leaves them. -/
theorem mem_hook {x : Nat} (hx : Patched c x ∨ stack.Holds x ∧ (k.regs sp).toNat - 32 ≤ x) :
    (f (reported E c g k)).mem x = (reported E c g k).mem x := by
  rcases hx with hx | ⟨hx, hle⟩
  · exact h.conforms.patched _ (reported_onStack h) x hx
  · exact h.conforms.frames _ (reported_onStack h) x hx (by rwa [reported_sp_toNat h])

/-! ### The registers when the stub returns -/

theorem hook_sp : (f (reported E c g k)).regs sp = ((finished E c g k).push results).regs sp :=
  (h.conforms.stackPointer _ (reported_onStack h)).trans reported_sp

/-- The saved results are those of the function. -/
theorem saved_results :
    readWords (f (reported E c g k)).mem ((f (reported E c g k)).regs sp).toNat results.length =
      results.map (finished E c g k).regs := by
  have hbelow := h.below
  have habove := h.above
  have hsp := reported_sp_toNat h
  rw [hook_sp h, ← (finished E c g k).readWords_push results]
  rw [reported_sp] at hsp
  refine readWords_congr fun x hle hlt => ?_
  rw [hsp] at hle hlt
  rw [length_results] at hlt
  exact mem_hook h (.inr ⟨⟨by omega, by omega⟩, hle⟩)

theorem popped_sp : ((f (reported E c g k)).pop results).regs sp = (k.push frame).regs sp := by
  rw [(finished E c g k).pop_push_sp results (hook_sp h), finished_sp h, entered_sp]

theorem left_sp : (left E c g f k).regs sp = k.regs sp := k.pop_push_sp frame (popped_sp h)

theorem left_results {r : Reg} (hr : r ≤ 3) :
    (left E c g f k).regs r = (finished E c g k).regs r := by
  have hmem := (mem_results_iff r).mpr hr
  have hout : ∀ r : Reg, r ≤ 3 → r ∉ frame ∧ r ≠ sp := by decide
  obtain ⟨hnot, hne⟩ := hout r hr
  rw [left, Core.pop_of_notMem _ frame hnot hne]
  exact (Core.pop_eq_iff _ results (by decide) (by decide) _).mpr (saved_results h) r hmem

theorem left_preserved {r : Reg} (hr : r ≤ 11) (hframe : r ∉ frame) (hresults : r ∉ results) :
    (left E c g f k).regs r = k.regs r := by
  obtain ⟨hlow, h0, h12, hlr, hsp⟩ := preserved_of_notMem r hr hframe hresults
  rw [left, Core.pop_of_notMem _ frame hframe hsp, Core.pop_of_notMem _ results hresults hsp,
    h.conforms.regs _ (reported_onStack h) r hlow hr]
  simp only [reported]
  rw [Core.setReg_of_ne _ hlr, Core.setReg_of_ne _ h12, Core.setReg_of_ne _ h0,
    Core.push_regs_of_ne _ results hsp]
  have hkept : (finished E c g k).regs r = (entered c k).regs r := h.keeps.regs r hlow hr
  rw [hkept]
  simp only [entered]
  rw [Core.setReg_of_ne _ hlr, Core.setReg_of_ne _ h12, k.push_regs_of_ne frame hsp]

/-- The saved registers come back if the function left the words on the stack. -/
theorem left_frame_iff : (∀ r ∈ frame, (left E c g f k).regs r = k.regs r) ↔
    readWords (finished E c g k).mem ((k.regs sp).toNat - 16) 4 =
      [k.regs 4, k.regs 5, k.regs 9, k.regs lr] := by
  have hbelow := h.below
  have habove := h.above
  have hsp : (((f (reported E c g k)).pop results).regs sp).toNat = (k.regs sp).toNat - 16 := by
    rw [popped_sp h, ← entered_sp (c := c), entered_sp_toNat h]
  have hwords : readWords ((f (reported E c g k)).pop results).mem
      (((f (reported E c g k)).pop results).regs sp).toNat frame.length =
      readWords (finished E c g k).mem ((k.regs sp).toNat - 16) 4 := by
    rw [hsp, length_frame]
    refine readWords_congr fun x hle hlt => ?_
    rw [Core.pop_mem, mem_hook h (.inr ⟨⟨by omega, by omega⟩, by omega⟩), reported_mem h (.inr hle)]
  rw [← hwords, left, Core.pop_eq_iff _ frame (by decide) (by decide) k.regs, frame_eq]
  rfl

theorem left_mem {x : Nat} (hle : (k.regs sp).toNat ≤ x) (hx : ¬ stack.Holds x → ¬ touched x) :
    (left E c g f k).mem x = (finished E c g k).mem x := by
  have hhook : (left E c g f k).mem x = (reported E c g k).mem x := by
    by_cases hstack : stack.Holds x
    · exact mem_hook h (.inr ⟨hstack, by omega⟩)
    · exact h.touches _ (reported_onStack h) x (hx hstack)
  rw [hhook, reported_mem h (.inr (by omega))]

/-! ### The code -/

theorem size_context : c.kind.size = 88 := by rw [h.kind]; rfl

theorem inside_stub {x : Nat} (hle : c.hookStub ≤ x) (hlt : x < c.hookStub + 4 * 13) :
    c.block.Holds x := by
  have hsize := size_context h
  simp only [Context.hookStub] at hle hlt
  simp only [Context.block, Block.Holds]
  omega

theorem inside_trampoline {x : Nat} (hle : c.trampoline ≤ x) (hlt : x < c.trampoline + 4 * 4) :
    c.block.Holds x := by
  have hsize := size_context h
  simp only [Context.trampoline, h.kind, HookKind.stubLength] at hle hlt
  simp only [Context.block, Block.Holds]
  omega

/-- An address in the context is neither that of the body nor that of the function. -/
theorem notBody {x : Nat} (hx : c.block.Holds x) :
    BitVec.ofNat 32 x ≠ c.targetFunction + 8#32 ∧ c.targetFunction ≠ BitVec.ofNat 32 x := by
  have hfits := c.fits
  have hlt : x < 2 ^ 32 := lt_of_lt_of_le hx.2 hfits
  have htoNat : (BitVec.ofNat 32 x).toNat = x := by rw [BitVec.toNat_ofNat, Nat.mod_eq_of_lt hlt]
  refine ⟨fun heq => ?_, fun heq => ?_⟩
  · rw [heq] at htoNat
    exact h.behind (by rwa [htoNat])
  · rw [← heq] at htoNat
    refine c.apart x ?_ hx
    rw [← htoNat]
    exact ⟨le_refl _, Nat.lt_add_of_pos_right (show 0 < 8 by omega)⟩

theorem stepwise_stub {i : Nat} (hi : i < 9) :
    Stepwise E (g.body c.targetFunction) (· = pcAt c.hookStub 9) (pcAt c.hookStub i) := by
  have hfits := c.fits
  have hsize := size_context h
  have hinside : c.block.Holds (c.hookStub + 4 * i) := inside_stub h (by omega) (by omega)
  refine ⟨(notBody h hinside).1, h.outside _ (.inr hinside), fun heq => ?_⟩
  have htoNat := congrArg BitVec.toNat heq
  simp only [pcAt, Context.hookStub, BitVec.toNat_ofNat] at htoNat
  omega

theorem stepwise_trampoline {i : Nat} (hi : i < 4) :
    Stepwise E (g.body c.targetFunction) (· = pcAt c.hookStub 9) (pcAt c.trampoline i) := by
  have hfits := c.fits
  have hsize := size_context h
  have hinside : c.block.Holds (c.trampoline + 4 * i) := inside_trampoline h (by omega) (by omega)
  refine ⟨(notBody h hinside).1, h.outside _ (.inr hinside), fun heq => ?_⟩
  have htoNat := congrArg BitVec.toNat heq
  simp only [pcAt, Context.hookStub, Context.trampoline, h.kind, HookKind.stubLength,
    BitVec.toNat_ofNat] at htoNat
  omega

/-- The stub's return: not the body, and not a function. -/
theorem stop_eq {a : Word} {k' : Core} {d : Machine}
    (hd : atOnce E (g.body c.targetFunction) a k' = some d) : a ≠ pcAt c.hookStub 9 := by
  have hinside : c.block.Holds (c.hookStub + 4 * 9) := inside_stub h (by omega) (by omega)
  rintro rfl
  rw [atOnce, if_neg (show pcAt c.hookStub 9 ≠ (g.body c.targetFunction).start from
    (notBody h hinside).1), show E.functions (pcAt c.hookStub 9) = none from
      h.outside _ (.inr hinside)] at hd
  exact absurd hd (by simp)

theorem code_target : CodeAt k.mem c.targetFunction.toNat c.jumpWords := by
  refine ⟨?_, c.targetFits⟩
  rw [← (hooked c m₀).target]
  exact readWords_congr fun x hle hlt => h.code x (.inl ⟨hle, hlt⟩)

theorem code_stub {m : Memory} (hm : ∀ x, Patched c x → m x = k.mem x) :
    CodeAt m c.hookStub
      (exitHookStub c.userData c.hookFunction (BitVec.ofNat 32 c.trampoline)) := by
  have hfits := c.fits
  have hsize := size_context h
  have hlength : c.kind.stubLength = 13 := by rw [h.kind]; rfl
  have hwords : c.stubWords =
      exitHookStub c.userData c.hookFunction (BitVec.ofNat 32 c.trampoline) := by
    simp only [Context.stubWords, h.kind]
  refine ⟨?_, ?_⟩
  · rw [← hwords, c.length_stubWords, ← (hooked c m₀).stub]
    refine readWords_congr fun x hle hlt => ?_
    rw [hlength] at hlt
    have hx : Patched c x := .inr (inside_stub h hle hlt)
    rw [hm x hx, h.code x hx]
  · show c.hookStub + 4 * 13 ≤ 2 ^ 32
    simp only [Context.hookStub]
    omega

theorem code_trampoline {m : Memory} (hm : ∀ x, Patched c x → m x = k.mem x) :
    CodeAt m c.trampoline (original m₀ c.targetFunction ++ trampolineEnd c.targetFunction) := by
  have hfits := c.fits
  have hsize := size_context h
  refine ⟨?_, ?_⟩
  · rw [← (hooked c m₀).trampoline]
    refine readWords_congr fun x hle hlt => ?_
    have hx : Patched c x := .inr (inside_trampoline h hle hlt)
    rw [hm x hx, h.code x hx]
  · show c.trampoline + 4 * 4 ≤ 2 ^ 32
    simp only [Context.trampoline, h.kind, HookKind.stubLength]
    omega


/-! ### Instruction by instruction -/

/-- The stub's code is there when the function is entered, … -/
theorem code_entered {x : Nat} (hx : Patched c x) : (entered c k).mem x = k.mem x :=
  entered_mem h (.inl (h.offStack x hx))

/-- … when it is done, … -/
theorem code_finished {x : Nat} (hx : Patched c x) : (finished E c g k).mem x = k.mem x :=
  (h.keeps.patched x hx).trans (code_entered h hx)

/-- … when the hook function is called, … -/
theorem code_reported {x : Nat} (hx : Patched c x) : (reported E c g k).mem x = k.mem x :=
  (reported_mem h (.inl (h.offStack x hx))).trans (code_finished h hx)

/-- … and when that is done. -/
theorem code_hook {x : Nat} (hx : Patched c x) : (f (reported E c g k)).mem x = k.mem x :=
  (mem_hook h (.inl hx)).trans (code_reported h hx)

/-- From the jump to the trampoline, with the stub as the return address. -/
theorem reaches_trampoline (calls : List Call) :
    Reaches E (g.body c.targetFunction) (· = pcAt c.hookStub 9) ⟨k, c.targetFunction, calls⟩
      ⟨entered c k, pcAt c.trampoline 0, calls⟩ := by
  have hsave : effect E (encode (.stmdb 0x4230)) = some (·.push frame) :=
    effect_stmdb (by decide) (by decide)
  have hpushed : CodeAt (k.push frame).mem c.hookStub _ :=
    code_stub h fun _ hx => code_entered h hx
  have hloaded : CodeAt ((k.push frame).setReg 12 (BitVec.ofNat 32 c.trampoline)).mem
      c.hookStub _ := hpushed
  have htarget : Stepwise E (g.body c.targetFunction) (· = pcAt c.hookStub 9)
      c.targetFunction := by
    have hentry : (entryBlock c.targetFunction).Holds c.targetFunction.toNat :=
      ⟨le_refl _, Nat.lt_add_of_pos_right (show 0 < 8 by omega)⟩
    have hfunction := h.outside _ (.inl hentry)
    rw [BitVec.ofNat_toNat, BitVec.setWidth_eq] at hfunction
    exact ⟨by simp [Target.body], hfunction, (notBody h (inside_stub h (by omega) (by omega))).2⟩
  have hjump : step E ⟨k, pcAt c.targetFunction.toNat 0, calls⟩ =
      some ⟨k, BitVec.ofNat 32 c.hookStub, calls⟩ := (code_target h).step_ldrPc 0 rfl rfl
    (literal_sub _ (show 4 * 0 + 8 = 4 * 1 + 4 by rfl)) rfl
  rw [pcAt_toNat, BitVec.add_zero] at hjump
  refine .instruction htarget hjump ?_
  refine .instruction (stepwise_stub (i := 0) h (by omega))
    ((code_stub h fun _ _ => rfl).step_effect 0 rfl hsave) ?_
  refine .instruction (stepwise_stub h (by omega))
    (hpushed.step_ldr 1 rfl rfl (literal_add _ (show 4 * 1 + 8 + 28 = 4 * 10 by rfl)) rfl) ?_
  have htrampoline : c.block.Holds c.trampoline := inside_trampoline h le_rfl (by omega)
  refine .instruction (stepwise_stub h (by omega))
    (hloaded.step_branch 2 rfl rfl (h.outside _ (.inr htrampoline))) ?_
  exact .refl _

/-- The trampoline, and the function up to its return to the stub. -/
theorem reaches_returned (calls : List Call) :
    Reaches E (g.body c.targetFunction) (· = pcAt c.hookStub 9)
      ⟨entered c k, pcAt c.trampoline 0, calls⟩
      ⟨finished E c g k, pcAt c.hookStub 3, calls ++ (returned E c g k).calls⟩ := by
  have hlink : (entered c k).regs lr = pcAt c.hookStub 3 := Core.setReg_self ..
  have hreturns : (returned E c g k).pc = pcAt c.hookStub 3 := h.keeps.returns.trans hlink
  rw [← hreturns]
  refine Target.reaches_call (trampolineEnd c.targetFunction) calls
    (code_trampoline h fun _ hx => code_entered h hx) h.firstWord h.secondWord ?_
    (fun i hi => stepwise_trampoline h (by omega)) (fun a k' d _ hd => stop_eq h hd) ?_
  · exact fun hfirst => code_trampoline h fun x hx =>
      (h.keeps.first hfirst x hx).trans (code_entered h hx)
  · intro hfirst hsecond
    have hend : CodeAt (g.second (g.first (entered c k)).1).1.mem c.trampoline _ :=
      code_trampoline h fun x hx => (h.keeps.second hfirst hsecond x hx).trans (code_entered h hx)
    refine .instruction (stepwise_trampoline h (by omega))
      (hend.step_ldrPc 2 rfl rfl (literal_sub _ (show 4 * 2 + 8 = 4 * 3 + 4 by rfl)) rfl) ?_
    rw [Target.call_rest hfirst hsecond]
    refine .body (b := g.body c.targetFunction) (fun heq => ?_) calls
    exact (notBody h (inside_stub h (by omega) (by omega))).1 heq.symm

/-- From the function's return to the stub's. -/
theorem reaches_left (calls : List Call) :
    Reaches E (g.body c.targetFunction) (· = pcAt c.hookStub 9)
      ⟨finished E c g k, pcAt c.hookStub 3, calls⟩
      ⟨left E c g f k, pcAt c.hookStub 9, calls ++ [callOf c]⟩ := by
  have hsave : effect E (encode (.stmdb 0x000F)) = some (·.push results) :=
    effect_stmdb (by decide) (by decide)
  have hrestoreResults : effect E (encode (.ldmia 0x000F)) = some (·.pop results) :=
    effect_ldmia (by decide) (by decide)
  have hrestore : effect E (encode (.ldmia 0x4230)) = some (·.pop frame) :=
    effect_ldmia (by decide) (by decide)
  have hdone : CodeAt (finished E c g k).mem c.hookStub _ :=
    code_stub h fun _ hx => code_finished h hx
  have hsaved : CodeAt ((finished E c g k).push results).mem c.hookStub _ :=
    code_stub h fun _ hx => code_reported h hx
  have huser : CodeAt (((finished E c g k).push results).setReg 0 c.userData).mem c.hookStub _ :=
    hsaved
  have hcall : CodeAt ((((finished E c g k).push results).setReg 0 c.userData).setReg 12
      c.hookFunction).mem c.hookStub _ := hsaved
  have hback : CodeAt (f (reported E c g k)).mem c.hookStub _ :=
    code_stub h fun _ hx => code_hook h hx
  have hrestored : CodeAt ((f (reported E c g k)).pop results).mem c.hookStub _ := hback
  refine .instruction (stepwise_stub h (by omega)) (hdone.step_effect 3 rfl hsave) ?_
  refine .instruction (stepwise_stub h (by omega))
    (hsaved.step_ldr 4 rfl rfl (literal_add _ (show 4 * 4 + 8 + 20 = 4 * 11 by rfl)) rfl) ?_
  refine .instruction (stepwise_stub h (by omega))
    (huser.step_ldr 5 rfl rfl (literal_add _ (show 4 * 5 + 8 + 20 = 4 * 12 by rfl)) rfl) ?_
  refine .instruction (stepwise_stub h (by omega)) (hcall.step_call 6 rfl rfl h.hook) ?_
  refine .instruction (stepwise_stub h (by omega)) (hback.step_effect 7 rfl hrestoreResults) ?_
  refine .instruction (stepwise_stub h (by omega)) (hrestored.step_effect 8 rfl hrestore) ?_
  exact .refl _

/-- **The call.**  It enters the function with the stub as its return address, and
comes to the stub's return. -/
theorem runs_to_return (calls : List Call) :
    Returns E (g.body c.targetFunction) (pcAt c.hookStub 9) ⟨k, c.targetFunction, calls⟩
      ⟨left E c g f k, (left E c g f k).regs lr,
        calls ++ ((returned E c g k).calls ++ [callOf c])⟩ := by
  have hleft : CodeAt (left E c g f k).mem c.hookStub _ := code_stub h fun _ hx => code_hook h hx
  have hruns := ((reaches_trampoline h calls).trans (reaches_returned h calls)).trans
    (reaches_left h _)
  rw [List.append_assoc] at hruns
  exact ⟨_, ⟨hruns, rfl⟩, hleft.step_bx 9 rfl rfl⟩

/-! ## One call -/

/-- The registers a call preserves come back with the hook and without. -/
theorem left_eq_iff {r : Reg} (hlow : 4 ≤ r) (hhigh : r ≤ 11) :
    (left E c g f k).regs r = (g.call E c.targetFunction (without m₀ c k)).core.regs r ↔
      (left E c g f k).regs r = k.regs r := by
  rw [h.keepsWithout.regs r hlow hhigh]
  rfl

/-- A call is transparent if the four words that the stub pushes make no difference to
the function, and not otherwise. -/
theorem transparent_iff_unmoved (calls : List Call) :
    Transparent E stack m₀ c g touched k calls ↔ Unmoved E stack m₀ c g touched k := by
  have hruns := runs_to_return h calls
  constructor
  · rintro ⟨m', hreturns, -, hends⟩
    obtain rfl := hreturns.unique hruns
    refine ⟨fun r hr => ?_, fun x hle htouched hcode => ?_, (left_frame_iff h).mp fun r hr => ?_⟩
    · rw [← hends.regs r (le_trans hr (by decide)), left_results h hr]
    · rw [← hends.memory x hle htouched hcode, left_mem h hle htouched]
    · by_cases hlr : r = lr
      · rw [hlr]
        exact hends.returns
      · have hrange : ∀ r ∈ frame, r ≠ lr → 4 ≤ r ∧ r ≤ 11 := by decide
        obtain ⟨hlow, hhigh⟩ := hrange r hr hlr
        exact (left_eq_iff h hlow hhigh).mp (hends.regs r hhigh)
  · intro hunmoved
    have hframe := (left_frame_iff h).mpr hunmoved.frame
    refine ⟨_, hruns, rfl,
      ⟨hframe lr (by decide), fun r hr => ?_, ?_, fun x hle htouched hcode => ?_⟩⟩
    · by_cases hresult : r ∈ results
      · have hsmall := (mem_results_iff r).mp hresult
        rw [left_results h hsmall]
        exact hunmoved.results r hsmall
      · have hsplit : ∀ r : Reg, r ∉ results → r ≤ 11 → 4 ≤ r := by decide
        apply (left_eq_iff h (hsplit r hresult hr) hr).mpr
        by_cases hmem : r ∈ frame
        · exact hframe r hmem
        · exact left_preserved h hr hmem hresult
    · rw [left_sp h, h.keepsWithout.stackPointer]
      rfl
    · rw [left_mem h hle htouched]
      exact hunmoved.memory x hle htouched hcode

/-- Without the hook, the call executes the function as a whole and returns. -/
theorem runs_without (hreturn : ∀ i ≤ 2, pcAt c.targetFunction.toNat i ≠ k.regs lr)
    (calls : List Call) :
    FirstAt E (g.body c.targetFunction) (k.regs lr) ⟨without m₀ c k, c.targetFunction, calls⟩
      ⟨(g.call E c.targetFunction (without m₀ c k)).core, k.regs lr,
        calls ++ (g.call E c.targetFunction (without m₀ c k)).calls⟩ := by
  have hfits := c.targetFits
  have hback : (g.call E c.targetFunction (without m₀ c k)).pc = k.regs lr := h.keepsWithout.returns
  have hzero : pcAt c.targetFunction.toNat 0 = c.targetFunction := by
    rw [pcAt_toNat, BitVec.add_zero]
  have htwo : pcAt c.targetFunction.toNat 2 = c.targetFunction + 8#32 := pcAt_toNat _ 2
  have horiginal : CodeAt (without m₀ c k).mem c.targetFunction.toNat
      [readWord m₀ c.targetFunction.toNat, readWord m₀ (c.targetFunction.toNat + 4)] :=
    ⟨readWords_congr fun x hle hlt => if_pos (.inl ⟨hle, hlt⟩), hfits⟩
  have hstep : ∀ i < 2, Stepwise E (g.body c.targetFunction) (· = k.regs lr)
      (pcAt c.targetFunction.toNat i) := by
    intro i hi
    have hentry : (entryBlock c.targetFunction).Holds (c.targetFunction.toNat + 4 * i) := by
      simp only [Block.Holds, entryBlock]
      omega
    refine ⟨fun heq => ?_, h.outside _ (.inl hentry), hreturn i (by omega)⟩
    have htoNat := congrArg BitVec.toNat heq
    simp only [pcAt, Target.body, BitVec.toNat_add, BitVec.toNat_ofNat] at htoNat
    omega
  refine ⟨?_, rfl⟩
  have hruns := Target.reaches_call [] calls horiginal h.firstWord h.secondWord
    (fun hfirst => horiginal.congr fun x hle hlt => h.keepsWithout.first hfirst x (.inl ⟨hle, hlt⟩))
    hstep (fun a k' d hlink _ => hlink) ?_
  · rwa [hzero, hback] at hruns
  · intro hfirst hsecond
    rw [Target.call_rest hfirst hsecond, htwo]
    have hbody := hreturn 2 le_rfl
    rw [htwo] at hbody
    exact .body (b := g.body c.targetFunction) hbody calls

end Situation

end NspireUtils.Ports.ExitHooks
