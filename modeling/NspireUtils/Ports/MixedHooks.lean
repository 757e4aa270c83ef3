import NspireUtils.Ports.ExitHookArguments

/-!
# Hooks of both kinds on one function

What a call of a function executes that has any number of entry and exit hooks,
installed in any order.  The newest hook comes first.  An entry hook calls its
function and goes on to the next older hook; an exit hook calls what is older as a
function, and then its own.

So the entry hooks' functions run before the original function, the newest first,
and the exit hooks' after it, the oldest first, and the original function runs once,
with its stack pointer lower by 16 for each exit hook.  `hooked_call` is the theorem.
-/

namespace NspireUtils.Ports.MixedHooks

open NspireUtils.Verified.ByteMemory
open NspireUtils.Verified.ArmBanks (Reg sp)
open NspireUtils.Verified.WordStores
open NspireUtils.Verified.ArmCode
open NspireUtils.Verified.ArmCalls
open NspireUtils.Ports.Hooks
open NspireUtils.Ports.HookRuns
open NspireUtils.Ports.EntryHooks (OnStack Conforms Patched afterHook callOf saved installed)
open NspireUtils.Ports.ExitHooks (Target frame results entered)
open NspireUtils.Ports.ExitHookArguments (constantMemory constantTarget call_constant
  exampleEnvironment functions_example second_constant setReg_preserved)

/-! ## What a call computes -/

/-- The processor behind the stub's first part: an entry hook has called its function, an
exit hook has saved the return address. -/
def into (E : Environment) (c : Context) (k : Core) : Core :=
  match c.kind with
  | .entry => afterHook E c k
  | .exit => entered c k

/-- The processor when the stub of an exit hook has called the hook function. -/
def reporting (c : Context) (u : Core) : Core :=
  (((u.push results).setReg 0 c.userData).setReg 12 c.hookFunction).setReg lr (pcAt c.hookStub 7)

/-- The processor behind the stub's last part. -/
def outOf (E : Environment) (c : Context) (u : Core) : Core :=
  match c.kind, E.functions c.hookFunction with
  | .exit, some f => ((f (reporting c u)).pop results).pop frame
  | _, _ => u

/-- The processor when the original instructions are reached. -/
def atOriginal (E : Environment) : List Context → Core → Core
  | [], k => k
  | c :: older, k => atOriginal E older (into E c k)

/-- The processor when the call returns. -/
def whole (E : Environment) (t : Word) (g : Target) : List Context → Core → Core
  | [], k => (g.call E t k).core
  | c :: older, k => outOf E c (whole E t g older (into E c k))

/-- The hooks of a kind. -/
def ofKind (kind : HookKind) (hooks : List Context) : List Context :=
  hooks.filter fun c => c.kind = kind

/-- The calls of the hook functions, around those the function makes. -/
def callsOf (own : List Call) (hooks : List Context) : List Call :=
  (ofKind .entry hooks).map callOf ++ (own ++ (ofKind .exit hooks).reverse.map callOf)

/-- The stack the hooks need. -/
def need : List Context → Nat
  | [] => 0
  | c :: older =>
      match c.kind with
      | .entry => max 40 (need older)
      | .exit => 16 + max 16 (need older)

section Kinds

variable {E : Environment} {c : Context}

theorem into_entry (hkind : c.kind = .entry) (k : Core) : into E c k = afterHook E c k := by
  simp only [into, hkind]

theorem into_exit (hkind : c.kind = .exit) (k : Core) : into E c k = entered c k := by
  simp only [into, hkind]

theorem outOf_entry (hkind : c.kind = .entry) (u : Core) : outOf E c u = u := by
  simp only [outOf, hkind]

theorem need_entry (hkind : c.kind = .entry) (older : List Context) :
    need (c :: older) = max 40 (need older) := by
  simp only [need, hkind]

theorem need_exit (hkind : c.kind = .exit) (older : List Context) :
    need (c :: older) = 16 + max 16 (need older) := by
  simp only [need, hkind]

theorem callsOf_entry (hkind : c.kind = .entry) (own : List Call) (older : List Context) :
    callsOf own (c :: older) = callOf c :: callsOf own older := by
  simp [callsOf, ofKind, hkind]

theorem callsOf_exit (hkind : c.kind = .exit) (own : List Call) (older : List Context) :
    callsOf own (c :: older) = callsOf own older ++ [callOf c] := by
  simp [callsOf, ofKind, hkind]

end Kinds

/-- What a call keeps: `r4` to `r11`, the stack from its stack pointer up to `top`, and
the patched code. -/
structure Kept (patched : Nat → Prop) (top : Nat) (k k' : Core) : Prop where
  regs : ∀ r, 4 ≤ r → r ≤ 11 → k'.regs r = k.regs r
  stackPointer : k'.regs sp = k.regs sp
  frames : ∀ x, (k.regs sp).toNat ≤ x → x < top → k'.mem x = k.mem x
  patched : ∀ x, patched x → k'.mem x = k.mem x

/-! ## The last part of an exit hook -/

section Exit

variable {E : Environment} {stack : Block} {patched : Nat → Prop} {top : Nat} {c : Context}
  {f : Core → Core} {k u : Core}

/-- Entering writes below the stack pointer. -/
theorem entered_mem (hlow : 16 ≤ (k.regs sp).toNat) {x : Nat}
    (hx : x < (k.regs sp).toNat - 16 ∨ (k.regs sp).toNat ≤ x) : (entered c k).mem x = k.mem x := by
  refine k.push_mem_of_outside frame ?_
  rw [k.push_sp_toNat frame hlow, ExitHooks.length_frame]
  omega

theorem entered_sp_toNat (hlow : 16 ≤ (k.regs sp).toNat) :
    ((entered c k).regs sp).toNat = (k.regs sp).toNat - 16 := by
  rw [ExitHooks.entered_sp, k.push_sp_toNat frame hlow, ExitHooks.length_frame]

/-- The saved registers are at the stack pointer. -/
theorem entered_frame (hlow : 16 ≤ (k.regs sp).toNat) :
    readWords (entered c k).mem ((k.regs sp).toNat - 16) 4 = frame.map k.regs := by
  have hpush := k.readWords_push frame
  rwa [k.push_sp_toNat frame hlow] at hpush

theorem entered_regs {r : Reg} (hr : r ≤ 11) : (entered c k).regs r = k.regs r := by
  have hne : ∀ r : Reg, r ≤ 11 → r ≠ lr ∧ r ≠ 12 ∧ r ≠ sp := by decide
  obtain ⟨hlr, h12, hsp⟩ := hne r hr
  simp only [entered]
  rw [Core.setReg_of_ne _ hlr, Core.setReg_of_ne _ h12, Core.push_regs_of_ne _ frame hsp]

theorem reporting_sp : (reporting c u).regs sp = (u.push results).regs sp := by
  simp only [reporting]
  rw [Core.setReg_of_ne _ (by decide), Core.setReg_of_ne _ (by decide),
    Core.setReg_of_ne _ (by decide)]

variable (hf : E.functions c.hookFunction = some f) (hconforms : Conforms stack patched f)
  (hkind : c.kind = .exit) (hlow : stack.start + 32 ≤ (k.regs sp).toNat)
  (hhigh : (k.regs sp).toNat ≤ top) (htop : top ≤ stack.start + stack.size)
  (hoff : ∀ x, patched x → ¬ stack.Holds x) (hu : Kept patched top (entered c k) u)

include hlow hu in
theorem inner_sp : (u.regs sp).toNat = (k.regs sp).toNat - 16 := by
  rw [hu.stackPointer, entered_sp_toNat (by omega)]

include hlow hu in
theorem reporting_sp_toNat : ((reporting c u).regs sp).toNat = (k.regs sp).toNat - 32 := by
  have hsp := inner_sp hlow hu
  rw [reporting_sp, u.push_sp_toNat results (by rw [ExitHooks.length_results]; omega),
    ExitHooks.length_results]
  omega

include hlow hhigh htop hu in
theorem reporting_onStack : OnStack stack (reporting c u) := by
  rw [OnStack, reporting_sp_toNat hlow hu]
  omega

include hlow hu in
/-- Saving the results writes below the saved registers. -/
theorem reporting_mem {x : Nat}
    (hx : x < (k.regs sp).toNat - 32 ∨ (k.regs sp).toNat - 16 ≤ x) :
    (reporting c u).mem x = u.mem x := by
  have hsp := reporting_sp_toNat hlow hu
  rw [reporting_sp] at hsp
  refine u.push_mem_of_outside results ?_
  rw [hsp, ExitHooks.length_results]
  omega

include hconforms hlow hhigh htop hu in
/-- The hook function leaves the stack. -/
theorem reported_frames {x : Nat} (hle : (k.regs sp).toNat - 32 ≤ x) (hlt : x < top) :
    (f (reporting c u)).mem x = (reporting c u).mem x := by
  refine hconforms.frames _ (reporting_onStack hlow hhigh htop hu) x ⟨by omega, by omega⟩ ?_
  rwa [reporting_sp_toNat hlow hu]

include hconforms hlow hhigh htop hu in
theorem reported_sp : (f (reporting c u)).regs sp = (u.push results).regs sp :=
  (hconforms.stackPointer _ (reporting_onStack hlow hhigh htop hu)).trans reporting_sp

include hconforms hlow hhigh htop hu in
theorem popped_sp : ((f (reporting c u)).pop results).regs sp = u.regs sp :=
  u.pop_push_sp results (reported_sp hconforms hlow hhigh htop hu)

include hconforms hlow hhigh htop hu in
/-- The results come back. -/
theorem popped_results {r : Reg} (hr : r ≤ 3) :
    ((f (reporting c u)).pop results).regs r = u.regs r := by
  have hsp := reporting_sp_toNat hlow hu
  rw [reporting_sp] at hsp
  have hwords : readWords (f (reporting c u)).mem ((f (reporting c u)).regs sp).toNat
      results.length = results.map u.regs := by
    rw [reported_sp hconforms hlow hhigh htop hu, ← u.readWords_push results]
    refine readWords_congr fun x hle hlt => ?_
    rw [hsp] at hle hlt
    rw [ExitHooks.length_results] at hlt
    exact reported_frames hconforms hlow hhigh htop hu hle (by omega)
  exact (Core.pop_eq_iff _ results (by decide) (by decide) _).mpr hwords r
    ((ExitHooks.mem_results_iff r).mpr hr)

include hconforms hlow hhigh htop hu in
theorem popped_mem {x : Nat} (hle : (k.regs sp).toNat - 16 ≤ x) (hlt : x < top) :
    (f (reporting c u)).mem x = u.mem x := by
  rw [reported_frames hconforms hlow hhigh htop hu (by omega) hlt,
    reporting_mem hlow hu (.inr hle)]

include hconforms hlow hhigh htop hu in
/-- The saved registers come back. -/
theorem popped_frame {r : Reg} (hr : r ∈ frame) :
    (((f (reporting c u)).pop results).pop frame).regs r = k.regs r := by
  have hwords : readWords ((f (reporting c u)).pop results).mem
      (((f (reporting c u)).pop results).regs sp).toNat frame.length = frame.map k.regs := by
    rw [popped_sp hconforms hlow hhigh htop hu, inner_sp hlow hu,
      ← entered_frame (c := c) (by omega)]
    refine readWords_congr fun x hle hlt => ?_
    rw [ExitHooks.length_frame] at hlt
    rw [Core.pop_mem, popped_mem hconforms hlow hhigh htop hu hle (by omega)]
    exact hu.frames x (by rwa [entered_sp_toNat (by omega)]) (by omega)
  exact (Core.pop_eq_iff _ frame (by decide) (by decide) _).mpr hwords r hr

include hf hkind in
theorem outOf_eq : outOf E c u = ((f (reporting c u)).pop results).pop frame := by
  rw [outOf, hkind, hf]

include hf hkind hconforms hlow hhigh htop hu in
theorem outOf_results {r : Reg} (hr : r ≤ 3) : (outOf E c u).regs r = u.regs r := by
  have hout : ∀ r : Reg, r ≤ 3 → r ∉ frame ∧ r ≠ sp := by decide
  obtain ⟨hnot, hne⟩ := hout r hr
  rw [outOf_eq hf hkind, Core.pop_of_notMem _ frame hnot hne,
    popped_results hconforms hlow hhigh htop hu hr]

include hf hkind hconforms hlow hhigh htop hu in
/-- Above the saved registers, the stack is as the call within left it. -/
theorem outOf_stack {x : Nat} (hx : stack.Holds x) (hle : (k.regs sp).toNat - 16 ≤ x) :
    (outOf E c u).mem x = u.mem x := by
  rw [outOf_eq hf hkind, Core.pop_mem, Core.pop_mem, ← reporting_mem hlow hu (.inr hle)]
  refine hconforms.frames _ (reporting_onStack hlow hhigh htop hu) x hx ?_
  rw [reporting_sp_toNat hlow hu]
  omega

include hf hkind hconforms hlow hhigh htop hu in
/-- Registers that are neither saved nor results. -/
theorem outOf_others {r : Reg} (hr : r ≤ 11) (hframe : r ∉ frame) (hresults : r ∉ results) :
    (outOf E c u).regs r = k.regs r := by
  obtain ⟨hfour, h0, h12, hlr, hsp⟩ := ExitHooks.preserved_of_notMem r hr hframe hresults
  rw [outOf_eq hf hkind, Core.pop_of_notMem _ frame hframe hsp,
    Core.pop_of_notMem _ results hresults hsp,
    hconforms.regs _ (reporting_onStack hlow hhigh htop hu) r hfour hr]
  simp only [reporting]
  rw [Core.setReg_of_ne _ hlr, Core.setReg_of_ne _ h12, Core.setReg_of_ne _ h0,
    Core.push_regs_of_ne _ results hsp, hu.regs r hfour hr, entered_regs hr]

include hf hkind hconforms hlow hhigh htop hu hoff in
/-- The exit hook keeps what the call within keeps. -/
theorem outOf_kept : Kept patched top k (outOf E c u) where
  regs r hfour hr := by
    by_cases hframe : r ∈ frame
    · rw [outOf_eq hf hkind, popped_frame hconforms hlow hhigh htop hu hframe]
    · refine outOf_others hf hconforms hkind hlow hhigh htop hu hr hframe fun hresults => ?_
      exact absurd (le_trans hfour ((ExitHooks.mem_results_iff r).mp hresults)) (by decide)
  stackPointer := by
    rw [outOf_eq hf hkind]
    refine k.pop_push_sp frame ?_
    rw [popped_sp hconforms hlow hhigh htop hu, hu.stackPointer, ExitHooks.entered_sp]
  frames x hle hlt := by
    rw [outOf_stack hf hconforms hkind hlow hhigh htop hu ⟨by omega, by omega⟩ (by omega),
      hu.frames x (by rw [entered_sp_toNat (by omega)]; omega) hlt,
      entered_mem (by omega) (.inr hle)]
  patched x hx := by
    have hnot := hoff x hx
    simp only [Block.Holds] at hnot
    rw [outOf_eq hf hkind, Core.pop_mem, Core.pop_mem,
      hconforms.patched _ (reporting_onStack hlow hhigh htop hu) x hx,
      reporting_mem hlow hu (by omega), hu.patched x hx, entered_mem (by omega) (by omega)]

end Exit

/-! ## The call -/

/-- A function whose first two words do not read `pc`, hooks on it, and where they may
run. -/
structure Situation (E : Environment) (stack : Block) (m₀ : Memory) (t : Word)
    (cs : List Context) (g : Target) : Prop where
  target : t.toNat + 8 ≤ 2 ^ 32
  targets : ∀ c ∈ cs, c.targetFunction = t
  apart : cs.Pairwise fun c d => c.block.Apart d.block
  behind : ∀ c ∈ cs, ¬ c.block.Holds (t + 8#32).toNat
  offStack : ∀ x, Patched t cs x → ¬ stack.Holds x
  functions : ∀ c ∈ cs, ∃ f, E.functions c.hookFunction = some f ∧ Conforms stack (Patched t cs) f
  outside : ∀ x, Patched t cs x → E.functions (BitVec.ofNat 32 x) = none
  firstWord : behaviour E (readWord m₀ t.toNat) = some g.first
  secondWord : behaviour E (readWord m₀ (t.toNat + 4)) = some g.second

/-- The function, called with these registers and this memory, keeps to the procedure call
standard, and writes neither the patched code nor the stack between its stack pointer and
`top`. -/
structure Spares (E : Environment) (patched : Nat → Prop) (t : Word) (top : Nat) (g : Target)
    (k : Core) : Prop extends g.Keeps E t patched k where
  frames : ∀ x, (k.regs sp).toNat ≤ x → x < top → (g.call E t k).core.mem x = k.mem x

/-- How a call ends in which the function was entered with `u`. -/
structure Ends (E : Environment) (stack : Block) (patched : Nat → Prop) (t : Word) (top : Nat)
    (g : Target) (k u k' : Core) : Prop extends Kept patched top k k' where
  results : ∀ r ≤ 3, k'.regs r = (g.call E t u).core.regs r
  above : ∀ x, stack.Holds x → top ≤ x → k'.mem x = (g.call E t u).core.mem x

/-- The code that a call of `a` finds. -/
def Finds (m₀ m : Memory) (t : Word) (cs : List Context) (a : Nat) : List Context → Prop
  | [] => a = t.toNat ∧ CodeAt m a (original m₀ t) ∨
      ∃ c ∈ cs, a = c.trampoline ∧ CodeAt m a (original m₀ t ++ trampolineEnd t)
  | c :: _ => CodeAt m a c.jumpWords ∧ Patched t cs a

section Call

variable {E : Environment} {stack : Block} {m₀ : Memory} {t : Word} {cs : List Context}
  {g : Target} (h : Situation E stack m₀ t cs g)
include h

/-- The patched code is followed instruction by instruction. -/
theorem stepwise {x : Nat} (hx : Patched t cs x) :
    Stepwise E (g.body t) (fun _ => False) (BitVec.ofNat 32 x) := by
  refine ⟨fun heq => ?_, h.outside x hx, id⟩
  have htarget := h.target
  rcases hx with hentry | ⟨c, hc, hblock⟩
  · have htoNat := congrArg BitVec.toNat heq
    obtain ⟨hle, hlt⟩ := hentry
    simp only [entryBlock] at hle hlt
    simp only [Target.body, BitVec.toNat_add, BitVec.toNat_ofNat] at htoNat
    omega
  · have hfits := c.fits
    have hlt : x < 2 ^ 32 := lt_of_lt_of_le hblock.2 hfits
    have htoNat : (BitVec.ofNat 32 x).toNat = x := by
      rw [BitVec.toNat_ofNat, Nat.mod_eq_of_lt hlt]
    rw [heq] at htoNat
    exact h.behind c hc (by rwa [show (t + 8#32).toNat = x from htoNat])

omit h in
theorem inside_context {c : Context} (hc : c ∈ cs) {x : Nat} (hle : c.hookStub ≤ x)
    (hlt : x < c.trampoline + 4 * 4) : Patched t cs x := by
  refine .inr ⟨c, hc, ?_⟩
  simp only [Context.trampoline, Context.hookStub] at hle hlt
  simp only [Context.block, Block.Holds, HookKind.size]
  omega

theorem stepwise_stub {c : Context} (hc : c ∈ cs) {i : Nat} (hi : i < c.kind.stubLength) :
    Stepwise E (g.body t) (fun _ => False) (pcAt c.hookStub i) :=
  stepwise h (inside_context hc (Nat.le_add_right _ _) (by
    simp only [Context.trampoline, Context.hookStub]
    omega))

omit h in
theorem in_trampoline {c : Context} (hc : c ∈ cs) (i : Nat) (hi : i < 4) :
    Patched t cs (c.trampoline + 4 * i) :=
  inside_context hc (by simp only [Context.trampoline, Context.hookStub]; omega) (by omega)

theorem stepwise_trampoline {c : Context} (hc : c ∈ cs) {i : Nat} (hi : i < 4) :
    Stepwise E (g.body t) (fun _ => False) (pcAt c.trampoline i) :=
  stepwise h (in_trampoline hc i hi)

/-- The original instructions and the rest of the function, wherever the instructions
are. -/
theorem reaches_original {top : Nat} {k : Core} {a : Nat} (ha : Finds m₀ k.mem t cs a [])
    (hspares : Spares E (Patched t cs) t top g k) (calls : List Call) :
    Reaches E (g.body t) (fun _ => False) ⟨k, pcAt a 0, calls⟩
      ⟨(g.call E t k).core, k.regs lr, calls ++ (g.call E t k).calls⟩ := by
  rw [← hspares.returns]
  rcases ha with ⟨rfl, hcode⟩ | ⟨c, hc, rfl, hcode⟩
  · have hin : ∀ x, t.toNat ≤ x → x < t.toNat + 8 → Patched t cs x := fun x hle hlt =>
      .inl ⟨hle, hlt⟩
    refine Target.reaches_call [] calls hcode h.firstWord h.secondWord
      (fun hfirst => hcode.congr fun x hle hlt => hspares.first hfirst x (hin x hle hlt))
      (fun i hi => stepwise h (hin _ (by omega) (by omega))) (fun _ _ _ _ _ => id) ?_
    intro hfirst hsecond
    rw [Target.call_rest hfirst hsecond, pcAt_toNat]
    exact .body (b := g.body t) id calls
  · have hin : ∀ x, c.trampoline ≤ x → x < c.trampoline + 4 * 4 → Patched t cs x :=
      fun x hle hlt => inside_context hc
        (le_trans (by simp only [Context.trampoline, Context.hookStub]; omega) hle) hlt
    refine Target.reaches_call (trampolineEnd t) calls hcode h.firstWord h.secondWord
      (fun hfirst => hcode.congr fun x hle hlt => hspares.first hfirst x (hin x hle hlt))
      (fun i hi => stepwise_trampoline h hc (by omega)) (fun _ _ _ _ _ => id) ?_
    intro hfirst hsecond
    have hend : CodeAt (g.second (g.first k).1).1.mem c.trampoline _ :=
      hcode.congr fun x hle hlt => hspares.second hfirst hsecond x (hin x hle hlt)
    have htarget : (original m₀ t ++ trampolineEnd t)[3]? = some (t + 8#32) := rfl
    refine .instruction (stepwise_trampoline h hc (by omega)) (hend.step_ldrPc 2 rfl rfl
      (literal_sub _ (show 4 * 2 + 8 = 4 * 3 + 4 by rfl)) htarget) ?_
    rw [Target.call_rest hfirst hsecond]
    exact .body (b := g.body t) id calls

/-! ### The stubs -/

omit h in
theorem inside_stub {c : Context} (hc : c ∈ cs) {x : Nat} (hle : c.hookStub ≤ x)
    (hlt : x < c.hookStub + 4 * c.stubWords.length) : Patched t cs x := by
  refine .inr ⟨c, hc, ?_⟩
  rw [Context.length_stubWords] at hlt
  simp only [Context.hookStub] at hle hlt
  simp only [Context.block, Block.Holds, HookKind.size]
  omega

omit h in
/-- A hook's stub is in memory. -/
theorem code_stub {c : Context} {older : List Context} {m : Memory}
    (hchain : Chain m₀ m t (c :: older)) : CodeAt m c.hookStub c.stubWords := by
  have hfits := c.fits
  have hsize : c.kind.size = 36 + 4 * c.kind.stubLength := by simp only [HookKind.size]; omega
  refine ⟨by rw [Context.length_stubWords, hchain.2.1], ?_⟩
  rw [Context.length_stubWords]
  simp only [Context.hookStub]
  omega

/-- The jump to the stub. -/
theorem reaches_stub {c : Context} {older : List Context} {k : Core} {a : Nat}
    (ha : Finds m₀ k.mem t cs a (c :: older)) {calls : List Call} {m' : Machine}
    (hrest : Reaches E (g.body t) (fun _ => False) ⟨k, pcAt c.hookStub 0, calls⟩ m') :
    Reaches E (g.body t) (fun _ => False) ⟨k, pcAt a 0, calls⟩ m' :=
  .instruction (stepwise h ha.2)
    (ha.1.step_ldrPc 0 rfl rfl (literal_sub a (show 4 * 0 + 8 = 4 * 1 + 4 by rfl)) rfl) hrest

/-- An entry hook calls its function and goes on to its trampoline. -/
theorem reaches_entry {c : Context} (hc : c ∈ cs) (hkind : c.kind = .entry) {k : Core}
    (hcode : CodeAt k.mem c.hookStub c.stubWords) (hroom : EntryHooks.Room stack k)
    (calls : List Call) :
    Reaches E (g.body t) (fun _ => False) ⟨k, pcAt c.hookStub 0, calls⟩
      ⟨afterHook E c k, pcAt c.trampoline 0, calls ++ [callOf c]⟩ := by
  obtain ⟨f, hf, hconforms⟩ := h.functions c hc
  have hlength : c.kind.stubLength = 9 := by rw [hkind]; rfl
  have hstep : ∀ i < 9, Stepwise E (g.body t) (fun _ => False) (pcAt c.hookStub i) := fun i hi =>
    stepwise_stub h hc (by omega)
  have hwords : c.stubWords =
      entryHookStub c.userData c.hookFunction (BitVec.ofNat 32 c.trampoline) := by
    simp only [Context.stubWords, hkind]
  have hpushed : CodeAt (k.push saved).mem c.hookStub c.stubWords :=
    hcode.congr fun x hle hlt => EntryHooks.push_saved_mem hroom
      (.inl (h.offStack x (inside_stub hc hle hlt)))
  have hcalled : CodeAt (f (EntryHooks.entered c k)).mem c.hookStub c.stubWords :=
    hpushed.congr fun x hle hlt => hconforms.patched _ (EntryHooks.entered_onStack hroom) x
      (inside_stub hc hle hlt)
  have hafter : (f (EntryHooks.entered c k)).pop saved = afterHook E c k := by
    simp only [afterHook, hf]
    exact Core.ext (EntryHooks.pop_saved_regs hroom hconforms) rfl rfl
  rw [hwords] at hcode hpushed hcalled
  have huser : CodeAt ((k.push saved).setReg 0 c.userData).mem c.hookStub _ := hpushed
  have hfunction : CodeAt (((k.push saved).setReg 0 c.userData).setReg 12 c.hookFunction).mem
      c.hookStub _ := hpushed
  have hdone : CodeAt ((f (EntryHooks.entered c k)).pop saved).mem c.hookStub _ := hcalled
  refine .instruction (hstep 0 (by omega)) (hcode.step_effect 0 rfl EntryHooks.effect_save) ?_
  refine .instruction (hstep 1 (by omega))
    (hpushed.step_ldr 1 rfl rfl (literal_add _ (show 4 * 1 + 8 + 12 = 4 * 6 by rfl)) rfl) ?_
  refine .instruction (hstep 2 (by omega))
    (huser.step_ldr 2 rfl rfl (literal_add _ (show 4 * 2 + 8 + 12 = 4 * 7 by rfl)) rfl) ?_
  refine .instruction (hstep 3 (by omega)) (hfunction.step_call 3 rfl rfl hf) ?_
  refine .instruction (hstep 4 (by omega)) (hcalled.step_effect 4 rfl EntryHooks.effect_restore) ?_
  refine .instruction (hstep 5 (by omega))
    (hdone.step_ldrPc 5 rfl rfl (literal_add _ (show 4 * 5 + 8 + 4 = 4 * 8 by rfl)) rfl) ?_
  rw [hafter]
  exact .refl _

/-- An exit hook saves the return address and calls its trampoline. -/
theorem reaches_exit {c : Context} (hc : c ∈ cs) (hkind : c.kind = .exit) {k : Core}
    (hcode : CodeAt k.mem c.hookStub c.stubWords) (hlow : stack.start + 16 ≤ (k.regs sp).toNat)
    (hhigh : (k.regs sp).toNat ≤ stack.start + stack.size) (calls : List Call) :
    Reaches E (g.body t) (fun _ => False) ⟨k, pcAt c.hookStub 0, calls⟩
      ⟨entered c k, pcAt c.trampoline 0, calls⟩ := by
  have hlength : c.kind.stubLength = 13 := by rw [hkind]; rfl
  have hstep : ∀ i < 13, Stepwise E (g.body t) (fun _ => False) (pcAt c.hookStub i) := fun i hi =>
    stepwise_stub h hc (by omega)
  have hwords : c.stubWords =
      exitHookStub c.userData c.hookFunction (BitVec.ofNat 32 c.trampoline) := by
    simp only [Context.stubWords, hkind]
  have hsave : effect E (encode (.stmdb 0x4230)) = some (·.push frame) :=
    effect_stmdb (by decide) (by decide)
  have hpushed : CodeAt (k.push frame).mem c.hookStub c.stubWords := by
    refine hcode.congr fun x hle hlt => ?_
    have hnot := h.offStack x (inside_stub hc hle hlt)
    simp only [Block.Holds] at hnot
    exact entered_mem (c := c) (by omega) (by omega)
  rw [hwords] at hcode hpushed
  have hloaded : CodeAt ((k.push frame).setReg 12 (BitVec.ofNat 32 c.trampoline)).mem
      c.hookStub _ := hpushed
  refine .instruction (hstep 0 (by omega)) (hcode.step_effect 0 rfl hsave) ?_
  refine .instruction (hstep 1 (by omega))
    (hpushed.step_ldr 1 rfl rfl (literal_add _ (show 4 * 1 + 8 + 28 = 4 * 10 by rfl)) rfl) ?_
  refine .instruction (hstep 2 (by omega))
    (hloaded.step_branch 2 rfl rfl (h.outside _ (in_trampoline hc 0 (by omega)))) ?_
  exact .refl _

/-- When the call within returns, the exit hook calls its function and returns. -/
theorem reaches_return {c : Context} (hc : c ∈ cs) (hkind : c.kind = .exit) {top : Nat}
    {k u : Core} (hcode : CodeAt u.mem c.hookStub c.stubWords)
    (hlow : stack.start + 32 ≤ (k.regs sp).toNat) (hhigh : (k.regs sp).toNat ≤ top)
    (htop : top ≤ stack.start + stack.size) (hu : Kept (Patched t cs) top (entered c k) u)
    (calls : List Call) :
    Reaches E (g.body t) (fun _ => False) ⟨u, pcAt c.hookStub 3, calls⟩
      ⟨outOf E c u, k.regs lr, calls ++ [callOf c]⟩ := by
  obtain ⟨f, hf, hconforms⟩ := h.functions c hc
  have hlength : c.kind.stubLength = 13 := by rw [hkind]; rfl
  have hstep : ∀ i < 13, Stepwise E (g.body t) (fun _ => False) (pcAt c.hookStub i) := fun i hi =>
    stepwise_stub h hc (by omega)
  have hwords : c.stubWords =
      exitHookStub c.userData c.hookFunction (BitVec.ofNat 32 c.trampoline) := by
    simp only [Context.stubWords, hkind]
  have hsave : effect E (encode (.stmdb 0x000F)) = some (·.push results) :=
    effect_stmdb (by decide) (by decide)
  have hrestoreResults : effect E (encode (.ldmia 0x000F)) = some (·.pop results) :=
    effect_ldmia (by decide) (by decide)
  have hrestore : effect E (encode (.ldmia 0x4230)) = some (·.pop frame) :=
    effect_ldmia (by decide) (by decide)
  have hsaved : CodeAt (u.push results).mem c.hookStub c.stubWords := by
    refine hcode.congr fun x hle hlt => ?_
    have hnot := h.offStack x (inside_stub hc hle hlt)
    simp only [Block.Holds] at hnot
    exact reporting_mem (c := c) hlow hu (by omega)
  have hback : CodeAt (f (reporting c u)).mem c.hookStub c.stubWords :=
    hsaved.congr fun x hle hlt => hconforms.patched _ (reporting_onStack hlow hhigh htop hu) x
      (inside_stub hc hle hlt)
  rw [hwords] at hcode hsaved hback
  have huser : CodeAt ((u.push results).setReg 0 c.userData).mem c.hookStub _ := hsaved
  have hcall : CodeAt (((u.push results).setReg 0 c.userData).setReg 12 c.hookFunction).mem
      c.hookStub _ := hsaved
  have hrestored : CodeAt ((f (reporting c u)).pop results).mem c.hookStub _ := hback
  have hleft : CodeAt (((f (reporting c u)).pop results).pop frame).mem c.hookStub _ := hback
  refine .instruction (hstep 3 (by omega)) (hcode.step_effect 3 rfl hsave) ?_
  refine .instruction (hstep 4 (by omega))
    (hsaved.step_ldr 4 rfl rfl (literal_add _ (show 4 * 4 + 8 + 20 = 4 * 11 by rfl)) rfl) ?_
  refine .instruction (hstep 5 (by omega))
    (huser.step_ldr 5 rfl rfl (literal_add _ (show 4 * 5 + 8 + 20 = 4 * 12 by rfl)) rfl) ?_
  refine .instruction (hstep 6 (by omega)) (hcall.step_call 6 rfl rfl hf) ?_
  refine .instruction (hstep 7 (by omega)) (hback.step_effect 7 rfl hrestoreResults) ?_
  refine .instruction (hstep 8 (by omega)) (hrestored.step_effect 8 rfl hrestore) ?_
  refine .instruction (hstep 9 (by omega)) (hleft.step_bx 9 rfl rfl) ?_
  rw [popped_frame hconforms hlow hhigh htop hu (by decide), outOf_eq hf hkind]
  exact .refl _

/-! ### All hooks -/

omit h in
/-- A trampoline leads to the next older hook or to the original instructions. -/
theorem finds_older {c : Context} (hc : c ∈ cs) {older : List Context} {m : Memory}
    (hchain : Chain m₀ m t (c :: older)) : Finds m₀ m t cs c.trampoline older := by
  have hfits := c.fits
  have hsize : c.kind.size = 36 + 4 * c.kind.stubLength := by simp only [HookKind.size]; omega
  have hin : c.trampoline + 4 * 4 ≤ 2 ^ 32 := by
    simp only [Context.trampoline]
    omega
  cases older with
  | nil => exact .inr ⟨c, hc, rfl, hchain.1, hin⟩
  | cons d rest =>
      have hfour : readWords m c.trampoline 4 =
          readWords m c.trampoline 2 ++ readWords m (c.trampoline + 8) 2 := rfl
      have hwords := hchain.1
      rw [hfour] at hwords
      refine ⟨⟨(List.append_inj hwords rfl).1, ?_⟩, in_trampoline hc 0 (by omega)⟩
      show c.trampoline + 4 * 2 ≤ 2 ^ 32
      omega

/-- **The chain of both kinds.** -/
theorem call_hooks {top : Nat} (htop : top ≤ stack.start + stack.size) {hooks : List Context}
    (hsub : ∀ c ∈ hooks, c ∈ cs) {k : Core} {a : Nat}
    (hlow : stack.start + need hooks ≤ (k.regs sp).toNat) (hhigh : (k.regs sp).toNat ≤ top)
    (hspares : Spares E (Patched t cs) t top g (atOriginal E hooks k))
    (ha : Finds m₀ k.mem t cs a hooks) (hchain : Chain m₀ k.mem t hooks) (calls : List Call) :
    Reaches E (g.body t) (fun _ => False) ⟨k, pcAt a 0, calls⟩ ⟨whole E t g hooks k, k.regs lr,
        calls ++ callsOf (g.call E t (atOriginal E hooks k)).calls hooks⟩ ∧
      Ends E stack (Patched t cs) t top g k (atOriginal E hooks k) (whole E t g hooks k) := by
  induction hooks generalizing k a calls with
  | nil =>
      have hown : callsOf (g.call E t k).calls [] = (g.call E t k).calls := List.append_nil _
      rw [atOriginal, hown]
      refine ⟨reaches_original h ha hspares calls, ?_⟩
      exact
        { regs := hspares.regs
          stackPointer := hspares.stackPointer
          frames := hspares.frames
          patched := hspares.patched
          results := fun _ _ => rfl
          above := fun _ _ _ => rfl }
  | cons c older ih =>
      have hc := hsub c List.mem_cons_self
      have holder : ∀ d ∈ older, d ∈ cs := fun d hd => hsub d (List.mem_cons_of_mem _ hd)
      have hcode := code_stub hchain
      have hin : ∀ d ∈ c :: older, ∀ x, d.block.Holds x → Patched t cs x :=
        fun d hd x hx => .inr ⟨d, hsub d hd, hx⟩
      cases hkind : c.kind with
      | entry =>
          rw [need_entry hkind] at hlow
          have hroom : EntryHooks.Room stack k := ⟨by omega, le_trans hhigh htop⟩
          have hregs : (afterHook E c k).regs = k.regs := EntryHooks.afterHook_regs
          have hsame : ∀ x, Patched t cs x → (afterHook E c k).mem x = k.mem x := fun x hx =>
            EntryHooks.afterHook_patched (h.functions c hc) hroom hx (h.offStack x hx)
          have hchain' : Chain m₀ (afterHook E c k).mem t (c :: older) :=
            hchain.congr fun d hd x hx => hsame x (hin d hd x hx)
          rw [atOriginal, into_entry hkind] at hspares ⊢
          rw [whole, into_entry hkind, outOf_entry hkind]
          obtain ⟨hruns, hends⟩ := ih holder (by rw [hregs]; omega) (by rwa [hregs]) hspares
            (finds_older hc hchain') hchain'.2.2.2 (calls ++ [callOf c])
          refine ⟨?_, ?_⟩
          · refine reaches_stub h ha ((reaches_entry h hc hkind hcode hroom calls).trans ?_)
            rw [hregs, List.append_assoc] at hruns
            rw [callsOf_entry hkind]
            exact hruns
          · exact
              { regs := fun r hfour hr => by rw [hends.regs r hfour hr, hregs]
                stackPointer := by rw [hends.stackPointer, hregs]
                frames := fun x hle hlt => by
                  rw [hends.frames x (by rwa [hregs]) hlt]
                  exact EntryHooks.afterHook_stack (h.functions c hc) hroom
                    ⟨by omega, by omega⟩ hle
                patched := fun x hx => (hends.patched x hx).trans (hsame x hx)
                results := hends.results
                above := hends.above }
      | exit =>
          rw [need_exit hkind] at hlow
          obtain ⟨f, hf, hconforms⟩ := h.functions c hc
          have hsp : ((entered c k).regs sp).toNat = (k.regs sp).toNat - 16 :=
            entered_sp_toNat (by omega)
          have hsame : ∀ x, Patched t cs x → (entered c k).mem x = k.mem x := by
            intro x hx
            have hnot := h.offStack x hx
            simp only [Block.Holds] at hnot
            exact entered_mem (by omega) (by omega)
          have hchain' : Chain m₀ (entered c k).mem t (c :: older) :=
            hchain.congr fun d hd x hx => hsame x (hin d hd x hx)
          rw [atOriginal, into_exit hkind] at hspares ⊢
          rw [whole, into_exit hkind]
          obtain ⟨hruns, hends⟩ := ih holder (by omega) (by omega) hspares
            (finds_older hc hchain') hchain'.2.2.2 calls
          have hlow' : stack.start + 32 ≤ (k.regs sp).toNat := by omega
          have hcode' : CodeAt (whole E t g older (entered c k)).mem c.hookStub c.stubWords := by
            refine hcode.congr fun x hle hlt => ?_
            have hx : Patched t cs x := inside_stub hc hle hlt
            rw [hends.patched x hx, hsame x hx]
          refine ⟨?_, ?_⟩
          · refine reaches_stub h ha ((reaches_exit h hc hkind hcode (by omega) (by omega)
              calls).trans (hruns.trans ?_))
            have hlink : (entered c k).regs lr = pcAt c.hookStub 3 := Core.setReg_self ..
            rw [hlink, callsOf_exit hkind, ← List.append_assoc]
            exact reaches_return h hc hkind hcode' hlow' hhigh htop hends.toKept _
          · exact
              { toKept := outOf_kept hf hconforms hkind hlow' hhigh htop h.offStack hends.toKept
                results := fun r hr => by
                  rw [outOf_results hf hconforms hkind hlow' hhigh htop hends.toKept hr,
                    hends.results r hr]
                above := fun x hx hle => by
                  rw [outOf_stack hf hconforms hkind hlow' hhigh htop hends.toKept hx (by omega),
                    hends.above x hx hle] }

end Call

/-! ## How the function is entered -/

theorem into_regs (E : Environment) (c : Context) (k : Core) {r : Reg} (hr : r ≤ 11) :
    (into E c k).regs r = k.regs r := by
  cases hkind : c.kind with
  | entry => rw [into_entry hkind, EntryHooks.afterHook_regs]
  | exit => rw [into_exit hkind, entered_regs hr]

/-- The function gets its arguments, and the registers a call preserves, as they were. -/
theorem atOriginal_regs (E : Environment) (hooks : List Context) (k : Core) {r : Reg}
    (hr : r ≤ 11) : (atOriginal E hooks k).regs r = k.regs r := by
  induction hooks generalizing k with
  | nil => rfl
  | cons c older ih => rw [atOriginal, ih, into_regs E c k hr]

/-- Each exit hook lowers the stack pointer by 16. -/
theorem atOriginal_sp (E : Environment) (hooks : List Context) (k : Core) :
    (atOriginal E hooks k).regs sp =
      k.regs sp - BitVec.ofNat 32 (16 * (ofKind .exit hooks).length) := by
  induction hooks generalizing k with
  | nil => simp [atOriginal, ofKind]
  | cons c older ih =>
      rw [atOriginal, ih]
      cases hkind : c.kind with
      | entry =>
          rw [into_entry hkind, EntryHooks.afterHook_regs]
          simp [ofKind, hkind]
      | exit =>
          have hlength : (ofKind .exit (c :: older)).length = (ofKind .exit older).length + 1 := by
            simp [ofKind, hkind]
          have hpush : (k.push frame).regs sp = k.regs sp - 16#32 := k.push_sp frame
          rw [into_exit hkind, ExitHooks.entered_sp, hpush, hlength, Nat.mul_succ,
            Nat.add_comm (16 * _), BitVec.ofNat_add, BitVec.sub_sub]

/-- **Hooks of both kinds.**  A call runs the entry hooks' functions, the newest first,
the function once, and the exit hooks' functions, the oldest first; it returns to its
caller with the function's results and its own `r4` to `r11` and stack pointer.  The
function gets its register arguments, and a stack pointer lower by 16 for each exit
hook. -/
theorem hooked_call {E : Environment} {stack : Block} {m₀ : Memory} {t : Word}
    {cs : List Context} {g : Target} (h : Situation E stack m₀ t cs g) {k : Core}
    (hlow : stack.start + need cs.reverse ≤ (k.regs sp).toNat)
    (hhigh : (k.regs sp).toNat ≤ stack.start + stack.size)
    (hcode : ∀ x, Patched t cs x → k.mem x = installed m₀ cs x)
    (hspares : Spares E (Patched t cs) t (k.regs sp).toNat g (atOriginal E cs.reverse k))
    (calls : List Call) :
    ∃ k', Reaches E (g.body t) (fun _ => False) ⟨k, t, calls⟩ ⟨k', k.regs lr,
        calls ++ callsOf (g.call E t (atOriginal E cs.reverse k)).calls cs.reverse⟩ ∧
      Ends E stack (Patched t cs) t (k.regs sp).toNat g k (atOriginal E cs.reverse k) k' ∧
      (∀ r ≤ 11, (atOriginal E cs.reverse k).regs r = k.regs r) ∧
      (atOriginal E cs.reverse k).regs sp =
        k.regs sp - BitVec.ofNat 32 (16 * (ofKind .exit cs).length) := by
  obtain ⟨hwords, hchain⟩ := @EntryHooks.chain_installed m₀ t cs h.targets h.apart
  have hchain' : Chain m₀ k.mem t cs.reverse :=
    hchain.congr fun c hc x hx => hcode x (.inr ⟨c, List.mem_reverse.mp hc, hx⟩)
  have hwords' : readWords k.mem t.toNat 2 = entryWords m₀ t cs.reverse := by
    rw [← hwords]
    exact original_congr fun x hx => hcode x (.inl hx)
  have hfinds : Finds m₀ k.mem t cs t.toNat cs.reverse := by
    cases hooks : cs.reverse with
    | nil =>
        rw [hooks] at hwords'
        exact .inl ⟨rfl, hwords', h.target⟩
    | cons c older =>
        rw [hooks] at hwords'
        exact ⟨⟨hwords', h.target⟩, .inl ⟨le_refl _, Nat.lt_add_of_pos_right (show 0 < 8 by omega)⟩⟩
  obtain ⟨hruns, hends⟩ := call_hooks h hhigh (fun c hc => List.mem_reverse.mp hc) hlow le_rfl
    hspares hfinds hchain' calls
  rw [pcAt_toNat, BitVec.add_zero] at hruns
  refine ⟨_, hruns, hends, fun r hr => atOriginal_regs E cs.reverse k hr, ?_⟩
  have hlength : (ofKind .exit cs.reverse).length = (ofKind .exit cs).length := by
    rw [ofKind, List.filter_reverse, List.length_reverse, ofKind]
  rw [atOriginal_sp, hlength]

/-! ## An entry hook and an exit hook -/

/-- The function of `constantTarget`, hooked at its entry and then at its exit. -/
theorem situation_two : Situation exampleEnvironment ⟨0x20000, 0x80⟩
    constantMemory 0x1000#32 [older, newer] constantTarget where
  target := by decide
  targets := by
    intro c hc
    rcases List.mem_pair.mp hc with rfl | rfl <;> rfl
  apart := by
    rw [List.pairwise_pair]
    exact Block.apart_of_le (by decide)
  behind := by
    intro c hc
    rcases List.mem_pair.mp hc with rfl | rfl <;> decide
  offStack := by
    rintro x (hx | ⟨c, hc, hx⟩) hstack
    · exact Block.apart_of_le (b := entryBlock 0x1000#32) (.inl (by decide)) x hx hstack
    · rcases List.mem_pair.mp hc with rfl | rfl
      · exact Block.apart_of_le (b := older.block) (.inl (by decide)) x hx hstack
      · exact Block.apart_of_le (b := newer.block) (.inl (by decide)) x hx hstack
  functions := by
    intro c hc
    have hidle : Conforms ⟨0x20000, 0x80⟩ (Patched 0x1000#32 [older, newer]) id :=
      ⟨fun _ _ _ _ _ => rfl, fun _ _ => rfl, fun _ _ _ _ _ => rfl, fun _ _ _ _ => rfl⟩
    rcases List.mem_pair.mp hc with rfl | rfl
    · exact ⟨id, rfl, hidle⟩
    · exact ⟨id, rfl, hidle⟩
  outside := by
    refine functions_example ?_ ?_
    · rintro x (hx | ⟨c, hc, hx⟩)
      · exact lt_of_lt_of_le hx.2 older.targetFits
      · exact lt_of_lt_of_le hx.2 c.fits
    · rintro (hx | ⟨c, hc, hx⟩)
      · exact absurd hx (by decide)
      · rcases List.mem_pair.mp hc with rfl | rfl <;> exact absurd hx (by decide)
  firstWord := rfl
  secondWord := second_constant

/-- Its caller, with both hooks installed. -/
def callerOfTwo : Core where
  regs r := if r = sp then 0x20040#32 else 0
  flags := 0
  mem := installed constantMemory [older, newer]

theorem spares_two (top : Nat) (k : Core) : Spares exampleEnvironment
    (Patched 0x1000#32 [older, newer]) 0x1000#32 top constantTarget k := by
  obtain ⟨hregs, hsp, -⟩ := setReg_preserved k 1#32
  refine ⟨⟨?_, ?_, ?_, fun _ _ _ => rfl, fun _ _ _ _ => rfl, ?_⟩, ?_⟩
  all_goals rw [call_constant]
  · exact hregs
  · exact hsp
  · exact fun _ _ => rfl
  · exact fun _ _ _ => rfl

theorem hooked_call_two : ∃ k', Reaches exampleEnvironment
      (constantTarget.body 0x1000#32) (fun _ => False) ⟨callerOfTwo, 0x1000#32, []⟩
      ⟨k', callerOfTwo.regs lr, [] ++ callsOf (constantTarget.call
        exampleEnvironment 0x1000#32
        (atOriginal exampleEnvironment [older, newer].reverse callerOfTwo)).calls
        [older, newer].reverse⟩ ∧
    Ends exampleEnvironment ⟨0x20000, 0x80⟩ (Patched 0x1000#32 [older, newer]) 0x1000#32
      (callerOfTwo.regs sp).toNat constantTarget callerOfTwo
      (atOriginal exampleEnvironment [older, newer].reverse callerOfTwo) k' ∧
    (∀ r ≤ 11, (atOriginal exampleEnvironment [older, newer].reverse callerOfTwo).regs r =
      callerOfTwo.regs r) ∧
    (atOriginal exampleEnvironment [older, newer].reverse callerOfTwo).regs sp =
      callerOfTwo.regs sp - BitVec.ofNat 32 (16 * (ofKind .exit [older, newer]).length) :=
  hooked_call situation_two (by decide) (by decide) (fun _ _ => rfl) (spares_two _ _) []

end NspireUtils.Ports.MixedHooks
