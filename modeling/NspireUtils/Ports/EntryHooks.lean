import NspireUtils.Ports.HookRuns

/-!
# Entry hooks

What a call of a function with any number of entry hooks executes.  The jump, the
stub and the trampoline find their literals where the builders put them, and the
trampoline of a newer hook starts with the jump of an older one, so the hooks run
one after the other, the last installed first, down to the original instructions.
`entry_hooks_transparent` is the theorem.
-/

namespace NspireUtils.Ports.EntryHooks

open NspireUtils.Verified.ByteMemory
open NspireUtils.Verified.ArmBanks (Reg sp)
open NspireUtils.Verified.WordStores
open NspireUtils.Verified.ArmCode
open NspireUtils.Verified.Runs
open NspireUtils.Ports.Hooks
open NspireUtils.Ports.HookRuns

/-- The patched instructions of the function and its contexts. -/
def Patched (t : Word) (cs : List Context) (x : Nat) : Prop :=
  (entryBlock t).Holds x ∨ ∃ c ∈ cs, c.block.Holds x

/-- The stack pointer is on the stack: a block that leaves out, below, what the
functions called there need. -/
def OnStack (stack : Block) (k : Core) : Prop :=
  stack.start ≤ (k.regs sp).toNat ∧ (k.regs sp).toNat ≤ stack.start + stack.size

/-- A hook function that respects the procedure call standard: it preserves `r4` to
`r11` and `sp`, and writes neither the stack from its entry `sp` on nor the patched
code. -/
structure Conforms (stack : Block) (patched : Nat → Prop) (f : Core → Core) : Prop where
  regs : ∀ k, OnStack stack k → ∀ r, 4 ≤ r → r ≤ 11 → (f k).regs r = k.regs r
  stackPointer : ∀ k, OnStack stack k → (f k).regs sp = k.regs sp
  frames : ∀ k, OnStack stack k → ∀ x, stack.Holds x → (k.regs sp).toNat ≤ x →
    (f k).mem x = k.mem x
  patched : ∀ k, OnStack stack k → ∀ x, patched x → (f k).mem x = k.mem x

/-- `{r0-r3, r4, r5, r6, r9, r12, lr}`. -/
def saved : List Reg := listed 0x527F

/-- The processor when the stub has called the hook function. -/
def entered (c : Context) (k : Core) : Core :=
  (((k.push saved).setReg 0 c.userData).setReg 12 c.hookFunction).setReg lr (pcAt c.hookStub 4)

/-- The processor when the stub is done: flags and memory as the hook function left
them. -/
def afterHook (E : Environment) (c : Context) (k : Core) : Core :=
  match E.functions c.hookFunction with
  | some f => { f (entered c k) with regs := k.regs }
  | none => k

/-- The processor when the stubs are done. -/
def afterHooks (E : Environment) : List Context → Core → Core
  | [], k => k
  | c :: older, k => afterHooks E older (afterHook E c k)

/-- The call a hook makes. -/
def callOf (c : Context) : Call := (c.hookFunction, c.userData)

/-- There is room on the stack for what a stub saves. -/
structure Room (stack : Block) (k : Core) : Prop where
  below : stack.start + 40 ≤ (k.regs sp).toNat
  above : (k.regs sp).toNat ≤ stack.start + stack.size

/-! ## One stub -/

theorem length_saved : saved.length = 10 := by decide

/-- The registers that are not saved are preserved by the hook function. -/
theorem preserved_of_notMem_saved : ∀ r : Reg, r ∉ saved → r ≠ sp →
    4 ≤ r ∧ r ≤ 11 ∧ r ≠ 0 ∧ r ≠ 12 ∧ r ≠ lr := by decide

section Stub

variable {stack : Block} {patched : Nat → Prop} {c : Context} {k : Core} (hroom : Room stack k)
include hroom

theorem push_saved_sp : ((k.push saved).regs sp).toNat = (k.regs sp).toNat - 40 :=
  k.push_sp_toNat saved (by rw [length_saved]; exact le_trans (by omega) hroom.below)

/-- The stub writes on the stack, below the stack pointer. -/
theorem push_saved_mem {x : Nat} (hx : ¬ stack.Holds x ∨ (k.regs sp).toNat ≤ x) :
    (k.push saved).mem x = k.mem x := by
  have hbelow := hroom.below
  have habove := hroom.above
  apply k.push_mem_of_outside saved
  rw [push_saved_sp hroom, length_saved]
  simp only [Block.Holds] at hx
  omega

omit hroom in
theorem entered_sp : (entered c k).regs sp = (k.push saved).regs sp := by
  simp only [entered]
  rw [Core.setReg_of_ne _ (by decide), Core.setReg_of_ne _ (by decide),
    Core.setReg_of_ne _ (by decide)]

theorem entered_onStack : OnStack stack (entered c k) := by
  have hbelow := hroom.below
  have habove := hroom.above
  rw [OnStack, entered_sp, push_saved_sp hroom]
  omega

/-- The registers survive the hook function. -/
theorem pop_saved_regs {f : Core → Core} (hf : Conforms stack patched f) :
    ((f (entered c k)).pop saved).regs = k.regs := by
  have hbelow := hroom.below
  have habove := hroom.above
  have hsp : (f (entered c k)).regs sp = (k.push saved).regs sp :=
    (hf.stackPointer _ (entered_onStack hroom)).trans entered_sp
  refine k.pop_regs saved (by decide) (by decide) hsp ?_ fun r hr hne => ?_
  · rw [← k.readWords_push saved, hsp]
    refine readWords_congr fun x hle hlt => hf.frames _ (entered_onStack hroom) x ?_
      (by rwa [entered_sp])
    rw [push_saved_sp hroom] at hle hlt
    rw [length_saved] at hlt
    exact ⟨by omega, by omega⟩
  · obtain ⟨hlow, hhigh, h0, h12, hlr⟩ := preserved_of_notMem_saved r hr hne
    rw [hf.regs _ (entered_onStack hroom) r hlow hhigh]
    simp only [entered]
    rw [Core.setReg_of_ne _ hlr, Core.setReg_of_ne _ h12, Core.setReg_of_ne _ h0,
      k.push_regs_of_ne saved hne]

omit hroom in
theorem effect_save {E : Environment} : effect E (encode (.stmdb 0x527F)) = some (·.push saved) :=
  effect_stmdb (by decide) (by decide)

omit hroom in
theorem effect_restore {E : Environment} : effect E (encode (.ldmia 0x527F)) = some (·.pop saved) :=
  effect_ldmia (by decide) (by decide)

/-- **The stub.**  It calls the hook function with the context's `user_data` and goes
on to the trampoline with all registers as they were. -/
theorem runs_stub {E : Environment} {f : Core → Core} {calls : List Call} {m' : Machine}
    (hkind : c.kind = .entry) (hf : E.functions c.hookFunction = some f)
    (hconforms : Conforms stack patched f) (hstub : CodeAt k.mem c.hookStub c.stubWords)
    (hpatched : ∀ x, c.block.Holds x → patched x ∧ ¬ stack.Holds x)
    (hrest : Runs E ⟨afterHook E c k, BitVec.ofNat 32 c.trampoline, calls ++ [callOf c]⟩ m') :
    Runs E ⟨k, pcAt c.hookStub 0, calls⟩ m' := by
  have hwords : c.stubWords =
      entryHookStub c.userData c.hookFunction (BitVec.ofNat 32 c.trampoline) := by
    simp only [Context.stubWords, hkind]
  have hinside : ∀ x, c.hookStub ≤ x → x < c.hookStub + 4 * c.stubWords.length →
      c.block.Holds x := by
    intro x hle hlt
    rw [Context.length_stubWords] at hlt
    simp only [Context.hookStub] at hle hlt
    simp only [Context.block, Block.Holds, HookKind.size]
    omega
  have hpushed : CodeAt (k.push saved).mem c.hookStub c.stubWords :=
    hstub.congr fun x hle hlt =>
      push_saved_mem hroom (.inl (hpatched x (hinside x hle hlt)).2)
  have hcalled : CodeAt (f (entered c k)).mem c.hookStub c.stubWords :=
    hpushed.congr fun x hle hlt => hconforms.patched _ (entered_onStack hroom) x
      (hpatched x (hinside x hle hlt)).1
  have hregs := pop_saved_regs (c := c) hroom hconforms
  rw [hwords] at hstub hpushed hcalled
  have huser : CodeAt ((k.push saved).setReg 0 c.userData).mem c.hookStub _ := hpushed
  have hfunction : CodeAt (((k.push saved).setReg 0 c.userData).setReg 12 c.hookFunction).mem
      c.hookStub _ := hpushed
  apply hstub.runs_effect 0 rfl effect_save
  apply hpushed.runs_ldr 1 rfl rfl (literal_add _ (show 4 * 1 + 8 + 12 = 4 * 6 by rfl)) rfl
  apply huser.runs_ldr 2 rfl rfl (literal_add _ (show 4 * 2 + 8 + 12 = 4 * 7 by rfl)) rfl
  apply hfunction.runs_call 3 rfl rfl hf
  apply hcalled.runs_effect 4 rfl effect_restore
  have hdone : CodeAt ((f (entered c k)).pop saved).mem c.hookStub _ := hcalled
  apply hdone.runs_ldrPc 5 rfl rfl (literal_add _ (show 4 * 5 + 8 + 4 = 4 * 8 by rfl)) rfl
  have hafter : (f (entered c k)).pop saved = afterHook E c k := by
    simp only [afterHook, hf]
    exact Core.ext hregs rfl rfl
  rw [hafter]
  exact hrest

end Stub

/-! ## What a stub leaves alone -/

section AfterHook

variable {E : Environment} {stack : Block} {patched : Nat → Prop} {c : Context} {k : Core}

@[simp] theorem afterHook_regs : (afterHook E c k).regs = k.regs := by
  rw [afterHook]
  cases E.functions c.hookFunction <;> rfl

variable (hfunction : ∃ f, E.functions c.hookFunction = some f ∧ Conforms stack patched f)
  (hroom : Room stack k)
include hfunction hroom

theorem afterHook_patched {x : Nat} (hx : patched x) (hoff : ¬ stack.Holds x) :
    (afterHook E c k).mem x = k.mem x := by
  obtain ⟨f, hf, hconforms⟩ := hfunction
  simp only [afterHook, hf]
  rw [hconforms.patched _ (entered_onStack hroom) x hx]
  exact push_saved_mem hroom (.inl hoff)

theorem afterHook_stack {x : Nat} (hx : stack.Holds x) (hle : (k.regs sp).toNat ≤ x) :
    (afterHook E c k).mem x = k.mem x := by
  obtain ⟨f, hf, hconforms⟩ := hfunction
  simp only [afterHook, hf]
  rw [hconforms.frames _ (entered_onStack hroom) x hx, ← push_saved_mem hroom (.inr hle)]
  · rfl
  · rw [entered_sp, push_saved_sp hroom]
    omega

end AfterHook

/-! ## All stubs -/

/-- Where the original instructions are after the hooks, for a call of `a`. -/
def originalsAt (a : Nat) : List Context → Nat
  | [] => a
  | c :: older => originalsAt c.trampoline older

section Hooks

variable {E : Environment} {stack : Block} {m₀ : Memory} {t : Word} {cs : List Context}
  (hentry : ∀ c ∈ cs, c.kind = .entry)
  (hoff : ∀ x, Patched t cs x → ¬ stack.Holds x)
  (hfunctions : ∀ c ∈ cs, ∃ f, E.functions c.hookFunction = some f ∧
    Conforms stack (Patched t cs) f)

@[simp] theorem afterHooks_regs (hooks : List Context) (k : Core) :
    (afterHooks E hooks k).regs = k.regs := by
  induction hooks generalizing k with
  | nil => rfl
  | cons c older ih => rw [afterHooks, ih, afterHook_regs]

theorem Room.afterHook {c : Context} {k : Core} (h : Room stack k) : Room stack (afterHook E c k) :=
  ⟨by rw [afterHook_regs]; exact h.below, by rw [afterHook_regs]; exact h.above⟩

theorem afterHooks_stack (hfunctions : ∀ c ∈ cs, ∃ f, E.functions c.hookFunction = some f ∧
    Conforms stack (Patched t cs) f) {hooks : List Context} (hooks_sub : ∀ c ∈ hooks, c ∈ cs)
    {k : Core} (hroom : Room stack k) {x : Nat} (hx : stack.Holds x)
    (hle : (k.regs sp).toNat ≤ x) : (afterHooks E hooks k).mem x = k.mem x := by
  induction hooks generalizing k with
  | nil => rfl
  | cons c older ih =>
      rw [afterHooks, ih (fun d hd => hooks_sub d (List.mem_cons_of_mem _ hd)) hroom.afterHook
        (by rwa [afterHook_regs])]
      exact afterHook_stack (hfunctions c (hooks_sub c List.mem_cons_self)) hroom hx hle

include hoff hfunctions

theorem afterHooks_patched {hooks : List Context} (hooks_sub : ∀ c ∈ hooks, c ∈ cs) {k : Core}
    (hroom : Room stack k) {x : Nat} (hx : Patched t cs x) :
    (afterHooks E hooks k).mem x = k.mem x := by
  induction hooks generalizing k with
  | nil => rfl
  | cons c older ih =>
      rw [afterHooks, ih (fun d hd => hooks_sub d (List.mem_cons_of_mem _ hd)) hroom.afterHook]
      exact afterHook_patched (hfunctions c (hooks_sub c List.mem_cons_self)) hroom hx (hoff x hx)

include hentry

/-- **The chain.**  A call runs through the stubs, the newest first, to the original
instructions. -/
theorem runs_hooks {hooks : List Context} (hooks_sub : ∀ c ∈ hooks, c ∈ cs) {k : Core}
    (hroom : Room stack k) {a : Nat} (ha : a + 8 ≤ 2 ^ 32)
    (hwords : readWords k.mem a 2 = entryWords m₀ t hooks) (hchain : Chain m₀ k.mem t hooks)
    (calls : List Call) :
    Runs E ⟨k, pcAt a 0, calls⟩
      ⟨afterHooks E hooks k, pcAt (originalsAt a hooks) 0, calls ++ hooks.map callOf⟩ := by
  induction hooks generalizing k a calls with
  | nil =>
      rw [List.map_nil, List.append_nil]
      exact .refl _
  | cons c older ih =>
      obtain ⟨htrampoline, hstub, hsaved, holder⟩ := hchain
      have hc := hooks_sub c List.mem_cons_self
      have hsize : c.kind.size = 36 + 4 * c.kind.stubLength := by simp only [HookKind.size]; omega
      have hfits := c.fits
      have hin : ∀ x, c.block.Holds x → Patched t cs x := fun x hx => .inr ⟨c, hc, hx⟩
      obtain ⟨f, hf, hconforms⟩ := hfunctions c hc
      -- the jump
      have hjump : CodeAt k.mem a c.jumpWords := ⟨hwords, ha⟩
      apply hjump.runs_ldrPc 0 rfl rfl (literal_sub a (show 4 * 0 + 8 = 4 * 1 + 4 by rfl)) rfl
      -- the stub
      have hstubAt : CodeAt k.mem c.hookStub c.stubWords := by
        refine ⟨by rw [Context.length_stubWords, hstub], ?_⟩
        rw [Context.length_stubWords]
        simp only [Context.hookStub]
        omega
      refine runs_stub hroom (hentry c hc) hf hconforms hstubAt
        (fun x hx => ⟨hin x hx, hoff x (hin x hx)⟩) ?_
      -- the trampoline
      have hsame : ∀ x, Patched t cs x → (afterHook E c k).mem x = k.mem x := fun x hx =>
        afterHook_patched (hfunctions c hc) hroom hx (hoff x hx)
      have hfour : readWords k.mem c.trampoline 4 =
          readWords k.mem c.trampoline 2 ++ readWords k.mem (c.trampoline + 8) 2 := rfl
      rw [hfour] at htrampoline
      have holderWords := (List.append_inj htrampoline (by cases older <;> rfl)).1
      have hinside : ∀ x, c.trampoline ≤ x → x < c.trampoline + 4 * 2 → c.block.Holds x := by
        intro x hle hlt
        simp only [Context.trampoline] at hle hlt
        simp only [Context.block, Block.Holds]
        omega
      have hih := ih (fun d hd => hooks_sub d (List.mem_cons_of_mem _ hd))
        (hroom.afterHook (E := E) (c := c))
        (a := c.trampoline) (by simp only [Context.trampoline]; omega)
        (by rw [readWords_congr fun x hle hlt => hsame x (hin x (hinside x hle hlt)), holderWords])
        (holder.congr fun d hd x hx =>
          hsame x (.inr ⟨d, hooks_sub d (List.mem_cons_of_mem _ hd), hx⟩))
        (calls ++ [callOf c])
      rw [List.append_assoc] at hih
      exact hih

end Hooks

/-! ## Installing the hooks -/

/-- The memory after the hooks were installed in this order. -/
def installed (m₀ : Memory) (cs : List Context) : Memory :=
  (run Config.step ⟨m₀, []⟩ (cs.map .hook)).mem

theorem installed_hooks (cs : List Context) (k : Config) :
    (run Config.step k (cs.map .hook)).installed = cs.reverse ++ k.installed := by
  induction cs generalizing k with
  | nil => rfl
  | cons c rest ih => simp [ih, Config.step]

/-- One function and its contexts. -/
def singleLayout (t : Word) (cs : List Context) (htarget : ∀ c ∈ cs, c.targetFunction = t) :
    Layout where
  targets := {t}
  contexts := { c | c ∈ cs }
  targetsApart := by
    rintro t rfl t' rfl hne
    exact absurd rfl hne
  targeted := htarget
  contextsApart := by
    rintro t rfl c hc
    rw [← htarget c hc]
    exact c.apart

theorem allowed_install {L : Layout} {cs : List Context}
    (hpair : cs.Pairwise fun c d => c.block.Apart d.block)
    (hL : ∀ c ∈ cs, c ∈ L.contexts) (k : Config)
    (hk : ∀ c ∈ cs, ∀ d ∈ k.installed, c.block.Apart d.block) :
    Allowed Config.step (Config.Legal L) k (cs.map .hook) := by
  induction cs generalizing k with
  | nil => trivial
  | cons c rest ih =>
      obtain ⟨hhead, htail⟩ := List.pairwise_cons.mp hpair
      refine ⟨⟨hL c List.mem_cons_self, hk c List.mem_cons_self⟩, ih htail
        (fun d hd => hL d (List.mem_cons_of_mem _ hd)) _ fun d hd e he => ?_⟩
      rcases List.mem_cons.mp he with rfl | he
      · exact (hhead d hd).symm
      · exact hk d (List.mem_cons_of_mem _ hd) e he

section Installed

variable {m₀ : Memory} {t : Word} {cs : List Context} (htarget : ∀ c ∈ cs, c.targetFunction = t)
  (hpair : cs.Pairwise fun c d => c.block.Apart d.block)
include hpair

theorem invariant_installed : Invariant (singleLayout t cs htarget) m₀
    (run Config.step ⟨m₀, []⟩ (cs.map .hook)) :=
  invariant_run _ m₀ (cs.map .hook) (allowed_install hpair (fun _ hc => hc) _ (by simp))

include htarget

/-- The installed hooks form a chain from the function. -/
theorem chain_installed : original (installed m₀ cs) t = entryWords m₀ t cs.reverse ∧
    Chain m₀ (installed m₀ cs) t cs.reverse := by
  have hinvariant : Invariant _ m₀ _ := invariant_installed htarget hpair
  have hhooks : (run Config.step ⟨m₀, []⟩ (cs.map .hook)).hooksOf t = cs.reverse := by
    rw [Config.hooksOf, installed_hooks, List.append_nil, List.filter_eq_self]
    intro c hc
    exact decide_eq_true (htarget c (List.mem_reverse.mp hc))
  have hentry := hinvariant.entry t rfl
  have hchain := hinvariant.chain t rfl
  rw [hhooks] at hentry hchain
  exact ⟨hentry, hchain⟩

theorem installed_of_not_patched {x : Nat} (hx : ¬ Patched t cs x) : installed m₀ cs x = m₀ x := by
  refine (invariant_installed htarget hpair).code x ?_ fun c hc hblock => hx (.inr ⟨c, hc, hblock⟩)
  intro s hs hentry
  have heq : s = t := hs
  rw [heq] at hentry
  exact hx (.inl hentry)

end Installed

/-! ## Transparency -/

/-- A function whose first two words neither read nor write `pc`, entry hooks on it,
and a processor that calls it. -/
structure Situation (E : Environment) (stack : Block) (m₀ : Memory) (t : Word) (cs : List Context)
    (first second : Core → Core) (k : Core) : Prop where
  target : t.toNat + 8 ≤ 2 ^ 32
  entry : ∀ c ∈ cs, c.kind = .entry ∧ c.targetFunction = t
  apart : cs.Pairwise fun c d => c.block.Apart d.block
  offStack : ∀ x, Patched t cs x → ¬ stack.Holds x
  functions : ∀ c ∈ cs, ∃ f, E.functions c.hookFunction = some f ∧ Conforms stack (Patched t cs) f
  firstWord : effect E (readWord m₀ t.toNat) = some first
  secondWord : effect E (readWord m₀ (t.toNat + 4)) = some second
  room : Room stack k
  code : ∀ x, Patched t cs x → k.mem x = installed m₀ cs x

/-- The call runs each hook function once, with its own `user_data`, the last
installed first, then executes the original instructions on the registers and the
stack of the call, and goes on behind them. -/
structure Transparent (E : Environment) (stack : Block) (t : Word) (cs : List Context)
    (first second : Core → Core) (k : Core) (calls : List Call) : Prop where
  runs : Runs E ⟨k, t, calls⟩ ⟨second (first (afterHooks E cs.reverse k)), t + 8#32,
    calls ++ cs.reverse.map callOf⟩
  regs : (afterHooks E cs.reverse k).regs = k.regs
  stack : ∀ x, stack.Holds x → (k.regs sp).toNat ≤ x → (afterHooks E cs.reverse k).mem x = k.mem x

/-- The original instructions, which stand at `a`, do not write what is still to be
executed: the second of them, and the end of the trampoline if they are in one. -/
structure Spares (a size : Nat) (first second : Core → Core) (k : Core) : Prop where
  afterFirst : ∀ x, a + 4 ≤ x → x < a + size → (first k).mem x = k.mem x
  afterSecond : ∀ x, a + 8 ≤ x → x < a + size → (second (first k)).mem x = (first k).mem x

/-- The bytes of the original instructions, with the end of the trampoline. -/
def originalsSize : List Context → Nat
  | [] => 8
  | _ :: _ => 16

section Situation

variable {E : Environment} {stack : Block} {m₀ : Memory} {t : Word} {cs : List Context}
  {first second : Core → Core} {k : Core} (h : Situation E stack m₀ t cs first second k)
include h

/-- The memory of the call holds the chain. -/
theorem chain_called : original k.mem t = entryWords m₀ t cs.reverse ∧
    Chain m₀ k.mem t cs.reverse := by
  obtain ⟨hwords, hchain⟩ := chain_installed (fun c hc => (h.entry c hc).2) h.apart
  refine ⟨?_, hchain.congr fun c hc x hx => h.code x (.inr ⟨c, List.mem_reverse.mp hc, hx⟩)⟩
  rw [original_congr fun x hx => h.code x (.inl hx), hwords]

/-- The call comes to the original instructions. -/
theorem runs_to_original (calls : List Call) :
    Runs E ⟨k, t, calls⟩ ⟨afterHooks E cs.reverse k, pcAt (originalsAt t.toNat cs.reverse) 0,
      calls ++ cs.reverse.map callOf⟩ := by
  obtain ⟨hwords, hchain⟩ := chain_called h
  have hruns := runs_hooks (fun c hc => (h.entry c hc).1) h.offStack h.functions
    (fun c hc => List.mem_reverse.mp hc) h.room h.target hwords hchain calls
  rwa [pcAt_toNat, BitVec.add_zero] at hruns

/-- The hooks leave the patched code alone. -/
theorem patched_called {x : Nat} (hx : Patched t cs x) :
    (afterHooks E cs.reverse k).mem x = k.mem x :=
  afterHooks_patched h.offStack h.functions (fun _ hc => List.mem_reverse.mp hc) h.room hx

end Situation

/-- The oldest trampoline holds the original instructions and leads behind them. -/
theorem chain_originals {m₀ m : Memory} {t : Word} {hooks : List Context}
    (hchain : Chain m₀ m t hooks) (hne : hooks ≠ []) (a : Nat) :
    ∃ c ∈ hooks, originalsAt a hooks = c.trampoline ∧
      readWords m c.trampoline 4 = original m₀ t ++ trampolineEnd t := by
  induction hooks generalizing a with
  | nil => exact absurd rfl hne
  | cons c older ih =>
      obtain ⟨htrampoline, -, -, holder⟩ := hchain
      cases older with
      | nil => exact ⟨c, List.mem_cons_self, rfl, htrampoline⟩
      | cons d rest =>
          obtain ⟨e, he, hat, hwords⟩ := ih holder (by simp) c.trampoline
          exact ⟨e, List.mem_cons_of_mem _ he, hat, hwords⟩

/-- With hooks, the call finds the original instructions in a trampoline. -/
theorem code_originals {E : Environment} {stack : Block} {m₀ : Memory} {t : Word}
    {cs : List Context} {first second : Core → Core} {k : Core}
    (h : Situation E stack m₀ t cs first second k) (hne : cs.reverse ≠ []) :
    ∃ c ∈ cs, originalsAt t.toNat cs.reverse = c.trampoline ∧
      CodeAt (afterHooks E cs.reverse k).mem c.trampoline
        (original m₀ t ++ trampolineEnd t) := by
  obtain ⟨c, hc, hat, hfour⟩ := chain_originals (chain_called h).2 hne t.toNat
  have hfits := c.fits
  have hsize : c.kind.size = 36 + 4 * c.kind.stubLength := by simp only [HookKind.size]; omega
  refine ⟨c, List.mem_reverse.mp hc, hat, ⟨?_, ?_⟩⟩
  · rw [← hfour]
    refine readWords_congr fun x hle hlt => patched_called h (.inr ⟨c, List.mem_reverse.mp hc, ?_⟩)
    change x < c.trampoline + 4 * 4 at hlt
    simp only [Context.trampoline] at hle hlt
    simp only [Context.block, Block.Holds]
    omega
  · show c.trampoline + 4 * 4 ≤ 2 ^ 32
    simp only [Context.trampoline]
    omega

/-- The two instructions, from where they stand to where what is behind them stands. -/
theorem runs_two {E : Environment} {a size : Nat} {w v : Word} {ws : List Word}
    {first second : Core → Core} {k : Core} (hcode : CodeAt k.mem a (w :: v :: ws))
    (hsize : 8 + 4 * ws.length = size) (hfirst : effect E w = some first)
    (hsecond : effect E v = some second) (hspares : Spares a size first second k)
    {calls : List Call} {m' : Machine}
    (hrest : CodeAt (second (first k)).mem (a + 8) ws →
      Runs E ⟨second (first k), pcAt (a + 8) 0, calls⟩ m') :
    Runs E ⟨k, pcAt a 0, calls⟩ m' := by
  have hnext : CodeAt (first k).mem (a + 4) (v :: ws) := hcode.tail.congr fun x hle hlt =>
    hspares.afterFirst x hle (by rw [List.length_cons] at hlt; omega)
  have hlast : CodeAt (second (first k)).mem (a + 8) ws := hnext.tail.congr fun x hle hlt =>
    hspares.afterSecond x hle (by omega)
  refine hcode.runs_effect 0 rfl hfirst ?_
  rw [← pcAt_add_four]
  refine hnext.runs_effect 0 rfl hsecond ?_
  rw [← pcAt_add_four]
  exact hrest hlast

/-- The original instructions, wherever they are, lead behind the function's first
two words. -/
theorem runs_original {E : Environment} {stack : Block} {m₀ : Memory} {t : Word} {cs : List Context}
    {first second : Core → Core} {k : Core} (h : Situation E stack m₀ t cs first second k)
    (hspares : Spares (originalsAt t.toNat cs.reverse) (originalsSize cs.reverse) first second
      (afterHooks E cs.reverse k)) (calls : List Call) :
    Runs E ⟨afterHooks E cs.reverse k, pcAt (originalsAt t.toNat cs.reverse) 0, calls⟩
      ⟨second (first (afterHooks E cs.reverse k)), t + 8#32, calls⟩ := by
  cases hreverse : cs.reverse with
  | nil =>
      have hwords := (chain_called h).1
      rw [hreverse] at hwords hspares
      have hcode : CodeAt (afterHooks E [] k).mem t.toNat
          [readWord m₀ t.toNat, readWord m₀ (t.toNat + 4)] := ⟨hwords, h.target⟩
      refine runs_two hcode rfl h.firstWord h.secondWord hspares fun _ => ?_
      rw [← pcAt_toNat t 2]
      exact .refl _
  | cons d older =>
      obtain ⟨c, -, hat, hcode⟩ := code_originals h (by rw [hreverse]; simp)
      rw [hat] at hspares
      rw [hreverse] at hat hcode hspares
      rw [hat]
      refine runs_two hcode rfl h.firstWord h.secondWord hspares fun hlast => ?_
      exact hlast.runs_ldrPc 0 rfl rfl (literal_sub _ (show 4 * 0 + 8 = 4 * 1 + 4 by rfl)) rfl
        (.refl _)

/-- **Entry hooks are transparent and stack.** -/
theorem entry_hooks_transparent {E : Environment} {stack : Block} {m₀ : Memory} {t : Word}
    {cs : List Context} {first second : Core → Core} {k : Core}
    (h : Situation E stack m₀ t cs first second k)
    (hspares : Spares (originalsAt t.toNat cs.reverse) (originalsSize cs.reverse) first second
      (afterHooks E cs.reverse k)) (calls : List Call) :
    Transparent E stack t cs first second k calls where
  runs := (runs_to_original h calls).trans (runs_original h hspares _)
  regs := afterHooks_regs _ _
  stack _ hx hle :=
    afterHooks_stack h.functions (fun _ hc => List.mem_reverse.mp hc) h.room hx hle

/-! ## A function that begins with a store -/

/-- `str r0, [r1]`. -/
def storeR0 (k : Core) : Core := { k with mem := writeWord k.mem (k.regs 1).toNat (k.regs 0) }

/-- `str r0, [r1]` and `nop`, and a hook function at `0x3000` that does nothing. -/
def exampleEnvironment : Environment where
  plain w :=
    if w = 0xE5810000#32 then some storeR0
    else if w = 0xE1A00000#32 then some id
    else none
  functions w := if w = 0x3000#32 then some id else none

/-- The function at `0x1000`. -/
def exampleMemory : Memory := putAll (fun _ => 0) [(0x1000, 0xE5810000#32), (0x1004, 0xE1A00000#32)]

def exampleHook : Context := HookRuns.older

/-- Another one, installed after it. -/
def secondHook : Context := contextAbove .entry 0x10140#32 0x1000#32 (by decide) (by decide)

/-- A caller whose `r1` points somewhere. -/
def exampleCaller (cs : List Context) (r1 : Word) : Core where
  regs r := if r = sp then 0x20040#32 else if r = 1 then r1 else 0xFFFFFFFF#32
  flags := 0
  mem := installed exampleMemory cs

theorem situation_example (cs : List Context) (hcs : ∀ c ∈ cs, c = exampleHook ∨ c = secondHook)
    (hapart : cs.Pairwise fun c d => c.block.Apart d.block) (r1 : Word) :
    Situation exampleEnvironment ⟨0x20000, 0x40⟩ exampleMemory 0x1000#32 cs storeR0 id
      (exampleCaller cs r1) where
  target := by decide
  entry := by
    intro c hc
    rcases hcs c hc with rfl | rfl <;> exact ⟨rfl, rfl⟩
  apart := hapart
  offStack := by
    rintro x (hx | ⟨c, hc, hx⟩) hstack
    · exact Block.apart_of_le (b := entryBlock 0x1000#32) (.inl (by decide)) x hx hstack
    · rcases hcs c hc with rfl | rfl
      · exact Block.apart_of_le (b := exampleHook.block) (.inl (by decide)) x hx hstack
      · exact Block.apart_of_le (b := secondHook.block) (.inl (by decide)) x hx hstack
  functions := by
    intro c hc
    have hidle : Conforms ⟨0x20000, 0x40⟩ (Patched 0x1000#32 cs) id :=
      ⟨fun _ _ _ _ _ => rfl, fun _ _ => rfl, fun _ _ _ _ _ => rfl, fun _ _ _ _ => rfl⟩
    rcases hcs c hc with rfl | rfl <;> exact ⟨id, rfl, hidle⟩
  firstWord := rfl
  secondWord := rfl
  room := by
    have hsp : (exampleCaller cs r1).regs sp = 0x20040#32 := rfl
    exact ⟨by rw [hsp]; decide, by rw [hsp]; decide⟩
  code _ _ := rfl

/-- A store elsewhere, even into a stub that is done, is as without the two hooks. -/
theorem entry_hooks_transparent_elsewhere :
    Transparent exampleEnvironment ⟨0x20000, 0x40⟩ 0x1000#32 [exampleHook, secondHook] storeR0 id
      (exampleCaller [exampleHook, secondHook] 0x10114#32) [] := by
  have hpair : [exampleHook, secondHook].Pairwise fun c d => c.block.Apart d.block := by
    rw [List.pairwise_pair]
    exact Block.apart_of_le (by decide)
  refine entry_hooks_transparent (situation_example _ (fun c hc => List.mem_pair.mp hc) hpair
    0x10114#32) ⟨fun x _ hlt => ?_, fun _ _ _ => rfl⟩ []
  show writeWord _ ((afterHooks _ _ _).regs 1).toNat _ x = _
  rw [afterHooks_regs]
  apply writeWord_of_outside _ 0x10114 _
  have hbefore : originalsAt (0x1000#32).toNat [exampleHook, secondHook].reverse +
      originalsSize [exampleHook, secondHook].reverse ≤ 0x10114 := by decide
  omega

/-- A store into the trampoline overwrites the second original instruction before it
is executed. -/
theorem store_into_trampoline :
    ¬ ∀ (E : Environment) (stack : Block) (m₀ : Memory) (t : Word) (cs : List Context)
      (first second : Core → Core) (k : Core) (calls : List Call),
      Situation E stack m₀ t cs first second k → Transparent E stack t cs first second k calls := by
  intro hall
  have h := situation_example [exampleHook] (fun c hc => .inl (List.mem_singleton.mp hc))
    (List.pairwise_singleton _ _) 0x1003C#32
  have hruns := (hall _ _ _ _ _ _ _ _ [] h).runs
  have hcalled := runs_to_original h []
  obtain ⟨c, hc, hat, hcode⟩ := code_originals h (by simp)
  obtain rfl := List.mem_singleton.mp hc
  rw [hat] at hcalled
  have hregs :=
    @afterHooks_regs exampleEnvironment [exampleHook] (exampleCaller [exampleHook] 0x1003C#32)
  have hmem : ∀ x, ¬ (Block.mk 0x20000 0x40).Holds x → (afterHooks exampleEnvironment [exampleHook]
      (exampleCaller [exampleHook] 0x1003C#32)).mem x = installed exampleMemory [exampleHook] x :=
    fun x hx => push_saved_mem h.room (.inl hx)
  rw [List.reverse_singleton] at hcalled hcode hruns
  generalize afterHooks exampleEnvironment [exampleHook] (exampleCaller [exampleHook] 0x1003C#32) =
    left at *
  have hstored : Runs exampleEnvironment ⟨left, pcAt exampleHook.trampoline 0, [callOf exampleHook]⟩
      ⟨storeR0 left, pcAt exampleHook.trampoline 1, [callOf exampleHook]⟩ :=
    hcode.runs_effect 0 rfl h.firstWord (.refl _)
  have hwritten : (storeR0 left).mem = writeWord left.mem 0x1003C 0xFFFFFFFF#32 := by
    rw [storeR0, hregs]
    rfl
  -- the word stored there is undefined
  have hstuck : step exampleEnvironment
      ⟨storeR0 left, pcAt exampleHook.trampoline 1, [callOf exampleHook]⟩ = none := by
    refine step_undefined (w := 0xFFFFFFFF#32) ?_ (by decide) rfl rfl
    show readWord (storeR0 left).mem 0x1003C = _
    rw [hwritten, readWord_writeWord_self]
  -- so is the word behind the function
  have hbehind :
      step exampleEnvironment ⟨storeR0 left, 0x1008#32, [callOf exampleHook]⟩ = none := by
    refine step_undefined (w := 0#32) ?_ (by decide) rfl rfl
    show readWord (storeR0 left).mem 0x1008 = _
    rw [hwritten, readWord_writeWord_of_apart _ _ _ (by omega)]
    have hkept : ∀ x, 0x1008 ≤ x → x < 0x1008 + 4 → left.mem x = exampleMemory x := by
      intro x hle hlt
      have hbelow : x < (Block.mk 0x20000 0x40).start := lt_of_lt_of_le hlt (by decide)
      rw [hmem x fun hx => absurd hx.1 (by omega)]
      refine installed_of_not_patched (t := 0x1000#32) (fun c hc => (h.entry c hc).2) h.apart ?_
      rintro (hx | ⟨c, hc, hx⟩)
      · have hend : (entryBlock 0x1000#32).start + (entryBlock 0x1000#32).size ≤ 0x1008 := by decide
        exact absurd (lt_of_lt_of_le hx.2 hend) (by omega)
      · obtain rfl := List.mem_singleton.mp hc
        have hstart : 0x1008 + 4 ≤ exampleHook.block.start := by decide
        exact absurd (le_trans hstart hx.1) (by omega)
    rw [readWord_congr hkept]
    rfl
  have hsame := stuck_unique (hcalled.trans hstored) hruns hstuck hbehind
  exact absurd (congrArg Machine.pc hsame)
    (show ¬ pcAt exampleHook.trampoline 1 = 0x1000#32 + 8#32 by decide)

end NspireUtils.Ports.EntryHooks
