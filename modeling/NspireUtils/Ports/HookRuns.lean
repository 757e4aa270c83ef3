import NspireUtils.Ports.Hooks
import NspireUtils.Verified.Runs

/-!
# Hooking and unhooking over runs

Runs of a program that installs and removes hooks on several functions, those of
one function in reverse order.  The saved instructions of a hook are the jump of
the hook before it, so the hooks of a function form a chain through their
contexts; `Chain` is that chain and `hooks_run` the theorem.
-/

namespace NspireUtils.Ports.HookRuns

open NspireUtils.Verified.ByteMemory
open NspireUtils.Verified.WordStores
open NspireUtils.Verified.Runs
open NspireUtils.Ports.Hooks

/-- The functions that may be hooked and the contexts used for it.  The functions'
first instructions do not overlap each other or any context. -/
structure Layout where
  targets : Set Word
  contexts : Set Context
  targetsApart : ∀ t ∈ targets, ∀ t' ∈ targets, t ≠ t' → (entryBlock t).Apart (entryBlock t')
  targeted : ∀ c ∈ contexts, c.targetFunction ∈ targets
  contextsApart : ∀ t ∈ targets, ∀ c ∈ contexts, (entryBlock t).Apart c.block

/-- Memory and the installed hooks, the last one first. -/
structure Config where
  mem : Memory
  installed : List Context

/-- A call of one of the functions. -/
inductive Event where
  | hook (c : Context)
  | unhook (c : Context)

namespace Config

/-- The hooks of a function, the last one first. -/
def hooksOf (k : Config) (t : Word) : List Context :=
  k.installed.filter fun c => c.targetFunction = t

def step (k : Config) : Event → Config
  | .hook c => { mem := execAll k.mem c.hook, installed := c :: k.installed }
  | .unhook c => { mem := execAll k.mem c.unhook, installed := k.installed.erase c }

/-- A hook needs a context that shares no byte with an installed one; the hook that
is removed is the last one of its function. -/
def Legal (L : Layout) (k : Config) : Event → Prop
  | .hook c => c ∈ L.contexts ∧ ∀ d ∈ k.installed, c.block.Apart d.block
  | .unhook c => ∃ older, k.hooksOf c.targetFunction = c :: older

end Config

/-- The first two instructions of a function with these hooks: the jump to the stub
of the last one, or the original ones. -/
def entryWords (m₀ : Memory) (t : Word) : List Context → List Word
  | [] => original m₀ t
  | c :: _ => c.jumpWords

/-- The trampoline of each hook leads to the next older one or to the original
instructions, and removing the hook brings that back. -/
def Chain (m₀ m : Memory) (t : Word) : List Context → Prop
  | [] => True
  | c :: older =>
      readWords m c.trampoline 4 = entryWords m₀ t older ++ trampolineEnd t ∧
      readWords m c.hookStub c.kind.stubLength = c.stubWords ∧
      readWords m c.savedInstructions 2 = entryWords m₀ t older ∧
      Chain m₀ m t older

/-- What holds at every point of a run from the memory `m₀`. -/
structure Sound (L : Layout) (m₀ : Memory) (k : Config) : Prop where
  entry : ∀ t ∈ L.targets, original k.mem t = entryWords m₀ t (k.hooksOf t)
  chain : ∀ t ∈ L.targets, Chain m₀ k.mem t (k.hooksOf t)
  code : ∀ x, (∀ t ∈ L.targets, ¬ (entryBlock t).Holds x) →
    (∀ c ∈ L.contexts, ¬ c.block.Holds x) → k.mem x = m₀ x

/-- The installed hooks are in contexts of the layout. -/
structure Invariant (L : Layout) (m₀ : Memory) (k : Config) : Prop extends Sound L m₀ k where
  used : ∀ c ∈ k.installed, c ∈ L.contexts

/-! ## What a step leaves alone -/

/-- The arrays of a context lie in its structure. -/
theorem arrays_inside (c : Context) {a n : Nat}
    (h : c.address.toNat + 12 ≤ a ∧ a + 4 * n ≤ c.address.toNat + c.kind.size) {m m' : Memory}
    (hsame : ∀ x, c.block.Holds x → m' x = m x) : readWords m' a n = readWords m a n := by
  refine readWords_congr fun x hle hlt => hsame x ?_
  simp only [Context.block, Block.Holds]
  omega

/-- A chain is in the structures of its contexts. -/
theorem Chain.congr {m₀ m m' : Memory} {t : Word} {hooks : List Context}
    (hsame : ∀ c ∈ hooks, ∀ x, c.block.Holds x → m' x = m x) (h : Chain m₀ m t hooks) :
    Chain m₀ m' t hooks := by
  induction hooks with
  | nil => trivial
  | cons c older ih =>
      obtain ⟨htrampoline, hstub, hsaved, hchain⟩ := h
      have hsize : c.kind.size = 36 + 4 * c.kind.stubLength := by simp only [HookKind.size]; omega
      have hc := hsame c List.mem_cons_self
      refine ⟨?_, ?_, ?_, ih (fun d hd => hsame d (List.mem_cons_of_mem _ hd)) hchain⟩
      · rw [arrays_inside c (by simp only [Context.trampoline]; omega) hc, htrampoline]
      · rw [arrays_inside c (by simp only [Context.hookStub]; omega) hc, hstub]
      · rw [arrays_inside c (by simp only [Context.savedInstructions]; omega) hc, hsaved]

theorem original_congr {m m' : Memory} {t : Word}
    (hsame : ∀ x, (entryBlock t).Holds x → m' x = m x) : original m' t = original m t := by
  refine readWords_congr fun x hle hlt => hsame x ?_
  simp only [entryBlock, Block.Holds]
  omega

theorem mem_hooksOf {k : Config} {t : Word} {c : Context} :
    c ∈ k.hooksOf t ↔ c ∈ k.installed ∧ c.targetFunction = t := by
  simp [Config.hooksOf]

theorem invariant_hook {L : Layout} {m₀ : Memory} {k : Config} {c : Context}
    (hlegal : k.Legal L (.hook c)) (h : Invariant L m₀ k) : Invariant L m₀ (k.step (.hook c)) := by
  obtain ⟨hc, happart⟩ := hlegal
  have ht := L.targeted c hc
  have hhooked := hooked c k.mem
  have hsame : ∀ x, ¬ (entryBlock c.targetFunction).Holds x → ¬ c.block.Holds x →
      execAll k.mem c.hook x = k.mem x := hhooked.outside
  have hchain : ∀ t ∈ L.targets, Chain m₀ (execAll k.mem c.hook) t (k.hooksOf t) := by
    intro t htarget
    refine (h.chain t htarget).congr fun d hd x hx => hsame x (fun hentry => ?_) fun hblock => ?_
    · exact L.contextsApart _ ht d (h.used d (mem_hooksOf.mp hd).1) x hentry hx
    · exact happart d (mem_hooksOf.mp hd).1 x hblock hx
  exact
    { entry := by
        intro t htarget
        by_cases heq : c.targetFunction = t
        · subst heq
          simp only [Config.step, Config.hooksOf, List.filter_cons, decide_true, ↓reduceIte,
            entryWords]
          exact hhooked.target
        · simp only [Config.step, Config.hooksOf, List.filter_cons, heq, decide_false,
            Bool.false_eq_true, ↓reduceIte]
          rw [original_congr fun x hx => hsame x
            (fun hentry => L.targetsApart _ ht t htarget heq x hentry hx)
            (L.contextsApart t htarget c hc x hx)]
          exact h.entry t htarget
      chain := by
        intro t htarget
        by_cases heq : c.targetFunction = t
        · subst heq
          simp only [Config.step, Config.hooksOf, List.filter_cons, decide_true, ↓reduceIte]
          rw [← Config.hooksOf]
          have hentry := h.entry c.targetFunction htarget
          exact ⟨hhooked.trampoline.trans (by rw [hentry]), hhooked.stub,
            hhooked.saved.trans hentry, hchain c.targetFunction htarget⟩
        · simp only [Config.step, Config.hooksOf, List.filter_cons, heq, decide_false,
            Bool.false_eq_true, ↓reduceIte]
          exact hchain t htarget
      code := fun x htargets hcontexts =>
        (hsame x (htargets _ ht) (hcontexts c hc)).trans (h.code x htargets hcontexts)
      used := by simpa [Config.step] using ⟨hc, h.used⟩ }

theorem invariant_unhook {L : Layout} {m₀ : Memory} {k : Config} {c : Context}
    (hlegal : k.Legal L (.unhook c)) (h : Invariant L m₀ k) :
    Invariant L m₀ (k.step (.unhook c)) := by
  obtain ⟨older, holder⟩ := hlegal
  have hmem : c ∈ k.installed := (mem_hooksOf.mp (holder ▸ List.mem_cons_self)).1
  have hc := h.used c hmem
  have ht := L.targeted c hc
  have hunhooked := unhooked c k.mem
  have hsame : ∀ x, ¬ (entryBlock c.targetFunction).Holds x →
      execAll k.mem c.unhook x = k.mem x := hunhooked.outside
  have hhooks : ∀ t, (k.step (.unhook c)).hooksOf t = (k.hooksOf t).erase c := fun t =>
    (List.erase_filter ..).symm
  have hchain : ∀ t ∈ L.targets, Chain m₀ (execAll k.mem c.unhook) t (k.hooksOf t) := by
    intro t htarget
    refine (h.chain t htarget).congr fun d hd x hx => hsame x fun hentry => ?_
    exact L.contextsApart _ ht d (h.used d (mem_hooksOf.mp hd).1) x hentry hx
  have hother : ∀ t, c.targetFunction ≠ t → (k.step (.unhook c)).hooksOf t = k.hooksOf t := by
    intro t heq
    rw [hhooks, List.erase_of_not_mem fun hcon => heq (mem_hooksOf.mp hcon).2]
  have hown : (k.step (.unhook c)).hooksOf c.targetFunction = older := by
    rw [hhooks, holder, List.erase_cons_head]
  exact
    { entry := by
        intro t htarget
        by_cases heq : c.targetFunction = t
        · subst heq
          obtain ⟨-, -, hsaved, -⟩ := holder ▸ h.chain c.targetFunction htarget
          rw [hown]
          exact hunhooked.target.trans hsaved
        · rw [hother t heq, ← h.entry t htarget]
          exact original_congr fun x hx => hsame x fun hentry =>
            L.targetsApart _ ht t htarget heq x hentry hx
      chain := by
        intro t htarget
        by_cases heq : c.targetFunction = t
        · subst heq
          rw [hown]
          exact (holder ▸ hchain c.targetFunction htarget : Chain _ _ _ (c :: older)).2.2.2
        · rw [hother t heq]
          exact hchain t htarget
      code := fun x htargets hcontexts =>
        (hsame x (htargets _ ht)).trans (h.code x htargets hcontexts)
      used := fun d hd => h.used d (List.mem_of_mem_erase hd) }

theorem invariant_run (L : Layout) (m₀ : Memory) (es : List Event)
    (hallowed : Allowed Config.step (Config.Legal L) ⟨m₀, []⟩ es) :
    Invariant L m₀ (run Config.step ⟨m₀, []⟩ es) := by
  refine run_invariant Config.step (Config.Legal L) ?_ es ⟨m₀, []⟩ hallowed ?_
  · intro k e hlegal h
    cases e with
    | hook c => exact invariant_hook hlegal h
    | unhook c => exact invariant_unhook hlegal h
  · exact
      { entry := fun _ _ => rfl
        chain := fun _ _ => trivial
        code := fun _ _ _ => rfl
        used := by simp }

/-- **Hook and unhook.**  At every point of every run, each function has its
original instructions or the jump to the last stub, each trampoline leads to the
next older hook or to the original instructions, and the rest of the code is as it
was. -/
theorem hooks_run (L : Layout) (m₀ : Memory) (es : List Event)
    (hallowed : Allowed Config.step (Config.Legal L) ⟨m₀, []⟩ es) :
    Sound L m₀ (run Config.step ⟨m₀, []⟩ es) :=
  (invariant_run L m₀ es hallowed).toSound

def older : Context := contextAbove .entry 0x10000#32 0x1000#32 (by decide) (by decide)

def newer : Context := contextAbove .exit 0x10100#32 0x1000#32 (by decide) (by decide)

def other : Context := contextAbove .entry 0x10200#32 0x2000#32 (by decide) (by decide)

/-- Two functions and three contexts. -/
def exampleLayout : Layout where
  targets := {0x1000#32, 0x2000#32}
  contexts := {older, newer, other}
  targetsApart := by
    rintro t (rfl | rfl) t' (rfl | rfl) hne
    · exact absurd rfl hne
    · exact Block.apart_of_le (by decide)
    · exact Block.apart_of_le (by decide)
    · exact absurd rfl hne
  targeted := by
    rintro c (rfl | rfl | rfl)
    · exact .inl rfl
    · exact .inl rfl
    · exact .inr rfl
  contextsApart := by
    rintro t (rfl | rfl) c (rfl | rfl | rfl) <;> exact Block.apart_of_le (by decide)

theorem hooks_run_two_functions :
    Sound exampleLayout (fun _ => 0) (run Config.step ⟨fun _ => 0, []⟩
      [.hook older, .hook other, .hook newer, .unhook newer, .unhook older]) := by
  refine hooks_run exampleLayout _ _ ⟨⟨.inl rfl, by simp⟩, ⟨.inr (.inr rfl), ?_⟩,
    ⟨.inr (.inl rfl), ?_⟩, ⟨_, rfl⟩, ⟨_, rfl⟩, trivial⟩
  · simp only [Config.step, List.mem_singleton, forall_eq]
    exact Block.apart_of_le (by decide)
  · simp only [Config.step, List.mem_cons, List.not_mem_nil, or_false, forall_eq_or_imp, forall_eq]
    exact ⟨Block.apart_of_le (by decide), Block.apart_of_le (by decide)⟩

end NspireUtils.Ports.HookRuns
