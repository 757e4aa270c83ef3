import NspireUtils.Verified.ArmCode

/-!
# Function hooks

The templates of `hook/HookTemplates.S` and the functions of `hook/Hooks.cpp` as
programs of word stores.  A hook saves the first two instructions of its target in
the context, builds a trampoline that executes them and goes on behind them, builds
a stub that calls the hook function, and makes the target jump to the stub.

`hooked` and `unhooked` say what the three functions do to memory.
-/

namespace NspireUtils.Ports.Hooks

open NspireUtils.Verified.ByteMemory
open NspireUtils.Verified.WordStores
open NspireUtils.Verified.ArmCode

/-! ## Templates -/

/-- `HookJump_template`. -/
def hookJumpTemplate : List Word :=
  [ encode (.ldrPc false 4)             -- ldr pc, [pc, #-4]
  , 0xFFFFFFFF#32 ]

/-- `EntryHookStub_template`. -/
def entryHookStubTemplate : List Word :=
  [ encode (.stmdb 0x527F)              -- stmdb sp!, {r0-r3, r4, r5, r6, r9, r12, lr}
  , encode (.ldr 0 true 12)             -- ldr r0, [pc, #12]
  , encode (.ldr 12 true 12)            -- ldr r12, [pc, #12]
  , encode (.blx 12)                    -- blx r12
  , encode (.ldmia 0x527F)              -- ldmia sp!, {r0-r3, r4, r5, r6, r9, r12, lr}
  , encode (.ldrPc true 4)              -- ldr pc, [pc, #4]
  , 0xFFFFFFFF#32
  , 0xFFFFFFFF#32
  , 0xFFFFFFFF#32 ]

/-- `ExitHookStub_template`. -/
def exitHookStubTemplate : List Word :=
  [ encode (.stmdb 0x4230)              -- stmdb sp!, {r4, r5, r9, lr}
  , encode (.ldr 12 true 28)            -- ldr r12, [pc, #28]
  , encode (.blx 12)                    -- blx r12
  , encode (.stmdb 0x000F)              -- stmdb sp!, {r0-r3}
  , encode (.ldr 0 true 20)             -- ldr r0, [pc, #20]
  , encode (.ldr 12 true 20)            -- ldr r12, [pc, #20]
  , encode (.blx 12)                    -- blx r12
  , encode (.ldmia 0x000F)              -- ldmia sp!, {r0-r3}
  , encode (.ldmia 0x4230)              -- ldmia sp!, {r4, r5, r9, lr}
  , encode (.bx lr)                     -- bx lr
  , 0xFFFFFFFF#32
  , 0xFFFFFFFF#32
  , 0xFFFFFFFF#32 ]

/-- `Trampoline_template`. -/
def trampolineTemplate : List Word :=
  [ 0xFFFFFFFF#32
  , 0xFFFFFFFF#32
  , encode (.ldrPc false 4)             -- ldr pc, [pc, #-4]
  , 0xFFFFFFFF#32 ]

/-! ## Contexts -/

inductive HookKind where
  | entry
  | exit
  deriving Repr, DecidableEq

namespace HookKind

/-- The words of `hookStub`. -/
def stubLength : HookKind → Nat
  | entry => 9
  | exit => 13

/-- The bytes of the structure: three pointers, and the three arrays. -/
def size (k : HookKind) : Nat := 12 + 4 * (2 + k.stubLength + 4)

end HookKind

/-- The first two instructions of a function. -/
def entryBlock (targetFunction : Word) : Block := ⟨targetFunction.toNat, 8⟩

/-- `EntryHookContext_ARM` and `ExitHookContext_ARM`: where the structure lies and
what its first three fields are.  It is not in the way of its target. -/
structure Context where
  kind : HookKind
  address : Word
  targetFunction : Word
  hookFunction : Word
  userData : Word
  fits : address.toNat + kind.size ≤ 2 ^ 32
  targetFits : targetFunction.toNat + 8 ≤ 2 ^ 32
  apart : (entryBlock targetFunction).Apart ⟨address.toNat, kind.size⟩
  deriving DecidableEq

namespace Context

variable (c : Context)

/-- The bytes of the structure. -/
def block : Block := ⟨c.address.toNat, c.kind.size⟩

/-- The address of `saved_instructions`. -/
def savedInstructions : Nat := c.address.toNat + 12

/-- The address of `hookStub`. -/
def hookStub : Nat := c.address.toNat + 20

/-- The address of `trampoline`. -/
def trampoline : Nat := c.address.toNat + 20 + 4 * c.kind.stubLength

end Context

/-! ## The functions -/

/-- `ReadOriginalInstrutions`. -/
def readOriginalInstructions (targetFunction buffer count : Nat) : List Store :=
  (List.range count).map fun i => .copy (buffer + 4 * i) (targetFunction + 4 * i)

/-- What `BuildHookJump` stores. -/
def hookJump (hookStubAddress : Word) : List Word := hookJumpTemplate.take 1 ++ [hookStubAddress]

/-- `BuildHookJump`. -/
def buildHookJump (hookStubAddress : Word) (outInstr : Nat) : List Store :=
  putWords outInstr (hookJump hookStubAddress)

/-- What `BuildEntryHookStub` stores. -/
def entryHookStub (userData hookFunction trampolineAddress : Word) : List Word :=
  entryHookStubTemplate.take 6 ++ [userData, hookFunction, trampolineAddress]

/-- `BuildEntryHookStub`. -/
def buildEntryHookStub (userData hookFunction trampolineAddress : Word) (outInstr : Nat) :
    List Store :=
  putWords outInstr (entryHookStub userData hookFunction trampolineAddress)

/-- What `BuildExitHookStub` stores. -/
def exitHookStub (userData hookFunction trampolineAddress : Word) : List Word :=
  exitHookStubTemplate.take 10 ++ [trampolineAddress, userData, hookFunction]

/-- `BuildExitHookStub`. -/
def buildExitHookStub (userData hookFunction trampolineAddress : Word) (outInstr : Nat) :
    List Store :=
  putWords outInstr (exitHookStub userData hookFunction trampolineAddress)

/-- What `BuildTrampoline` stores behind the saved instructions. -/
def trampolineEnd (targetFunction : Word) : List Word :=
  (trampolineTemplate.drop 2).take 1 ++ [targetFunction + 8#32]

/-- `BuildTrampoline`. -/
def buildTrampoline (savedInstructions : Nat) (targetFunction : Word) (outInstr : Nat) :
    List Store :=
  [.copy outInstr savedInstructions, .copy (outInstr + 4) (savedInstructions + 4)] ++
    putWords (outInstr + 8) (trampolineEnd targetFunction)

/-- The two functions that install a hook, up to the stub they build. -/
def hookFunctionARM (c : Context) (buildStub : List Store) : List Store :=
  readOriginalInstructions c.targetFunction.toNat c.savedInstructions 2 ++
    (buildTrampoline c.savedInstructions c.targetFunction c.trampoline ++
      (buildStub ++ buildHookJump (BitVec.ofNat 32 c.hookStub) c.targetFunction.toNat))

/-- `HookFunctionEntry_ARM`. -/
def hookFunctionEntryARM (c : Context) : List Store :=
  hookFunctionARM c (buildEntryHookStub c.userData c.hookFunction (BitVec.ofNat 32 c.trampoline)
    c.hookStub)

/-- `HookFunctionExit_ARM`. -/
def hookFunctionExitARM (c : Context) : List Store :=
  hookFunctionARM c (buildExitHookStub c.userData c.hookFunction (BitVec.ofNat 32 c.trampoline)
    c.hookStub)

/-- `UnhookFunction_ARM`. -/
def unhookFunctionARM (targetFunction : Word) (savedInstructions : Nat) : List Store :=
  [.copy targetFunction.toNat savedInstructions,
    .copy (targetFunction.toNat + 4) (savedInstructions + 4)]

namespace Context

variable (c : Context)

/-- The function for a context of this kind. -/
def hook : List Store :=
  match c.kind with
  | .entry => hookFunctionEntryARM c
  | .exit => hookFunctionExitARM c

/-- `UnhookFunction_ARM(context.target_function, context.saved_instructions)`. -/
def unhook : List Store := unhookFunctionARM c.targetFunction c.savedInstructions

/-- The stub's words. -/
def stubWords : List Word :=
  match c.kind with
  | .entry => entryHookStub c.userData c.hookFunction (BitVec.ofNat 32 c.trampoline)
  | .exit => exitHookStub c.userData c.hookFunction (BitVec.ofNat 32 c.trampoline)

/-- The jump to the stub. -/
def jumpWords : List Word := hookJump (BitVec.ofNat 32 c.hookStub)

@[simp] theorem length_stubWords : c.stubWords.length = c.kind.stubLength := by
  obtain ⟨kind, _⟩ := c
  cases kind <;> rfl

theorem hook_eq : c.hook = hookFunctionARM c (putWords c.hookStub c.stubWords) := by
  obtain ⟨kind, _⟩ := c
  cases kind <;> rfl

/-- Target and structure lie one behind the other. -/
theorem before_or_after : c.targetFunction.toNat + 8 ≤ c.address.toNat ∨
    c.address.toNat + c.kind.size ≤ c.targetFunction.toNat :=
  c.apart.before_or_after (show 0 < 8 by omega) (by simp only [HookKind.size]; omega)

end Context

/-! ## What they store -/

section Stores

variable (c : Context) (m : Memory)

/-- The first two instructions as they are. -/
def original (targetFunction : Word) : List Word := readWords m targetFunction.toNat 2

/-- What is stored in the context, one array after the other, and then in the
target. -/
def codeWords : List Word :=
  (original m c.targetFunction ++ trampolineEnd c.targetFunction) ++ (c.stubWords ++ c.jumpWords)

/-- Where it is stored. -/
def codeAddresses : List Nat :=
  addresses c.trampoline 4 ++
    (addresses c.hookStub c.kind.stubLength ++ addresses c.targetFunction.toNat 2)

theorem length_codeWords : (codeWords c m).length = (codeAddresses c).length := by
  have htrampoline :
      (original m c.targetFunction ++ trampolineEnd c.targetFunction).length = 4 := rfl
  have hjump : c.jumpWords.length = 2 := rfl
  simp only [codeWords, codeAddresses, List.length_append, htrampoline, hjump,
    Context.length_stubWords, length_addresses]

/-- The stores of a hook, with their values. -/
theorem resolve_hook :
    resolve m c.hook =
      (addresses c.savedInstructions 2 ++ codeAddresses c).zip
        (original m c.targetFunction ++ codeWords c m) := by
  have hside := c.before_or_after
  have hsize : c.kind.size = 36 + 4 * c.kind.stubLength := by simp only [HookKind.size]; omega
  have hsaved : c.savedInstructions = c.address.toNat + 12 := rfl
  have htrampoline : c.trampoline = c.address.toNat + 20 + 4 * c.kind.stubLength := rfl
  -- the second instruction is read after the first was saved
  have hread : ∀ value, readWord (writeWord m c.savedInstructions value)
      (c.targetFunction.toNat + 4) = readWord m (c.targetFunction.toNat + 4) := fun value =>
    readWord_writeWord_of_apart m _ value (by omega)
  have hfirst : ∀ value value', readWord (writeWord (writeWord m c.savedInstructions value)
      (c.savedInstructions + 4) value') c.savedInstructions = value := fun value value' => by
    rw [readWord_writeWord_of_apart _ _ _ (by omega), readWord_writeWord_self]
  have hsecond : ∀ (m' : Memory) value value', readWord (writeWord (writeWord m'
      (c.savedInstructions + 4) value) c.trampoline value') (c.savedInstructions + 4) = value :=
    fun m' value value' => by
      rw [readWord_writeWord_of_apart _ _ _ (by omega), readWord_writeWord_self]
  have hsaving : resolve m (readOriginalInstructions c.targetFunction.toNat c.savedInstructions 2) =
      (addresses c.savedInstructions 2).zip (original m c.targetFunction) := by
    show [(c.savedInstructions, readWord m c.targetFunction.toNat), (c.savedInstructions + 4,
      readWord (writeWord m c.savedInstructions _) (c.targetFunction.toNat + 4))] = _
    rw [hread]
    rfl
  have hcopying : resolve
      (execAll m (readOriginalInstructions c.targetFunction.toNat c.savedInstructions 2))
      [.copy c.trampoline c.savedInstructions, .copy (c.trampoline + 4) (c.savedInstructions + 4)] =
      (addresses c.trampoline 2).zip (original m c.targetFunction) := by
    rw [execAll_eq, hsaving]
    show [(c.trampoline, readWord (writeWord (writeWord m c.savedInstructions _)
      (c.savedInstructions + 4) _) c.savedInstructions), (c.trampoline + 4, readWord (writeWord
      (writeWord (writeWord m c.savedInstructions _) (c.savedInstructions + 4) _) c.trampoline _)
      (c.savedInstructions + 4))] = _
    rw [hfirst, hsecond]
    rfl
  have hcode : (codeAddresses c).zip (codeWords c m) =
      (addresses c.trampoline 4).zip
          (original m c.targetFunction ++ trampolineEnd c.targetFunction) ++
        ((addresses c.hookStub c.kind.stubLength).zip c.stubWords ++
          (addresses c.targetFunction.toNat 2).zip c.jumpWords) := by
    rw [codeAddresses, codeWords, List.zip_append (by rfl), List.zip_append (by simp)]
  rw [List.zip_append (by rfl), c.hook_eq, hookFunctionARM, resolve_append, resolve_append,
    resolve_append, buildHookJump, resolve_putWords, resolve_putWords, buildTrampoline,
    resolve_append, resolve_putWords, hcode, Context.length_stubWords, hsaving, hcopying]
  rfl

/-- Nothing is stored twice. -/
theorem pairwise_hook :
    (addresses c.savedInstructions 2 ++ codeAddresses c).Pairwise WordsApart := by
  have hside := c.before_or_after
  have hsize : c.kind.size = 36 + 4 * c.kind.stubLength := by simp only [HookKind.size]; omega
  simp only [codeAddresses, List.pairwise_append, List.mem_append, pairwise_addresses, true_and]
  refine ⟨⟨fun a ha b hb => ?_, fun a ha b hb => ?_⟩, fun a ha b hb => ?_⟩
  all_goals
    simp only [Context.savedInstructions, Context.trampoline, Context.hookStub] at ha hb
  · have := mem_addresses ha
    have := mem_addresses hb
    simp only [WordsApart]
    omega
  · have := mem_addresses ha
    rcases hb with hb | hb <;> have := mem_addresses hb <;> simp only [WordsApart] <;> omega
  · have := mem_addresses ha
    rcases hb with hb | hb | hb <;> have := mem_addresses hb <;> simp only [WordsApart] <;> omega

end Stores

/-! ## What they do -/

/-- What a hook does: it saves the first instructions, builds trampoline and stub,
makes the target jump to the stub, and changes nothing else. -/
structure Hooked (c : Context) (m m' : Memory) : Prop where
  saved : readWords m' c.savedInstructions 2 = original m c.targetFunction
  trampoline : readWords m' c.trampoline 4 =
    original m c.targetFunction ++ trampolineEnd c.targetFunction
  stub : readWords m' c.hookStub c.kind.stubLength = c.stubWords
  target : original m' c.targetFunction = c.jumpWords
  outside : ∀ x, ¬ (entryBlock c.targetFunction).Holds x → ¬ c.block.Holds x → m' x = m x

/-- The stores reach only target and structure. -/
theorem outside_hook (c : Context) {x : Nat} (htarget : ¬ (entryBlock c.targetFunction).Holds x)
    (hblock : ¬ c.block.Holds x) :
    ∀ a ∈ addresses c.savedInstructions 2 ++ codeAddresses c, x < a ∨ a + 4 ≤ x := by
  have hsize : c.kind.size = 36 + 4 * c.kind.stubLength := by simp only [HookKind.size]; omega
  simp only [entryBlock, Context.block, Block.Holds, hsize] at htarget hblock
  intro a ha
  simp only [codeAddresses, List.mem_append, Context.savedInstructions, Context.trampoline,
    Context.hookStub] at ha
  rcases ha with ha | ha | ha | ha <;> have := mem_addresses ha <;> omega

theorem hooked (c : Context) (m : Memory) : Hooked c m (execAll m c.hook) := by
  have hlen : (addresses c.savedInstructions 2 ++ codeAddresses c).length =
      (original m c.targetFunction ++ codeWords c m).length := by
    simp only [List.length_append, length_codeWords]
    rfl
  have hwords := readAll_written hlen (pairwise_hook c) m
  have houtside : ∀ x, ¬ (entryBlock c.targetFunction).Holds x → ¬ c.block.Holds x →
      execAll m c.hook x = m x := by
    intro x htarget hblock
    have h := @putAll_take_of_outside _ (original m c.targetFunction ++ codeWords c m) m
      (resolve m c.hook).length x (outside_hook c htarget hblock)
    rwa [← resolve_hook, List.take_length, ← execAll_eq] at h
  rw [← resolve_hook, ← execAll_eq] at hwords
  generalize execAll m c.hook = m' at hwords houtside
  simp only [codeAddresses, codeWords, readAll_append] at hwords
  obtain ⟨hsaved, hrest⟩ := List.append_inj hwords (by rfl)
  obtain ⟨htrampoline, hrest⟩ := List.append_inj hrest (by rfl)
  obtain ⟨hstub, htarget⟩ := List.append_inj hrest (by simp)
  exact ⟨hsaved, htrampoline, hstub, htarget, houtside⟩

/-- What removing it does. -/
structure Unhooked (c : Context) (m m' : Memory) : Prop where
  target : original m' c.targetFunction = readWords m c.savedInstructions 2
  outside : ∀ x, ¬ (entryBlock c.targetFunction).Holds x → m' x = m x

/-- Its stores, with their values. -/
theorem resolve_unhook (c : Context) (m : Memory) :
    resolve m c.unhook =
      (addresses c.targetFunction.toNat 2).zip (readWords m c.savedInstructions 2) := by
  have hside := c.before_or_after
  have hsize : c.kind.size = 36 + 4 * c.kind.stubLength := by simp only [HookKind.size]; omega
  have hsaved : c.savedInstructions = c.address.toNat + 12 := rfl
  have hread : ∀ value, readWord (writeWord m c.targetFunction.toNat value)
      (c.savedInstructions + 4) = readWord m (c.savedInstructions + 4) := fun value =>
    readWord_writeWord_of_apart m _ value (by omega)
  show [(c.targetFunction.toNat, readWord m c.savedInstructions), (c.targetFunction.toNat + 4,
    readWord (writeWord m c.targetFunction.toNat _) (c.savedInstructions + 4))] = _
  rw [hread]
  rfl

theorem unhooked (c : Context) (m : Memory) : Unhooked c m (execAll m c.unhook) := by
  rw [execAll_eq, resolve_unhook]
  refine ⟨readAll_written (by rfl) (pairwise_addresses _ _) m, fun x hx => ?_⟩
  refine putAll_of_outside m _ fun p hp => ?_
  have hbounds := mem_addresses (List.of_mem_zip hp).1
  simp only [entryBlock, Block.Holds] at hx
  omega

/-- A context at an address above its target. -/
def contextAbove (kind : HookKind) (address targetFunction : Word)
    (hbelow : targetFunction.toNat + 8 ≤ address.toNat)
    (hfits : address.toNat + kind.size ≤ 2 ^ 32) :
    Context where
  kind := kind
  address := address
  targetFunction := targetFunction
  hookFunction := 0x3000#32
  userData := 0
  fits := hfits
  targetFits := by
    have hsize : kind.size = 36 + 4 * kind.stubLength := by simp only [HookKind.size]; omega
    omega
  apart := Block.apart_of_le (.inl hbelow)

end NspireUtils.Ports.Hooks
