import NspireUtils.Ports.HookRuns

/-!
# Hooking a live function

An interrupt handler that calls the target may run between any two stores of
`HookFunctionEntry_ARM`, `HookFunctionExit_ARM` and `UnhookFunction_ARM`.  The stub
and the trampoline are complete before the target is touched, but the target's two
words are stored one after the other, and in between the jump loads the old second
instruction as its destination.  A function may have several hooks, each of whose
trampolines leads to the next, so a context may be gone through under another one:
`Reached` says which are, and `allOrNothing_iff` is the exact condition under which
nobody can tell.
-/

namespace NspireUtils.Ports.HookPatch

open NspireUtils.Verified.ByteMemory
open NspireUtils.Verified.WordStores
open NspireUtils.Ports.Hooks
open NspireUtils.Ports.HookRuns (Layout original_congr exampleLayout older newer)

/-- A call of one of the functions. -/
inductive Operation where
  | hook (c : Context)
  | unhook (c : Context)

namespace Operation

def context : Operation → Context
  | hook c => c
  | unhook c => c

def stores : Operation → List Store
  | hook c => c.hook
  | unhook c => c.unhook

/-- The memory an interrupt handler finds after `k` stores. -/
def interrupted (op : Operation) (m : Memory) (k : Nat) : Memory := execAll m (op.stores.take k)

/-- The memory after the operation. -/
def completed (op : Operation) (m : Memory) : Memory := execAll m op.stores

end Operation

/-! ## What a call reaches -/

/-- Trampoline and stub. -/
def body (c : Context) (m : Memory) : List Word :=
  readAll m (addresses c.trampoline 4 ++ addresses c.hookStub c.kind.stubLength)

/-- What trampoline and stub are to be. -/
def bodyWords (c : Context) (m : Memory) : List Word :=
  (original m c.targetFunction ++ trampolineEnd c.targetFunction) ++ c.stubWords

section Code

variable (L : Layout)

/-- The contexts whose stub and trampoline a call goes through: a function jumps to the
stub, or the trampoline of a context that is gone through does. -/
inductive Reached (m : Memory) : Context → Prop
  | entry {t : Word} {c : Context} (ht : t ∈ L.targets) (hc : c ∈ L.contexts)
      (hjump : original m t = c.jumpWords) : Reached m c
  | trampoline {c d : Context} (hc : Reached m c) (hd : d ∈ L.contexts)
      (hjump : readWords m c.trampoline 2 = d.jumpWords) : Reached m d

/-- Calls of the functions execute the same code in two memories: the first two words
of each function, and all trampolines and stubs that are gone through. -/
structure SameCode (m m' : Memory) : Prop where
  entry : ∀ t ∈ L.targets, original m' t = original m t
  body : ∀ c, Reached L m c → body c m' = body c m

/-- Wherever the operation is interrupted, a call executes exactly the code it reached
before or exactly the code it reaches afterwards. -/
structure AllOrNothing (op : Operation) (m : Memory) : Prop where
  code : ∀ k, SameCode L m (op.interrupted m k) ∨ SameCode L (op.interrupted m k) (op.completed m)
  others : ∀ k x, ¬ (entryBlock op.context.targetFunction).Holds x → ¬ op.context.block.Holds x →
    op.interrupted m k x = m x

/-- The condition: at most one word that a call reaches is new, of the target's two
and, if the context is gone through already, of its trampoline and its stub. -/
def Unnoticed (m : Memory) : Operation → Prop
  | .hook c =>
      AtMostOneChange (original m c.targetFunction) c.jumpWords ∧
        (Reached L m c → AtMostOneChange (body c m ++ original m c.targetFunction)
          (bodyWords c m ++ c.jumpWords))
  | .unhook c => AtMostOneChange (original m c.targetFunction) (readWords m c.savedInstructions 2)

end Code

/-! ## Interrupted operations -/

theorem length_body (c : Context) (m : Memory) : (body c m).length = 4 + c.kind.stubLength := by
  simp [body]

theorem length_bodyWords (c : Context) (m : Memory) :
    (bodyWords c m).length = 4 + c.kind.stubLength := by
  have htrampoline :
      (original m c.targetFunction ++ trampolineEnd c.targetFunction).length = 4 := rfl
  rw [bodyWords, List.length_append, htrampoline, Context.length_stubWords]

theorem Reached.mem {L : Layout} {m : Memory} {c : Context} (h : Reached L m c) :
    c ∈ L.contexts := by
  cases h with
  | entry _ hc _ => exact hc
  | trampoline _ hd _ => exact hd

/-- Trampoline and stub are in the structure. -/
theorem body_congr {c : Context} {m m' : Memory} (hsame : ∀ x, c.block.Holds x → m' x = m x) :
    body c m' = body c m := by
  have hsize : c.kind.size = 36 + 4 * c.kind.stubLength := by simp only [HookKind.size]; omega
  refine readAll_congr fun a ha => readWord_congr fun x hle hlt => hsame x ?_
  simp only [List.mem_append, Context.trampoline, Context.hookStub] at ha
  simp only [Context.block, Block.Holds]
  rcases ha with ha | ha <;> have := mem_addresses ha <;> omega

/-- The same code leads through the same contexts, so `SameCode` compares all that a call reaches
in either memory. -/
theorem SameCode.reached_iff {L : Layout} {m m' : Memory} (h : SameCode L m m') (c : Context) :
    Reached L m' c ↔ Reached L m c := by
  have htrampoline : ∀ {d : Context}, Reached L m d →
      readWords m' d.trampoline 2 = readWords m d.trampoline 2 := fun hd =>
    congrArg (List.take 2) (h.body _ hd)
  constructor
  · intro hc
    induction hc with
    | entry ht hc hjump => exact .entry ht hc ((h.entry _ ht).symm.trans hjump)
    | trampoline _ hd hjump ih => exact .trampoline ih hd ((htrampoline ih).symm.trans hjump)
  · intro hc
    induction hc with
    | entry ht hc hjump => exact .entry ht hc ((h.entry _ ht).trans hjump)
    | trampoline hc hd hjump ih => exact .trampoline ih hd ((htrampoline hc).trans hjump)

section Hook

variable (c : Context) (m : Memory) (k : Nat)

theorem interrupted_hook :
    readAll ((Operation.hook c).interrupted m k)
        (addresses c.savedInstructions 2 ++ codeAddresses c) =
      halfway (readAll m (addresses c.savedInstructions 2 ++ codeAddresses c))
        (original m c.targetFunction ++ codeWords c m) k := by
  have hlen : (addresses c.savedInstructions 2 ++ codeAddresses c).length =
      (original m c.targetFunction ++ codeWords c m).length := by
    simp only [List.length_append, length_codeWords]
    rfl
  rw [Operation.interrupted, Operation.stores, execAll_take, resolve_hook]
  exact readAll_interrupted hlen (pairwise_hook c) m k

theorem interrupted_hook_of_outside {x : Nat} (hx : ¬ (entryBlock c.targetFunction).Holds x)
    (hblock : ¬ c.block.Holds x) : (Operation.hook c).interrupted m k x = m x := by
  rw [Operation.interrupted, Operation.stores, execAll_take, resolve_hook]
  exact putAll_take_of_outside m k (outside_hook c hx hblock)

/-- Trampoline, stub and target come after the two saved instructions. -/
theorem body_then_target :
    body c ((Operation.hook c).interrupted m k) ++
        original ((Operation.hook c).interrupted m k) c.targetFunction =
      halfway (body c m ++ original m c.targetFunction) (bodyWords c m ++ c.jumpWords)
        (k - 2) := by
  have hsplit : codeAddresses c = (addresses c.trampoline 4 ++
      addresses c.hookStub c.kind.stubLength) ++ addresses c.targetFunction.toNat 2 := by
    rw [codeAddresses, List.append_assoc]
  have hwords : codeWords c m = bodyWords c m ++ c.jumpWords := by
    simp only [codeWords, bodyWords, List.append_assoc]
  have hlen : (body c m ++ original m c.targetFunction).length =
      (bodyWords c m ++ c.jumpWords).length := by
    rw [List.length_append, List.length_append, length_body, length_bodyWords]
    rfl
  have h := interrupted_hook c m k
  rw [hsplit, hwords, readAll_append, readAll_append m, halfway_append (by rfl)] at h
  obtain ⟨-, h⟩ := List.append_inj h (by rw [length_halfway (by rfl)]; simp)
  rw [readAll_append, readAll_append m] at h
  exact h

/-- The target comes last. -/
theorem body_and_target :
    body c ((Operation.hook c).interrupted m k) = halfway (body c m) (bodyWords c m) (k - 2) ∧
      original ((Operation.hook c).interrupted m k) c.targetFunction =
        halfway (original m c.targetFunction) c.jumpWords (k - 2 - (4 + c.kind.stubLength)) := by
  have hbody : (body c m).length = (bodyWords c m).length := by
    rw [length_body, length_bodyWords]
  have h := body_then_target c m k
  rw [halfway_append hbody, length_bodyWords] at h
  exact List.append_inj h (by rw [length_halfway hbody, length_body, length_body])

/-- Once the target is touched, trampoline and stub are complete. -/
theorem body_of_touched (h : original ((Operation.hook c).interrupted m k) c.targetFunction ≠
    original m c.targetFunction) :
    body c ((Operation.hook c).interrupted m k) = bodyWords c m := by
  obtain ⟨hbody, htarget⟩ := body_and_target c m k
  rw [hbody]
  apply halfway_all (by rw [length_body, length_bodyWords])
  rw [length_bodyWords]
  by_contra hearly
  have hzero : k - 2 - (4 + c.kind.stubLength) = 0 := by omega
  rw [htarget, hzero, halfway_zero] at h
  exact h rfl

theorem completed_hook : body c ((Operation.hook c).completed m) = bodyWords c m := by
  have hhooked := hooked c m
  rw [body, readAll_append]
  exact congrArg₂ (· ++ ·) hhooked.trampoline hhooked.stub

end Hook

section Unhook

variable (c : Context) (m : Memory) (k : Nat)

theorem interrupted_unhook :
    original ((Operation.unhook c).interrupted m k) c.targetFunction =
      halfway (original m c.targetFunction) (readWords m c.savedInstructions 2) k := by
  rw [Operation.interrupted, Operation.stores, execAll_take, resolve_unhook]
  exact readAll_interrupted (by rfl) (pairwise_addresses _ _) m k

/-- Only the target is touched. -/
theorem interrupted_unhook_of_outside {x : Nat} (hx : ¬ (entryBlock c.targetFunction).Holds x) :
    (Operation.unhook c).interrupted m k x = m x := by
  rw [Operation.interrupted, Operation.stores, execAll_take, resolve_unhook]
  refine putAll_take_of_outside m k fun a ha => ?_
  have hbounds := mem_addresses ha
  simp only [entryBlock, Block.Holds] at hx
  omega

end Unhook

/-! ## The condition -/

section Condition

variable {L : Layout} {c : Context} {m : Memory} (hc : c ∈ L.contexts)

include hc

/-- Memories that agree outside the target and the context hold the same code if the
target's words are the same and, where the context is gone through, its own. -/
theorem sameCode_of {m' : Memory}
    (happart : ∀ d ∈ L.contexts, d ≠ c → d.block.Apart c.block)
    (houtside : ∀ x, ¬ (entryBlock c.targetFunction).Holds x → ¬ c.block.Holds x → m' x = m x)
    (htarget : original m' c.targetFunction = original m c.targetFunction)
    (hbody : Reached L m c → body c m' = body c m) : SameCode L m m' where
  entry t ht := by
    by_cases heq : c.targetFunction = t
    · exact heq ▸ htarget
    · exact original_congr fun x hx => houtside x
        (fun hentry => L.targetsApart _ (L.targeted c hc) t ht heq x hentry hx)
        (L.contextsApart t ht c hc x hx)
  body d hd := by
    by_cases heq : d = c
    · exact heq ▸ hbody (heq ▸ hd)
    · exact body_congr fun x hx => houtside x
        (fun hentry => L.contextsApart _ (L.targeted c hc) d hd.mem x hentry hx)
        (happart d hd.mem heq x hx)

theorem unnoticed_of_hook (h : AllOrNothing L (.hook c) m) : Unnoticed L m (.hook c) := by
  have ht := L.targeted c hc
  refine ⟨(unseen_iff (by rfl)).mp fun j => ?_, fun hreached => ?_⟩
  · obtain ⟨-, htarget⟩ := body_and_target c m (j + (6 + c.kind.stubLength))
    have hj : j + (6 + c.kind.stubLength) - 2 - (4 + c.kind.stubLength) = j := by omega
    rw [hj] at htarget
    rw [← htarget]
    rcases h.code (j + (6 + c.kind.stubLength)) with hbefore | hafter
    · exact .inl (hbefore.entry _ ht)
    · exact .inr ((hafter.entry _ ht).symm.trans (hooked c m).target)
  · have hlen : (body c m ++ original m c.targetFunction).length =
        (bodyWords c m ++ c.jumpWords).length := by
      rw [List.length_append, List.length_append, length_body, length_bodyWords]
      rfl
    refine (unseen_iff hlen).mp fun j => ?_
    have hcode := body_then_target c m (j + 2)
    rw [Nat.add_sub_cancel] at hcode
    rw [← hcode]
    rcases h.code (j + 2) with hbefore | hafter
    · left
      rw [hbefore.entry _ ht, hbefore.body c hreached]
    · right
      -- the target is the jump, so the context is gone through
      have hjump := (hafter.entry _ ht).symm.trans (hooked c m).target
      rw [hjump, ← hafter.body c (.entry ht hc hjump), completed_hook]

theorem allOrNothing_of_hook (happart : ∀ d ∈ L.contexts, d ≠ c → d.block.Apart c.block)
    (h : Unnoticed L m (.hook c)) : AllOrNothing L (.hook c) m := by
  obtain ⟨htarget, hcode⟩ := h
  refine ⟨fun k => ?_, fun k x hx hblock => interrupted_hook_of_outside c m k hx hblock⟩
  have houtside := fun x => @interrupted_hook_of_outside c m k x
  have hcompleted : ∀ x, ¬ (entryBlock c.targetFunction).Holds x → ¬ c.block.Holds x →
      (Operation.hook c).completed m x = (Operation.hook c).interrupted m k x := fun x hx hblock =>
    ((hooked c m).outside x hx hblock).trans (houtside x hx hblock).symm
  by_cases hreached : Reached L m c
  · have hlen : (body c m ++ original m c.targetFunction).length =
        (bodyWords c m ++ c.jumpWords).length := by
      rw [List.length_append, List.length_append, length_body, length_bodyWords]
      rfl
    have hwhole := body_then_target c m k
    rcases (unseen_iff hlen).mpr (hcode hreached) (k - 2) with hold | hnew
    · obtain ⟨hbody, hwords⟩ := List.append_inj (hwhole.trans hold)
        (by rw [length_body, length_body])
      exact .inl (sameCode_of hc happart houtside hwords fun _ => hbody)
    · obtain ⟨hbody, hwords⟩ := List.append_inj (hwhole.trans hnew)
        (by rw [length_body, length_bodyWords])
      refine .inr (sameCode_of hc happart hcompleted ?_ fun _ => ?_)
      · exact (hooked c m).target.trans hwords.symm
      · rw [completed_hook, hbody]
  · obtain ⟨-, hwords⟩ := body_and_target c m k
    rcases (unseen_iff (by rfl)).mpr htarget (k - 2 - (4 + c.kind.stubLength)) with hold | hnew
    · exact .inl (sameCode_of hc happart houtside (hwords.trans hold) fun h => absurd h hreached)
    · refine .inr (sameCode_of hc happart hcompleted ?_ fun _ => ?_)
      · exact (hooked c m).target.trans (hwords.trans hnew).symm
      · -- the jump was not there before, so the target has been touched
        have htouched : original ((Operation.hook c).interrupted m k) c.targetFunction ≠
            original m c.targetFunction := fun heq =>
          hreached (.entry (L.targeted c hc) hc (heq.symm.trans (hwords.trans hnew)))
        rw [completed_hook, body_of_touched c m k htouched]

theorem unnoticed_of_unhook (h : AllOrNothing L (.unhook c) m) : Unnoticed L m (.unhook c) := by
  refine (unseen_iff (by rfl)).mp fun k => ?_
  rw [← interrupted_unhook]
  rcases h.code k with hbefore | hafter
  · exact .inl (hbefore.entry _ (L.targeted c hc))
  · exact .inr ((hafter.entry _ (L.targeted c hc)).symm.trans (unhooked c m).target)

theorem allOrNothing_of_unhook (happart : ∀ d ∈ L.contexts, d ≠ c → d.block.Apart c.block)
    (h : Unnoticed L m (.unhook c)) : AllOrNothing L (.unhook c) m := by
  refine ⟨fun k => ?_, fun k x hx _ => interrupted_unhook_of_outside c m k hx⟩
  have houtside := fun x => @interrupted_unhook_of_outside c m k x
  have hblock : ∀ x, c.block.Holds x → ¬ (entryBlock c.targetFunction).Holds x := fun x hx hentry =>
    L.contextsApart _ (L.targeted c hc) c hc x hentry hx
  have hwords := interrupted_unhook c m k
  rcases (unseen_iff (by rfl)).mpr h k with hold | hnew
  · exact .inl (sameCode_of hc happart (fun x hx _ => houtside x hx) (hwords.trans hold) fun _ =>
      body_congr fun x hx => houtside x (hblock x hx))
  · have hcompleted : ∀ x, ¬ (entryBlock c.targetFunction).Holds x →
        (Operation.unhook c).completed m x = (Operation.unhook c).interrupted m k x := fun x hx =>
      ((unhooked c m).outside x hx).trans (houtside x hx).symm
    refine .inr (sameCode_of hc happart (fun x hx _ => hcompleted x hx) ?_ fun _ =>
      body_congr fun x hx => hcompleted x (hblock x hx))
    exact (unhooked c m).target.trans (hwords.trans hnew).symm

end Condition

/-- **Hooking a live function.**  All or nothing holds exactly under the condition,
whatever hooks are on the functions. -/
theorem allOrNothing_iff (L : Layout) (op : Operation) (m : Memory)
    (hcontext : op.context ∈ L.contexts)
    (happart : ∀ d ∈ L.contexts, d ≠ op.context → d.block.Apart op.context.block) :
    AllOrNothing L op m ↔ Unnoticed L m op := by
  cases op with
  | hook c => exact ⟨unnoticed_of_hook hcontext, allOrNothing_of_hook hcontext happart⟩
  | unhook c => exact ⟨unnoticed_of_unhook hcontext, allOrNothing_of_unhook hcontext happart⟩

theorem contexts_apart : ∀ c ∈ exampleLayout.contexts, ∀ d ∈ exampleLayout.contexts, d ≠ c →
    d.block.Apart c.block := by
  rintro c (rfl | rfl | rfl) d (rfl | rfl | rfl) hne
  all_goals first
    | exact absurd rfl hne
    | exact Block.apart_of_le (by decide)

/-- Installing a hook once more under a newer one rewrites the trampoline that the newer
one leads to. -/
theorem rehooked_below : ¬ AllOrNothing exampleLayout (.hook older)
    (execAll (execAll (fun _ => 0) older.hook) newer.hook) := by
  intro h
  have hinside : older ∈ exampleLayout.contexts := .inl rfl
  have hnewer := hooked newer (execAll (fun _ => 0) older.hook)
  have hreached : Reached exampleLayout (execAll (execAll (fun _ => 0) older.hook) newer.hook)
      older :=
    .trampoline (.entry (.inl rfl) (.inr (.inl rfl)) hnewer.target) hinside
      ((congrArg (List.take 2) hnewer.trampoline).trans
        (congrArg (· ++ []) (hooked older fun _ => 0).target))
  have hunnoticed := (allOrNothing_iff exampleLayout (.hook older) _ hinside
    (contexts_apart older hinside)).mp h
  exact absurd (hunnoticed.2 hreached 0 1 (by decide)) (by decide)

/-- Hooking a function whose first instructions are `mov r0, #0` and `bx lr` can be
seen half done. -/
theorem half_patched : ¬ ∀ (L : Layout) (op : Operation) (m : Memory),
    op.context ∈ L.contexts →
    (∀ d ∈ L.contexts, d ≠ op.context → d.block.Apart op.context.block) →
    AllOrNothing L op m := by
  intro hall
  have hinside : older ∈ exampleLayout.contexts := .inl rfl
  have h := unnoticed_of_hook hinside (hall exampleLayout (.hook older)
    (putAll (fun _ => 0) [(0x1000, 0xE3A00000#32), (0x1004, 0xE12FFF1E#32)]) hinside
    (contexts_apart older hinside))
  exact absurd (h.1 0 1 (by decide)) (by decide)

end NspireUtils.Ports.HookPatch
