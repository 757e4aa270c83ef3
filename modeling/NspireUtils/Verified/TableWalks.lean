import NspireUtils.Verified.ProofOutline
import NspireUtils.Verified.Runs
import NspireUtils.Verified.ShortDescriptor
import NspireUtils.Verified.WriteBackCache

/-!
# Table walks beside a running program

A program that updates translation tables through a write-back cache, and a memory
management unit that may walk the tables at any moment.  Walks read memory, not the
cache and not the write buffer, and what they find stays in the TLB.

A program that stores, cleans, invalidates the TLB and then drains the write buffer
leaves a window between the last two steps: a walk there can bring back what the
buffer is about to change.  `update_run` is the theorem about all runs in which no
walk does.
-/

namespace NspireUtils.Verified.TableWalks

open NspireUtils.Verified.ByteMemory
open NspireUtils.Verified.ShortDescriptor
open NspireUtils.Verified.WriteBackCache
open NspireUtils.Verified.ProofOutline
open NspireUtils.Verified.Runs

/-- Memory with its cache, the table base register, and the TLB. -/
structure Hardware where
  cached : Cached
  ttbr : Word
  tlb : Word → Option Translation

/-- One step of the program. -/
inductive Instr where
  | store (a : Nat) (value : Word)
  | copyWord (dst src : Nat)
  | cleanLine (l : Nat)
  | setTtbr (value : Word)
  | invalidateTlb
  | drainWriteBuffer
  deriving Repr, DecidableEq

/-- What a walk leaves in the TLB. -/
def translation : Walk → Option Translation
  | .mapped t => some t
  | _ => none

namespace Hardware

/-- A walk of the tables in memory. -/
def walk (h : Hardware) (va : Word) : Walk :=
  Verified.ShortDescriptor.walk h.cached.mem h.ttbr va

/-- The walk once the write buffer is empty. -/
def settledWalk (h : Hardware) (va : Word) : Walk :=
  Verified.ShortDescriptor.walk h.cached.settled h.ttbr va

/-- One step of the program. -/
def exec (h : Hardware) : Instr → Hardware
  | .store a value => { h with cached := h.cached.store a value }
  | .copyWord dst src => { h with cached := h.cached.store dst (readWord h.cached.view src) }
  | .cleanLine l => { h with cached := h.cached.clean l }
  | .setTtbr value => { h with ttbr := value }
  | .invalidateTlb => { h with tlb := fun _ => none }
  | .drainWriteBuffer => { h with cached := h.cached.drain }

/-- Walks for some addresses. -/
def refill (h : Hardware) (vas : Word → Bool) : Hardware :=
  { h with tlb := fun va => if vas va then translation (h.walk va) else h.tlb va }

/-- Every TLB entry is what a walk finds. -/
def Agrees (h : Hardware) : Prop := ∀ va t, h.tlb va = some t → h.walk va = .mapped t

/-- Every TLB entry is what a walk will find once the write buffer is empty. -/
def WillAgree (h : Hardware) : Prop := ∀ va t, h.tlb va = some t → h.settledWalk va = .mapped t

end Hardware

/-- The hardware and what the program has still to do. -/
structure Config where
  hardware : Hardware
  todo : List Instr

/-- A step of the program, or walks. -/
inductive Event where
  | program
  | walk (vas : Word → Bool)

/-- The TLB has been invalidated for the last time, the write buffer has not been
drained yet. -/
def Window (todo : List Instr) : Prop :=
  .invalidateTlb ∉ todo ∧ .drainWriteBuffer ∈ todo

namespace Config

def step (c : Config) : Event → Config
  | .program =>
      match c.todo with
      | [] => c
      | i :: rest => ⟨c.hardware.exec i, rest⟩
  | .walk vas => ⟨c.hardware.refill vas, c.todo⟩

/-- In the window, walks find what they would find once the write buffer is empty. -/
def Fresh (c : Config) : Event → Prop
  | .program => True
  | .walk vas =>
      Window c.todo → ∀ va, vas va = true → c.hardware.walk va = c.hardware.settledWalk va

end Config

/-! ## The program alone -/

namespace Instr

/-- What the step does to the processor's memory. -/
def effect (m : Memory) : Instr → Memory
  | .store a value => writeWord m a value
  | .copyWord dst src => writeWord m dst (readWord m src)
  | _ => m

/-- Stores are aligned. -/
def Aligned : Instr → Prop
  | .store a _ => 4 ∣ a
  | .copyWord dst _ => 4 ∣ dst
  | _ => True

/-- The step stores into the line. -/
def Dirties (l : Nat) : Instr → Prop
  | .store a _ => lineOf a = l
  | .copyWord dst _ => lineOf dst = l
  | _ => False

end Instr

/-- The memory the processor sees after the steps. -/
def effects (m : Memory) (todo : List Instr) : Memory := todo.foldl Instr.effect m

/-- The program cleans the line and does not store into it any more. -/
def Cleaned (l : Nat) : List Instr → Prop
  | [] => False
  | i :: rest => Cleaned l rest ∨ (i = .cleanLine l ∧ ∀ j ∈ rest, ¬ j.Dirties l)

namespace Hardware

variable (h : Hardware)

theorem view_exec {i : Instr} (hi : i.Aligned) :
    (h.exec i).cached.view = i.effect h.cached.view := by
  cases i with
  | store a value => exact h.cached.view_store hi value
  | copyWord dst src => exact h.cached.view_store hi _
  | cleanLine l => exact h.cached.view_clean l
  | setTtbr value => rfl
  | invalidateTlb => rfl
  | drainWriteBuffer => rfl

theorem line_exec {i : Instr} {l : Nat} (hi : ¬ i.Dirties l) (hl : h.cached.line l ≠ .dirty) :
    (h.exec i).cached.line l ≠ .dirty := by
  cases i with
  | store a value => exact h.cached.line_store value (fun heq => hi heq.symm) hl
  | copyWord dst src => exact h.cached.line_store _ (fun heq => hi heq.symm) hl
  | cleanLine k => exact h.cached.line_clean hl
  | setTtbr value => exact hl
  | invalidateTlb => exact hl
  | drainWriteBuffer => exact hl

end Hardware

/-- The line will not be dirty at the end of the program. -/
def WillBeClean (l : Nat) (todo : List Instr) (h : Hardware) : Prop :=
  Cleaned l todo ∨ (h.cached.line l ≠ .dirty ∧ ∀ i ∈ todo, ¬ i.Dirties l)

theorem WillBeClean.exec {l : Nat} {i : Instr} {rest : List Instr} {h : Hardware}
    (hl : WillBeClean l (i :: rest) h) : WillBeClean l rest (h.exec i) := by
  rcases hl with (hrest | ⟨rfl, hrest⟩) | ⟨hline, hnone⟩
  · exact .inl hrest
  · exact .inr ⟨h.cached.line_clean_self l, hrest⟩
  · exact .inr ⟨h.line_exec (hnone i List.mem_cons_self) hline,
      fun j hj => hnone j (List.mem_cons_of_mem _ hj)⟩

/-! ## The program among walks -/

section Update

variable (target : Memory) (written : Nat → Prop)

/-- Before the rest of the stores: it leads to the target memory, and the lines
written will be clean. -/
def Updating (todo : List Instr) (h : Hardware) : Prop :=
  effects h.cached.view todo = target ∧ ∀ x, written x → WillBeClean (lineOf x) todo h

/-- The tables are as they should be. -/
def Updated (h : Hardware) : Prop :=
  h.cached.view = target ∧ ∀ x, written x → h.cached.line (lineOf x) ≠ .dirty

/-- At the end: memory holds the target and the TLB agrees with it. -/
def Settled (h : Hardware) : Prop :=
  Updated target written h ∧ h.cached.mem = h.cached.settled ∧ h.Agrees

/-- Memory holds what the program wrote. -/
theorem Settled.mem {h : Hardware} (hsettled : Settled target written h) {x : Nat}
    (hx : written x) : h.cached.mem x = target x := by
  obtain ⟨⟨hview, hclean⟩, hmem, -⟩ := hsettled
  rw [hmem, ← hview, h.cached.view_of_not_dirty (hclean x hx)]

/-- Walks while the program is where it is. -/
def walks (h : Hardware) (_ : List Instr) (vas : Word → Bool) : Hardware := h.refill vas

/-- The walks `Config.Fresh` permits. -/
def FreshWalks (h : Hardware) (todo : List Instr) (vas : Word → Bool) : Prop :=
  Window todo → ∀ va, vas va = true → h.walk va = h.settledWalk va

/-- An entry is old, or what the walk found. -/
theorem tlb_refill {h : Hardware} {vas : Word → Bool} {va : Word} {t : Translation}
    (ht : (h.refill vas).tlb va = some t) :
    h.tlb va = some t ∨ (vas va = true ∧ h.walk va = .mapped t) := by
  simp only [Hardware.refill] at ht
  split_ifs at ht with hva
  · refine .inr ⟨hva, ?_⟩
    cases hwalk : h.walk va with
    | mapped u =>
        rw [hwalk] at ht
        exact congrArg Walk.mapped (Option.some.inj ht)
    | fault | reserved =>
        rw [hwalk] at ht
        exact absurd ht (by simp [translation])
  · exact .inl ht

/-- With an empty buffer, walks do no harm. -/
theorem agrees_refill {h : Hardware} (vas : Word → Bool) (hagrees : h.Agrees) :
    (h.refill vas).Agrees := by
  intro va t ht
  rcases tlb_refill ht with hold | ⟨-, hnew⟩
  · exact hagrees va t hold
  · exact hnew

theorem stable_settled :
    Stable walks FreshWalks (Settled target written) [] := by
  rintro h vas - ⟨hupdated, hmem, hagrees⟩
  exact ⟨hupdated, hmem, agrees_refill vas hagrees⟩

/-- The last two steps. -/
theorem outline_invalidate :
    Outline Hardware.exec walks FreshWalks (Updated target written)
      [.invalidateTlb, .drainWriteBuffer] (Settled target written) := by
  refine .cons (Q := fun h => Updated target written h ∧ h.WillAgree) (fun h vas _ hP => hP)
    (fun h hP => ⟨hP, fun va t ht => by cases ht⟩) ?_
  refine .cons (Q := Settled target written) ?_ ?_ (.done (stable_settled target written))
  · rintro h vas hfresh ⟨hupdated, hagree⟩
    refine ⟨hupdated, fun va t ht => ?_⟩
    have hwindow : Window [.drainWriteBuffer] := ⟨by simp, by simp⟩
    rcases tlb_refill ht with hold | ⟨hva, hnew⟩
    · exact hagree va t hold
    · exact (hfresh hwindow va hva).symm.trans hnew
  · rintro h ⟨⟨hview, hclean⟩, hagree⟩
    exact ⟨⟨hview, hclean⟩, rfl, hagree⟩

/-- The outline of an update. -/
theorem outline_update (work : List Instr) (hwork : ∀ i ∈ work, i.Aligned) :
    Outline Hardware.exec walks FreshWalks (Updating target written work)
      (work ++ [.invalidateTlb, .drainWriteBuffer]) (Settled target written) := by
  induction work with
  | nil =>
      have hlast := outline_invalidate target written
      cases hlast with
      | cons hstable hop hrest =>
          refine .cons (fun h vas _ hP => hP) (fun h hP => hop h ⟨hP.1, fun x hx => ?_⟩) hrest
          rcases hP.2 x hx with hfalse | ⟨hline, -⟩
          · exact hfalse.elim
          · exact hline
  | cons i rest ih =>
      refine .cons (fun h vas _ hP => hP) (fun h hP => ⟨?_, fun x hx => (hP.2 x hx).exec⟩)
        (ih fun j hj => hwork j (List.mem_cons_of_mem _ hj))
      rw [h.view_exec (hwork i List.mem_cons_self)]
      exact hP.1

end Update

/-! ## Runs -/

/-- Each permitted step keeps the program on its outline. -/
theorem at_step {R : Hardware → Prop} {c : Config} {e : Event} (he : c.Fresh e)
    (h : At Hardware.exec walks FreshWalks R c.hardware c.todo) :
    At Hardware.exec walks FreshWalks R (c.step e).hardware (c.step e).todo := by
  cases e with
  | program =>
      obtain ⟨hardware, todo⟩ := c
      cases todo with
      | nil => exact h
      | cons i rest => exact h.program_step
  | walk vas => exact h.environment_step he

/-- **Updates under walks.**  Stores, cleaning, then the invalidation and the drain:
if no walk in between finds what the buffer is about to change, then at the end memory
holds what was written and the TLB agrees with the tables. -/
theorem update_run {h : Hardware} {work : List Instr} {written : Nat → Prop}
    (hwork : ∀ i ∈ work, i.Aligned) (hclean : ∀ x, written x → Cleaned (lineOf x) work)
    (events : List Event)
    (hfresh : Allowed Config.step Config.Fresh
      ⟨h, work ++ [.invalidateTlb, .drainWriteBuffer]⟩ events)
    (hdone : (run Config.step ⟨h, work ++ [.invalidateTlb, .drainWriteBuffer]⟩ events).todo = []) :
    Settled (effects h.cached.view work) written
      (run Config.step ⟨h, work ++ [.invalidateTlb, .drainWriteBuffer]⟩ events).hardware := by
  have hat := @run_invariant _ _ Config.step Config.Fresh
    (fun c => At Hardware.exec walks FreshWalks
      (Settled (effects h.cached.view work) written) c.hardware c.todo)
    (fun c e => at_step) events _ hfresh
    ⟨_, ⟨rfl, fun x hx => .inl (hclean x hx)⟩, outline_update _ _ work hwork⟩
  rw [hdone] at hat
  exact hat.done

/-- A program that has nothing to do leaves the TLB as good as it was. -/
theorem idle_run {h : Hardware} (hagrees : h.Agrees) (events : List Event) :
    (run Config.step ⟨h, []⟩ events).hardware.Agrees := by
  refine (@run_invariant _ _ Config.step (fun _ _ => True)
    (fun c => c.todo = [] ∧ c.hardware.Agrees) (fun c e _ hc => ?_) events ⟨h, []⟩
    ((allowed_const Config.step (fun _ => True) events _).mpr fun _ _ => trivial)
    ⟨rfl, hagrees⟩).2
  obtain ⟨hardware, todo⟩ := c
  obtain ⟨rfl, hagrees⟩ := hc
  cases e with
  | program => exact ⟨rfl, hagrees⟩
  | walk vas => exact ⟨rfl, agrees_refill vas hagrees⟩

end NspireUtils.Verified.TableWalks
