import NspireUtils.Verified.ArmCode

/-!
# Calls of a function

A function of which only the first instructions are known is its first
instructions in memory and a body behind them, which runs as a whole and goes on at
some address.  A function outside the code that is branched to runs as a whole too,
and goes on at its return address.  The machine records both like calls.

A call is followed up to the first time an instruction is reached, so it has one
outcome at most.
-/

namespace NspireUtils.Verified.ArmCalls

open NspireUtils.Verified.ByteMemory
open NspireUtils.Verified.ArmCode

/-- What is behind the first instructions: where it starts, and what the processor is
and where it goes on when the body is done. -/
structure Body where
  start : Word
  run : Core → Core × Word

variable (E : Environment) (b : Body)

/-- What runs as a whole at an address: the body or an outside function.  The machine
has recorded that one call. -/
def atOnce (a : Word) (k : Core) : Option Machine :=
  if a = b.start then some ⟨(b.run k).1, (b.run k).2, [(a, k.regs 0)]⟩
  else (E.functions a).map fun f => ⟨f k, k.regs lr, [(a, k.regs 0)]⟩

/-- One instruction, the whole body, or a whole function. -/
def callStep (m : Machine) : Option Machine :=
  match atOnce E b m.pc m.core with
  | some d => some { d with calls := m.calls ++ d.calls }
  | none => step E m

/-- Going on at an address: the function that was called with this return address
returns there, or what is there runs as a whole. -/
def goOn (link a : Word) (k : Core) : Machine :=
  if a = link then ⟨k, a, []⟩ else (atOnce E b a k).getD ⟨k, a, []⟩

section Paths

variable (stop : Word → Prop)

/-- The machine comes from one state to the other, past no instruction to stop at. -/
inductive Reaches : Machine → Machine → Prop
  | refl (m : Machine) : Reaches m m
  | next {m m' m'' : Machine} (hpc : ¬ stop m.pc) (hstep : callStep E b m = some m')
      (hrest : Reaches m' m'') : Reaches m m''

/-- Code that is followed instruction by instruction, and not stopped at. -/
structure Stepwise (pc : Word) : Prop where
  notBody : pc ≠ b.start
  notFunction : E.functions pc = none
  notStop : ¬ stop pc

end Paths

/-- The first time the machine is at `a`. -/
def FirstAt (a : Word) (m m' : Machine) : Prop := Reaches E b (· = a) m m' ∧ m'.pc = a

/-- The machine executes the instruction at `a` for the first time. -/
def Returns (a : Word) (m m' : Machine) : Prop :=
  ∃ m₁, FirstAt E b a m m₁ ∧ step E m₁ = some m'

variable {E b} {stop : Word → Prop}

theorem callStep_of_atOnce {a : Word} {k : Core} {d : Machine} (h : atOnce E b a k = some d)
    (calls : List Call) :
    callStep E b ⟨k, a, calls⟩ = some ⟨d.core, d.pc, calls ++ d.calls⟩ := by
  simp only [callStep, h]

theorem Stepwise.callStep_eq {m : Machine} (h : Stepwise E b stop m.pc) :
    callStep E b m = step E m := by
  have hnone : atOnce E b m.pc m.core = none := by
    rw [atOnce, if_neg h.notBody, h.notFunction, Option.map_none]
  simp only [callStep, hnone]

theorem goOn_link (link : Word) (k : Core) : goOn E b link link k = ⟨k, link, []⟩ := if_pos rfl

theorem Reaches.trans {m m' m'' : Machine} (h : Reaches E b stop m m')
    (h' : Reaches E b stop m' m'') : Reaches E b stop m m'' := by
  induction h with
  | refl => exact h'
  | next hpc hstep _ ih => exact .next hpc hstep (ih h')

theorem Reaches.instruction {m m' m'' : Machine} (h : Stepwise E b stop m.pc)
    (hstep : step E m = some m') (hrest : Reaches E b stop m' m'') : Reaches E b stop m m'' :=
  .next h.notStop (h.callStep_eq.trans hstep) hrest

theorem Reaches.body {k : Core} (hpc : ¬ stop b.start) (calls : List Call) :
    Reaches E b stop ⟨k, b.start, calls⟩
      ⟨(b.run k).1, (b.run k).2, calls ++ [(b.start, k.regs 0)]⟩ :=
  .next hpc (callStep_of_atOnce (if_pos rfl) calls) (.refl _)

theorem Reaches.goOn {link a : Word} {k : Core}
    (hstop : a ≠ link → ∀ d, atOnce E b a k = some d → ¬ stop a) (calls : List Call) :
    Reaches E b stop ⟨k, a, calls⟩ ⟨(goOn E b link a k).core, (goOn E b link a k).pc,
      calls ++ (goOn E b link a k).calls⟩ := by
  rw [ArmCalls.goOn]
  split_ifs with hlink
  · rw [List.append_nil]
    exact .refl _
  · cases hd : atOnce E b a k with
    | none =>
        rw [Option.getD_none, List.append_nil]
        exact .refl _
    | some d => exact .next (hstop hlink d hd) (callStep_of_atOnce hd calls) (.refl _)

/-- There is one first time. -/
theorem FirstAt.unique {a : Word} {m m' m'' : Machine} (h : FirstAt E b a m m')
    (h' : FirstAt E b a m m'') : m' = m'' := by
  obtain ⟨hreaches, hpc⟩ := h
  obtain ⟨hreaches', hpc'⟩ := h'
  induction hreaches with
  | refl =>
      cases hreaches' with
      | refl => rfl
      | next hne => exact absurd hpc hne
  | next hne hstep _ ih =>
      cases hreaches' with
      | refl => exact absurd hpc' hne
      | next _ hstep' hrest' =>
          obtain rfl := Option.some.inj (hstep.symm.trans hstep')
          exact ih hpc hrest'

/-- A call has one outcome. -/
theorem Returns.unique {a : Word} {m m' m'' : Machine} (h : Returns E b a m m')
    (h' : Returns E b a m m'') : m' = m'' := by
  obtain ⟨m₁, hfirst, hstep⟩ := h
  obtain ⟨m₂, hfirst', hstep'⟩ := h'
  rw [hfirst.unique hfirst', hstep'] at hstep
  exact (Option.some.inj hstep).symm

end NspireUtils.Verified.ArmCalls
