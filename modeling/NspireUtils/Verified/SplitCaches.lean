import NspireUtils.Verified.Runs
import NspireUtils.Verified.WordStores
import NspireUtils.Verified.WriteBackCache

/-!
# Separate caches for instructions and data

A processor that stores through a write-back data cache and fetches through an
instruction cache, which is filled from memory and does not see the data cache or the
write buffer.  Between any two instructions of a program, lines of either cache may come
and go and writes may leave the buffer.

A program that stores code and then cleans its line, drains the buffer and invalidates
the line in the instruction cache, in this order, makes the fetch see it: `fetch_run`.
-/

namespace NspireUtils.Verified.SplitCaches

open NspireUtils.Verified.ByteMemory
open NspireUtils.Verified.Runs
open NspireUtils.Verified.WordStores
open NspireUtils.Verified.WriteBackCache

/-- Memory behind the data cache and the write buffer, and the lines of the instruction
cache. -/
structure Split where
  data : Cached
  code : Nat → Option Memory

/-- An instruction of the program. -/
inductive Instr where
  | store (st : Store)
  | cleanLine (l : Nat)
  | drainWriteBuffer
  | invalidateLine (l : Nat)
  deriving Repr, DecidableEq

/-- What may happen at any time. -/
inductive Disturbance where
  | refill (l : Nat)
  | forget (l : Nat)
  | evict (l : Nat)
  | fill (l : Nat)
  | retire
  deriving Repr, DecidableEq

namespace Split

/-- A byte as it is fetched. -/
def fetch (s : Split) (x : Nat) : Byte :=
  match s.code (lineOf x) with
  | some bytes => bytes x
  | none => s.data.mem x

def exec (s : Split) : Instr → Split
  | .store st => { s with data := s.data.store st.dst (st.value s.data.view) }
  | .cleanLine l => { s with data := s.data.clean l }
  | .drainWriteBuffer => { s with data := s.data.drain }
  | .invalidateLine l => { s with code := Function.update s.code l none }

def disturb (s : Split) : Disturbance → Split
  | .refill l => { s with code := Function.update s.code l (some s.data.mem) }
  | .forget l => { s with code := Function.update s.code l none }
  | .evict l => { s with data := s.data.evict l }
  | .fill l => { s with data := s.data.fill l }
  | .retire => { s with data := s.data.retire }

end Split

namespace Instr

/-- The instruction stores nothing. -/
def Silent : Instr → Prop
  | store _ => False
  | _ => True

/-- Stores are aligned. -/
def Aligned : Instr → Prop
  | store st => 4 ∣ st.dst
  | _ => True

/-- What the instruction does to the processor's memory. -/
def effect (m : Memory) : Instr → Memory
  | store st => st.exec m
  | _ => m

end Instr

/-- The processor's memory after the instructions. -/
def effects (m : Memory) (todo : List Instr) : Memory := todo.foldl Instr.effect m

/-- The processor, and what the program has still to do. -/
structure Config where
  split : Split
  todo : List Instr

inductive Event where
  | program
  | disturb (d : Disturbance)
  deriving Repr, DecidableEq

def Config.step (c : Config) : Event → Config
  | .program =>
      match c.todo with
      | [] => c
      | i :: rest => ⟨c.split.exec i, rest⟩
  | .disturb d => ⟨c.split.disturb d, c.todo⟩

/-! ## The processor's memory -/

theorem view_exec {i : Instr} (hi : i.Aligned) (s : Split) :
    (s.exec i).data.view = i.effect s.data.view := by
  cases i with
  | store st => exact s.data.view_store hi _
  | cleanLine l => exact s.data.view_clean l
  | drainWriteBuffer => rfl
  | invalidateLine l => rfl

@[simp] theorem view_disturb (d : Disturbance) (s : Split) :
    (s.disturb d).data.view = s.data.view := by
  cases d with
  | refill l => rfl
  | forget l => rfl
  | evict l => exact s.data.view_evict l
  | fill l => exact s.data.view_fill l
  | retire => exact s.data.view_retire

theorem effect_of_silent {i : Instr} (hi : i.Silent) (m : Memory) : i.effect m = m := by
  cases i with
  | store st => exact hi.elim
  | _ => rfl

theorem effects_of_silent {todo : List Instr} (h : ∀ i ∈ todo, i.Silent) (m : Memory) :
    effects m todo = m := by
  induction todo with
  | nil => rfl
  | cons i rest ih =>
      rw [effects, List.foldl_cons, effect_of_silent (h i List.mem_cons_self)]
      exact ih fun j hj => h j (List.mem_cons_of_mem _ hj)

/-- A program of stores and nothing else that stores. -/
theorem effects_stores (stores : List Store) {sync : List Instr} (h : ∀ i ∈ sync, i.Silent)
    (m : Memory) : effects m (stores.map .store ++ sync) = execAll m stores := by
  induction stores generalizing m with
  | nil => exact effects_of_silent h m
  | cons st rest ih => exact ih (st.exec m)

/-! ## How far a byte has come -/

/-- The instruction cache holds the byte as the processor sees it, or not at all. -/
def Fetched (s : Split) (x : Nat) : Prop :=
  ∀ bytes, s.code (lineOf x) = some bytes → bytes x = s.data.view x

/-- How far a byte has come on its way to the fetch, and what the program has still to
do for it. -/
inductive Underway (x : Nat) : Split → List Instr → Prop
  | stored {s : Split} {stores sync : List Instr} (hsilent : ∀ i ∈ sync, i.Silent)
      (hrest :
        [.cleanLine (lineOf x), .drainWriteBuffer, .invalidateLine (lineOf x)].Sublist sync) :
      Underway x s (stores ++ sync)
  | cleaned {s : Split} {todo : List Instr} (hsilent : ∀ i ∈ todo, i.Silent)
      (hline : s.data.line (lineOf x) ≠ .dirty)
      (hrest : [.drainWriteBuffer, .invalidateLine (lineOf x)].Sublist todo) : Underway x s todo
  | written {s : Split} {todo : List Instr} (hsilent : ∀ i ∈ todo, i.Silent)
      (hwritten : s.data.Written x) (hrest : .invalidateLine (lineOf x) ∈ todo) : Underway x s todo
  | fetched {s : Split} {todo : List Instr} (hsilent : ∀ i ∈ todo, i.Silent)
      (hwritten : s.data.Written x) (hfetched : Fetched s x) : Underway x s todo

section Steps

variable {x : Nat} {s : Split}

theorem line_exec {i : Instr} (hi : i.Silent) {l : Nat} (h : s.data.line l ≠ .dirty) :
    (s.exec i).data.line l ≠ .dirty := by
  cases i with
  | store st => exact hi.elim
  | cleanLine k => exact s.data.line_clean h
  | drainWriteBuffer => exact h
  | invalidateLine k => exact h

theorem line_disturb (d : Disturbance) {l : Nat} (h : s.data.line l ≠ .dirty) :
    (s.disturb d).data.line l ≠ .dirty := by
  cases d with
  | refill k => exact h
  | forget k => exact h
  | evict k => exact s.data.line_evict h
  | fill k => exact s.data.line_fill h
  | retire =>
      show s.data.retire.line l ≠ .dirty
      rwa [s.data.line_retire]

theorem written_exec {i : Instr} (hi : i.Silent) (h : s.data.Written x) :
    (s.exec i).data.Written x := by
  cases i with
  | store st => exact hi.elim
  | cleanLine l => exact h.clean l
  | drainWriteBuffer => exact h.drain
  | invalidateLine l => exact h

theorem written_disturb (d : Disturbance) (h : s.data.Written x) :
    (s.disturb d).data.Written x := by
  cases d with
  | refill l => exact h
  | forget l => exact h
  | evict l => exact h.evict l
  | fill l => exact h.fill l
  | retire => exact h.retire

/-- A line that is dropped is not wrong. -/
theorem fetched_drop (h : Fetched s x) (l : Nat) :
    Fetched { s with code := Function.update s.code l none } x := by
  intro bytes hbytes
  by_cases hl : lineOf x = l
  · simp only [hl, Function.update_self] at hbytes
    exact absurd hbytes (by simp)
  · simp only [Function.update_of_ne hl] at hbytes
    exact h bytes hbytes

theorem fetched_exec {i : Instr} (hi : i.Silent) (h : Fetched s x) : Fetched (s.exec i) x := by
  cases i with
  | store st => exact hi.elim
  | cleanLine l =>
      intro bytes hbytes
      rw [h bytes hbytes]
      exact (congrFun (s.data.view_clean l) x).symm
  | drainWriteBuffer => exact h
  | invalidateLine l => exact fetched_drop h l

/-- A line that is refilled is what memory holds. -/
theorem fetched_disturb (d : Disturbance) (hwritten : s.data.Written x) (h : Fetched s x) :
    Fetched (s.disturb d) x := by
  cases d with
  | refill l =>
      intro bytes hbytes
      by_cases hl : lineOf x = l
      · simp only [Split.disturb, hl, Function.update_self, Option.some.injEq] at hbytes
        subst hbytes
        exact hwritten.1
      · simp only [Split.disturb, Function.update_of_ne hl] at hbytes
        exact h bytes hbytes
  | forget l => exact fetched_drop h l
  | evict l | fill l | retire =>
      intro bytes hbytes
      rw [h bytes hbytes, view_disturb]

theorem fetched_invalidate (s : Split) (x : Nat) :
    Fetched (s.exec (.invalidateLine (lineOf x))) x := by
  intro bytes hbytes
  simp only [Split.exec, Function.update_self] at hbytes
  exact absurd hbytes (by simp)

/-- An instruction of the program takes the byte further or leaves it where it is. -/
theorem underway_exec {i : Instr} {rest : List Instr} (h : Underway x s (i :: rest)) :
    Underway x (s.exec i) rest := by
  generalize htodo : i :: rest = todo at h
  cases h with
  | @stored stores sync hsilent hrest =>
      cases stores with
      | cons j stores =>
          obtain ⟨-, rfl⟩ := List.cons.inj htodo
          exact .stored hsilent hrest
      | nil =>
          obtain rfl : i :: rest = sync := htodo
          have hlater : ∀ j ∈ rest, j.Silent := fun j hj => hsilent j (List.mem_cons_of_mem _ hj)
          rcases List.cons_sublist_cons'.mp hrest with hskip | ⟨rfl, hnext⟩
          · exact @Underway.stored x (s.exec i) [] rest hlater hskip
          · exact .cleaned hlater (s.data.line_clean_self _) hnext
  | cleaned hsilent hline hrest =>
      subst htodo
      have hlater : ∀ j ∈ rest, j.Silent := fun j hj => hsilent j (List.mem_cons_of_mem _ hj)
      rcases List.cons_sublist_cons'.mp hrest with hskip | ⟨rfl, hnext⟩
      · exact .cleaned hlater (line_exec (hsilent i List.mem_cons_self) hline) hskip
      · exact .written hlater (Cached.written_drain hline) (List.singleton_sublist.mp hnext)
  | written hsilent hwritten hrest =>
      subst htodo
      have hlater : ∀ j ∈ rest, j.Silent := fun j hj => hsilent j (List.mem_cons_of_mem _ hj)
      have hstays := written_exec (hsilent i List.mem_cons_self) hwritten
      rcases List.mem_cons.mp hrest with rfl | hnext
      · exact .fetched hlater hstays (fetched_invalidate s x)
      · exact .written hlater hstays hnext
  | fetched hsilent hwritten hfetched =>
      subst htodo
      have hi := hsilent i List.mem_cons_self
      exact .fetched (fun j hj => hsilent j (List.mem_cons_of_mem _ hj)) (written_exec hi hwritten)
        (fetched_exec hi hfetched)

/-- Nothing that may happen takes it back. -/
theorem underway_disturb (d : Disturbance) {todo : List Instr} (h : Underway x s todo) :
    Underway x (s.disturb d) todo := by
  cases h with
  | stored hsilent hrest => exact .stored hsilent hrest
  | cleaned hsilent hline hrest => exact .cleaned hsilent (line_disturb d hline) hrest
  | written hsilent hwritten hrest => exact .written hsilent (written_disturb d hwritten) hrest
  | fetched hsilent hwritten hfetched =>
      exact .fetched hsilent (written_disturb d hwritten) (fetched_disturb d hwritten hfetched)

/-- At the end of the program it has arrived. -/
theorem fetch_of_underway (h : Underway x s []) : s.fetch x = s.data.view x := by
  generalize htodo : ([] : List Instr) = todo at h
  cases h with
  | stored hsilent hrest =>
      obtain ⟨-, rfl⟩ := List.append_eq_nil_iff.mp htodo.symm
      exact absurd hrest (by simp)
  | cleaned hsilent hline hrest =>
      subst htodo
      exact absurd hrest (by simp)
  | written hsilent hwritten hrest =>
      subst htodo
      exact absurd hrest (by simp)
  | fetched hsilent hwritten hfetched =>
      unfold Split.fetch
      cases hcode : s.code (lineOf x) with
      | none => exact hwritten.1
      | some bytes => exact hfetched bytes hcode

end Steps

/-! ## Runs -/

/-- What every step of a run keeps. -/
structure Invariant (x : Nat) (target : Memory) (c : Config) : Prop where
  aligned : ∀ i ∈ c.todo, i.Aligned
  effects : effects c.split.data.view c.todo = target
  underway : Underway x c.split c.todo

theorem invariant_step {x : Nat} {target : Memory} (c : Config) (e : Event)
    (h : Invariant x target c) : Invariant x target (c.step e) := by
  obtain ⟨s, todo⟩ := c
  obtain ⟨haligned, heffects, hunderway⟩ := h
  cases e with
  | disturb d =>
      refine ⟨haligned, ?_, underway_disturb d hunderway⟩
      simpa only [Config.step, view_disturb] using heffects
  | program =>
      cases todo with
      | nil => exact ⟨haligned, heffects, hunderway⟩
      | cons i rest =>
          refine ⟨fun j hj => haligned j (List.mem_cons_of_mem _ hj), ?_, underway_exec hunderway⟩
          simp only [Config.step, view_exec (haligned i List.mem_cons_self)]
          exact heffects

/-- **Synchronisation.**  A byte whose line is cleaned after the stores, then the
buffer drained and then the line invalidated, is fetched as it was stored, from any
contents of caches and buffer and whatever happens in between. -/
theorem fetch_run (s : Split) {stores : List Store} {sync : List Instr} {x : Nat}
    (haligned : ∀ st ∈ stores, 4 ∣ st.dst) (hsilent : ∀ i ∈ sync, i.Silent)
    (hsync : [.cleanLine (lineOf x), .drainWriteBuffer, .invalidateLine (lineOf x)].Sublist sync)
    (events : List Event)
    (hdone : (run Config.step ⟨s, stores.map .store ++ sync⟩ events).todo = []) :
    (run Config.step ⟨s, stores.map .store ++ sync⟩ events).split.fetch x =
      execAll s.data.view stores x := by
  have hall : ∀ i ∈ stores.map Instr.store ++ sync, i.Aligned := by
    intro i hi
    rcases List.mem_append.mp hi with hi | hi
    · obtain ⟨st, hst, rfl⟩ := List.mem_map.mp hi
      exact haligned st hst
    · have hquiet := hsilent i hi
      cases i with
      | store st => exact hquiet.elim
      | _ => trivial
  have hinvariant := run_invariant Config.step (fun _ _ => True)
    (fun c e _ h => invariant_step c e h) events ⟨s, stores.map .store ++ sync⟩
    ((allowed_const Config.step (fun _ => True) events _).mpr fun _ _ => trivial)
    (⟨hall, effects_stores stores hsilent s.data.view, .stored hsilent hsync⟩ :
      Invariant x (execAll s.data.view stores) _)
  obtain ⟨-, heffects, hunderway⟩ := hinvariant
  rw [hdone] at heffects hunderway
  rw [fetch_of_underway hunderway]
  exact congrFun heffects x

end NspireUtils.Verified.SplitCaches
