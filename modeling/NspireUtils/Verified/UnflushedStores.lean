import NspireUtils.Verified.Runs
import NspireUtils.Verified.WriteBackCache

/-!
# Stores that nobody cleans

A program stores words through a write-back cache that allocates on writes, lines
are written back and filled at any time, and a device reads memory.  The program
cleans nothing, so when it has ended the device may find in a word what memory
held before, what a dirty line held before, or any value the program stored
there: `word_iff`.
-/

namespace NspireUtils.Verified.UnflushedStores

open NspireUtils.Verified.ByteMemory
open NspireUtils.Verified.Runs
open NspireUtils.Verified.WriteBackCache

/-- A store, or an instruction that does not go through the cache. -/
inductive Instr where
  | store (a : Nat) (value : Word)
  | other
  deriving Repr, DecidableEq

/-- A store fills its line and stays in it. -/
def exec (s : Cached) : Instr → Cached
  | .store a value => (s.fill (lineOf a)).store a value
  | .other => s

/-- A line goes to memory and leaves the cache. -/
def writeBack (s : Cached) (l : Nat) : Cached := (s.evict l).drain

/-- The cache, and what the program has still to do. -/
structure Config where
  cache : Cached
  todo : List Instr

inductive Event where
  | program
  | evict (l : Nat)
  | fill (l : Nat)
  deriving Repr, DecidableEq

def Config.step (c : Config) : Event → Config
  | .program =>
      match c.todo with
      | [] => c
      | i :: rest => ⟨exec c.cache i, rest⟩
  | .evict l => ⟨writeBack c.cache l, c.todo⟩
  | .fill l => ⟨c.cache.fill l, c.todo⟩

/-! ## What a step does -/

section Steps

variable (s : Cached)

theorem mem_fill (l : Nat) : (s.fill l).mem = s.mem ∧ (s.fill l).buffer = s.buffer := by
  unfold Cached.fill
  split_ifs
  · exact ⟨rfl, rfl⟩
  · exact ⟨rfl, rfl⟩

/-- A filled line is there. -/
theorem line_fill_self (l : Nat) : (s.fill l).line l ≠ .absent := by
  unfold Cached.fill
  split_ifs with habsent
  · simp
  · exact habsent

/-- The program does not reach memory. -/
theorem mem_exec (i : Instr) : (exec s i).mem = s.mem ∧ (exec s i).buffer = s.buffer := by
  cases i with
  | other => exact ⟨rfl, rfl⟩
  | store a value =>
      have hstore : exec s (.store a value) = { s.fill (lineOf a) with
          line := Function.update (s.fill (lineOf a)).line (lineOf a) .dirty
          data := writeWord (s.fill (lineOf a)).view a value } :=
        if_neg (line_fill_self s (lineOf a))
      rw [hstore]
      exact mem_fill s (lineOf a)

theorem view_exec {a : Nat} (ha : 4 ∣ a) (value : Word) :
    (exec s (.store a value)).view = writeWord s.view a value := by
  rw [exec, Cached.view_store _ ha, Cached.view_fill]

@[simp] theorem view_writeBack (l : Nat) : (writeBack s l).view = s.view := by
  rw [writeBack, Cached.view_drain, Cached.view_evict]

variable {s}

/-- A byte whose line is written back is what the processor sees. -/
theorem mem_writeBack (hbuffer : s.buffer = []) (l x : Nat) :
    (writeBack s l).mem x = if lineOf x = l then s.view x else s.mem x := by
  have hsettled : s.settled = s.mem := by rw [Cached.settled, hbuffer, List.foldl_nil]
  have hmem : (writeBack s l).mem = (s.clean l).settled := rfl
  rw [hmem, Cached.clean]
  split_ifs with hdirty hx hx
  · refine (congrFun (s.settled_push _) x).trans ((if_pos (holds_lineBlock.mpr hx)).trans ?_)
    exact (if_pos (by rw [hx, hdirty])).symm
  · refine (congrFun (s.settled_push _) x).trans ((if_neg fun h => hx ?_).trans ?_)
    · exact holds_lineBlock.mp h
    · rw [hsettled]
  · rw [s.view_of_not_dirty (by rw [hx]; exact hdirty)]
  · rw [hsettled]

/-- So is a word. -/
theorem word_writeBack (hbuffer : s.buffer = []) {a : Nat} (ha : 4 ∣ a) (l : Nat) :
    readWord (writeBack s l).mem a =
      if lineOf a = l then readWord s.view a else readWord s.mem a := by
  split_ifs with hl
  · refine readWord_congr fun x hle hlt => ?_
    rw [mem_writeBack hbuffer, if_pos ((lineOf_word ha hle hlt).trans hl)]
  · refine readWord_congr fun x hle hlt => ?_
    rw [mem_writeBack hbuffer, if_neg fun hx => hl ((lineOf_word ha hle hlt).symm.trans hx)]

end Steps

/-! ## What the device may find -/

/-- Whatever the device may find in the word has the property. -/
structure Holds (R : Word → Prop) (a : Nat) (c : Config) : Prop where
  buffer : c.cache.buffer = []
  aligned : ∀ b v, .store b v ∈ c.todo → 4 ∣ b
  mem : R (readWord c.cache.mem a)
  view : R (readWord c.cache.view a)
  stores : ∀ v, .store a v ∈ c.todo → R v

theorem holds_step {R : Word → Prop} {a : Nat} (ha : 4 ∣ a) (c : Config) (e : Event)
    (h : Holds R a c) : Holds R a (c.step e) := by
  obtain ⟨s, todo⟩ := c
  obtain ⟨hbuffer, haligned, hmem, hview, hstores⟩ := h
  cases e with
  | evict l =>
      refine ⟨rfl, haligned, ?_, ?_, hstores⟩
      · show R (readWord (writeBack s l).mem a)
        rw [word_writeBack hbuffer ha]
        split_ifs
        · exact hview
        · exact hmem
      · show R (readWord (writeBack s l).view a)
        rwa [view_writeBack]
  | fill l =>
      obtain ⟨hfill, hbufferFill⟩ := mem_fill s l
      refine ⟨hbufferFill.trans hbuffer, haligned, ?_, ?_, hstores⟩
      · show R (readWord (s.fill l).mem a)
        rwa [hfill]
      · show R (readWord (s.fill l).view a)
        rwa [Cached.view_fill]
  | program =>
      cases todo with
      | nil => exact ⟨hbuffer, haligned, hmem, hview, hstores⟩
      | cons i rest =>
          obtain ⟨hexec, hbufferExec⟩ := mem_exec s i
          refine ⟨hbufferExec.trans hbuffer,
            fun b v hb => haligned b v (List.mem_cons_of_mem _ hb), ?_, ?_,
            fun v hv => hstores v (List.mem_cons_of_mem _ hv)⟩
          · show R (readWord (exec s i).mem a)
            rwa [hexec]
          · show R (readWord (exec s i).view a)
            cases i with
            | other => exact hview
            | store b v =>
                have hb := haligned b v List.mem_cons_self
                rw [view_exec s hb]
                by_cases hab : b = a
                · subst hab
                  rw [readWord_writeWord_self]
                  exact hstores v List.mem_cons_self
                · rwa [readWord_writeWord_of_apart _ _ _ (by omega)]

/-! ## Schedules -/

/-- The instructions of a program one after the other. -/
def execAll (s : Cached) (is : List Instr) : Cached := is.foldl exec s

theorem mem_execAll (is : List Instr) : ∀ s : Cached,
    (execAll s is).mem = s.mem ∧ (execAll s is).buffer = s.buffer := by
  induction is with
  | nil => intro s; exact ⟨rfl, rfl⟩
  | cons i rest ih =>
      intro s
      obtain ⟨hmem, hbuffer⟩ := ih (exec s i)
      obtain ⟨hmem', hbuffer'⟩ := mem_exec s i
      exact ⟨hmem.trans hmem', hbuffer.trans hbuffer'⟩

theorem run_program (is rest : List Instr) : ∀ s : Cached,
    run Config.step ⟨s, is ++ rest⟩ (List.replicate is.length .program) =
      ⟨execAll s is, rest⟩ := by
  induction is with
  | nil => intro s; rfl
  | cons i others ih => intro s; exact ih (exec s i)

/-- The program to its end. -/
theorem run_to_end (s : Cached) (is : List Instr) :
    run Config.step ⟨s, is⟩ (List.replicate is.length .program) = ⟨execAll s is, []⟩ := by
  have hrun := run_program is [] s
  rwa [List.append_nil] at hrun

/-- **What the device finds.**  When the program has ended, whatever lines were
written back meanwhile, the word in memory has the property, if and only if it had
it before in memory and for the processor, and every value the program stores
there has it. -/
theorem word_iff {s : Cached} (hbuffer : s.buffer = []) {todo : List Instr}
    (haligned : ∀ b v, .store b v ∈ todo → 4 ∣ b) {a : Nat} (ha : 4 ∣ a) (R : Word → Prop) :
    (∀ events, (run Config.step ⟨s, todo⟩ events).todo = [] →
        R (readWord (run Config.step ⟨s, todo⟩ events).cache.mem a)) ↔
      R (readWord s.mem a) ∧ R (readWord s.view a) ∧ ∀ v, .store a v ∈ todo → R v := by
  constructor
  · intro hall
    refine ⟨?_, ?_, fun v hv => ?_⟩
    · -- nothing is written back
      have hend := hall (List.replicate todo.length .program)
      rw [run_to_end] at hend
      have hfinal := hend rfl
      rwa [(mem_execAll todo s).1] at hfinal
    · -- the line is written back at first
      have hend := hall (.evict (lineOf a) :: List.replicate todo.length .program)
      rw [run_cons, Config.step, run_to_end] at hend
      have hfinal := hend rfl
      rwa [(mem_execAll todo _).1, word_writeBack hbuffer ha, if_pos rfl] at hfinal
    · -- the line is written back right after the store
      obtain ⟨before, after, rfl⟩ := List.append_of_mem hv
      have hend := hall (List.replicate (before ++ [Instr.store a v]).length .program ++
        .evict (lineOf a) :: List.replicate after.length .program)
      rw [List.append_cons, run_append, run_program, run_cons, Config.step, run_to_end] at hend
      have hfinal := hend rfl
      have hstored : (execAll s (before ++ [.store a v])).view =
          writeWord (execAll s before).view a v := by
        rw [execAll, List.foldl_append]
        exact view_exec _ ha v
      rwa [(mem_execAll after _).1, word_writeBack ((mem_execAll _ s).2.trans hbuffer) ha,
        if_pos rfl, hstored, readWord_writeWord_self] at hfinal
  · rintro ⟨hmem, hview, hstores⟩ events -
    have hrun := run_invariant Config.step (fun _ _ => True)
      (fun c e _ h => holds_step ha c e h) events ⟨s, todo⟩
      ((allowed_const Config.step (fun _ => True) events _).mpr fun _ _ => trivial)
      (⟨hbuffer, haligned, hmem, hview, hstores⟩ : Holds R a ⟨s, todo⟩)
    exact hrun.mem

end NspireUtils.Verified.UnflushedStores
