import NspireUtils.Verified.SplitCaches

/-!
# Dropping all lines at once

A processor with separate caches that can also invalidate both of them: all lines leave,
and what dirty ones held is lost.  A program that stores, cleans some lines, drains the
buffer and then invalidates both caches does so while lines come and go.

`kept_iff` says when nothing is lost: where a line was not cleaned, memory and buffer
must have held what the processor saw from the beginning.
-/

namespace NspireUtils.Verified.WholeInvalidation

open NspireUtils.Verified.ByteMemory
open NspireUtils.Verified.Runs
open NspireUtils.Verified.WordStores
open NspireUtils.Verified.WriteBackCache
open NspireUtils.Verified.SplitCaches (Split Instr Event Fetched)

/-- An instruction, or the invalidation of both caches. -/
inductive Op where
  | instr (i : Instr)
  | invalidateBoth
  deriving Repr, DecidableEq

/-- One operation.  Nothing is written back. -/
def perform (s : Split) : Op → Split
  | .instr i => s.exec i
  | .invalidateBoth =>
      { data := { s.data with line := fun _ => .absent }, code := fun _ => none }

/-- The processor, and what the program has still to do. -/
structure Config where
  split : Split
  todo : List Op

def Config.step (c : Config) : Event → Config
  | .program =>
      match c.todo with
      | [] => c
      | op :: rest => ⟨perform c.split op, rest⟩
  | .disturb d => ⟨c.split.disturb d, c.todo⟩

/-- Stores, then the lines are cleaned, the buffer is drained and both caches are
invalidated. -/
def program (stores : List Store) (lines : List Nat) : List Op :=
  stores.map (.instr ∘ .store) ++ lines.map (.instr ∘ .cleanLine) ++
    [.instr .drainWriteBuffer, .invalidateBoth]

/-! ## What a line hides -/

/-- Memory and buffer hold what the processor sees. -/
def Settled (s : Cached) (x : Nat) : Prop := s.settled x = s.view x

section Settled

variable {s : Cached} {x : Nat}

theorem settled_of_not_dirty (h : s.line (lineOf x) ≠ .dirty) : Settled s x :=
  (s.view_of_not_dirty h).symm

/-- A store to another line does not reach the byte. -/
theorem settled_store {a : Nat} (ha : 4 ∣ a) (hx : lineOf a ≠ lineOf x) (value : Word) :
    (s.store a value).settled x = s.settled x := by
  unfold Cached.store
  split_ifs
  · have hpush := congrFun (s.settled_push (⟨a, 4⟩, writeWord s.settled a value)) x
    have hout : ¬ (Block.mk a 4).Holds x := fun h => hx (lineOf_word ha h.1 h.2).symm
    rw [hpush, put, if_neg hout]
  · rfl

theorem settled_clean {l : Nat} (hx : l ≠ lineOf x) : (s.clean l).settled x = s.settled x := by
  unfold Cached.clean
  split_ifs
  · have hpush := congrFun (s.settled_push (lineBlock l, s.data)) x
    have hout : ¬ (lineBlock l).Holds x := fun h => hx (holds_lineBlock.mp h).symm
    exact hpush.trans (if_neg hout)
  · rfl

theorem Settled.store (h : Settled s x) {a : Nat} (ha : 4 ∣ a) (hx : lineOf a ≠ lineOf x)
    (value : Word) : Settled (s.store a value) x := by
  have hout : x < a ∨ a + 4 ≤ x := by
    by_contra hin
    exact hx (lineOf_word ha (by omega) (by omega)).symm
  rw [Settled, settled_store ha hx, s.view_store ha, writeWord_of_outside _ _ _ hout]
  exact h

/-- Cleaning settles the line and leaves the others alone. -/
theorem Settled.clean (h : Settled s x) (l : Nat) : Settled (s.clean l) x := by
  by_cases hl : l = lineOf x
  · rw [hl]
    exact settled_of_not_dirty (s.line_clean_self _)
  · rw [Settled, settled_clean hl, s.view_clean]
    exact h

theorem Settled.disturb {k : Split} (h : Settled k.data x) (d : SplitCaches.Disturbance) :
    Settled (k.disturb d).data x := by
  rw [Settled, SplitCaches.view_disturb]
  cases d with
  | refill l => exact h
  | forget l => exact h
  | evict l =>
      have hclean := h.clean l
      rw [Settled, k.data.view_clean] at hclean
      exact hclean
  | fill l =>
      simp only [Split.disturb, Cached.fill]
      split_ifs
      · exact h
      · exact h
  | retire => exact (congrFun k.data.settled_retire x).trans h

/-- Draining writes what is settled. -/
theorem Settled.drain (h : Settled s x) : s.drain.Written x :=
  ⟨h, fun _ hw => absurd hw (by simp [Cached.drain])⟩

end Settled

/-! ## How far a byte has come -/

/-- How far a byte has come, and what the program has still to do. -/
inductive Stage (x : Nat) : Split → List Op → Prop
  | storing {s : Split} {stores : List Store} {lines : List Nat}
      (h : lineOf x ∈ lines ∨
        Settled s.data x ∧ ∀ st ∈ stores, lineOf st.dst ≠ lineOf x) :
      Stage x s (program stores lines)
  | drained {s : Split} (h : s.data.Written x) : Stage x s [.invalidateBoth]
  | invalidated {s : Split} (h : s.data.Written x) (hfetched : Fetched s x) : Stage x s []

/-- Nothing that may happen takes it back. -/
theorem stage_disturb {x : Nat} {s : Split} {todo : List Op} (h : Stage x s todo)
    (d : SplitCaches.Disturbance) : Stage x (s.disturb d) todo := by
  cases h with
  | storing h => exact .storing (h.imp_right fun hsettled => ⟨hsettled.1.disturb d, hsettled.2⟩)
  | drained h => exact .drained (SplitCaches.written_disturb d h)
  | invalidated h hfetched =>
      exact .invalidated (SplitCaches.written_disturb d h)
        (SplitCaches.fetched_disturb d h hfetched)

/-- Stores of the program are aligned. -/
def Op.Aligned : Op → Prop
  | .instr i => i.Aligned
  | .invalidateBoth => True

/-- What the operation does to the processor's memory, if nothing is lost. -/
def Op.effect (m : Memory) : Op → Memory
  | .instr i => i.effect m
  | .invalidateBoth => m

/-- An operation of the program takes every byte further. -/
theorem stage_perform {x : Nat} {s : Split} {op : Op} {rest : List Op} (haligned : op.Aligned)
    (h : Stage x s (op :: rest)) : Stage x (perform s op) rest := by
  generalize htodo : op :: rest = todo at h
  cases h with
  | @storing stores lines h =>
      cases stores with
      | cons st stores =>
          obtain ⟨rfl, rfl⟩ := List.cons.inj htodo
          refine .storing (h.imp_right fun hsettled => ⟨?_, ?_⟩)
          · exact hsettled.1.store haligned (hsettled.2 st List.mem_cons_self) _
          · exact fun st' hst' => hsettled.2 st' (List.mem_cons_of_mem _ hst')
      | nil =>
          cases lines with
          | cons l lines =>
              obtain ⟨rfl, rfl⟩ := List.cons.inj htodo
              apply @Stage.storing x _ [] lines
              rcases h with hmem | hsettled
              · rcases List.mem_cons.mp hmem with rfl | hlater
                · exact .inr ⟨settled_of_not_dirty (s.data.line_clean_self _), by simp⟩
                · exact .inl hlater
              · exact .inr ⟨hsettled.1.clean l, by simp⟩
          | nil =>
              obtain ⟨rfl, rfl⟩ := List.cons.inj htodo
              rcases h with hmem | hsettled
              · exact absurd hmem (by simp)
              · exact .drained hsettled.1.drain
  | drained h =>
      obtain ⟨rfl, rfl⟩ := List.cons.inj htodo
      refine .invalidated ⟨?_, ?_⟩ fun bytes hbytes => absurd hbytes (by simp [perform])
      · exact h.1.trans h.settled.symm
      · intro w hw hx
        exact (h.2 w hw hx).trans h.settled.symm
  | invalidated h hfetched => exact absurd htodo (by simp)

/-- If every byte has come so far, nothing is lost. -/
theorem view_perform {s : Split} {op : Op} {rest : List Op} (haligned : op.Aligned)
    (h : ∀ x, Stage x s (op :: rest)) :
    (perform s op).data.view = op.effect s.data.view := by
  cases op with
  | instr i => exact SplitCaches.view_exec haligned s
  | invalidateBoth =>
      funext x
      have hx := h x
      generalize htodo : Op.invalidateBoth :: rest = todo at hx
      cases hx with
      | @storing stores lines _ =>
          cases stores with
          | cons st stores => exact absurd htodo (by simp [program])
          | nil => cases lines <;> exact absurd htodo (by simp [program])
      | drained h => exact h.settled
      | invalidated h hfetched => exact absurd htodo (by simp)

/-! ## Runs -/

/-- The processor's memory after the operations, if nothing is lost. -/
def effects (m : Memory) (todo : List Op) : Memory := todo.foldl Op.effect m

theorem effects_program (stores : List Store) (lines : List Nat) (m : Memory) :
    effects m (program stores lines) = execAll m stores := by
  induction stores generalizing m with
  | nil =>
      induction lines with
      | nil => rfl
      | cons l rest ih => exact ih
  | cons st rest ih => exact ih (st.exec m)

/-- What every step of a run keeps. -/
structure Invariant (target : Memory) (c : Config) : Prop where
  aligned : ∀ op ∈ c.todo, op.Aligned
  effects : effects c.split.data.view c.todo = target
  stage : ∀ x, Stage x c.split c.todo

theorem invariant_step {target : Memory} (c : Config) (e : Event) (h : Invariant target c) :
    Invariant target (c.step e) := by
  obtain ⟨s, todo⟩ := c
  obtain ⟨haligned, heffects, hstage⟩ := h
  cases e with
  | disturb d =>
      refine ⟨haligned, ?_, fun x => stage_disturb (hstage x) d⟩
      simpa only [Config.step, SplitCaches.view_disturb] using heffects
  | program =>
      cases todo with
      | nil => exact ⟨haligned, heffects, hstage⟩
      | cons op rest =>
          have hop := haligned op List.mem_cons_self
          refine ⟨fun o ho => haligned o (List.mem_cons_of_mem _ ho), ?_,
            fun x => stage_perform hop (hstage x)⟩
          simp only [Config.step, view_perform hop hstage]
          exact heffects

/-- At the end of the program every byte is in memory. -/
theorem fetch_of_stage {x : Nat} {s : Split} (h : Stage x s []) :
    s.fetch x = s.data.view x := by
  generalize htodo : ([] : List Op) = todo at h
  cases h with
  | @storing stores lines _ =>
      obtain ⟨-, hsync⟩ := List.append_eq_nil_iff.mp htodo.symm
      exact absurd hsync (by simp)
  | drained h => exact absurd htodo (by simp)
  | invalidated h hfetched =>
      unfold Split.fetch
      cases hcode : s.code (lineOf x) with
      | none => exact h.1
      | some bytes => exact hfetched bytes hcode

/-- Every run that ends leaves the processor's memory as the stores made it, and
fetches see it too. -/
def Kept (s : Split) (stores : List Store) (lines : List Nat) : Prop :=
  ∀ events, (run Config.step ⟨s, program stores lines⟩ events).todo = [] →
    ∀ x, (run Config.step ⟨s, program stores lines⟩ events).split.data.view x =
        execAll s.data.view stores x ∧
      (run Config.step ⟨s, program stores lines⟩ events).split.fetch x =
        execAll s.data.view stores x

/-! ## Without disturbance -/

/-- The operation does not reach the line of the byte. -/
def Op.Avoids (x : Nat) : Op → Prop
  | .instr (.store st) => 4 ∣ st.dst ∧ lineOf st.dst ≠ lineOf x
  | .instr (.cleanLine l) => l ≠ lineOf x
  | _ => True

theorem settled_perform {x : Nat} {op : Op} (h : op.Avoids x) (s : Split) :
    (perform s op).data.settled x = s.data.settled x := by
  cases op with
  | invalidateBoth => rfl
  | instr i =>
      cases i with
      | store st => exact settled_store h.1 h.2 _
      | cleanLine l => exact settled_clean h
      | drainWriteBuffer => rfl
      | invalidateLine l => rfl

theorem settled_foldl {x : Nat} (ops : List Op) (h : ∀ op ∈ ops, op.Avoids x) (s : Split) :
    (ops.foldl perform s).data.settled x = s.data.settled x := by
  induction ops generalizing s with
  | nil => rfl
  | cons op rest ih =>
      rw [List.foldl_cons, ih fun o ho => h o (List.mem_cons_of_mem _ ho)]
      exact settled_perform (h op List.mem_cons_self) s

/-- The program runs to its end if nothing else happens. -/
theorem run_undisturbed (todo : List Op) (s : Split) :
    run Config.step ⟨s, todo⟩ (List.replicate todo.length .program) =
      ⟨todo.foldl perform s, []⟩ := by
  induction todo generalizing s with
  | nil => rfl
  | cons op rest ih => exact ih (perform s op)

theorem execAll_of_avoids {x : Nat} (stores : List Store)
    (h : ∀ st ∈ stores, 4 ∣ st.dst ∧ lineOf st.dst ≠ lineOf x) (m : Memory) :
    execAll m stores x = m x := by
  induction stores generalizing m with
  | nil => rfl
  | cons st rest ih =>
      obtain ⟨haligned, hline⟩ := h st List.mem_cons_self
      have hout : x < st.dst ∨ st.dst + 4 ≤ x := by
        by_contra hin
        exact hline (lineOf_word haligned (by omega) (by omega)).symm
      rw [execAll_cons, ih fun st' hst' => h st' (List.mem_cons_of_mem _ hst')]
      exact writeWord_of_outside _ _ _ hout

/-- Both caches are empty afterwards. -/
theorem view_program (s : Split) (stores : List Store) (lines : List Nat) (x : Nat) :
    ((program stores lines).foldl perform s).data.view x =
      ((program stores lines).foldl perform s).data.settled x := by
  apply Cached.view_of_not_dirty
  have hlast : program stores lines = (stores.map (.instr ∘ .store) ++
      lines.map (.instr ∘ .cleanLine) ++ [.instr .drainWriteBuffer]) ++ [.invalidateBoth] := by
    simp [program]
  rw [hlast, List.foldl_append, List.foldl_cons, List.foldl_nil]
  simp [perform]

section Runs

variable {s : Split} {stores : List Store} {lines : List Nat} (haligned : ∀ st ∈ stores, 4 ∣ st.dst)
  (hinside : ∀ st ∈ stores, lineOf st.dst ∈ lines)
include haligned hinside

theorem kept_of_settled (h : ∀ x, lineOf x ∉ lines → Settled s.data x) : Kept s stores lines := by
  intro events hdone x
  have hall : ∀ op ∈ program stores lines, op.Aligned := by
    intro op hop
    simp only [program, List.mem_append, List.mem_map, List.mem_cons, List.not_mem_nil,
      or_false] at hop
    rcases hop with (⟨st, hst, rfl⟩ | ⟨l, -, rfl⟩) | rfl | rfl
    · exact haligned st hst
    all_goals trivial
  have hstage : ∀ x, Stage x s (program stores lines) := by
    intro x
    apply Stage.storing
    by_cases hx : lineOf x ∈ lines
    · exact .inl hx
    · exact .inr ⟨h x hx, fun st hst heq => hx (heq ▸ hinside st hst)⟩
  have hinvariant := run_invariant Config.step (fun _ _ => True)
    (fun c e _ h => invariant_step c e h) events ⟨s, program stores lines⟩
    ((allowed_const Config.step (fun _ => True) events _).mpr fun _ _ => trivial)
    (⟨hall, effects_program stores lines s.data.view, hstage⟩ :
      Invariant (execAll s.data.view stores) _)
  obtain ⟨-, heffects, hend⟩ := hinvariant
  rw [hdone] at heffects hend
  have hview := congrFun heffects x
  exact ⟨hview, (fetch_of_stage (hend x)).trans hview⟩

/-- **What invalidation keeps.**  Every run that ends keeps everything that was stored,
if and only if memory and buffer held what the processor saw wherever a line is not
cleaned. -/
theorem kept_iff : Kept s stores lines ↔ ∀ x, lineOf x ∉ lines → Settled s.data x := by
  refine ⟨fun h x hx => ?_, kept_of_settled haligned hinside⟩
  have havoids : ∀ st ∈ stores, 4 ∣ st.dst ∧ lineOf st.dst ≠ lineOf x := by
    intro st hst
    exact ⟨haligned st hst, fun heq => hx (heq ▸ hinside st hst)⟩
  have hprogram : ∀ op ∈ program stores lines, op.Avoids x := by
    intro op hop
    simp only [program, List.mem_append, List.mem_map, List.mem_cons, List.not_mem_nil,
      or_false] at hop
    rcases hop with (⟨st, hst, rfl⟩ | ⟨l, hl, rfl⟩) | rfl | rfl
    · exact havoids st hst
    · exact fun heq => hx (heq ▸ hl)
    all_goals trivial
  have hrun := run_undisturbed (program stores lines) s
  have hkept := (h _ (congrArg Config.todo hrun) x).1
  rw [hrun, view_program, settled_foldl _ hprogram, execAll_of_avoids stores havoids] at hkept
  exact hkept

end Runs

end NspireUtils.Verified.WholeInvalidation
