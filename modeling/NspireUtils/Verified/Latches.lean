import NspireUtils.Verified.Runs

/-!
# Latches

A latch is a flag of a system: some of its actions set it, some clear it, and all others
leave it.  `flag_run_iff` is what it tells after a run: that it has been set and not been
cleared since.
-/

namespace NspireUtils.Verified.Latches

open NspireUtils.Verified.Runs

/-- A flag of the system, and the actions that set it and clear it. -/
structure Latch {σ α : Type*} (step : σ → α → σ) where
  flag : σ → Bool
  sets : σ → α → Prop
  clears : σ → α → Prop
  flag_set : ∀ s a, sets s a → flag (step s a) = true
  flag_cleared : ∀ s a, clears s a → flag (step s a) = false
  flag_kept : ∀ s a, ¬ sets s a → ¬ clears s a → flag (step s a) = flag s

namespace Latch

variable {σ α : Type*} {step : σ → α → σ} (L : Latch step)

/-- Nothing clears the flag. -/
def Kept (s : σ) (as : List α) : Prop := Allowed step (fun s a => ¬ L.clears s a) s as

/-- It is set somewhere in the run and not cleared after. -/
def Raised (s : σ) (as : List α) : Prop :=
  ∃ before a after, as = before ++ a :: after ∧ L.sets (run step s before) a ∧
    L.Kept (step (run step s before) a) after

theorem not_raised_nil (s : σ) : ¬ L.Raised s [] := by
  rintro ⟨before, a, after, happend, -, -⟩
  simp at happend

/-- With the first step or later. -/
theorem raised_cons (s : σ) (a : α) (as : List α) :
    L.Raised s (a :: as) ↔ (L.sets s a ∧ L.Kept (step s a) as) ∨ L.Raised (step s a) as := by
  constructor
  · rintro ⟨before, b, after, happend, hsets, hkept⟩
    cases before with
    | nil =>
        obtain ⟨rfl, rfl⟩ := List.cons.inj happend
        exact .inl ⟨hsets, hkept⟩
    | cons c before =>
        obtain ⟨rfl, rfl⟩ := List.cons.inj happend
        exact .inr ⟨before, b, after, rfl, hsets, hkept⟩
  · rintro (⟨hsets, hkept⟩ | ⟨before, b, after, rfl, hsets, hkept⟩)
    · exact ⟨[], a, as, rfl, hsets, hkept⟩
    · exact ⟨a :: before, b, after, rfl, hsets, hkept⟩

/-- **After a run.** -/
theorem flag_run_iff (s : σ) (as : List α) :
    L.flag (run step s as) = true ↔ (L.flag s = true ∧ L.Kept s as) ∨ L.Raised s as := by
  induction as generalizing s with
  | nil => simp [Kept, Allowed, L.not_raised_nil]
  | cons a rest ih =>
      rw [run_cons, ih, L.raised_cons, ← or_assoc]
      refine or_congr_left ?_
      show _ ↔ L.flag s = true ∧ (¬ L.clears s a ∧ L.Kept (step s a) rest) ∨ _
      by_cases hsets : L.sets s a
      · have hset := L.flag_set s a hsets
        have hnot : ¬ L.clears s a := fun hclears =>
          Bool.false_ne_true ((L.flag_cleared s a hclears).symm.trans hset)
        simp only [hset, hsets, hnot]
        tauto
      · by_cases hclears : L.clears s a
        · simp [L.flag_cleared s a hclears, hsets, hclears]
        · simp [L.flag_kept s a hsets hclears, hsets, hclears]

end Latch

end NspireUtils.Verified.Latches
