import NspireUtils.Verified.Runs

/-!
# Deadlines

A system with a deadline: some of its actions are ticks, each of which brings the
deadline nearer by one, and some actions set a new one.  When it is reached, the
system has expired.

`expired_stretch_iff` says when that happens in a stretch of a run in which no new
deadline is set, and `expired_run_iff` in a run, if it is for good.
-/

namespace NspireUtils.Verified.Deadlines

open NspireUtils.Verified.Runs

/-- A deadline of the system: what a tick is, what sets a new deadline, and how many
ticks are left, if it is running. -/
structure Deadline {σ α : Type*} (step : σ → α → σ) where
  ticks : α → Bool
  rearms : σ → α → Prop
  left : σ → Option Nat
  expired : σ → Bool
  ahead : ∀ s, left s ≠ some 0
  tick_expires : ∀ s a, ticks a = true → ¬ rearms s a → expired s = false →
    (expired (step s a) = true ↔ left s = some 1)
  tick_left : ∀ s a n, ticks a = true → ¬ rearms s a → left s = some (n + 2) →
    left (step s a) = some (n + 1)
  tick_none : ∀ s a, ticks a = true → ¬ rearms s a → left s = none → left (step s a) = none
  other : ∀ s a, ticks a = false → ¬ rearms s a →
    left (step s a) = left s ∧ expired (step s a) = expired s
  kept : ∀ s a, ¬ rearms s a → expired s = true → expired (step s a) = true

namespace Deadline

variable {σ α : Type*} {step : σ → α → σ} (D : Deadline step)

/-- No new deadline is set. -/
def Quiet (s : σ) (as : List α) : Prop := Allowed step (fun s a => ¬ D.rearms s a) s as

/-- There are as many ticks as are left. -/
def Reached (s : σ) (as : List α) : Prop := ∃ n, D.left s = some n ∧ n ≤ as.countP D.ticks

theorem not_reached_nil (s : σ) : ¬ D.Reached s [] := by
  rintro ⟨n, hleft, hn⟩
  rw [List.countP_nil, Nat.le_zero] at hn
  exact D.ahead s (hn ▸ hleft)

/-- A step that sets no new deadline brings it nearer or leaves it. -/
theorem reached_cons {s : σ} {a : α} (has : ¬ D.rearms s a) (hexpired : D.expired s = false)
    (as : List α) :
    D.Reached s (a :: as) ↔ D.expired (step s a) = true ∨ D.Reached (step s a) as := by
  cases htick : D.ticks a with
  | false =>
      obtain ⟨hleft, hsame⟩ := D.other s a htick has
      rw [hsame, hexpired, Reached, Reached, hleft, List.countP_cons_of_neg (by simp [htick])]
      simp
  | true =>
      rw [D.tick_expires s a htick has hexpired]
      have hcount : (a :: as).countP D.ticks = as.countP D.ticks + 1 :=
        List.countP_cons_of_pos htick
      cases hleft : D.left s with
      | none =>
          have hnone := D.tick_none s a htick has hleft
          simp [Reached, hleft, hnone]
      | some n =>
          match n, hleft with
          | 0, hleft => exact absurd hleft (D.ahead s)
          | 1, hleft => simp [Reached, hleft, hcount]
          | n + 2, hleft =>
              have hnext := D.tick_left s a n htick has hleft
              simp only [Reached, hleft, hnext, hcount, Option.some.injEq, exists_eq_left']
              omega

/-- **A stretch without a new deadline.** -/
theorem expired_stretch_iff {s : σ} {as : List α} (hquiet : D.Quiet s as) :
    D.expired (run step s as) = true ↔ D.expired s = true ∨ D.Reached s as := by
  induction as generalizing s with
  | nil => simp [D.not_reached_nil]
  | cons a rest ih =>
      obtain ⟨has, hrest⟩ := hquiet
      rw [run_cons, ih hrest]
      cases hexpired : D.expired s with
      | true => simp [D.kept s a has hexpired]
      | false => simp [D.reached_cons has hexpired]

/-- Expiring is for good, and comes from ticks alone. -/
structure Lasting : Prop where
  lasts : ∀ s a, D.expired s = true → D.expired (step s a) = true
  rearmed : ∀ s a, D.rearms s a → D.expired (step s a) = D.expired s

variable {D}

/-- Somewhere in the run is a stretch without a new deadline and with as many ticks as
were left at its start. -/
def Missed (D : Deadline step) (s : σ) (as : List α) : Prop :=
  ∃ before after, before ++ after <+: as ∧ D.Quiet (run step s before) after ∧
    D.Reached (run step s before) after

/-- A stretch starts with the first step or later. -/
theorem missed_cons {s : σ} {a : α} {as : List α} :
    Missed D s (a :: as) ↔ (∃ after, after <+: as ∧ D.Quiet s (a :: after) ∧
      D.Reached s (a :: after)) ∨ Missed D (step s a) as := by
  constructor
  · rintro ⟨before, after, hbefore, hquiet, hreached⟩
    cases before with
    | nil =>
        cases after with
        | nil => exact absurd hreached (D.not_reached_nil s)
        | cons b after =>
            obtain ⟨rfl, hafter⟩ := List.cons_prefix_cons.mp hbefore
            exact .inl ⟨after, hafter, hquiet, hreached⟩
    | cons b before =>
        obtain ⟨rfl, hrest⟩ := List.cons_prefix_cons.mp hbefore
        exact .inr ⟨before, after, hrest, hquiet, hreached⟩
  · rintro (⟨after, hafter, hquiet, hreached⟩ | ⟨before, after, hrest, hquiet, hreached⟩)
    · exact ⟨[], a :: after, List.cons_prefix_cons.mpr ⟨rfl, hafter⟩, hquiet, hreached⟩
    · exact ⟨a :: before, after, List.cons_prefix_cons.mpr ⟨rfl, hrest⟩, hquiet, hreached⟩

/-- What the first step adds. -/
theorem Lasting.expired_step_or (h : D.Lasting) (s : σ) (a : α) (as : List α) :
    D.expired (step s a) = true ∨ Missed D (step s a) as ↔
      (D.expired s = true ∨ ∃ after, after <+: as ∧ D.Quiet s (a :: after) ∧
        D.Reached s (a :: after)) ∨ Missed D (step s a) as := by
  by_cases has : D.rearms s a
  · -- A new deadline: no stretch begins here.
    have hnone : ¬ ∃ after, after <+: as ∧ D.Quiet s (a :: after) ∧ D.Reached s (a :: after) :=
      fun ⟨_, _, hquiet, _⟩ => hquiet.1 has
    rw [h.rearmed s a has, or_iff_left hnone]
  cases hexpired : D.expired s with
  | true => simp [h.lasts s a hexpired]
  | false =>
      constructor
      · rintro (hstep | hmissed)
        · have hreached := (D.reached_cons has hexpired []).mpr (.inl hstep)
          exact .inl (.inr ⟨[], List.nil_prefix, ⟨has, trivial⟩, hreached⟩)
        · exact .inr hmissed
      · rintro ((hfalse | ⟨after, hafter, hquiet, hreached⟩) | hmissed)
        · exact absurd hfalse Bool.false_ne_true
        · rcases (D.reached_cons has hexpired after).mp hreached with hstep | hlater
          · exact .inl hstep
          · exact .inr ⟨[], after, hafter, hquiet.2, hlater⟩
        · exact .inr hmissed

/-- **When a system expires**: when a deadline was missed. -/
theorem expired_run_iff (h : D.Lasting) (s : σ) (as : List α) :
    D.expired (Runs.run step s as) = true ↔ D.expired s = true ∨ Missed D s as := by
  induction as generalizing s with
  | nil =>
      have hnot : ¬ Missed D s [] := by
        rintro ⟨before, after, hprefix, -, hreached⟩
        obtain ⟨-, rfl⟩ := List.append_eq_nil_iff.mp (List.prefix_nil.mp hprefix)
        exact D.not_reached_nil _ hreached
      simp [hnot]
  | cons a rest ih =>
      rw [run_cons, ih, missed_cons, ← or_assoc, h.expired_step_or s a rest]

end Deadline

end NspireUtils.Verified.Deadlines
