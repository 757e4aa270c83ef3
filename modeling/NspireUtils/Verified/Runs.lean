import Mathlib

/-!
# Runs of a step function

A system is a total step function on states; a run is a list of actions, and
`Allowed` says that every action is permitted in the state in which it is
performed.  A property of every reachable state is a property of `run s as` for
every allowed `as`, because the prefixes of an allowed run are allowed.

`run_invariant` is the induction every safety theorem uses, and `observe_run`
the one for state that is overwritten piece by piece: an observation after a run
is what the last action that covers it says.
-/

namespace NspireUtils.Verified.Runs

variable {σ α : Type*} (step : σ → α → σ) (ok : σ → α → Prop)

/-- The state after the actions of the list. -/
def run (s : σ) (as : List α) : σ := as.foldl step s

/-- Every action is permitted where it is performed. -/
def Allowed : σ → List α → Prop
  | _, [] => True
  | s, a :: rest => ok s a ∧ Allowed (step s a) rest

@[simp] theorem run_nil (s : σ) : run step s [] = s := rfl

@[simp] theorem run_cons (s : σ) (a : α) (as : List α) :
    run step s (a :: as) = run step (step s a) as := rfl

theorem run_append (s : σ) (xs ys : List α) :
    run step s (xs ++ ys) = run step (run step s xs) ys :=
  List.foldl_append

theorem allowed_append (xs ys : List α) :
    ∀ s, Allowed step ok s (xs ++ ys) ↔
      Allowed step ok s xs ∧ Allowed step ok (run step s xs) ys := by
  induction xs with
  | nil => intro s; exact ⟨fun h => ⟨trivial, h⟩, fun h => h.2⟩
  | cons a rest ih =>
      intro s
      simp only [List.cons_append, Allowed, run_cons]
      rw [ih (step s a), and_assoc]

/-- A weaker permission allows more runs. -/
theorem Allowed.mono {ok' : σ → α → Prop} (h : ∀ s a, ok s a → ok' s a) :
    ∀ (as : List α) (s : σ), Allowed step ok s as → Allowed step ok' s as := by
  intro as
  induction as with
  | nil => intro s _; exact trivial
  | cons a rest ih => intro s hs; exact ⟨h s a hs.1, ih _ hs.2⟩

/-- A permission that does not look at the state. -/
theorem allowed_const (ok' : α → Prop) :
    ∀ (as : List α) (s : σ), Allowed step (fun _ a => ok' a) s as ↔ ∀ a ∈ as, ok' a := by
  intro as
  induction as with
  | nil => intro s; simp [Allowed]
  | cons a rest ih => intro s; simp [Allowed, ih]

/-- **Invariant rule.**  What every permitted step preserves holds at the end of
every allowed run. -/
theorem run_invariant {Inv : σ → Prop}
    (hstep : ∀ s a, ok s a → Inv s → Inv (step s a)) :
    ∀ (as : List α) (s : σ), Allowed step ok s as → Inv s → Inv (run step s as) := by
  intro as
  induction as with
  | nil => intro s _ hinv; exact hinv
  | cons a rest ih =>
      intro s hallowed hinv
      exact ih (step s a) hallowed.2 (hstep s a hallowed.1 hinv)

/-! ## Last writer -/

section LastWriter

variable {ι β : Type*} (covers : α → ι → Prop) [∀ a i, Decidable (covers a i)]

/-- The last action of the list that covers `i`. -/
def lastCovering (as : List α) (i : ι) : Option α := as.reverse.find? fun a => covers a i

@[simp] theorem lastCovering_nil (i : ι) : lastCovering covers [] i = none := rfl

theorem lastCovering_cons (a : α) (as : List α) (i : ι) :
    lastCovering covers (a :: as) i =
      (lastCovering covers as i).or (if covers a i then some a else none) := by
  rw [lastCovering, List.reverse_cons, List.find?_append, List.find?_singleton]
  simp only [decide_eq_true_eq, lastCovering]

theorem lastCovering_append (as bs : List α) (i : ι) :
    lastCovering covers (as ++ bs) i =
      (lastCovering covers bs i).or (lastCovering covers as i) := by
  rw [lastCovering, List.reverse_append, List.find?_append]
  rfl

/-- **Last writer wins.**  If every permitted step decides the observations it
covers and leaves the others alone, a run leaves each observation to the last
action that covers it. -/
theorem observe_run {Inv : σ → Prop} (observe : σ → ι → β) (answer : α → ι → β)
    (hinv : ∀ s a, ok s a → Inv s → Inv (step s a))
    (hstep : ∀ s a i, ok s a → Inv s →
      observe (step s a) i = if covers a i then answer a i else observe s i) :
    ∀ (as : List α) (s : σ) (i : ι), Allowed step ok s as → Inv s →
      observe (run step s as) i =
        ((lastCovering covers as i).map (answer · i)).getD (observe s i) := by
  intro as
  induction as with
  | nil => intro s i _ _; rfl
  | cons a rest ih =>
      intro s i hallowed hs
      rw [run_cons, ih (step s a) i hallowed.2 (hinv s a hallowed.1 hs), lastCovering_cons]
      cases hlast : lastCovering covers rest i with
      | some b => rfl
      | none =>
          simp only [Option.map_none, Option.getD_none, Option.none_or]
          rw [hstep s a i hallowed.1 hs]
          split_ifs <;> rfl

end LastWriter

end NspireUtils.Verified.Runs
