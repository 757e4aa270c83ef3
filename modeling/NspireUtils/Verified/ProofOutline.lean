import Mathlib

/-!
# Proof outlines for an interrupted program

A straight-line program is a list of operations; between any two of them an
environment may act on the same state.  A proof outline writes an assertion
before and after every operation, such that each operation carries its assertion
to the next and no permitted action of the environment falsifies an assertion
the program has reached.  What the environment may do can depend on the
operations still to come.

`Outline P todo R` says that such an outline exists, from `P` to `R`; `At` is the
state of a program somewhere on it.  Whatever the interleaving, a program that
has come to its end satisfies the last assertion: `At.done`.
-/

namespace NspireUtils.Verified.ProofOutline

variable {σ ο ε : Type*} (exec : σ → ο → σ) (env : σ → List ο → ε → σ)
  (rely : σ → List ο → ε → Prop)

/-- No permitted action of the environment falsifies the assertion. -/
def Stable (P : σ → Prop) (todo : List ο) : Prop :=
  ∀ s e, rely s todo e → P s → P (env s todo e)

/-- A proof outline of the program `todo` from the first assertion to the
last. -/
inductive Outline : (σ → Prop) → List ο → (σ → Prop) → Prop
  | done {P : σ → Prop} (hstable : Stable env rely P []) : Outline P [] P
  | cons {P Q R : σ → Prop} {op : ο} {rest : List ο}
      (hstable : Stable env rely P (op :: rest)) (hop : ∀ s, P s → Q (exec s op))
      (hrest : Outline Q rest R) : Outline P (op :: rest) R

/-- A state that satisfies the assertion its program has reached. -/
def At (R : σ → Prop) (s : σ) (todo : List ο) : Prop :=
  ∃ P, P s ∧ Outline exec env rely P todo R

variable {exec env rely}

theorem Outline.stable {P R : σ → Prop} {todo : List ο}
    (h : Outline exec env rely P todo R) : Stable env rely P todo := by
  cases h with
  | done hstable => exact hstable
  | cons hstable _ _ => exact hstable

/-- The program takes a step. -/
theorem At.program_step {R : σ → Prop} {s : σ} {op : ο} {rest : List ο}
    (h : At exec env rely R s (op :: rest)) : At exec env rely R (exec s op) rest := by
  obtain ⟨P, hP, houtline⟩ := h
  cases houtline with
  | cons hstable hop hrest => exact ⟨_, hop s hP, hrest⟩

/-- The environment acts. -/
theorem At.environment_step {R : σ → Prop} {s : σ} {todo : List ο} {e : ε} (he : rely s todo e)
    (h : At exec env rely R s todo) : At exec env rely R (env s todo e) todo := by
  obtain ⟨P, hP, houtline⟩ := h
  exact ⟨P, houtline.stable s e he hP, houtline⟩

/-- At its end the program satisfies the last assertion. -/
theorem At.done {R : σ → Prop} {s : σ} (h : At exec env rely R s []) : R s := by
  obtain ⟨P, hP, houtline⟩ := h
  cases houtline with
  | done _ => exact hP

/-- A loop: the assertion `I i` before iteration `i`, for the iterations from `i`
on. -/
theorem Outline.loop {I : Nat → σ → Prop} {R : σ → Prop} {body : Nat → ο} {rest : List ο} :
    ∀ n i, (∀ j, i ≤ j → j < i + n →
        Stable env rely (I j) ((List.range' j (i + n - j)).map body ++ rest) ∧
          ∀ s, I j s → I (j + 1) (exec s (body j))) →
      Outline exec env rely (I (i + n)) rest R →
      Outline exec env rely (I i) ((List.range' i n).map body ++ rest) R := by
  intro n
  induction n with
  | zero => intro i _ hrest; exact hrest
  | succ n ih =>
      intro i hbody hrest
      obtain ⟨hstable, hop⟩ := hbody i (Nat.le_refl i) (by omega)
      have hlist : (List.range' i (n + 1)).map body ++ rest =
          body i :: ((List.range' (i + 1) n).map body ++ rest) := by
        rw [List.range'_succ, List.map_cons, List.cons_append]
      rw [hlist]
      refine .cons ?_ hop (ih (i + 1) (fun j hlo hhi => ?_) ?_)
      · rwa [Nat.add_sub_cancel_left, hlist] at hstable
      · have hj := hbody j (by omega) (by omega)
        have hlen : i + 1 + n - j = i + (n + 1) - j := by omega
        rwa [hlen]
      · have hend : i + 1 + n = i + (n + 1) := by omega
        rwa [hend]

end NspireUtils.Verified.ProofOutline
