import NspireUtils.Verified.Runs

/-!
# Programs on a device

A driver talks to its device by volatile reads and writes; between any two of
them the outside world may act on the device as well.  `Prog` is such a program,
`step` interleaves its accesses with actions of the outside world, and a run is a
run of `step`.

A `Shadow` is the part of the device's state that the outside world cannot
reach.  `Ensures` computes on the shadow what a program ends with, and
`Ensures.run` transfers it to every interleaving.  For a program that only
writes, `run_writeAll` also gives every state on the way.
-/

namespace NspireUtils.Verified.DeviceIO

open NspireUtils.Verified.Runs

/-- A program that reads the registers `ρ` and writes the registers `ω`. -/
inductive Prog (ρ ω β α : Type) : Type
  | done (a : α)
  | read (r : ρ) (next : β → Prog ρ ω β α)
  | write (w : ω) (value : β) (next : Prog ρ ω β α)

namespace Prog

variable {ρ ω β α γ : Type}

/-- One program after the other. -/
protected def bind : Prog ρ ω β α → (α → Prog ρ ω β γ) → Prog ρ ω β γ
  | .done a, f => f a
  | .read r next, f => .read r fun b => (next b).bind f
  | .write w value next, f => .write w value (next.bind f)

instance : Monad (Prog ρ ω β) where
  pure := .done
  bind := .bind

@[simp] theorem pure_eq (a : α) : (pure a : Prog ρ ω β α) = .done a := rfl

@[simp] theorem done_bind (a : α) (f : α → Prog ρ ω β γ) : (.done a >>= f) = f a := rfl

@[simp] theorem read_bind (r : ρ) (next : β → Prog ρ ω β α) (f : α → Prog ρ ω β γ) :
    (.read r next >>= f) = .read r fun b => next b >>= f := rfl

@[simp] theorem write_bind (w : ω) (value : β) (next : Prog ρ ω β α) (f : α → Prog ρ ω β γ) :
    (.write w value next >>= f) = .write w value (next >>= f) := rfl

end Prog

variable {ρ ω β : Type}

/-- A read of one register. -/
def read (r : ρ) : Prog ρ ω β β := .read r .done

/-- A write of one register. -/
def write (w : ω) (value : β) : Prog ρ ω β Unit := .write w value (.done ())

/-- The writes of the list, in order. -/
def writeAll : List (ω × β) → Prog ρ ω β Unit
  | [] => .done ()
  | (w, value) :: rest => .write w value (writeAll rest)

/-- A device: what its registers read, what a write does, and what the outside
world does to it. -/
structure Device (σ ρ ω β ε : Type) where
  read : σ → ρ → β
  write : σ → ω → β → σ
  env : σ → ε → σ

/-- The state of a run: the device and the rest of the program. -/
structure Config (σ ρ ω β α : Type) where
  state : σ
  prog : Prog ρ ω β α

/-- One action of a run. -/
inductive Action (ε : Type) where
  | access
  | env (e : ε)

variable {σ ε α γ : Type} (D : Device σ ρ ω β ε)

/-- The program's next access, or an action of the outside world. -/
def step (c : Config σ ρ ω β α) : Action ε → Config σ ρ ω β α
  | .access =>
      match c.prog with
      | .done _ => c
      | .read r next => { c with prog := next (D.read c.state r) }
      | .write w value next => { state := D.write c.state w value, prog := next }
  | .env e => { c with state := D.env c.state e }

/-- A program that is left alone comes to its end. -/
theorem run_ends (p : Prog ρ ω β α) :
    ∀ s : σ, ∃ actions a, (run (step D) ⟨s, p⟩ actions).prog = .done a := by
  induction p with
  | done a => intro s; exact ⟨[], a, rfl⟩
  | read r next ih =>
      intro s
      obtain ⟨actions, a, hdone⟩ := ih (D.read s r) s
      exact ⟨.access :: actions, a, hdone⟩
  | write w value next ih =>
      intro s
      obtain ⟨actions, a, hdone⟩ := ih (D.write s w value)
      exact ⟨.access :: actions, a, hdone⟩

/-- The state a program that is left alone ends in. -/
def finish : Prog ρ ω β α → σ → σ
  | .done _, s => s
  | .read r next, s => finish (next (D.read s r)) s
  | .write w value next, s => finish next (D.write s w value)

/-- What it returns. -/
def result : Prog ρ ω β α → σ → α
  | .done a, _ => a
  | .read r next, s => result (next (D.read s r)) s
  | .write w value next, s => result next (D.write s w value)

/-- Every run can be brought to its end. -/
theorem run_completes (p : Prog ρ ω β α) (s : σ) (actions : List (Action ε)) :
    ∃ more a, (run (step D) ⟨s, p⟩ (actions ++ more)).prog = .done a := by
  obtain ⟨more, a, hdone⟩ := run_ends D (run (step D) ⟨s, p⟩ actions).prog
    (run (step D) ⟨s, p⟩ actions).state
  exact ⟨more, a, by rw [run_append]; exact hdone⟩

/-! ## Shadows -/

/-- A part of the state that only the program changes.  What it reads may still
depend on the rest. -/
structure Shadow (κ : Type) where
  view : σ → κ
  write : κ → ω → β → κ
  Reads : κ → ρ → β → Prop
  view_env : ∀ s e, view (D.env s e) = view s
  view_write : ∀ s w value, view (D.write s w value) = write (view s) w value
  reads : ∀ s r, Reads (view s) r (D.read s r)

variable {D} {κ : Type} (V : Shadow D κ)

/-- Whatever the reads return, the program ends with `Q`. -/
def Ensures : Prog ρ ω β α → (α → κ → Prop) → κ → Prop
  | .done a, Q, k => Q a k
  | .read r next, Q, k => ∀ b, V.Reads k r b → Ensures (next b) Q k
  | .write w value next, Q, k => Ensures next Q (V.write k w value)

theorem Ensures.mono {p : Prog ρ ω β α} {Q R : α → κ → Prop} (hQR : ∀ a k, Q a k → R a k) :
    ∀ {k : κ}, Ensures V p Q k → Ensures V p R k := by
  induction p with
  | done a => intro k h; exact hQR a k h
  | read r next ih => intro k h b hb; exact ih b (h b hb)
  | write w value next ih => intro k h; exact ih h

/-- **Composition.** -/
theorem ensures_bind (p : Prog ρ ω β α) (f : α → Prog ρ ω β γ) (Q : γ → κ → Prop) :
    ∀ k, Ensures V (p >>= f) Q k ↔ Ensures V p (fun a k => Ensures V (f a) Q k) k := by
  induction p with
  | done a => intro k; exact Iff.rfl
  | read r next ih => intro k; exact forall_congr' fun b => imp_congr_right fun _ => ih b k
  | write w value next ih => intro k; exact ih _

/-- **Every interleaving.**  What the shadow ensures holds at the end of every
run. -/
theorem Ensures.run {Q : α → κ → Prop} {s : σ} {p : Prog ρ ω β α} (h : Ensures V p Q (V.view s))
    (actions : List (Action ε)) {a : α}
    (hdone : (run (step D) ⟨s, p⟩ actions).prog = .done a) :
    Q a (V.view (run (step D) ⟨s, p⟩ actions).state) := by
  have hstep : ∀ (c : Config σ ρ ω β α) (action : Action ε), True →
      Ensures V c.prog Q (V.view c.state) →
      Ensures V (step D c action).prog Q (V.view (step D c action).state) := by
    rintro ⟨s, p⟩ action - h
    cases action with
    | env e =>
        show Ensures V p Q (V.view (D.env s e))
        rw [V.view_env]
        exact h
    | access =>
        cases p with
        | done a => exact h
        | read r next => exact h _ (V.reads s r)
        | write w value next =>
            show Ensures V next Q (V.view (D.write s w value))
            rw [V.view_write]
            exact h
  have hinv := run_invariant (step D) (fun _ _ => True) hstep actions ⟨s, p⟩
    ((allowed_const (step D) (fun _ => True) actions _).mpr fun _ _ => trivial) h
  rw [hdone] at hinv
  exact hinv

/-! ## Programs that only write -/

/-- What the writes leave of the shadow. -/
def writes (k : κ) (ws : List (ω × β)) : κ := ws.foldl (fun k w => V.write k w.1 w.2) k

@[simp] theorem writes_nil (k : κ) : writes V k [] = k := rfl

@[simp] theorem writes_cons (k : κ) (w : ω × β) (ws : List (ω × β)) :
    writes V k (w :: ws) = writes V (V.write k w.1 w.2) ws := rfl

theorem writes_append (k : κ) (xs ys : List (ω × β)) :
    writes V k (xs ++ ys) = writes V (writes V k xs) ys :=
  List.foldl_append

theorem ensures_writeAll (ws : List (ω × β)) (Q : Unit → κ → Prop) :
    ∀ k, Ensures V (writeAll ws) Q k ↔ Q () (writes V k ws) := by
  induction ws with
  | nil => intro k; exact Iff.rfl
  | cons w rest ih => intro k; exact ih _

/-- The state on the way: the first writes are done, the others remain. -/
theorem run_writeAll (ws : List (ω × β)) (s : σ) (actions : List (Action ε)) :
    ∃ n, (n = 0 ↔ Action.access ∉ actions ∨ ws = []) ∧
      (run (step D) ⟨s, writeAll ws⟩ actions).prog = writeAll (ws.drop n) ∧
      V.view (run (step D) ⟨s, writeAll ws⟩ actions).state = writes V (V.view s) (ws.take n) := by
  induction actions generalizing s ws with
  | nil => exact ⟨0, by simp, rfl, rfl⟩
  | cons action rest ih =>
      cases action with
      | env e =>
          obtain ⟨n, hn, hprog, hview⟩ := ih ws (D.env s e)
          refine ⟨n, by simpa using hn, hprog, ?_⟩
          rw [V.view_env] at hview
          exact hview
      | access =>
          cases ws with
          | nil =>
              obtain ⟨n, -, hprog, hview⟩ := ih [] s
              rw [List.drop_nil] at hprog
              rw [List.take_nil] at hview
              exact ⟨0, by simp, hprog, hview⟩
          | cons w ws =>
              obtain ⟨n, -, hprog, hview⟩ := ih ws (D.write s w.1 w.2)
              refine ⟨n + 1, by simp, hprog, ?_⟩
              rw [V.view_write] at hview
              exact hview

end NspireUtils.Verified.DeviceIO
