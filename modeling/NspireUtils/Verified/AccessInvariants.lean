import NspireUtils.Verified.DeviceIO

/-!
# What holds at every access of a program

`Ensures` of `DeviceIO` speaks about the end of a program on a device.  `Always` also
speaks about the way there: a property of the shadow holds before every access and at the
end, whatever the reads return.  It has the rules of `Ensures`, and `Always.run` is what
it says about every interleaving.

A program of one device runs on a larger one when its registers are renamed; a property
of the larger device is then seen through `put`, which completes the smaller shadow to
the larger.
-/

namespace NspireUtils.Verified.DeviceIO

open NspireUtils.Verified.Runs

variable {ρ ω β σ ε α γ κ : Type} {D : Device σ ρ ω β ε} (V : Shadow D κ)

/-- `I` holds before every access and at the end, and the program ends with `Q`. -/
def Always (I : κ → Prop) : Prog ρ ω β α → (α → κ → Prop) → κ → Prop
  | .done a, Q, k => I k ∧ Q a k
  | .read r next, Q, k => I k ∧ ∀ b, V.Reads k r b → Always I (next b) Q k
  | .write w value next, Q, k => I k ∧ Always I next Q (V.write k w value)

variable {V} {I : κ → Prop} {Q : α → κ → Prop}

theorem Always.here {p : Prog ρ ω β α} {k : κ} (h : Always V I p Q k) : I k := by
  cases p with
  | done a => exact h.1
  | read r next => exact h.1
  | write w value next => exact h.1

theorem Always.mono {p : Prog ρ ω β α} {J : κ → Prop} {R : α → κ → Prop} (hI : ∀ k, I k → J k)
    (hQ : ∀ a k, Q a k → R a k) : ∀ {k : κ}, Always V I p Q k → Always V J p R k := by
  induction p with
  | done a => intro k h; exact ⟨hI k h.1, hQ a k h.2⟩
  | read r next ih => intro k h; exact ⟨hI k h.1, fun b hb => ih b (h.2 b hb)⟩
  | write w value next ih => intro k h; exact ⟨hI k h.1, ih h.2⟩

/-- The end alone. -/
theorem Always.ensures {p : Prog ρ ω β α} : ∀ {k : κ}, Always V I p Q k → Ensures V p Q k := by
  induction p with
  | done a => intro k h; exact h.2
  | read r next ih => intro k h b hb; exact ih b (h.2 b hb)
  | write w value next ih => intro k h; exact ih h.2

/-- **Composition.** -/
theorem always_bind {p : Prog ρ ω β α} {f : α → Prog ρ ω β γ} {R : γ → κ → Prop} :
    ∀ {k : κ}, Always V I p (fun a k => Always V I (f a) R k) k → Always V I (p >>= f) R k := by
  induction p with
  | done a => intro k h; exact h.2
  | read r next ih => intro k h; exact ⟨h.1, fun b hb => ih b (h.2 b hb)⟩
  | write w value next ih => intro k h; exact ⟨h.1, ih h.2⟩

theorem always_read {r : ρ} {f : β → Prog ρ ω β α} {k : κ} (hI : I k)
    (h : ∀ b, V.Reads k r b → Always V I (f b) Q k) : Always V I (read r >>= f) Q k :=
  ⟨hI, h⟩

theorem always_write {w : ω} {value : β} {f : Unit → Prog ρ ω β α} {k : κ} (hI : I k)
    (h : Always V I (f ()) Q (V.write k w value)) : Always V I (write w value >>= f) Q k :=
  ⟨hI, h⟩

/-- **Every interleaving.**  The property holds in every state of every run. -/
theorem Always.run {s : σ} {p : Prog ρ ω β α} (h : Always V I p Q (V.view s))
    (actions : List (Action ε)) : I (V.view (run (step D) ⟨s, p⟩ actions).state) := by
  have hstep : ∀ (c : Config σ ρ ω β α) (action : Action ε), True →
      Always V I c.prog Q (V.view c.state) →
      Always V I (step D c action).prog Q (V.view (step D c action).state) := by
    rintro ⟨s, p⟩ action - h
    cases action with
    | env e =>
        show Always V I p Q (V.view (D.env s e))
        rwa [V.view_env]
    | access =>
        cases p with
        | done a => exact h
        | read r next => exact h.2 _ (V.reads s r)
        | write w value next =>
            show Always V I next Q (V.view (D.write s w value))
            rw [V.view_write]
            exact h.2
  exact (run_invariant (step D) (fun _ _ => True) hstep actions ⟨s, p⟩
    ((allowed_const (step D) (fun _ => True) actions _).mpr fun _ _ => trivial) h).here

/-- Writes in order: the property holds after any number of them. -/
theorem always_writeAll {ws : List (ω × β)} {Q : Unit → κ → Prop} :
    ∀ {k : κ}, (∀ n ≤ ws.length, I (writes V k (ws.take n))) → Q () (writes V k ws) →
      Always V I (writeAll ws) Q k := by
  induction ws with
  | nil => intro k hI hQ; exact ⟨hI 0 (Nat.le_refl 0), hQ⟩
  | cons w rest ih =>
      intro k hI hQ
      refine ⟨hI 0 (Nat.zero_le _), ih (fun n hn => ?_) hQ⟩
      exact hI (n + 1) (Nat.succ_le_succ hn)

/-! ## Programs that only read -/

/-- The program writes nothing. -/
def OnlyReads : Prog ρ ω β α → Prop
  | .done _ => True
  | .read _ next => ∀ b, OnlyReads (next b)
  | .write _ _ _ => False

/-- It leaves the shadow alone. -/
theorem OnlyReads.always {p : Prog ρ ω β α} (hreads : OnlyReads p) :
    ∀ {k : κ}, I k → Ensures V p Q k → Always V I p Q k := by
  induction p with
  | done a => intro k hI hQ; exact ⟨hI, hQ⟩
  | read r next ih => intro k hI hQ; exact ⟨hI, fun b hb => ih b (hreads b) hI (hQ b hb)⟩
  | write w value next ih => exact hreads.elim

/-! ## Programs on a larger device -/

/-- The program with its registers renamed. -/
def Prog.rename {ρ' ω' : Type} (f : ρ → ρ') (g : ω → ω') : Prog ρ ω β α → Prog ρ' ω' β α
  | .done a => .done a
  | .read r next => .read (f r) fun b => (next b).rename f g
  | .write w value next => .write (g w) value (next.rename f g)

theorem Always.rename {ρ' ω' σ' ε' κ' : Type} {D' : Device σ' ρ' ω' β ε'} {V' : Shadow D' κ'}
    {f : ρ → ρ'} {g : ω → ω'} {put : κ → κ'} {I : κ' → Prop} {Q : α → κ' → Prop}
    (hreads : ∀ k r b, V'.Reads (put k) (f r) b → V.Reads k r b)
    (hwrite : ∀ k w value, V'.write (put k) (g w) value = put (V.write k w value))
    {p : Prog ρ ω β α} :
    ∀ {k : κ}, Always V (fun k => I (put k)) p (fun a k => Q a (put k)) k →
      Always V' I (p.rename f g) Q (put k) := by
  induction p with
  | done a => intro k h; exact h
  | read r next ih => intro k h; exact ⟨h.1, fun b hb => ih b (h.2 b (hreads k r b hb))⟩
  | write w value next ih =>
      intro k h
      refine ⟨h.1, ?_⟩
      rw [hwrite]
      exact ih h.2

/-! ## States that are reached -/

/-- Some run leads from the one configuration to the other. -/
def Reaches (D : Device σ ρ ω β ε) (c c' : Config σ ρ ω β α) : Prop :=
  ∃ actions, run (step D) c actions = c'

theorem Reaches.refl (c : Config σ ρ ω β α) : Reaches D c c := ⟨[], rfl⟩

theorem Reaches.trans {c c' c'' : Config σ ρ ω β α} (h : Reaches D c c') (h' : Reaches D c' c'') :
    Reaches D c c'' := by
  obtain ⟨actions, rfl⟩ := h
  obtain ⟨more, rfl⟩ := h'
  exact ⟨actions ++ more, run_append (step D) c actions more⟩

/-- The first part of a program comes to its end, with what it ensures. -/
theorem Ensures.reaches {p : Prog ρ ω β α} (f : α → Prog ρ ω β γ) :
    ∀ {s : σ}, Ensures V p Q (V.view s) →
      ∃ a s', Reaches D ⟨s, p >>= f⟩ ⟨s', f a⟩ ∧ Q a (V.view s') := by
  induction p with
  | done a => intro s h; exact ⟨a, s, .refl _, h⟩
  | read r next ih =>
      intro s h
      obtain ⟨a, s', hreaches, hQ⟩ := ih (D.read s r) (h _ (V.reads s r))
      exact ⟨a, s', .trans ⟨[.access], rfl⟩ hreaches, hQ⟩
  | write w value next ih =>
      intro s h
      have hnext : Ensures V next Q (V.view (D.write s w value)) := by
        rw [V.view_write]
        exact h
      obtain ⟨a, s', hreaches, hQ⟩ := ih hnext
      exact ⟨a, s', .trans ⟨[.access], rfl⟩ hreaches, hQ⟩

/-- A configuration that the rest of a program reaches. -/
theorem Ensures.reaches_bind {p : Prog ρ ω β α} {f : α → Prog ρ ω β γ} {s : σ}
    {P : Config σ ρ ω β γ → Prop} (h : Ensures V p Q (V.view s))
    (hnext : ∀ a s', Q a (V.view s') → ∃ c, Reaches D ⟨s', f a⟩ c ∧ P c) :
    ∃ c, Reaches D ⟨s, p >>= f⟩ c ∧ P c := by
  obtain ⟨a, s', hreaches, hQ⟩ := h.reaches f
  obtain ⟨c, hrest, hP⟩ := hnext a s' hQ
  exact ⟨c, hreaches.trans hrest, hP⟩

end NspireUtils.Verified.DeviceIO
