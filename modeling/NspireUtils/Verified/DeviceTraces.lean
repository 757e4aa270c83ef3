import NspireUtils.Verified.DeviceIO

/-!
# What a program does to its device

`DeviceIO` follows the state of a device through a run.  This module records the
accesses: `trace` lists them in program order, with the values that were read.
The trace of a run that has ended is one execution of the program (`Returns`) and
one behaviour of the device (`Serves`), whatever the outside world did in
between.

`Within` bounds the accesses of a program, so that a run that has made as many
has come to its end.  `poll` is the loop drivers wait in: read a register until
the value passes or a countdown runs out.
-/

namespace NspireUtils.Verified.DeviceTraces

open NspireUtils.Verified.Runs
open NspireUtils.Verified.DeviceIO

/-- One access, with the value that went over the bus. -/
inductive Access (ρ ω β : Type) where
  | read (r : ρ) (value : β)
  | write (w : ω) (value : β)
  deriving Repr, DecidableEq

variable {σ ρ ω β ε α γ : Type}

section Traces

variable (D : Device σ ρ ω β ε)

/-- The access an action makes. -/
def made (c : Config σ ρ ω β α) : Action ε → List (Access ρ ω β)
  | .env _ => []
  | .access =>
      match c.prog with
      | .done _ => []
      | .read r _ => [.read r (D.read c.state r)]
      | .write w value _ => [.write w value]

/-- The accesses of a run. -/
def trace : Config σ ρ ω β α → List (Action ε) → List (Access ρ ω β)
  | _, [] => []
  | c, action :: rest => made D c action ++ trace (step D c action) rest

theorem trace_append (xs ys : List (Action ε)) : ∀ c : Config σ ρ ω β α,
    trace D c (xs ++ ys) = trace D c xs ++ trace D (run (step D) c xs) ys := by
  induction xs with
  | nil => intro c; rfl
  | cons action rest ih =>
      intro c
      rw [List.cons_append, trace, ih, trace, List.append_assoc, run_cons]

/-- How often the program is scheduled. -/
def accesses : List (Action ε) → Nat
  | [] => 0
  | .access :: rest => accesses rest + 1
  | .env _ :: rest => accesses rest

end Traces

/-! ## The program's side -/

/-- The accesses of a whole execution of the program, which returns `a`. -/
def Returns : Prog ρ ω β α → List (Access ρ ω β) → α → Prop
  | .done a, t, b => t = [] ∧ a = b
  | .read r next, t, a => ∃ value t', t = .read r value :: t' ∧ Returns (next value) t' a
  | .write w value next, t, a => ∃ t', t = .write w value :: t' ∧ Returns next t' a

/-- **Composition.** -/
theorem returns_bind (p : Prog ρ ω β α) (f : α → Prog ρ ω β γ) (c : γ) :
    ∀ t, Returns (p >>= f) t c ↔
      ∃ t₁ a t₂, t = t₁ ++ t₂ ∧ Returns p t₁ a ∧ Returns (f a) t₂ c := by
  induction p with
  | done a =>
      intro t
      constructor
      · exact fun h => ⟨[], a, t, rfl, ⟨rfl, rfl⟩, h⟩
      · rintro ⟨t₁, b, t₂, rfl, ⟨rfl, rfl⟩, h⟩
        exact h
  | read r next ih =>
      intro t
      constructor
      · rintro ⟨value, t', rfl, h⟩
        obtain ⟨t₁, a, t₂, rfl, hp, hf⟩ := (ih value t').mp h
        exact ⟨.read r value :: t₁, a, t₂, rfl, ⟨value, t₁, rfl, hp⟩, hf⟩
      · rintro ⟨t₁, a, t₂, rfl, ⟨value, t', rfl, hp⟩, hf⟩
        exact ⟨value, t' ++ t₂, rfl, (ih value _).mpr ⟨t', a, t₂, rfl, hp, hf⟩⟩
  | write w value next ih =>
      intro t
      constructor
      · rintro ⟨t', rfl, h⟩
        obtain ⟨t₁, a, t₂, rfl, hp, hf⟩ := (ih t').mp h
        exact ⟨.write w value :: t₁, a, t₂, rfl, ⟨t₁, rfl, hp⟩, hf⟩
      · rintro ⟨t₁, a, t₂, rfl, ⟨t', rfl, hp⟩, hf⟩
        exact ⟨t' ++ t₂, rfl, (ih _).mpr ⟨t', a, t₂, rfl, hp, hf⟩⟩

/-- A run that has ended is an execution of its program. -/
theorem returns_run {D : Device σ ρ ω β ε} {a : α} (actions : List (Action ε)) :
    ∀ {c : Config σ ρ ω β α}, (run (step D) c actions).prog = .done a →
      Returns c.prog (trace D c actions) a := by
  induction actions with
  | nil =>
      rintro ⟨s, p⟩ hdone
      obtain rfl : p = .done a := hdone
      exact ⟨rfl, rfl⟩
  | cons action rest ih =>
      rintro ⟨s, p⟩ hdone
      cases action with
      | env e => exact ih (c := ⟨D.env s e, p⟩) hdone
      | access =>
          cases p with
          | done b => exact ih (c := ⟨s, .done b⟩) hdone
          | read r next => exact ⟨_, _, rfl, ih (c := ⟨s, next (D.read s r)⟩) hdone⟩
          | write w value next => exact ⟨_, rfl, ih (c := ⟨D.write s w value, next⟩) hdone⟩

/-! ## The device's side -/

section Device

variable (D : Device σ ρ ω β ε)

/-- What the outside world alone can make of a state. -/
def Drifts (s s' : σ) : Prop := ∃ es : List ε, s' = run D.env s es

/-- The device gives these answers, and takes these values, on the way from a state to
another. -/
def Serves : σ → List (Access ρ ω β) → σ → Prop
  | s, [], s' => Drifts D s s'
  | s, .read r value :: t, s' => ∃ m, Drifts D s m ∧ value = D.read m r ∧ Serves m t s'
  | s, .write w value :: t, s' => ∃ m, Drifts D s m ∧ Serves (D.write m w value) t s'

theorem Drifts.refl (s : σ) : Drifts D s s := ⟨[], rfl⟩

variable {D}

theorem Drifts.env {s s' : σ} {e : ε} (h : Drifts D (D.env s e) s') : Drifts D s s' := by
  obtain ⟨es, rfl⟩ := h
  exact ⟨e :: es, rfl⟩

theorem Serves.env {s s' : σ} {e : ε} {t : List (Access ρ ω β)} (h : Serves D (D.env s e) t s') :
    Serves D s t s' := by
  cases t with
  | nil => exact Drifts.env h
  | cons x t =>
      cases x with
      | read r value =>
          obtain ⟨m, hm, hrest⟩ := h
          exact ⟨m, hm.env, hrest⟩
      | write w value =>
          obtain ⟨m, hm, hrest⟩ := h
          exact ⟨m, hm.env, hrest⟩

/-- A run's trace is a behaviour of the device. -/
theorem serves_run (actions : List (Action ε)) : ∀ c : Config σ ρ ω β α,
    Serves D c.state (trace D c actions) (run (step D) c actions).state := by
  induction actions with
  | nil => intro c; exact Drifts.refl D c.state
  | cons action rest ih =>
      rintro ⟨s, p⟩
      cases action with
      | env e => exact (ih ⟨D.env s e, p⟩).env
      | access =>
          cases p with
          | done a => exact ih ⟨s, .done a⟩
          | read r next => exact ⟨s, Drifts.refl D s, rfl, ih ⟨s, next (D.read s r)⟩⟩
          | write w value next => exact ⟨s, Drifts.refl D s, ih ⟨D.write s w value, next⟩⟩

theorem serves_append (xs ys : List (Access ρ ω β)) : ∀ {s s' : σ}, Serves D s (xs ++ ys) s' →
    ∃ m, Serves D s xs m ∧ Serves D m ys s' := by
  induction xs with
  | nil => intro s s' h; exact ⟨s, Drifts.refl D s, h⟩
  | cons x rest ih =>
      intro s s' h
      cases x with
      | read r value =>
          obtain ⟨m, hm, hvalue, hrest⟩ := h
          obtain ⟨n, hfirst, hsecond⟩ := ih hrest
          exact ⟨n, ⟨m, hm, hvalue, hfirst⟩, hsecond⟩
      | write w value =>
          obtain ⟨m, hm, hrest⟩ := h
          obtain ⟨n, hfirst, hsecond⟩ := ih hrest
          exact ⟨n, ⟨m, hm, hfirst⟩, hsecond⟩

end Device

/-! ## Bounds -/

/-- The program makes at most so many accesses, whatever it reads. -/
def Within : Nat → Prog ρ ω β α → Prop
  | _, .done _ => True
  | 0, _ => False
  | n + 1, .read _ next => ∀ value, Within n (next value)
  | n + 1, .write _ _ next => Within n next

theorem within_done (n : Nat) (a : α) : Within n (.done a : Prog ρ ω β α) := by
  cases n <;> trivial

theorem Within.mono {p : Prog ρ ω β α} : ∀ {m n : Nat}, m ≤ n → Within m p → Within n p := by
  induction p with
  | done a => intro m n _ _; exact within_done n a
  | read r next ih =>
      intro m n hle h
      cases m with
      | zero => exact absurd h id
      | succ m =>
          obtain ⟨n, rfl⟩ : ∃ k, n = k + 1 := ⟨n - 1, by omega⟩
          exact fun value => ih value (by omega) (h value)
  | write w value next ih =>
      intro m n hle h
      cases m with
      | zero => exact absurd h id
      | succ m =>
          obtain ⟨n, rfl⟩ : ∃ k, n = k + 1 := ⟨n - 1, by omega⟩
          exact ih (by omega) h

theorem within_bind {p : Prog ρ ω β α} {f : α → Prog ρ ω β γ} {n : Nat}
    (hnext : ∀ a, Within n (f a)) : ∀ {m : Nat}, Within m p → Within (m + n) (p >>= f) := by
  induction p with
  | done a => intro m _; exact (hnext a).mono (by omega)
  | read r next ih =>
      intro m h
      cases m with
      | zero => exact absurd h id
      | succ m =>
          rw [Nat.succ_add]
          exact fun value => ih value (h value)
  | write w value next ih =>
      intro m h
      cases m with
      | zero => exact absurd h id
      | succ m =>
          rw [Nat.succ_add]
          exact ih h

/-- **Termination.**  A run that schedules the program often enough ends. -/
theorem Within.run_done (D : Device σ ρ ω β ε) (actions : List (Action ε)) :
    ∀ {n : Nat} {c : Config σ ρ ω β α}, Within n c.prog → n ≤ accesses actions →
      ∃ a, (run (step D) c actions).prog = .done a := by
  induction actions with
  | nil =>
      rintro n ⟨s, p⟩ h hn
      cases p with
      | done a => exact ⟨a, rfl⟩
      | read r next | write w value next =>
          obtain rfl : n = 0 := Nat.le_zero.mp hn
          exact absurd h id
  | cons action rest ih =>
      rintro n ⟨s, p⟩ h hn
      cases action with
      | env e => exact ih (c := ⟨D.env s e, p⟩) h hn
      | access =>
          have hrest : n - 1 ≤ accesses rest := Nat.sub_le_of_le_add hn
          cases p with
          | done a => exact ih (c := ⟨s, .done a⟩) (within_done (n - 1) a) hrest
          | read r next =>
              cases n with
              | zero => exact absurd h id
              | succ n => exact ih (c := ⟨s, next (D.read s r)⟩) (h (D.read s r)) hrest
          | write w value next =>
              cases n with
              | zero => exact absurd h id
              | succ n => exact ih (c := ⟨D.write s w value, next⟩) h hrest

/-! ## Waiting -/

section Poll

variable {n : Nat}

theorem toNat_pred {x : BitVec n} (hx : x ≠ 0) : (x - 1).toNat = x.toNat - 1 := by
  have hpos : 0 < x.toNat := Nat.pos_of_ne_zero fun h => hx (BitVec.eq_of_toNat_eq h)
  have hlt := x.isLt
  have hone : (1 : BitVec n).toNat = 1 := Nat.mod_eq_of_lt (show 1 < 2 ^ n by omega)
  rw [BitVec.toNat_sub_of_le (BitVec.le_def.mpr (by omega)), hone]

theorem toNat_pred_succ {k : Nat} {x : BitVec n} (hx : x.toNat = k + 2) :
    (x - 1).toNat = k + 1 := by
  have hne : x ≠ 0 := fun h => by simp [h] at hx
  rw [toNat_pred hne, hx]
  rfl

/-- Read until the value passes.  The countdown goes down after each value that does not,
and the loop gives up when it is zero. -/
def poll (r : ρ) (passes : β → Bool) (spinCountdown : BitVec n) : Prog ρ ω β Bool :=
  .read r fun value =>
    if passes value then .done true
    else if spinCountdown - 1 = 0 then .done false
    else poll r passes (spinCountdown - 1)
termination_by (spinCountdown - 1).toNat
decreasing_by
  rename_i hcount
  have hne : (spinCountdown - 1).toNat ≠ 0 := fun h => hcount (BitVec.eq_of_toNat_eq h)
  rw [toNat_pred hcount]
  omega

theorem poll_eq (r : ρ) (passes : β → Bool) (spinCountdown : BitVec n) :
    (poll r passes spinCountdown : Prog ρ ω β Bool) =
      .read r fun value =>
        if passes value then .done true
        else if spinCountdown - 1 = 0 then .done false
        else poll r passes (spinCountdown - 1) := by
  rw [poll]

/-- The values a loop with so many tries reads until it returns. -/
inductive Polled (passes : β → Bool) : Nat → List β → Bool → Prop
  | pass {k : Nat} {value : β} (h : passes value = true) : Polled passes (k + 1) [value] true
  | timeout {value : β} (h : passes value = false) : Polled passes 1 [value] false
  | again {k : Nat} {value : β} {values : List β} {b : Bool} (h : passes value = false)
      (hrest : Polled passes (k + 1) values b) : Polled passes (k + 2) (value :: values) b

variable {r : ρ} {passes : β → Bool}

/-- The last try. -/
theorem poll_one {spinCountdown : BitVec n} (hcount : spinCountdown.toNat = 1) :
    (poll r passes spinCountdown : Prog ρ ω β Bool) =
      .read r fun value => .done (passes value) := by
  have hne : spinCountdown ≠ 0 := fun h => by simp [h] at hcount
  have hzero : spinCountdown - 1 = 0 := by
    apply BitVec.eq_of_toNat_eq
    rw [toNat_pred hne, hcount]
    rfl
  rw [poll_eq, if_pos hzero]
  apply congrArg (Prog.read r)
  funext value
  cases hvalue : passes value <;> simp

/-- Any other. -/
theorem poll_again {k : Nat} {spinCountdown : BitVec n} (hcount : spinCountdown.toNat = k + 2) :
    (poll r passes spinCountdown : Prog ρ ω β Bool) =
      .read r fun value =>
        if passes value then .done true else poll r passes (spinCountdown - 1) := by
  have hmore : spinCountdown - 1 ≠ 0 := by
    intro h
    have hpred := toNat_pred_succ hcount
    rw [h] at hpred
    exact absurd hpred (Nat.succ_ne_zero k).symm
  rw [poll_eq, if_neg hmore]

/-- The loop reads its register and nothing else. -/
theorem polled_of_returns {k : Nat} : ∀ {spinCountdown : BitVec n} {t : List (Access ρ ω β)}
    {b : Bool}, spinCountdown.toNat = k + 1 → Returns (poll r passes spinCountdown) t b →
      ∃ values, t = values.map (.read r) ∧ Polled passes (k + 1) values b := by
  induction k with
  | zero =>
      intro spinCountdown t b hcount h
      rw [poll_one hcount] at h
      obtain ⟨value, t, rfl, rfl, rfl⟩ := h
      cases hvalue : passes value with
      | true => exact ⟨[value], rfl, .pass hvalue⟩
      | false => exact ⟨[value], rfl, .timeout hvalue⟩
  | succ k ih =>
      intro spinCountdown t b hcount h
      rw [poll_again hcount] at h
      obtain ⟨value, t, rfl, h⟩ := h
      beta_reduce at h
      by_cases hvalue : passes value = true
      · rw [if_pos hvalue] at h
        obtain ⟨rfl, rfl⟩ := h
        exact ⟨[value], rfl, .pass hvalue⟩
      · rw [if_neg hvalue] at h
        obtain ⟨values, rfl, hpolled⟩ := ih (toNat_pred_succ hcount) h
        exact ⟨value :: values, rfl, .again (Bool.eq_false_iff.mpr hvalue) hpolled⟩

theorem within_poll {k : Nat} : ∀ {spinCountdown : BitVec n}, spinCountdown.toNat = k + 1 →
    Within (k + 1) (poll r passes spinCountdown : Prog ρ ω β Bool) := by
  induction k with
  | zero =>
      intro spinCountdown hcount
      rw [poll_one hcount]
      exact fun value => within_done 0 (passes value)
  | succ k ih =>
      intro spinCountdown hcount
      rw [poll_again hcount]
      intro value
      beta_reduce
      by_cases hvalue : passes value = true
      · rw [if_pos hvalue]
        exact within_done (k + 1) true
      · rw [if_neg hvalue]
        exact ih (toNat_pred_succ hcount)

namespace Polled

variable {k : Nat} {values : List β} {b : Bool} (h : Polled passes k values b)
include h

theorem length_le : values.length ≤ k := by
  induction h with
  | pass h => exact Nat.le_add_left 1 _
  | timeout h => exact Nat.le_refl 1
  | again h hrest ih => exact Nat.succ_le_succ ih

/-- The loop returns true if and only if a value passed. -/
theorem passed_iff : b = true ↔ ∃ value ∈ values, passes value = true := by
  induction h with
  | pass h => simp [h]
  | timeout h => simp [h]
  | again h hrest ih => simp [h, ih]

end Polled

end Poll

/-! ## Reading a trace -/

section Order

/-- Every access of the trace, with the accesses before it, satisfies `F`. -/
def Each (F : List (Access ρ ω β) → Access ρ ω β → Prop) (t : List (Access ρ ω β)) : Prop :=
  ∀ before x after, t = before ++ x :: after → F before x

variable {F : List (Access ρ ω β) → Access ρ ω β → Prop}

theorem each_nil : Each F [] := by
  intro before x after h
  exact absurd h.symm (List.append_ne_nil_of_right_ne_nil _ (List.cons_ne_nil x after))

theorem each_cons {x : Access ρ ω β} {t : List (Access ρ ω β)} :
    Each F (x :: t) ↔ F [] x ∧ Each (fun before => F (x :: before)) t := by
  constructor
  · intro h
    refine ⟨h [] x t rfl, fun before y after hy => h (x :: before) y after ?_⟩
    rw [hy, List.cons_append]
  · rintro ⟨hfirst, hrest⟩ before y after heq
    cases before with
    | nil =>
        obtain ⟨rfl, -⟩ := List.cons.inj heq
        exact hfirst
    | cons z before =>
        obtain ⟨rfl, hrest'⟩ := List.cons.inj heq
        exact hrest before y after hrest'

theorem each_append {s t : List (Access ρ ω β)} :
    Each F (s ++ t) ↔ Each F s ∧ Each (fun before => F (s ++ before)) t := by
  induction s generalizing F with
  | nil => exact ⟨fun h => ⟨each_nil, h⟩, fun h => h.2⟩
  | cons x rest ih => rw [List.cons_append, each_cons, each_cons, ih, and_assoc]; rfl

/-- What holds of every access holds on the way. -/
theorem Each.of_append {s t : List (Access ρ ω β)} (h : Each F (s ++ t)) : Each F s :=
  (each_append.mp h).1

theorem each_of_forall {t : List (Access ρ ω β)} (h : ∀ before, ∀ x ∈ t, F before x) :
    Each F t := by
  rintro before x after rfl
  exact h before x (List.mem_append_right before List.mem_cons_self)

end Order

section Answers

variable [DecidableEq ρ] (r : ρ)

/-- The value of an access that reads `r`. -/
def Access.answer : Access ρ ω β → Option β
  | .read r' value => if r' = r then some value else none
  | .write _ _ => none

/-- What the reads of `r` returned, in order. -/
def answers (t : List (Access ρ ω β)) : List β := t.filterMap (Access.answer r)

@[simp] theorem answers_nil : answers r ([] : List (Access ρ ω β)) = [] := rfl

@[simp] theorem answers_read (value : β) (t : List (Access ρ ω β)) :
    answers r (.read r value :: t) = value :: answers r t :=
  List.filterMap_cons_some (if_pos rfl : Access.answer r (.read r value) = some value)

theorem answers_read_of_ne {r' : ρ} (h : r' ≠ r) (value : β) (t : List (Access ρ ω β)) :
    answers r (.read r' value :: t) = answers r t :=
  List.filterMap_cons_none (if_neg h)

@[simp] theorem answers_write (w : ω) (value : β) (t : List (Access ρ ω β)) :
    answers r (.write w value :: t) = answers r t := rfl

@[simp] theorem answers_append (s t : List (Access ρ ω β)) :
    answers r (s ++ t) = answers r s ++ answers r t := List.filterMap_append

@[simp] theorem answers_map (values : List β) :
    answers r (values.map (.read r) : List (Access ρ ω β)) = values := by
  induction values with
  | nil => rfl
  | cons value rest ih => rw [List.map_cons, answers_read, ih]

theorem answers_map_of_ne {r' : ρ} (h : r' ≠ r) (values : List β) :
    answers r (values.map (.read r') : List (Access ρ ω β)) = [] := by
  induction values with
  | nil => rfl
  | cons value rest ih => rw [List.map_cons, answers_read_of_ne r h, ih]

end Answers

end NspireUtils.Verified.DeviceTraces
