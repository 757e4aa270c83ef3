import Mathlib

/-!
# Interrupts at instruction boundaries

A run of code on one processor, as far as interrupt handlers can tell: the accesses to
the state that it shares with them, and the instruction boundaries in between, at which
interrupts are enabled or not.  At an enabled boundary any number of interrupts is
serviced, each to its end; the handlers are a relation on the state.

A `Block` is code whose scopes enable or disable interrupts until their end.
`outcome_points_serial` says what disabling them is for: code whose scopes all disable
interrupts can do what it does when each of its outermost scopes is a single access, and
nothing else.
-/

namespace NspireUtils.Verified.InterruptSchedules

variable {σ : Type}

/-- What happens next: an access, or a boundary at which interrupts are enabled or not. -/
inductive Point (σ : Type) where
  | access (f : σ → σ)
  | boundary (enabled : Bool)

section Outcomes

variable (H : σ → σ → Prop)

/-- Interrupts are serviced, one after the other. -/
abbrev Serviced : σ → σ → Prop := Relation.ReflTransGen H

/-- What a run can make of the state. -/
def Outcome : List (Point σ) → σ → σ → Prop
  | [], s, s' => s = s'
  | .access f :: rest, s, s' => Outcome rest (f s) s'
  | .boundary false :: rest, s, s' => Outcome rest s s'
  | .boundary true :: rest, s, s' => ∃ t, Serviced H s t ∧ Outcome rest t s'

variable {H}

theorem outcome_append (ps qs : List (Point σ)) (s s' : σ) :
    Outcome H (ps ++ qs) s s' ↔ ∃ t, Outcome H ps s t ∧ Outcome H qs t s' := by
  induction ps generalizing s with
  | nil =>
      constructor
      · intro h
        exact ⟨s, rfl, h⟩
      · rintro ⟨t, rfl, h⟩
        exact h
  | cons p rest ih =>
      cases p with
      | access f => exact ih (f s)
      | boundary enabled =>
          cases enabled with
          | false => exact ih s
          | true =>
              constructor
              · rintro ⟨t, hserviced, h⟩
                obtain ⟨u, hrest, hqs⟩ := (ih t).mp h
                exact ⟨u, ⟨t, hserviced, hrest⟩, hqs⟩
              · rintro ⟨u, ⟨t, hserviced, hrest⟩, hqs⟩
                exact ⟨t, hserviced, (ih t).mpr ⟨u, hrest, hqs⟩⟩

/-- Two runs that can do the same. -/
def Same (H : σ → σ → Prop) (ps qs : List (Point σ)) : Prop :=
  ∀ s s', Outcome H ps s s' ↔ Outcome H qs s s'

theorem Same.refl (ps : List (Point σ)) : Same H ps ps := fun _ _ => Iff.rfl

theorem Same.trans {ps qs rs : List (Point σ)} (h : Same H ps qs) (h' : Same H qs rs) :
    Same H ps rs :=
  fun s s' => (h s s').trans (h' s s')

theorem Same.append {ps ps' qs qs' : List (Point σ)} (h : Same H ps ps') (h' : Same H qs qs') :
    Same H (ps ++ qs) (ps' ++ qs') := by
  intro s s'
  rw [outcome_append, outcome_append]
  exact exists_congr fun t => and_congr (h s t) (h' t s')

theorem Same.cons (p : Point σ) {ps qs : List (Point σ)} (h : Same H ps qs) :
    Same H (p :: ps) (p :: qs) :=
  (Same.refl [p]).append h

/-- Boundaries alone: interrupts are serviced if one of them is enabled. -/
theorem outcome_boundaries (bs : List Bool) (s s' : σ) :
    Outcome H (bs.map .boundary) s s' ↔ if true ∈ bs then Serviced H s s' else s = s' := by
  induction bs generalizing s with
  | nil => simp [Outcome]
  | cons b rest ih =>
      cases b with
      | false => simpa [Outcome] using ih s
      | true =>
          rw [if_pos List.mem_cons_self]
          constructor
          · rintro ⟨t, hserviced, h⟩
            have hrest := (ih t).mp h
            split_ifs at hrest
            · exact hserviced.trans hrest
            · exact hrest ▸ hserviced
          · intro hserviced
            refine ⟨s', hserviced, (ih s').mpr ?_⟩
            split_ifs
            · exact .refl
            · rfl

/-- Boundaries count only by whether one of them is enabled. -/
theorem same_boundaries {bs bs' : List Bool} (h : true ∈ bs ↔ true ∈ bs') :
    Same H (bs.map .boundary) (bs'.map .boundary) := by
  intro s s'
  rw [outcome_boundaries, outcome_boundaries]
  simp only [h]

/-- A boundary twice is the boundary. -/
theorem same_boundary_twice (b : Bool) (rest : List (Point σ)) :
    Same H (.boundary b :: .boundary b :: rest) (.boundary b :: rest) :=
  (@same_boundaries σ H [b, b] [b] (by simp)).append (.refl rest)

/-- A disabled boundary is none. -/
theorem same_disabled (rest : List (Point σ)) : Same H (.boundary false :: rest) rest :=
  fun _ _ => Iff.rfl

end Outcomes

/-! ## Scopes -/

/-- Code that accesses the state and has scopes in which interrupts are enabled, or
disabled. -/
inductive Block (σ : Type) where
  | skip
  | access (f : σ → σ) (rest : Block σ)
  | scope (enables : Bool) (body rest : Block σ)

namespace Block

/-- The run of a block that starts with interrupts enabled or disabled.  Where nobody
obeys, scopes change nothing. -/
def points (obeyed : Bool) : Bool → Block σ → List (Point σ)
  | _, skip => []
  | enabled, access f rest => .access f :: .boundary enabled :: points obeyed enabled rest
  | enabled, scope enables body rest =>
      let inner := if obeyed then enables else enabled
      [.boundary enabled, .boundary inner] ++ points obeyed inner body ++
        [.boundary inner, .boundary enabled] ++ points obeyed enabled rest

/-- What the block does without interrupts. -/
def effect : Block σ → σ → σ
  | skip, s => s
  | access f rest, s => effect rest (f s)
  | scope _ body rest, s => effect rest (effect body s)

/-- Every scope disables interrupts. -/
def Critical : Block σ → Prop
  | skip => True
  | access _ rest => Critical rest
  | scope enables body rest => enables = false ∧ Critical body ∧ Critical rest

/-- The accesses, an outermost scope counted as one. -/
def atoms : Block σ → List (σ → σ)
  | skip => []
  | access f rest => f :: atoms rest
  | scope _ body rest => effect body :: atoms rest

variable {H : σ → σ → Prop}

/-- With interrupts disabled a block does what it does without them. -/
theorem outcome_disabled (b : Block σ) (h : b.Critical) (s s' : σ) :
    Outcome H (points true false b) s s' ↔ b.effect s = s' := by
  induction b generalizing s s' with
  | skip => exact Iff.rfl
  | access f rest ih => exact ih h (f s) s'
  | scope enables body rest ihBody ihRest =>
      obtain ⟨rfl, hbody, hrest⟩ := h
      have hpoints : Outcome H (points true false (scope false body rest)) s s' ↔
          Outcome H (points true false body ++ points true false rest) s s' := by
        rw [points, if_pos rfl, List.append_assoc, List.append_assoc]
        have hleave : Same H (.boundary false :: .boundary false :: points true false rest)
            (points true false rest) := (same_disabled _).trans (same_disabled _)
        exact (Same.refl (points true false body)).append hleave s s'
      rw [hpoints, outcome_append]
      constructor
      · rintro ⟨t, hb, hr⟩
        rw [effect, (ihBody hbody s t).mp hb]
        exact (ihRest hrest t s').mp hr
      · intro heffect
        exact ⟨body.effect s, (ihBody hbody s _).mpr rfl, (ihRest hrest _ s').mpr heffect⟩

/-- Accesses between which interrupts are enabled. -/
def serial (fs : List (σ → σ)) : List (Point σ) :=
  .boundary true :: fs.flatMap fun f => [.access f, .boundary true]

/-- **Critical scopes are atomic.**  With interrupts enabled at its beginning, a block
can do what it does when every outermost scope is one access, and nothing else. -/
theorem outcome_points_serial (b : Block σ) (h : b.Critical) :
    Same H (.boundary true :: points true true b) (serial b.atoms) := by
  induction b with
  | skip => exact .refl _
  | access f rest ih => exact (ih h).cons (.access f) |>.cons (.boundary true)
  | scope enables body rest _ ih =>
      obtain ⟨rfl, hbody, hrest⟩ := h
      have hbodyPoints : Same H (points true false body) [.access body.effect] := by
        intro s s'
        rw [outcome_disabled body hbody]
        exact Iff.rfl
      have hmiddle : Same H (points true false body ++ .boundary false :: .boundary true ::
          points true true rest) (.access body.effect :: serial rest.atoms) :=
        hbodyPoints.append ((same_disabled _).trans (ih hrest))
      have hscope : Same H (.boundary true :: points true true (scope false body rest))
          (.boundary true :: .boundary true :: .boundary false :: (points true false body ++
            .boundary false :: .boundary true :: points true true rest)) := by
        rw [points, if_pos rfl]
        simp only [List.append_assoc, List.cons_append, List.nil_append]
        exact .refl _
      apply hscope.trans
      apply (same_boundary_twice true _).trans
      exact ((same_disabled _).trans hmiddle).cons (.boundary true)

/-- One of these things is what the block does without interrupts. -/
theorem outcome_serial_effect (b : Block σ) (s : σ) :
    Outcome H (serial b.atoms) s (b.effect s) := by
  induction b generalizing s with
  | skip => exact ⟨s, .refl, rfl⟩
  | access f rest ih => exact ⟨s, .refl, ih (f s)⟩
  | scope _ body rest _ ih => exact ⟨s, .refl, ih (body.effect s)⟩

/-- With interrupts disabled at its beginning it does that. -/
theorem serial_of_points (b : Block σ) (h : b.Critical) {enabled : Bool} {s s' : σ}
    (houtcome : Outcome H (.boundary enabled :: points true enabled b) s s') :
    Outcome H (serial b.atoms) s s' := by
  cases enabled with
  | true => exact (outcome_points_serial b h s s').mp houtcome
  | false =>
      rw [← (outcome_disabled b h s s').mp houtcome]
      exact outcome_serial_effect b s

end Block

end NspireUtils.Verified.InterruptSchedules
