import NspireUtils.Verified.Deadlines
import NspireUtils.Ports.Watchdog

/-!
# Feeding the watchdog

The counter runs down twice: the first time it raises the interrupt, the second time, if
the interrupt is still up, the reset output.  A call that configures an open device sets
it back.

`reset_iff` is about every order of calls and ticks.  A program that configures the
device where it believes it to be unlocked does not feed it at all:
`documented_feeding`.
-/

namespace NspireUtils.Ports.WatchdogFeeding

open NspireUtils.Verified.Runs
open NspireUtils.Verified.Deadlines
open NspireUtils.Ports.Watchdog

/-- How many ticks are left to the reset output. -/
def untilReset (d : Registers) : Nat :=
  if d.rawInterrupt then d.value.toNat + 1 else d.value.toNat + 1 + (d.load.toNat + 1)

/-- The same where the counter runs and the reset output is enabled. -/
def ticksLeft (d : Registers) : Option Nat :=
  if d.enabled && d.resetEnabled then some (untilReset d) else none

/-- A call that configures the device and finds it open. -/
def Feeds (d : Registers) (e : Event) : Prop :=
  d.locked = false ∧ ∃ c : Call, e = .call c ∧ c.Configures

/-! ## One step -/

/-- Everything else leaves the counter and its settings alone. -/
theorem step_other {d : Registers} {e : Event} (htick : e ≠ .tick) (hfeeds : ¬ Feeds d e) :
    step d e = { d with locked := (step d e).locked } := by
  cases e with
  | tick => exact absurd rfl htick
  | call c =>
      by_cases hc : c.Configures
      · have hlocked : d.locked = true := by
          cases hlocked : d.locked with
          | true => rfl
          | false => exact absurd ⟨hlocked, c, rfl, hc⟩ hfeeds
        have hsame : step d (.call c) = d := after_of_locked hlocked hc
        rw [hsame]
      · cases c with
        | load v | setControl v | clearInterrupt => exact absurd trivial hc
        | lock =>
            show d.write .lock lockKey = { d with locked := (d.write .lock lockKey).locked }
            rw [Registers.write, if_neg (by simp)]
            rfl
        | unlock =>
            show d.write .lock 0#32 = { d with locked := (d.write .lock 0#32).locked }
            rw [Registers.write, if_neg (by simp)]
            rfl
        | _ => rfl

/-- No call moves the reset output. -/
theorem resetOutput_call (d : Registers) (c : Call) :
    (step d (.call c)).resetOutput = d.resetOutput := by
  have hwrite : ∀ (w : WriteRegister) (v : Word), (d.write w v).resetOutput = d.resetOutput := by
    intro w v
    unfold Registers.write
    split_ifs
    · rfl
    · cases w <;> rfl
  cases c with
  | load v => exact hwrite .load v
  | setControl controlBits => exact hwrite .control controlBits
  | clearInterrupt => exact hwrite .intClear 1#32
  | lock => exact hwrite .lock lockKey
  | unlock => exact hwrite .lock 0#32
  | _ => rfl

/-- A tick that finds the counter above zero. -/
theorem tick_of_ne_zero {d : Registers} (henabled : d.enabled = true) (hvalue : d.value ≠ 0#32) :
    d.tick = { d with value := d.value - 1#32 } := by
  rw [Registers.tick, if_pos henabled, if_neg hvalue]

/-- A tick that finds it at zero. -/
theorem tick_of_zero {d : Registers} (henabled : d.enabled = true) (hvalue : d.value = 0#32) :
    d.tick = { d with
      value := d.load
      rawInterrupt := true
      resetOutput := d.resetOutput || (d.rawInterrupt && d.resetEnabled) } := by
  rw [Registers.tick, if_pos henabled, if_pos hvalue]

theorem tick_of_disabled {d : Registers} (h : d.enabled = false) : d.tick = d := by
  rw [Registers.tick, if_neg (by simp [h])]

theorem resetOutput_tick {d : Registers} (h : d.resetOutput = true) :
    d.tick.resetOutput = true := by
  unfold Registers.tick
  split_ifs <;> simp [h]

theorem toNat_pred {v : Word} (h : v ≠ 0#32) : (v - 1#32).toNat + 1 = v.toNat := by
  have hpos : v.toNat ≠ 0 := fun h0 => h (BitVec.eq_of_toNat_eq h0)
  have hlt := v.isLt
  rw [BitVec.toNat_sub]
  simp only [BitVec.toNat_ofNat]
  omega

theorem ticksLeft_of {d : Registers} (henabled : d.enabled = true)
    (hreset : d.resetEnabled = true) : ticksLeft d = some (untilReset d) := by
  rw [ticksLeft, if_pos (by rw [henabled, hreset]; rfl)]

theorem ticksLeft_eq_some {d : Registers} {n : Nat} (h : ticksLeft d = some n) :
    (d.enabled = true ∧ d.resetEnabled = true) ∧ untilReset d = n := by
  rw [ticksLeft] at h
  split_ifs at h with henabled
  exact ⟨Bool.and_eq_true_iff.mp henabled, Option.some.inj h⟩

theorem untilReset_pos (d : Registers) : 0 < untilReset d := by
  unfold untilReset
  split_ifs <;> omega

theorem ticksLeft_eq_none {d : Registers} (h : ticksLeft d = none) :
    d.enabled = false ∨ d.resetEnabled = false := by
  rw [ticksLeft] at h
  split_ifs at h with henabled
  rw [Bool.and_eq_true, not_and_or] at henabled
  simpa using henabled

/-- The reset output goes up with the last tick. -/
theorem resetOutput_tick_iff {d : Registers} (h : d.resetOutput = false) :
    d.tick.resetOutput = true ↔ ticksLeft d = some 1 := by
  cases henabled : d.enabled with
  | false => simp [tick_of_disabled henabled, h, ticksLeft, henabled]
  | true =>
      by_cases hvalue : d.value = 0#32
      · rw [tick_of_zero henabled hvalue]
        cases hraw : d.rawInterrupt <;>
          simp [ticksLeft, untilReset, henabled, h, hraw, hvalue]
      · rw [tick_of_ne_zero henabled hvalue]
        have hpos := toNat_pred hvalue
        constructor
        · intro hreset
          exact absurd (hreset.symm.trans h) (by decide)
        · intro hleft
          have hone := (ticksLeft_eq_some hleft).2
          unfold untilReset at hone
          split_ifs at hone <;> omega

/-- Each tick before it brings it nearer. -/
theorem ticksLeft_tick {d : Registers} {n : Nat} (h : ticksLeft d = some (n + 2)) :
    ticksLeft d.tick = some (n + 1) := by
  obtain ⟨⟨henabled, hreset⟩, hleft⟩ := ticksLeft_eq_some h
  by_cases hvalue : d.value = 0#32
  · rw [tick_of_zero henabled hvalue]
    refine Eq.trans (ticksLeft_of henabled hreset) (congrArg some ?_)
    rw [untilReset, hvalue] at hleft
    split_ifs at hleft with hraw
    · exact absurd hleft (by simp)
    · -- The first time at zero: the interrupt is up, and the counter starts anew.
      show d.load.toNat + 1 = n + 1
      simp only [BitVec.toNat_ofNat] at hleft
      omega
  · rw [tick_of_ne_zero henabled hvalue]
    refine Eq.trans (ticksLeft_of henabled hreset) (congrArg some ?_)
    have hpos := toNat_pred hvalue
    unfold untilReset at hleft ⊢
    dsimp only
    split_ifs at hleft ⊢ <;> omega

/-- A device that cannot reset keeps to it. -/
theorem ticksLeft_tick_none {d : Registers} (h : ticksLeft d = none) : ticksLeft d.tick = none := by
  have hcontrol : d.tick.control = d.control := by
    unfold Registers.tick
    split_ifs <;> rfl
  have hnot : ¬ (d.enabled && d.resetEnabled) = true := by
    rcases ticksLeft_eq_none h with hfalse | hfalse <;> simp [hfalse]
  rw [ticksLeft, Registers.enabled, Registers.resetEnabled, hcontrol]
  exact if_neg hnot

/-! ## Whole runs -/

/-- The reset output as a deadline. -/
def resetDeadline : Deadline step where
  ticks e := e == .tick
  rearms := Feeds
  left := ticksLeft
  expired := Registers.resetOutput
  ahead d h := (untilReset_pos d).ne' (ticksLeft_eq_some h).2
  tick_expires d e htick _ hreset := by
    rw [beq_iff_eq.mp htick]
    exact resetOutput_tick_iff hreset
  tick_left d e n htick _ hleft := by
    rw [beq_iff_eq.mp htick]
    exact ticksLeft_tick hleft
  tick_none d e htick _ hleft := by
    rw [beq_iff_eq.mp htick]
    exact ticksLeft_tick_none hleft
  other d e htick hfeeds := by
    rw [step_other (by simpa using htick) hfeeds]
    exact ⟨rfl, rfl⟩
  kept d e _ hreset := by
    cases e with
    | tick => exact resetOutput_tick hreset
    | call c => exact (resetOutput_call d c).trans hreset

theorem resetDeadline_lasting : resetDeadline.Lasting where
  lasts d e hreset := by
    cases e with
    | tick => exact resetOutput_tick hreset
    | call c => exact (resetOutput_call d c).trans hreset
  rearmed d e hfeeds := by
    obtain ⟨-, c, rfl, -⟩ := hfeeds
    exact resetOutput_call d c

/-- **When the watchdog resets the system.**  The reset output is up after a run if and
only if it was up before, or if somewhere in the run there are as many ticks as were left
without a call in between that configures an open device. -/
theorem reset_iff (d : Registers) (events : List Event) :
    (run step d events).resetOutput = true ↔
      d.resetOutput = true ∨
        ∃ before after n, before ++ after <+: events ∧
          Allowed step (fun d e => ¬ Feeds d e) (run step d before) after ∧
          ticksLeft (run step d before) = some n ∧ n ≤ after.count .tick := by
  refine (Deadline.expired_run_iff resetDeadline_lasting d events).trans ?_
  constructor
  · rintro (hreset | ⟨before, after, hprefix, hquiet, n, hleft, hn⟩)
    · exact .inl hreset
    · exact .inr ⟨before, after, n, hprefix, hquiet, hleft, hn⟩
  · rintro (hreset | ⟨before, after, n, hprefix, hquiet, hleft, hn⟩)
    · exact .inl hreset
    · exact .inr ⟨before, after, hprefix, hquiet, n, hleft, hn⟩

/-! ## Feeding as documented -/

/-- Every configuring call comes where the device has been unlocked, going by the names of
the calls. -/
def Documented (d : Registers) (events : List Event) : Prop :=
  ∀ before c, before ++ [.call c] <+: events → c.Configures →
    lastLock before = some (.call .unlock) ∨ lastLock before = none ∧ d.locked = true

/-- Then the device is closed at every one of them. -/
theorem Documented.quiet {d : Registers} {events : List Event} (h : Documented d events) :
    resetDeadline.Quiet d events := by
  induction events using List.reverseRecOn with
  | nil => exact trivial
  | append_singleton before e ih =>
      have hbefore : Documented d before := fun earlier c hearlier =>
        h earlier c (hearlier.trans (List.prefix_append before [e]))
      refine (allowed_append step _ before [e] d).mpr ⟨ih hbefore, ?_, trivial⟩
      rintro ⟨hopen, c, rfl, hc⟩
      have hlocked := locked_run d before
      rcases h before c (List.prefix_refl _) hc with hlast | ⟨hlast, hstart⟩
      · rw [hlast, hopen] at hlocked
        exact Bool.false_ne_true hlocked
      · rw [hlast, hopen] at hlocked
        exact Bool.false_ne_true (hlocked.trans hstart)

/-- **Feeding as documented.**  A program that configures the watchdog only between
`unlock` and `lock` never sets it back: the reset output goes up after as many ticks as
were left when the program started. -/
theorem documented_feeding (d : Registers) (events : List Event) (h : Documented d events) :
    (run step d events).resetOutput = true ↔
      d.resetOutput = true ∨ ∃ n, ticksLeft d = some n ∧ n ≤ events.count .tick :=
  Deadline.expired_stretch_iff resetDeadline h.quiet

/-- Fed once, then three ticks, twice over. -/
def fedTwice : List Event :=
  [.call .unlock, .call .clearInterrupt, .call .lock, .tick, .tick, .tick,
    .call .unlock, .call .clearInterrupt, .call .lock, .tick, .tick, .tick]

theorem fedTwice_documented (d : Registers) : Documented d fedTwice := by
  intro before c hprefix hc
  have hbefore := List.prefix_iff_eq_take.mp ((List.prefix_append before [.call c]).trans hprefix)
  have hget := List.prefix_iff_getElem?.mp hprefix before.length (by simp)
  have hlength : before.length < 12 := by simpa [fedTwice] using hprefix.length_le
  simp only [List.getElem_concat_length] at hget
  rw [hbefore]
  generalize before.length = k at hget hlength
  interval_cases k <;> cases hget <;> first | exact absurd hc id | exact .inl rfl

/-- The interrupt never goes down, and the sixth tick resets. -/
theorem documented_feeding_twice :
    (run step ⟨2#32, 2#32, 3#2, false, false, false⟩ fedTwice).resetOutput = true :=
  (documented_feeding ⟨2#32, 2#32, 3#2, false, false, false⟩ fedTwice
    (fedTwice_documented _)).mpr (.inr ⟨6, by decide, by decide⟩)

end NspireUtils.Ports.WatchdogFeeding
