import NspireUtils.Verified.Latches
import NspireUtils.Ports.SP804

/-!
# A periodic interrupt

`interrupts` of `tests/interrupted/main.cpp` sets a timer up for a periodic interrupt:
it clears the interrupt, stops the timer, loads it and starts it again.  Meanwhile and
afterwards both timers count, the interrupt's handler clears it, and others use the
other timer.

`interrupt_iff` says when the interrupt is up.  Before the timer is stopped its old
settings count, so one interrupt may be left of them: it was cleared too early.
-/

namespace NspireUtils.Ports.PeriodicTimer

open NspireUtils.Verified.DeviceIO
open NspireUtils.Verified.Runs
open NspireUtils.Verified.Latches
open NspireUtils.Ports.SP804
open NspireUtils.Ports.SP804.TimerAdjustable

/-! ## The code -/

/-- `TIMER_CTRL_*`. -/
def ctrlWrap : BitVec 8 := 0
def ctrl32Bit : BitVec 8 := 1 <<< 1
def ctrlPrescalerDiv1 : BitVec 8 := 0
def ctrlIntEnable : BitVec 8 := 1 <<< 5
def ctrlPeriodic : BitVec 8 := 1 <<< 6
def ctrlEnable : BitVec 8 := 1 <<< 7
def ctrlDisable : BitVec 8 := 0

/-- `TimerSpeedControl_Speed12MHz`. -/
def speed12MHz : BitVec 8 := 1

/-- The control bits of a timer that is set up and not started. -/
def stopped : BitVec 8 :=
  ctrlWrap ||| ctrl32Bit ||| ctrlPrescalerDiv1 ||| ctrlIntEnable ||| ctrlPeriodic ||| ctrlDisable

/-- `timer.setControl(…, timer.getControl(…) | TIMER_CTRL_ENABLE)`. -/
def startTimer (t : SelectedTimer) : Driver Unit := do
  let control ← getControl t
  setControl t (control ||| ctrlEnable)

/-- The timer's part of `interrupts`. -/
def setupTimer (t : SelectedTimer) (load : Word) : Driver Unit := do
  clearInterrupt t
  setControl t stopped
  setSpeed speed12MHz
  setLoadReg t load
  setBackgroundLoadReg t load
  startTimer t

/-- What others do meanwhile. -/
inductive Disturbance where
  | tick (which : SelectedTimer)
  | clear
  | otherTimer (r : TimerRegister) (value : Word)
  | speed (value : Word)
  deriving Repr, DecidableEq

def disturb (t : SelectedTimer) (d : Registers) : Disturbance → Registers
  | .tick which => d.setTimer which (d.timers which).tick
  -- `HandleTimer1`
  | .clear => d.write (.timer t .intClr) 1#32
  | .otherTimer r value => d.write (.timer t.other r) value
  | .speed value => d.write .speedControl value

/-- The device of a program that uses the timer `t`. -/
def sp804 (t : SelectedTimer) :
    Device Registers (SelectedTimer × ReadRegister) WriteRegister Word Disturbance where
  read := Registers.read
  write := Registers.write
  env := disturb t

abbrev Running := Config Registers (SelectedTimer × ReadRegister) WriteRegister Word Unit

/-- The timer after the actions. -/
def timerAfter (t : SelectedTimer) (load : Word) (d : Registers)
    (actions : List (Action Disturbance)) : Timer :=
  (run (step (sp804 t)) ⟨d, setupTimer t load⟩ actions).state.timers t

/-- How many accesses the program has made, and how often the timer has counted since the
last of them. -/
structure Progress where
  accesses : Nat
  counts : Nat
  deriving Repr, DecidableEq

def Progress.next (t : SelectedTimer) (p : Progress) : Action Disturbance → Progress
  | .access => { p with accesses := p.accesses + 1 }
  | .env (.tick which) =>
      if which = t ∧ 7 ≤ p.accesses then { p with counts := p.counts + 1 } else p
  | .env _ => p

/-- Only the program makes accesses. -/
theorem Progress.next_env (t : SelectedTimer) (p : Progress) (e : Disturbance) :
    (p.next t (.env e)).accesses = p.accesses := by
  cases e with
  | tick which => simp only [next]; split_ifs <;> rfl
  | clear | otherTimer r value | speed value => rfl

def progress (t : SelectedTimer) (actions : List (Action Disturbance)) : Progress :=
  run (Progress.next t) ⟨0, 0⟩ actions

/-! ## The timer on its own -/

theorem tick_of_stopped {timer : Timer} (h : timer.control = stopped) : timer.tick = timer := by
  have hnone : timer.next = none := by
    rw [Timer.next, Timer.enabled, h, if_neg (by decide)]
  simp [Timer.tick, Timer.expires, hnone]

theorem expires_of_stopped {timer : Timer} (h : timer.control = stopped) :
    timer.expires = false := by
  have hnone : timer.next = none := by
    rw [Timer.next, Timer.enabled, h, if_neg (by decide)]
  rw [Timer.expires, hnone]
  rfl

/-- A started timer that has counted `k` times. -/
structure Started (load : Word) (k : Nat) (timer : Timer) : Prop where
  control : timer.control = stopped ||| ctrlEnable
  loaded : timer.load = load
  value : timer.value.toNat = load.toNat - k % (load.toNat + 1)

theorem Started.top {load : Word} {k : Nat} {timer : Timer} (h : Started load k timer) :
    timer.top = 0xFFFFFFFF#32 := by
  rw [Timer.top, Timer.wide, h.control, if_pos (by decide)]

theorem and_top (v : Word) : v &&& 0xFFFFFFFF#32 = v := BitVec.and_allOnes

/-- It counts down, and at zero starts anew. -/
theorem Started.next {load : Word} {k : Nat} {timer : Timer} (h : Started load k timer) :
    timer.next = some (if timer.value = 0#32 then load else timer.value - 1#32) := by
  have henabled : timer.enabled = true := by rw [Timer.enabled, h.control]; decide
  have honeShot : timer.oneShot = false := by rw [Timer.oneShot, h.control]; decide
  have hperiodic : timer.periodic = true := by rw [Timer.periodic, h.control]; decide
  rw [Timer.next, if_pos henabled, h.top, and_top]
  simp only [honeShot, hperiodic, h.loaded, Bool.false_eq_true, if_false, if_true]
  split_ifs <;> rfl

theorem toNat_eq_zero {v : Word} : v = 0#32 ↔ v.toNat = 0 :=
  ⟨fun h => h ▸ rfl, fun h => BitVec.eq_of_toNat_eq h⟩

/-- What it counts to. -/
theorem Started.toNat_next {load : Word} {k : Nat} {timer : Timer} (h : Started load k timer) :
    (if timer.value = 0#32 then load else timer.value - 1#32).toNat =
      load.toNat - (k + 1) % (load.toNat + 1) := by
  have hmod : k % (load.toNat + 1) < load.toNat + 1 := Nat.mod_lt _ (Nat.succ_pos _)
  have hlt := timer.value.isLt
  have hvalue := h.value
  split_ifs with hzero
  · rw [toNat_eq_zero] at hzero
    have hlast : (k + 1) % (load.toNat + 1) = 0 := by
      rw [Nat.add_mod, show k % (load.toNat + 1) = load.toNat by omega]
      rcases Nat.eq_zero_or_pos load.toNat with hload | hload
      · simp [hload]
      · rw [Nat.mod_eq_of_lt (show 1 < load.toNat + 1 by omega), Nat.mod_self]
    rw [hlast, Nat.sub_zero]
  · rw [toNat_eq_zero] at hzero
    have hnext : (k + 1) % (load.toNat + 1) = k % (load.toNat + 1) + 1 := by
      rw [Nat.add_mod, Nat.mod_eq_of_lt (show 1 < load.toNat + 1 by omega)]
      exact Nat.mod_eq_of_lt (by omega)
    rw [BitVec.toNat_sub, hnext]
    simp only [BitVec.toNat_ofNat]
    omega

theorem Started.tick {load : Word} {k : Nat} {timer : Timer} (h : Started load k timer) :
    Started load (k + 1) timer.tick where
  control := h.control
  loaded := h.loaded
  value := by
    rw [Timer.tick, h.next]
    exact h.toNat_next

/-- It comes to zero once in `load + 1` counts. -/
theorem Started.expires_iff {load : Word} {k : Nat} {timer : Timer} (h : Started load k timer) :
    timer.expires = true ↔ load.toNat + 1 ∣ k + 2 := by
  rw [Timer.expires, h.next, h.top]
  simp only [Option.any_some, and_top, decide_eq_true_eq]
  have hmod : (k + 1) % (load.toNat + 1) < load.toNat + 1 := Nat.mod_lt _ (Nat.succ_pos _)
  rw [toNat_eq_zero, h.toNat_next, Nat.dvd_iff_mod_eq_zero, show k + 2 = k + 1 + 1 from rfl,
    Nat.add_mod (k + 1) 1]
  rcases Nat.eq_zero_or_pos load.toNat with hload | hload
  · simp [hload, Nat.mod_one]
  · rw [Nat.mod_eq_of_lt (show 1 < load.toNat + 1 by omega)]
    constructor
    · intro hzero
      rw [show (k + 1) % (load.toNat + 1) = load.toNat by omega, Nat.mod_self]
    · intro hzero
      by_contra hne
      rw [Nat.mod_eq_of_lt (by omega)] at hzero
      omega

/-! ## The program on its way -/

/-- The timer and the rest of the program, after the accesses and counts. -/
inductive Stage (t : SelectedTimer) (load : Word) : Progress → Timer → Driver Unit → Prop
  | begun (timer : Timer) : Stage t load ⟨0, 0⟩ timer (setupTimer t load)
  | cleared (timer : Timer) : Stage t load ⟨1, 0⟩ timer (do
      setControl t stopped
      setSpeed speed12MHz
      setLoadReg t load
      setBackgroundLoadReg t load
      startTimer t)
  | halted {timer : Timer} (h : timer.control = stopped) : Stage t load ⟨2, 0⟩ timer (do
      setSpeed speed12MHz
      setLoadReg t load
      setBackgroundLoadReg t load
      startTimer t)
  | speedSet {timer : Timer} (h : timer.control = stopped) :
      Stage t load ⟨3, 0⟩ timer (do
        setLoadReg t load
        setBackgroundLoadReg t load
        startTimer t)
  | loadSet {timer : Timer} (h : timer.control = stopped)
      (hvalue : timer.value = load) : Stage t load ⟨4, 0⟩ timer (do
        setBackgroundLoadReg t load
        startTimer t)
  | backgroundSet {timer : Timer} (h : timer.control = stopped)
      (hload : timer.load = load) (hvalue : timer.value = load) :
      Stage t load ⟨5, 0⟩ timer (startTimer t)
  | controlRead {timer : Timer} (h : timer.control = stopped)
      (hload : timer.load = load) (hvalue : timer.value = load) :
      Stage t load ⟨6, 0⟩ timer (setControl t (stopped ||| ctrlEnable))
  | started {timer : Timer} {n k : Nat} (hn : 7 ≤ n) (h : Started load k timer) :
      Stage t load ⟨n, k⟩ timer (.done ())

/-- An access of the program. -/
theorem Stage.access {t : SelectedTimer} {load : Word} {p : Progress} {c : Running}
    (h : Stage t load p (c.state.timers t) c.prog) :
    Stage t load (p.next t .access) ((step (sp804 t) c .access).state.timers t)
      (step (sp804 t) c .access).prog := by
  obtain ⟨d, prog⟩ := c
  have hwrite : ∀ (r : TimerRegister) (value : Word),
      ((sp804 t).write d (.timer t r) value).timers t = (d.timers t).write r value :=
    d.write_self t
  generalize htimer : d.timers t = timer at h hwrite
  cases h with
  | begun _ => exact .cleared _
  | cleared _ => exact .halted (congrArg Timer.control (hwrite .control (stopped.setWidth 32)))
  | halted h =>
      refine .speedSet ?_
      show (d.timers t).control = _
      rw [htimer, h]
  | speedSet h =>
      exact .loadSet ((congrArg Timer.control (hwrite .load load)).trans h)
        (congrArg Timer.value (hwrite .load load))
  | loadSet h hvalue =>
      exact .backgroundSet ((congrArg Timer.control (hwrite .bgLoad load)).trans h)
        (congrArg Timer.load (hwrite .bgLoad load))
        ((congrArg Timer.value (hwrite .bgLoad load)).trans hvalue)
  | backgroundSet h hload hvalue =>
      have hread : ((d.timers t).control.setWidth 32).setWidth 8 = stopped := by
        rw [htimer, h]
        rfl
      show Stage t load ⟨6, 0⟩ (d.timers t)
        (setControl t (((d.timers t).control.setWidth 32).setWidth 8 ||| ctrlEnable))
      rw [hread, htimer]
      exact .controlRead h hload hvalue
  | controlRead h hload hvalue =>
      refine .started (Nat.le_refl 7) ?_
      have hafter := hwrite .control ((stopped ||| ctrlEnable).setWidth 32)
      refine ⟨congrArg Timer.control hafter, (congrArg Timer.load hafter).trans hload, ?_⟩
      rw [Nat.zero_mod, Nat.sub_zero]
      exact congrArg BitVec.toNat ((congrArg Timer.value hafter).trans hvalue)
  | started hn h =>
      refine .started (Nat.le_succ_of_le hn) ?_
      show Started load _ (d.timers t)
      rw [htimer]
      exact h

/-- What a disturbance does to the timer. -/
theorem disturb_timer (t : SelectedTimer) (d : Registers) (e : Disturbance) :
    (disturb t d e).timers t =
      if e = .tick t then (d.timers t).tick
      else if e = .clear then { d.timers t with rawInterrupt := false } else d.timers t := by
  cases e with
  | tick which =>
      by_cases hwhich : which = t
      · subst hwhich
        rw [if_pos rfl]
        exact d.setTimer_self which _
      · rw [if_neg (by simpa using hwhich), if_neg (by simp)]
        exact d.setTimer_of_ne _ (Ne.symm hwhich)
  | clear => exact d.write_self t .intClr 1#32
  | otherTimer r value =>
      rw [if_neg (by simp), if_neg (by simp)]
      exact d.write_of_ne r value t.other_ne
  | speed value => rfl

/-- A timer that differs in its interrupt only is at the same stage. -/
theorem Stage.rawInterrupt {t : SelectedTimer} {load : Word} {p : Progress} {timer : Timer}
    {prog : Driver Unit} (h : Stage t load p timer prog) (raw : Bool) :
    Stage t load p { timer with rawInterrupt := raw } prog := by
  cases h with
  | begun _ => exact .begun _
  | cleared _ => exact .cleared _
  | halted h => exact .halted h
  | speedSet h => exact .speedSet h
  | loadSet h hvalue => exact .loadSet h hvalue
  | backgroundSet h hload hvalue => exact .backgroundSet h hload hvalue
  | controlRead h hload hvalue => exact .controlRead h hload hvalue
  | started hn h => exact .started hn ⟨h.control, h.loaded, h.value⟩

/-- A count. -/
theorem Stage.tick {t : SelectedTimer} {load : Word} {p : Progress} {timer : Timer}
    {prog : Driver Unit} (h : Stage t load p timer prog) :
    Stage t load (p.next t (.env (.tick t))) timer.tick prog := by
  have hbefore : ∀ n, n < 7 → Progress.next t ⟨n, 0⟩ (.env (.tick t)) = ⟨n, 0⟩ := fun n hn =>
    if_neg fun hcount => absurd hcount.2 (Nat.not_le.mpr hn)
  cases h with
  | begun _ => rw [hbefore 0 (by decide)]; exact .begun _
  | cleared _ => rw [hbefore 1 (by decide)]; exact .cleared _
  | halted h => rw [hbefore 2 (by decide), tick_of_stopped h]; exact .halted h
  | speedSet h => rw [hbefore 3 (by decide), tick_of_stopped h]; exact .speedSet h
  | loadSet h hvalue =>
      rw [hbefore 4 (by decide), tick_of_stopped h]
      exact .loadSet h hvalue
  | backgroundSet h hload hvalue =>
      rw [hbefore 5 (by decide), tick_of_stopped h]
      exact .backgroundSet h hload hvalue
  | controlRead h hload hvalue =>
      rw [hbefore 6 (by decide), tick_of_stopped h]
      exact .controlRead h hload hvalue
  | started hn h =>
      rw [Progress.next, if_pos ⟨rfl, hn⟩]
      exact .started hn h.tick

/-- Any action. -/
theorem Stage.step {t : SelectedTimer} {load : Word} {p : Progress} {c : Running}
    (h : Stage t load p (c.state.timers t) c.prog) (action : Action Disturbance) :
    Stage t load (p.next t action) ((step (sp804 t) c action).state.timers t)
      (step (sp804 t) c action).prog := by
  cases action with
  | access => exact h.access
  | env e =>
      show Stage t load _ ((disturb t c.state e).timers t) c.prog
      rw [disturb_timer]
      split_ifs with htick hclear
      · subst htick
        exact h.tick
      · subst hclear
        exact h.rawInterrupt false
      · have hsame : p.next t (.env e) = p := by
          cases e with
          | tick which => exact if_neg fun hcount => htick (congrArg _ hcount.1)
          | clear | otherTimer r value | speed value => rfl
        rw [hsame]
        exact h

/-- At every moment the program is at some stage. -/
theorem stage_run (t : SelectedTimer) (load : Word) (d : Registers)
    (actions : List (Action Disturbance)) :
    Stage t load (progress t actions) (timerAfter t load d actions)
      (run (step (sp804 t)) ⟨d, setupTimer t load⟩ actions).prog := by
  induction actions using List.reverseRecOn with
  | nil => exact .begun _
  | append_singleton before action ih =>
      rw [progress, timerAfter, run_append, run_append]
      exact ih.step action

/-! ## The interrupt -/

/-- The program's next access clears the interrupt. -/
def ClearsNext (t : SelectedTimer) (c : Running) : Prop :=
  ∃ value rest, c.prog = .write (.timer t .intClr) value rest

/-- Other writes leave it alone. -/
theorem write_rawInterrupt {t : SelectedTimer} {w : WriteRegister} (hw : w ≠ .timer t .intClr)
    (d : Registers) (value : Word) :
    ((d.write w value).timers t).rawInterrupt = (d.timers t).rawInterrupt := by
  cases w with
  | speedControl => rfl
  | timer t' r =>
      by_cases ht : t = t'
      · subst ht
        rw [d.write_self]
        cases r with
        | intClr => exact absurd rfl hw
        | load | control | bgLoad => rfl
      · rw [d.write_of_ne r value ht]

/-- The interrupt is a latch, set by the counts that come to zero. -/
def interruptLatch (t : SelectedTimer) : Latch (step (sp804 t) (α := Unit)) where
  flag c := (c.state.timers t).rawInterrupt
  sets c action := action = .env (.tick t) ∧ (c.state.timers t).expires = true
  clears c action := action = .env .clear ∨ action = .access ∧ ClearsNext t c
  flag_set c action := by
    rintro ⟨rfl, hexpires⟩
    show ((disturb t c.state (.tick t)).timers t).rawInterrupt = true
    rw [disturb_timer, if_pos rfl, Timer.tick, hexpires, Bool.or_true]
  flag_cleared c action := by
    rintro (rfl | ⟨rfl, value, rest, hprog⟩)
    · show ((disturb t c.state .clear).timers t).rawInterrupt = false
      rw [disturb_timer, if_neg (by simp), if_pos rfl]
    · obtain ⟨d, prog⟩ := c
      subst hprog
      exact congrArg Timer.rawInterrupt (d.write_self t .intClr value)
  flag_kept c action hsets hclears := by
    cases action with
    | access =>
        obtain ⟨d, prog⟩ := c
        cases prog with
        | done a => rfl
        | read r rest => rfl
        | write w value rest =>
            refine write_rawInterrupt (fun hw => hclears (.inr ⟨rfl, value, rest, ?_⟩)) d value
            rw [hw]
    | env e =>
        show ((disturb t c.state e).timers t).rawInterrupt = (c.state.timers t).rawInterrupt
        rw [disturb_timer]
        split_ifs with htick hclear
        · have hnot : (c.state.timers t).expires = false := by
            cases hexpires : (c.state.timers t).expires with
            | false => rfl
            | true => exact absurd ⟨congrArg _ htick, hexpires⟩ hsets
          rw [Timer.tick, hnot, Bool.or_false]
        · exact absurd (.inl (congrArg _ hclear)) hclears
        · rfl

variable {t : SelectedTimer} {load : Word} {p : Progress} {timer : Timer} {prog : Driver Unit}

/-- Only the first access clears the interrupt. -/
theorem Stage.clearsNext_iff {c : Running} (h : Stage t load p timer c.prog) :
    ClearsNext t c ↔ p.accesses = 0 := by
  obtain ⟨d, prog⟩ := c
  constructor
  · rintro ⟨value, rest, rfl⟩
    cases h with
    | begun _ => rfl
  · intro hnone
    cases h with
    | begun _ => exact ⟨_, _, rfl⟩
    | started hn _ => exact absurd hnone (Nat.ne_of_gt (Nat.lt_of_lt_of_le (by decide) hn))
    | _ => exact absurd hnone (Nat.succ_ne_zero _)

/-- A program that has come to its end has started the timer. -/
theorem Stage.started_of_done (h : Stage t load p timer (.done ())) :
    7 ≤ p.accesses ∧ Started load p.counts timer := by
  cases h with
  | started hn h => exact ⟨hn, h⟩

/-- After the first access only the handler clears it. -/
theorem Stage.kept_iff {c : Running} (h : Stage t load p (c.state.timers t) c.prog)
    (haccess : p.accesses ≠ 0) (actions : List (Action Disturbance)) :
    (interruptLatch t).Kept c actions ↔ .env .clear ∉ actions := by
  induction actions generalizing c p with
  | nil => exact ⟨fun _ => List.not_mem_nil, fun _ => trivial⟩
  | cons action rest ih =>
      have hnext : (p.next t action).accesses ≠ 0 := by
        cases action with
        | access => exact Nat.succ_ne_zero _
        | env e => rwa [p.next_env]
      have hclears : (interruptLatch t).clears c action ↔ action = .env .clear :=
        or_iff_left fun haccesses => haccess (h.clearsNext_iff.mp haccesses.2)
      show ¬ (interruptLatch t).clears c action ∧ (interruptLatch t).Kept _ rest ↔ _
      rw [hclears, ih (h.step action) hnext, List.mem_cons, not_or, eq_comm]

/-- Before it, a run that does not clear the interrupt makes no access. -/
theorem Stage.accesses_of_kept {c : Running} (h : Stage t load p (c.state.timers t) c.prog)
    (hnone : p.accesses = 0) {actions : List (Action Disturbance)}
    (hkept : (interruptLatch t).Kept c actions) :
    (run (Progress.next t) p actions).accesses = 0 := by
  induction actions generalizing c p with
  | nil => exact hnone
  | cons action rest ih =>
      obtain ⟨hclears, hrest⟩ := hkept
      refine ih (h.step action) ?_ hrest
      cases action with
      | access => exact absurd (.inr ⟨rfl, h.clearsNext_iff.mpr hnone⟩) hclears
      | env e => rw [p.next_env, hnone]

/-- The next count comes to zero: with the old settings before the timer is stopped, and
once it is started every `load + 1` counts. -/
def CountsOut (t : SelectedTimer) (load : Word) (d : Registers)
    (before : List (Action Disturbance)) : Prop :=
  (progress t before).accesses = 1 ∧ (timerAfter t load d before).expires = true ∨
    7 ≤ (progress t before).accesses ∧ load.toNat + 1 ∣ (progress t before).counts + 2

theorem Stage.expires_iff (h : Stage t load p timer prog) (haccess : p.accesses ≠ 0) :
    timer.expires = true ↔ p.accesses = 1 ∧ timer.expires = true ∨
      7 ≤ p.accesses ∧ load.toNat + 1 ∣ p.counts + 2 := by
  cases h with
  | begun _ => exact absurd rfl haccess
  | cleared _ => simp
  | halted h => simp [expires_of_stopped h]
  | speedSet h => simp [expires_of_stopped h]
  | loadSet h _ => simp [expires_of_stopped h]
  | backgroundSet h _ _ => simp [expires_of_stopped h]
  | controlRead h _ _ => simp [expires_of_stopped h]
  | started hn h =>
      rw [h.expires_iff]
      simp only [hn, true_and]
      omega

/-- **When the interrupt is up.**  After the program has come to its end the interrupt is
up if and only if it has not been cleared since a count came to zero, either between the
first two accesses, with the old settings, or after the last, once every `load + 1`
counts. -/
theorem interrupt_iff (t : SelectedTimer) (load : Word) (d : Registers)
    (actions : List (Action Disturbance))
    (hdone : (run (step (sp804 t)) ⟨d, setupTimer t load⟩ actions).prog = .done ()) :
    result (sp804 t) (getMaskedInterruptStatus t)
        (run (step (sp804 t)) ⟨d, setupTimer t load⟩ actions).state = true ↔
      ∃ before after, actions = before ++ .env (.tick t) :: after ∧ .env .clear ∉ after ∧
        CountsOut t load d before := by
  have hstage := stage_run t load d
  have hend := hstage actions
  rw [hdone] at hend
  obtain ⟨haccesses, hstarted⟩ := hend.started_of_done
  have hmasked : result (sp804 t) (getMaskedInterruptStatus t)
      (run (step (sp804 t)) ⟨d, setupTimer t load⟩ actions).state =
        (timerAfter t load d actions).rawInterrupt := by
    have henabled : (timerAfter t load d actions).interruptEnabled = true := by
      rw [Timer.interruptEnabled, hstarted.control]
      decide
    show ((BitVec.ofBool ((timerAfter t load d actions).rawInterrupt &&
      (timerAfter t load d actions).interruptEnabled)).setWidth 32 &&& 1#32 != 0#32) = _
    rw [henabled, Bool.and_true]
    cases (timerAfter t load d actions).rawInterrupt <;> rfl
  have hflag := (interruptLatch t).flag_run_iff ⟨d, setupTimer t load⟩ actions
  rw [hmasked]
  refine hflag.trans ⟨?_, ?_⟩
  · rintro (⟨-, hkept⟩ | ⟨before, action, after, rfl, ⟨rfl, hexpires⟩, hkept⟩)
    · have hnone : (progress t actions).accesses = 0 := (hstage []).accesses_of_kept rfl hkept
      rw [hnone] at haccesses
      exact absurd haccesses (by decide)
    · have hbefore := hstage before
      by_cases hnone : (progress t before).accesses = 0
      · have htick := hbefore.step (.env (.tick t))
        have hnext := htick.accesses_of_kept (by rw [Progress.next_env, hnone]) hkept
        rw [progress, run_append] at haccesses
        rw [run_cons, ← progress, hnext] at haccesses
        exact absurd haccesses (by decide)
      · have hclear := (hbefore.step (.env (.tick t))).kept_iff
          (by rwa [Progress.next_env]) after
        exact ⟨before, after, rfl, hclear.mp hkept, (hbefore.expires_iff hnone).mp hexpires⟩
  · rintro ⟨before, after, rfl, hclear, hout⟩
    have hbefore := hstage before
    have haccess : (progress t before).accesses ≠ 0 := by
      rcases hout with ⟨hone, -⟩ | ⟨hseven, -⟩ <;> omega
    have hkept := (hbefore.step (.env (.tick t))).kept_iff
      (by rwa [Progress.next_env]) after
    exact .inr ⟨before, .env (.tick t), after, rfl,
      ⟨rfl, (hbefore.expires_iff haccess).mpr hout⟩, hkept.mpr hclear⟩

/-- Both timers run with their old settings, and the first is about to come to zero. -/
def busyDevice : Registers where
  timers _ := { load := 9, value := 1, control := 0xE2, rawInterrupt := false }
  speed := 0

/-- A count between the first two accesses leaves an interrupt, though the timer has not
counted since it was started. -/
theorem interrupt_iff_stale :
    let actions := .access :: .env (.tick .timer1) :: List.replicate 6 .access
    result (sp804 .timer1) (getMaskedInterruptStatus .timer1)
      (run (step (sp804 .timer1)) ⟨busyDevice, setupTimer .timer1 12000000⟩ actions).state =
        true := by
  intro actions
  exact (interrupt_iff .timer1 12000000 busyDevice actions rfl).mpr
    ⟨[.access], List.replicate 6 .access, rfl, by simp, .inl ⟨rfl, rfl⟩⟩

end NspireUtils.Ports.PeriodicTimer
