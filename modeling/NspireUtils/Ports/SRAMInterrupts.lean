import NspireUtils.Ports.SRAMLifetime

/-!
# Interrupts while the SRAM is relocated

The header promises callbacks around the remapping, to keep interrupt handlers
out.  The destructor disables interrupts before it copies the SRAM's contents
back.  The constructor copies them out first: a handler that runs between the
copy of a word and the call of `disableInterrupts` writes to the SRAM, and the
OS goes on with the clone (`handler_write_lost`).  That is the only way a write
is lost: `window_current`.
-/

namespace NspireUtils.Ports.SRAMInterrupts

open NspireUtils.Verified.ByteMemory
open NspireUtils.Verified.ShortDescriptor
open NspireUtils.Verified.Runs
open NspireUtils.Ports.MMUDescriptors
open NspireUtils.Ports.TableEditors
open NspireUtils.Ports.SRAMAccessor
open NspireUtils.Ports.SRAMRelocation
open NspireUtils.Ports.SRAMLifetime

/-- **No update is lost** in any run in which no handler writes a word between
its copy and the constructor's call of `disableInterrupts`: whenever no call is
running, before and after the destructor, each byte of the window reads the most
recent value written to it. -/
theorem window_current {s : System} {clone : Word} (h : Ready s clone) (ap : MMUAccessPermission)
    (cp : MMUCachePolicy) (domain : Byte) (es : List Event)
    (hallowed : Allowed Config.step (fun c e => c.Legal e ∧ NotLost c e)
      (start s ap cp domain clone) es)
    (hidle : (run Config.step (start s ap cp domain clone) es).todo = []) {o : Nat}
    (ho : o < sramSize) :
    (run Config.step (start s ap cp domain clone) es).view.system.load
      (sramPhysicalAddress + BitVec.ofNat 32 o) = some (mostRecent s es o) := by
  have hlegal := hallowed.mono Config.step _ (fun _ _ hok => hok.1) es _
  have hkept := kept_run es _ o (hallowed.mono Config.step _ (fun _ _ hok => hok.2) es _)
  have hload := (window_run h ap cp domain es hlegal hidle).2 o ho
  rw [hload, hkept]
  rfl

/-! ## A handler that comes too late -/

/-- The SRAM is a section, nothing is mapped at zero, both callbacks are given. -/
def idleSystem : System := bootSystem 0#32 0xA4000C02#32 true

theorem ready_idleSystem : Ready idleSystem 0x10000000#32 :=
  ready_bootSystem ⟨by decide, by decide⟩

/-- Operations of the accessor write nothing on behalf of the OS. -/
theorem lastCovering_program (n o : Nat) :
    lastCovering OsWrites (List.replicate n .program) o = none := by
  rw [lastCovering, List.reverse_replicate, List.find?_eq_none]
  intro e he
  rw [List.eq_of_mem_replicate he]
  exact fun hcovers => of_decide_eq_true hcovers

theorem allowed_notLost_program (n : Nat) :
    ∀ c : Config, Allowed Config.step (fun c e => c.Legal e ∧ NotLost c e) c
      (List.replicate n .program) := by
  induction n with
  | zero => intro c; trivial
  | succ n ih => intro c; exact ⟨⟨trivial, trivial⟩, ih _⟩

/-- A handler that writes the second word before the copy starts is heard. -/
theorem window_current_early :
    (run Config.step (start idleSystem .fullAccess .writeBackCache 0 0x10000000#32)
      (.access (.os .sram 4 0x55#8) :: List.replicate
        (start idleSystem .fullAccess .writeBackCache 0 0x10000000#32).todo.length
          .program)).view.system.load (sramPhysicalAddress + BitVec.ofNat 32 4) = some 0x55#8 := by
  have hnocopy : ∀ dst src, SRAMOp.copyWord dst src ∉
      remap idleSystem.accessor.newSRAMAddress 0x10000000#32 .fullAccess .writeBackCache 0 := by
    simp [remap]
  have hkept : ¬ Lost idleSystem
      (start idleSystem .fullAccess .writeBackCache 0 0x10000000#32).todo 4 := by
    rintro ⟨-, -, hpending⟩
    have hiff := @copyPending_iff 0x10000000#32 0 4 _ (by decide) (Nat.zero_le _) hnocopy
    rw [Nat.sub_zero] at hiff
    rw [start, construct, copyPending_setClonedBlock, memcpy_eq, hiff.mpr (by decide)] at hpending
    simp at hpending
  obtain ⟨n, hn⟩ : ∃ n,
      n = (start idleSystem .fullAccess .writeBackCache 0 0x10000000#32).todo.length := ⟨_, rfl⟩
  rw [← hn, window_current ready_idleSystem .fullAccess .writeBackCache 0 _ ?_ ?_ (by decide)]
  · simp only [mostRecent, lastCovering_cons, lastCovering_program]
    rfl
  · exact ⟨⟨⟨by decide, .inr ⟨⟨rfl, rfl⟩, rfl⟩⟩, hkept⟩, allowed_notLost_program n _⟩
  · rw [run_cons, (run_program n _).1, hn]
    exact List.drop_length

/-- After the first two steps of the constructor the first word is copied, the
others are pending, and interrupts are still enabled. -/
theorem two_steps {s : System} {clone : Word} (h : Ready s clone) (ap : MMUAccessPermission)
    (cp : MMUCachePolicy) (domain : Byte) :
    ∃ mem, run Config.step (start s ap cp domain clone) [.program, .program] =
      { view :=
          { system :=
              { s with mem, accessor := { s.accessor with clonedSRAMBlock := some clone } }
            kept := fun o => s.mem (sramPhysicalAddress.toNat + o) }
        todo := (List.range' 1 (sramSize / 4 - 1)).map (copyOp clone sramPhysicalAddress) ++
          remap s.accessor.newSRAMAddress clone ap cp domain } := by
  have hlen : sramSize / 4 = sramSize / 4 - 1 + 1 := by decide
  have hstart : start s ap cp domain clone =
      { view := { system := s, kept := fun o => s.mem (sramPhysicalAddress.toNat + o) }
        todo := .setClonedBlock clone :: copyOp clone sramPhysicalAddress 0 ::
          ((List.range' 1 (sramSize / 4 - 1)).map (copyOp clone sramPhysicalAddress) ++
            remap s.accessor.newSRAMAddress clone ap cp domain) } := by
    rw [start, construct, memcpy_eq]
    nth_rewrite 1 [hlen]
    rw [List.range'_succ, List.map_cons, List.cons_append]
  obtain ⟨t, hsrc, -⟩ := walk_section h.window sramAligned (show 4 * 0 < 2 ^ 20 by decide)
  obtain ⟨u, hdst, -⟩ := h.cloneMapped.identity (4 * 0) (by decide)
  have hcopy := exec_copyWord
    (s := { s with accessor := { s.accessor with clonedSRAMBlock := some clone } })
    h.running hsrc hdst
  rw [hstart]
  refine ⟨writeWord s.mem u.physical.toNat (readWord s.mem t.physical.toNat), ?_⟩
  simp only [run_cons, run_nil, Config.step, View.exec, exec_setClonedBlock h.running]
  rw [copyOp, hcopy]

/-- A handler that writes the first word right after it was copied is not
heard. -/
theorem late_write {s : System} {clone : Word} (h : Ready s clone)
    (hcallbacks : s.accessor.disableInterrupts = true ∧ s.accessor.enableInterrupts = true)
    (hmasked : s.masked = false) (ap : MMUAccessPermission) (cp : MMUCachePolicy)
    (domain value : Byte) (n : Nat) (hn : sramSize / 4 + 9 ≤ n) :
    let es := [.program, .program, .access (.os .sram 0 value)] ++ List.replicate n .program
    Allowed Config.step Config.Legal (start s ap cp domain clone) es ∧
      (run Config.step (start s ap cp domain clone) es).todo = [] ∧
      (run Config.step (start s ap cp domain clone) es).view.kept 0 =
        s.mem sramPhysicalAddress.toNat := by
  intro es
  obtain ⟨mem, htwo⟩ := two_steps h ap cp domain
  have hnocopy : ∀ dst src, SRAMOp.copyWord dst src ∉
      remap s.accessor.newSRAMAddress clone ap cp domain := by
    simp [remap]
  have hpending : copyPending ((List.range' 1 (sramSize / 4 - 1)).map
      (copyOp clone sramPhysicalAddress) ++ remap s.accessor.newSRAMAddress clone ap cp domain) 0 =
        false := by
    rw [← Bool.not_eq_true, copyPending_iff (by decide) (by decide) hnocopy]
    decide
  have hes : es = [.program, .program] ++
      (.access (.os .sram 0 value) :: List.replicate n .program) := rfl
  have hprogram := run_program n
  rw [hes, run_append, htwo, run_cons, allowed_append, htwo]
  refine ⟨⟨⟨trivial, trivial, trivial⟩, ⟨by decide, .inr ⟨hcallbacks, hmasked⟩⟩,
    allowed_program n _⟩, ?_, ?_⟩
  · rw [(hprogram _).1]
    apply List.drop_eq_nil_of_le
    simp only [Config.step, List.length_append, List.length_map, List.length_range', remap,
      List.length_cons, List.length_nil]
    omega
  · rw [(hprogram _).2]
    have hlost : Lost
        { s with mem, accessor := { s.accessor with clonedSRAMBlock := some clone } }
        ((List.range' 1 (sramSize / 4 - 1)).map (copyOp clone sramPhysicalAddress) ++
          remap s.accessor.newSRAMAddress clone ap cp domain) 0 :=
      ⟨h.initializing, List.mem_append_right _ (by simp [remap]), hpending⟩
    simp only [Config.step, View.access, if_pos hlost, Nat.add_zero]

/-- The interval between the copy and `disableInterrupts` is open: the OS's
write is on record, the window reads the old byte. -/
theorem handler_write_lost :
    ¬ ∀ (s : System) (clone : Word) (ap : MMUAccessPermission) (cp : MMUCachePolicy)
      (domain : Byte) (es : List Event), Ready s clone →
      s.accessor.disableInterrupts = true → s.accessor.enableInterrupts = true →
      Allowed Config.step Config.Legal (start s ap cp domain clone) es →
      (run Config.step (start s ap cp domain clone) es).todo = [] → ∀ o, o < sramSize →
        (run Config.step (start s ap cp domain clone) es).view.system.load
          (sramPhysicalAddress + BitVec.ofNat 32 o) = some (mostRecent s es o) := by
  intro hall
  obtain ⟨hallowed, hidle, hkept⟩ := late_write ready_idleSystem ⟨rfl, rfl⟩ rfl .fullAccess
    .writeBackCache 0 0x55 (sramSize / 4 + 9) (Nat.le_refl _)
  have hclaim := hall idleSystem _ .fullAccess .writeBackCache 0 _ ready_idleSystem rfl rfl
    hallowed hidle 0 (by decide)
  have hload := (window_run ready_idleSystem .fullAccess .writeBackCache 0 _ hallowed hidle).2 0
    (by decide)
  rw [hload, hkept] at hclaim
  simp only [mostRecent, List.cons_append, List.nil_append, lastCovering_cons,
    lastCovering_program] at hclaim
  exact absurd hclaim (by decide)

end NspireUtils.Ports.SRAMInterrupts
