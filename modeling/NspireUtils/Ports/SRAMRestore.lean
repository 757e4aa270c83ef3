import NspireUtils.Ports.SRAMLifetime

/-!
# What the destructor restores

The header promises that the destructor leaves a fault at the new address.  Of
the other two entries the constructor replaced, the destructor rebuilds the one
of the SRAM's own megabyte, with the permission and cache policy it thinks
usual, and forgets the one of the window at zero, which goes on leading to the
freed block.

`undone_iff` says for which tables this restores everything: those that already
held the descriptors the accessor writes.
-/

namespace NspireUtils.Ports.SRAMRestore

open NspireUtils.Verified.BitFields
open NspireUtils.Verified.ByteMemory
open NspireUtils.Verified.ShortDescriptor
open NspireUtils.Verified.Runs
open NspireUtils.Verified.ProofOutline
open NspireUtils.Ports.MMUDescriptors
open NspireUtils.Ports.TableEditors
open NspireUtils.Ports.SRAMAccessor
open NspireUtils.Ports.SRAMRelocation
open NspireUtils.Ports.SRAMLifetime

/-- The system after the constructor was called with a block. -/
def constructed (s : System) (ap : MMUAccessPermission) (cp : MMUCachePolicy) (domain : Byte)
    (clone : Word) : System :=
  s.execAll (construct s.accessor.newSRAMAddress ap cp domain (some clone))

/-- The system after memory was left at `mem` and the destructor called. -/
def destroyed (s : System) (mem : Memory) : System :=
  { s with mem }.execAll (destroy s.accessor)

/-- What the constructor takes over from the SRAM's old entry. -/
def oldDomain (s : System) : Byte := mmuDomainFromEntry (s.l1 (l1IndexOf sramPhysicalAddress))

/-- The descriptor of the block, in both of the OS's windows. -/
def cloneDescriptor (s : System) (clone : Word) : Word :=
  sectionDescriptor clone (sectionAttributes .fullAccess .nonCachedNonBuffered (oldDomain s))

/-- The descriptor of the SRAM the destructor writes. -/
def rebuiltDescriptor (s : System) : Word :=
  sectionDescriptor sramPhysicalAddress
    (sectionAttributes .fullAccess .writeBackCache (oldDomain s))

/-- The destructor undid the constructor: every entry but that of the new address
is what it was, and through no entry that changed the freed block is reached. -/
structure Undone (clone new : Word) (s s₁ s₂ : System) : Prop where
  entries : ∀ i, i ≠ l1IndexOf new → s₂.l1 i = s.l1 i
  released : ∀ va t, (s₁.l1 (l1IndexOf va) ≠ s.l1 (l1IndexOf va) ∨
      s₂.l1 (l1IndexOf va) ≠ s₁.l1 (l1IndexOf va)) →
    s₂.walk va = .mapped t → ¬ (cloneBlock clone).Holds t.physical.toNat

/-! ## Calls that come to their end -/

theorem exec_of_failed {s : System} (h : s.failure ≠ none) (op : SRAMOp) : s.exec op = s := by
  rw [System.exec, if_pos (Option.isSome_iff_ne_none.mpr h)]

/-- A call that came to its end was running at its start. -/
theorem running_of_execAll {ops : List SRAMOp} :
    ∀ {s : System}, (s.execAll ops).failure = none → s.failure = none := by
  induction ops with
  | nil => intro s h; exact h
  | cons op rest ih =>
      intro s h
      by_contra hfailed
      rw [System.execAll_cons, exec_of_failed hfailed] at h
      exact hfailed (ih h)

/-- A copy reaches memory only. -/
structure SameTables (s s' : System) : Prop where
  l1 : s'.l1 = s.l1
  editorAlive : s'.editorAlive = s.editorAlive
  accessor : s'.accessor = s.accessor

theorem sameTables_copyWord (s : System) (dst src : Word) :
    SameTables s (s.exec (.copyWord dst src)) := by
  by_cases hrunning : s.failure = none
  · rw [System.exec_of_running hrunning, System.perform]
    split <;> exact ⟨rfl, rfl, rfl⟩
  · rw [exec_of_failed hrunning]
    exact ⟨rfl, rfl, rfl⟩

theorem sameTables_memcpy (dst src : Word) (bytes : Nat) (s : System) :
    SameTables s (s.execAll (memcpy dst src bytes)) := by
  rw [memcpy_eq]
  induction List.range' 0 (bytes / 4) generalizing s with
  | nil => exact ⟨rfl, rfl, rfl⟩
  | cons i rest ih =>
      have hfirst := sameTables_copyWord s (dst + BitVec.ofNat 32 (4 * i))
        (src + BitVec.ofNat 32 (4 * i))
      have hrest := ih (s.exec (copyOp dst src i))
      exact
        { l1 := hrest.l1.trans hfirst.l1
          editorAlive := hrest.editorAlive.trans hfirst.editorAlive
          accessor := hrest.accessor.trans hfirst.accessor }

/-- Past the check the editor has its table, and the object knows the old
domain. -/
theorem exec_checkIdentityMapped_done {s : System} (hrunning : s.failure = none)
    (h : (s.exec .checkIdentityMapped).failure = none) :
    s.editorAlive = true ∧ s.exec .checkIdentityMapped =
      { s with accessor := { s.accessor with originalSRAMDomain := oldDomain s } } := by
  rw [System.exec_of_running hrunning, System.perform] at h ⊢
  cases halive : s.editorAlive with
  | false => simp [System.getEntry, halive] at h
  | true =>
      have hentry : s.getEntry sramPhysicalAddress = s.l1 (l1IndexOf sramPhysicalAddress) :=
        if_pos halive
      simp only [hentry] at h ⊢
      split_ifs at h ⊢
      exact ⟨trivial, by rw [← halive]; rfl⟩

/-! ## The two calls -/

/-- The tables and the object after the constructor remapped. -/
theorem execAll_remap_done {s : System} {new clone : Word} {ap : MMUAccessPermission}
    {cp : MMUCachePolicy} {domain : Byte}
    (h : (s.execAll (remap new clone ap cp domain)).failure = none) :
    (s.execAll (remap new clone ap cp domain)).l1 =
        Function.update (Function.update (Function.update s.l1 (l1IndexOf sramPhysicalAddress)
          (cloneDescriptor s clone)) (l1IndexOf Window.zero.base) (cloneDescriptor s clone))
          (l1IndexOf new) (sectionDescriptor sramPhysicalAddress (sectionAttributes ap cp domain)) ∧
      (s.execAll (remap new clone ap cp domain)).editorAlive = true ∧
      (s.execAll (remap new clone ap cp domain)).accessor =
        { s.accessor with originalSRAMDomain := oldDomain s, initSuccessful := true } := by
  have hrunning := running_of_execAll h
  rw [remap, System.execAll_cons, exec_flushDataCacheRange hrunning, System.execAll_cons,
    exec_drainWriteBuffer hrunning, System.execAll_cons] at h ⊢
  obtain ⟨halive, hcheck⟩ := exec_checkIdentityMapped_done hrunning (running_of_execAll h)
  rw [hcheck]
  cases hdisable : s.accessor.disableInterrupts <;> cases henable : s.accessor.enableInterrupts <;>
    simp [System.exec, System.perform, System.mapSection, System.map, hrunning, halive, hdisable,
      henable, cloneDescriptor, Window.base]

/-- The tables and the object after the constructor. -/
theorem constructed_done {s : System} {clone : Word} {ap : MMUAccessPermission}
    {cp : MMUCachePolicy} {domain : Byte}
    (h : (constructed s ap cp domain clone).failure = none) :
    (constructed s ap cp domain clone).l1 =
        Function.update (Function.update (Function.update s.l1 (l1IndexOf sramPhysicalAddress)
          (cloneDescriptor s clone)) (l1IndexOf Window.zero.base) (cloneDescriptor s clone))
          (l1IndexOf s.accessor.newSRAMAddress)
          (sectionDescriptor sramPhysicalAddress (sectionAttributes ap cp domain)) ∧
      (constructed s ap cp domain clone).editorAlive = true ∧
      (constructed s ap cp domain clone).accessor =
        { s.accessor with
          clonedSRAMBlock := some clone, originalSRAMDomain := oldDomain s
          initSuccessful := true } := by
  have hrunning := running_of_execAll h
  rw [constructed, construct, System.execAll_cons, System.execAll_append,
    exec_setClonedBlock hrunning] at h ⊢
  have hcopied := sameTables_memcpy clone sramPhysicalAddress sramSize
    { s with accessor := { s.accessor with clonedSRAMBlock := some clone } }
  generalize System.execAll _ (memcpy clone sramPhysicalAddress sramSize) = copied at h hcopied ⊢
  obtain ⟨hl1, halive, haccessor⟩ := execAll_remap_done h
  have hdomain : oldDomain copied = oldDomain s := by rw [oldDomain, hcopied.l1, oldDomain]
  rw [hl1, haccessor, cloneDescriptor, hdomain, hcopied.l1, hcopied.accessor]
  exact ⟨rfl, halive, rfl⟩

/-- The table after the contents were copied back. -/
theorem execAll_restore {s : System} (hrunning : s.failure = none) (halive : s.editorAlive = true)
    (new clone : Word) :
    (s.execAll (restore new clone)).l1 =
      Function.update (Function.update s.l1 (l1IndexOf sramPhysicalAddress)
        (sectionDescriptor sramPhysicalAddress (sectionAttributes .fullAccess .writeBackCache
          s.accessor.originalSRAMDomain))) (l1IndexOf new) 0#32 := by
  rw [restore, System.execAll_cons, exec_flushDataCacheRange hrunning, System.execAll_cons,
    exec_drainWriteBuffer hrunning]
  cases henable : s.accessor.enableInterrupts <;>
    simp [System.exec, System.perform, System.mapSection, System.map, hrunning, halive, henable]

/-- The table after the destructor of an object that was set up. -/
theorem destroyed_done {s : System} {mem : Memory} {clone : Word}
    (hcloned : s.accessor.clonedSRAMBlock = some clone)
    (hinit : s.accessor.initSuccessful = true) (halive : s.editorAlive = true)
    (h : (destroyed s mem).failure = none) :
    (destroyed s mem).l1 =
      Function.update (Function.update s.l1 (l1IndexOf sramPhysicalAddress)
        (sectionDescriptor sramPhysicalAddress (sectionAttributes .fullAccess .writeBackCache
          s.accessor.originalSRAMDomain))) (l1IndexOf s.accessor.newSRAMAddress) 0#32 := by
  have hrunning := running_of_execAll h
  obtain ⟨calls, hdisable, -⟩ := exec_disableInterrupts (s := { s with mem }) hrunning
  have hoperations : destroy s.accessor = .disableInterrupts ::
      (memcpy s.accessor.newSRAMAddress clone sramSize ++
        restore s.accessor.newSRAMAddress clone) := by
    simp only [destroy, hcloned, hinit, if_true]
  rw [destroyed, hoperations, System.execAll_cons, hdisable, System.execAll_append] at h ⊢
  have hcopied := sameTables_memcpy s.accessor.newSRAMAddress clone sramSize { s with mem, calls }
  generalize System.execAll _ (memcpy s.accessor.newSRAMAddress clone sramSize) = copied
    at h hcopied ⊢
  rw [execAll_restore (running_of_execAll h) (hcopied.editorAlive.trans halive), hcopied.l1,
    hcopied.accessor]

/-- Through a section the walk ends in its megabyte. -/
theorem physical_section {m : Memory} {entry va : Word} {base : Nat} {t : Translation}
    (h : MapsSection entry base) (hwalk : walkEntry m entry va = .mapped t) :
    base ≤ t.physical.toNat ∧ t.physical.toNat < base + 2 ^ 20 := by
  obtain ⟨htype, hbase⟩ := h
  rw [walkEntry_section m va htype] at hwalk
  obtain rfl := Walk.mapped.inj hwalk
  have hlt := (va.extractLsb' 0 20).isLt
  rw [BitVec.toNat_append, ← Nat.shiftLeft_add_eq_or_of_lt hlt, Nat.shiftLeft_eq, hbase]
  omega

section Lifetime

variable {s : System} {clone : Word} {ap : MMUAccessPermission} {cp : MMUCachePolicy}
  {domain : Byte} {mem : Memory}
  (hconstructed : (constructed s ap cp domain clone).failure = none)
  (hdestroyed : (destroyed (constructed s ap cp domain clone) mem).failure = none)
include hconstructed hdestroyed

/-- The table in the end: one entry cleared, one rebuilt, one forgotten. -/
theorem destroyed_constructed_l1 (i : Nat) :
    (destroyed (constructed s ap cp domain clone) mem).l1 i =
      if i = l1IndexOf s.accessor.newSRAMAddress then 0#32
      else if i = l1IndexOf sramPhysicalAddress then rebuiltDescriptor s
      else if i = l1IndexOf Window.zero.base then cloneDescriptor s clone
      else s.l1 i := by
  obtain ⟨hl1, halive, haccessor⟩ := constructed_done hconstructed
  have hfinal := destroyed_done (by rw [haccessor]) (by rw [haccessor]) halive hdestroyed
  rw [haccessor, hl1] at hfinal
  rw [hfinal]
  simp only [Function.update_apply, rebuiltDescriptor]
  split_ifs <;> rfl

end Lifetime

/-- **What the destructor restores.**  For every table on which the constructor
succeeds, and whatever happened to memory before the destructor, everything is as
before if and only if the entry of the window at zero already was the descriptor
of the block, and the SRAM's entry the one the destructor rebuilds. -/
theorem undone_iff (s : System) (clone : Word) (ap : MMUAccessPermission) (cp : MMUCachePolicy)
    (domain : Byte) (mem : Memory) (haligned : 2 ^ 20 ∣ clone.toNat)
    (happart : (cloneBlock clone).Apart sramBlock)
    (hzero : l1IndexOf s.accessor.newSRAMAddress ≠ l1IndexOf Window.zero.base)
    (hsram : l1IndexOf s.accessor.newSRAMAddress ≠ l1IndexOf sramPhysicalAddress)
    (hconstructed : (constructed s ap cp domain clone).failure = none)
    (hdestroyed : (destroyed (constructed s ap cp domain clone) mem).failure = none) :
    Undone clone s.accessor.newSRAMAddress s (constructed s ap cp domain clone)
        (destroyed (constructed s ap cp domain clone) mem) ↔
      s.l1 (l1IndexOf Window.zero.base) = cloneDescriptor s clone ∧
        s.l1 (l1IndexOf sramPhysicalAddress) = rebuiltDescriptor s := by
  have hfinal := destroyed_constructed_l1 hconstructed hdestroyed
  have hzeroSram : l1IndexOf Window.zero.base ≠ l1IndexOf sramPhysicalAddress := by decide
  constructor
  · intro h
    have hz := h.entries _ hzero.symm
    have hs := h.entries _ hsram.symm
    rw [hfinal, if_neg hzero.symm, if_neg hzeroSram, if_pos rfl] at hz
    rw [hfinal, if_neg hsram.symm, if_pos rfl] at hs
    exact ⟨hz.symm, hs.symm⟩
  · rintro ⟨hz, hs⟩
    refine ⟨fun i hi => ?_, fun va t hchanged hwalk => ?_⟩
    · rw [hfinal, if_neg hi]
      split_ifs with his hiz
      · rw [his, hs]
      · rw [hiz, hz]
      · rfl
    · rw [System.walk, hfinal] at hwalk
      split_ifs at hwalk with hnew his hiz
      · -- the new address is a fault
        simp [walkEntry] at hwalk
      · -- the SRAM's window leads to the SRAM
        have hrange := physical_section (mapsSection_descriptor sramAligned _ _ _) hwalk
        have hbefore := happart.before_or_after (show 0 < sramSize by decide)
          (show 0 < sramSize by decide)
        have hsize : sramSize = 262144 := rfl
        have hbase : sramPhysicalAddress.toNat = 0xA4000000 := rfl
        simp only [Block.Holds, cloneBlock, sramBlock] at hbefore ⊢
        omega
      · -- the entry at zero never changed
        obtain ⟨hl1, -, -⟩ := constructed_done hconstructed
        rw [hiz, hfinal, hl1] at hchanged
        simp [hzeroSram, hzero.symm, hz] at hchanged
      · obtain ⟨hl1, -, -⟩ := constructed_done hconstructed
        rw [hfinal, hl1] at hchanged
        simp [hnew, his, hiz] at hchanged

/-! ## An accessor on a running system -/

/-- A call that is not interrupted performs its operations one after the
other. -/
theorem finish_system (c : Config) :
    (finish c).view.system = c.view.system.execAll c.todo := by
  obtain ⟨v, todo⟩ := c
  induction todo generalizing v with
  | nil => rfl
  | cons op rest ih => exact ih (v.exec op)

theorem finish_start (s : System) (ap : MMUAccessPermission) (cp : MMUCachePolicy) (domain : Byte)
    (clone : Word) :
    (finish (start s ap cp domain clone)).view.system = constructed s ap cp domain clone := by
  rw [finish_system, start, constructed]

/-- The destructor of an object that is set up comes to its end. -/
theorem destroyed_completes {clone new : Word} (p : Placement clone new) {v : View}
    (h : SetUp clone new v) : (destroyed v.system v.system.mem).failure = none := by
  have hdown := (tornDown_finish p (c := ⟨v, []⟩) h).1.running
  rw [finish_system] at hdown
  exact hdown

/-- On a system ready for it the constructor comes to its end, and so does the
destructor. -/
theorem lifetime_completes {s : System} {clone : Word} (h : Ready s clone)
    (ap : MMUAccessPermission) (cp : MMUCachePolicy) (domain : Byte) :
    (constructed s ap cp domain clone).failure = none ∧
      (destroyed (constructed s ap cp domain clone)
        (constructed s ap cp domain clone).mem).failure = none := by
  rw [← finish_start]
  have hsetUp := setUp_finish h ap cp domain
  exact ⟨hsetUp.1.core.running, destroyed_completes h.placement hsetUp⟩

/-- On a table that already holds what the accessor writes, nothing is left
behind. -/
theorem undone_iff_rebuilt :
    let s := bootSystem 0x10000C12#32 0xA4000C1E#32 false
    let s₁ := constructed s .fullAccess .writeBackCache 0 0x10000000#32
    Undone 0x10000000#32 0x20000000#32 s s₁ (destroyed s₁ s₁.mem) := by
  obtain ⟨hconstructed, hdestroyed⟩ := lifetime_completes
    (@ready_bootSystem 0x10000C12#32 0xA4000C1E#32 false ⟨by decide, by decide⟩)
    .fullAccess .writeBackCache 0
  exact (undone_iff _ 0x10000000#32 .fullAccess .writeBackCache 0 _ (by decide)
    (Block.apart_of_le (.inl (by decide))) (by decide) (by decide) hconstructed hdestroyed).mpr
      ⟨by decide, by decide⟩

/-- With both windows on the SRAM, the one at zero leads to the freed block in
the end. -/
theorem zero_window_dangles :
    ¬ ∀ (s : System) (clone : Word) (ap : MMUAccessPermission) (cp : MMUCachePolicy)
      (domain : Byte) (mem : Memory), 2 ^ 20 ∣ clone.toNat → (cloneBlock clone).Apart sramBlock →
      l1IndexOf s.accessor.newSRAMAddress ≠ l1IndexOf Window.zero.base →
      l1IndexOf s.accessor.newSRAMAddress ≠ l1IndexOf sramPhysicalAddress →
      (constructed s ap cp domain clone).failure = none →
      (destroyed (constructed s ap cp domain clone) mem).failure = none →
      Undone clone s.accessor.newSRAMAddress s (constructed s ap cp domain clone)
        (destroyed (constructed s ap cp domain clone) mem) := by
  intro hall
  have hready : Ready (bootSystem 0xA4000C1E#32 0xA4000C1E#32 false) 0x10000000#32 :=
    ready_bootSystem ⟨by decide, by decide⟩
  obtain ⟨hconstructed, hdestroyed⟩ := lifetime_completes hready .fullAccess .writeBackCache 0
  have hclaim := (hall _ _ _ _ _ _ hready.placement.cloneAligned hready.placement.cloneApart
    (by decide) (by decide) hconstructed hdestroyed).entries 0 (by decide)
  rw [destroyed_constructed_l1 hconstructed hdestroyed] at hclaim
  exact absurd hclaim (by decide)

end NspireUtils.Ports.SRAMRestore
