import NspireUtils.Ports.SRAMRelocation

/-!
# The life of an `SRAM_Accessor`

The two proof outlines, operation by operation: the constructor carries the OS's
window from the SRAM to the clone, the destructor carries it back.  `window_run`
puts them together over any interleaving with the OS, its handlers and the user
of the SRAM.
-/

namespace NspireUtils.Ports.SRAMLifetime

open NspireUtils.Verified.ByteMemory
open NspireUtils.Verified.ShortDescriptor
open NspireUtils.Verified.Runs
open NspireUtils.Verified.ProofOutline
open NspireUtils.Ports.MMUDescriptors
open NspireUtils.Ports.TableEditors
open NspireUtils.Ports.SRAMAccessor
open NspireUtils.Ports.SRAMRelocation

/-! ## Operations that leave memory and tables alone -/

/-- Only bookkeeping differs: callbacks called and members of the object that no
assertion is about. -/
structure SameWorld (s s' : System) : Prop where
  mem : s'.mem = s.mem
  l1 : s'.l1 = s.l1
  failure : s'.failure = s.failure
  editorAlive : s'.editorAlive = s.editorAlive
  newAddress : s'.accessor.newSRAMAddress = s.accessor.newSRAMAddress

section Same

variable {clone new : Word} {v v' : View}

theorem core_same (h : Core clone new v.system) (p : Placement clone new)
    (hsame : SameWorld v.system v'.system) : Core clone new v'.system :=
  { running := hsame.failure.trans h.running
    alive := hsame.editorAlive.trans h.alive
    newAddress := hsame.newAddress.trans h.newAddress
    cloneMapped := h.cloneMapped.congr p.cloneAligned (by rw [hsame.l1])
      fun a _ _ => by rw [hsame.mem] }

theorem copying_same {i : Nat} (h : Copying clone new i v) (p : Placement clone new)
    (hsame : SameWorld v.system v'.system) (hkept : v'.kept = v.kept)
    (hinit : v'.system.accessor.initSuccessful = v.system.accessor.initSuccessful) :
    Copying clone new i v' :=
  { core := core_same h.core p hsame
    window := by rw [hsame.l1]; exact h.window
    initializing := hinit.trans h.initializing
    copied := by rw [hsame.mem, hkept]; exact h.copied
    pending := by rw [hsame.mem, hkept]; exact h.pending }

theorem exposed_same (h : Exposed clone new v) (p : Placement clone new)
    (hsame : SameWorld v.system v'.system) (hkept : v'.kept = v.kept)
    (hcloned : v'.system.accessor.clonedSRAMBlock = v.system.accessor.clonedSRAMBlock) :
    Exposed clone new v' :=
  { core := core_same h.core p hsame
    cloned := hcloned.trans h.cloned
    window := by rw [hsame.l1]; exact h.window
    content := by rw [hsame.mem, hkept]; exact h.content
    zero := by
      unfold ZeroMapped
      rw [hsame.l1]
      exact h.zero
    newMapped := by
      unfold NewMapped
      rw [hsame.l1]
      exact h.newMapped }

theorem restored_same (h : Restored v) (hsame : SameWorld v.system v'.system)
    (hkept : v'.kept = v.kept)
    (hinit : v'.system.accessor.initSuccessful = v.system.accessor.initSuccessful) :
    Restored v' :=
  { running := hsame.failure.trans h.running
    alive := hsame.editorAlive.trans h.alive
    initialized := hinit.trans h.initialized
    window := by rw [hsame.l1]; exact h.window
    content := by rw [hsame.mem, hkept]; exact h.content }

end Same

/-! ## What the operations do -/

section Operations

variable {s : System} (hrunning : s.failure = none)
include hrunning

theorem exec_setClonedBlock (block : Word) :
    s.exec (.setClonedBlock block) =
      { s with accessor := { s.accessor with clonedSRAMBlock := some block } } :=
  System.exec_of_running hrunning _

theorem exec_flushDataCacheRange (start stop : Word) :
    s.exec (.flushDataCacheRange start stop) = s :=
  System.exec_of_running hrunning _

theorem exec_drainWriteBuffer : s.exec .drainWriteBuffer = s :=
  System.exec_of_running hrunning _

theorem exec_setInitSuccessful :
    s.exec .setInitSuccessful =
      { s with accessor := { s.accessor with initSuccessful := true } } :=
  System.exec_of_running hrunning _

theorem exec_alignedFree (block : Word) :
    s.exec (.alignedFree block) =
      { s with accessor := { s.accessor with clonedSRAMBlock := none } } :=
  System.exec_of_running hrunning _

/-- Disabling interrupts masks them, if there is a callback. -/
theorem exec_disableInterrupts :
    ∃ calls, s.exec .disableInterrupts = { s with calls } ∧
      (s.accessor.disableInterrupts = true → calls.head? = some .disable) := by
  rw [System.exec_of_running hrunning, System.perform]
  split_ifs with h
  · exact ⟨.disable :: s.calls, rfl, fun _ => rfl⟩
  · exact ⟨s.calls, rfl, fun htrue => absurd htrue h⟩

theorem exec_enableInterrupts : ∃ calls, s.exec .enableInterrupts = { s with calls } := by
  rw [System.exec_of_running hrunning, System.perform]
  split_ifs
  · exact ⟨_, rfl⟩
  · exact ⟨s.calls, rfl⟩

variable (halive : s.editorAlive = true)
include halive

theorem exec_map (virtualAddr entry : Word) :
    s.exec (.map virtualAddr entry) =
      { s with l1 := Function.update s.l1 (l1IndexOf virtualAddr) entry } := by
  rw [System.exec_of_running hrunning, System.perform, System.map, if_pos halive]

theorem exec_mapSection (virtualAddr physicalAddr attributes : Word) :
    s.exec (.mapSection virtualAddr physicalAddr attributes) =
      { s with
        l1 := Function.update s.l1 (l1IndexOf virtualAddr)
          (sectionDescriptor physicalAddr attributes) } := by
  rw [System.exec_of_running hrunning, System.perform, System.mapSection, System.map,
    if_pos halive]

theorem exec_mapSectionInDomain (virtualAddr physicalAddr : Word) (ap : MMUAccessPermission)
    (cp : MMUCachePolicy) :
    s.exec (.mapSectionInDomain virtualAddr physicalAddr ap cp) =
      { s with
        l1 := Function.update s.l1 (l1IndexOf virtualAddr) (sectionDescriptor physicalAddr
          (sectionAttributes ap cp s.accessor.originalSRAMDomain)) } := by
  rw [System.exec_of_running hrunning, System.perform, System.mapSection, System.map,
    if_pos halive]

/-- The check passes on a window that is a section onto the SRAM. -/
theorem exec_checkIdentityMapped
    (hwindow : MapsSection (s.l1 (l1IndexOf sramPhysicalAddress)) sramPhysicalAddress.toNat) :
    s.exec .checkIdentityMapped =
      { s with
        accessor :=
          { s.accessor with
            originalSRAMDomain :=
              mmuDomainFromEntry (s.l1 (l1IndexOf sramPhysicalAddress)) } } := by
  obtain ⟨htype, hbase⟩ := hwindow
  have hentry : s.getEntry sramPhysicalAddress = s.l1 (l1IndexOf sramPhysicalAddress) :=
    if_pos halive
  have hpresent : s.l1 (l1IndexOf sramPhysicalAddress) ≠ 0xFFFFFFFF#32 := by
    intro h
    rw [h] at htype
    exact absurd htype (by decide)
  have haddress : mmuL1EntryMappedAddress (s.l1 (l1IndexOf sramPhysicalAddress)) =
      sramPhysicalAddress := by
    apply BitVec.eq_of_toNat_eq
    rw [mmuL1EntryMappedAddress_eq, Verified.BitFields.toNat_place _ _ (by omega), hbase]
  rw [System.exec_of_running hrunning]
  simp only [System.perform, hentry, if_neg hpresent, haddress, ne_eq, not_true_eq_false,
    if_false]

end Operations

theorem mapsSection_update_self {l1 : Nat → Word} {i base : Nat} {entry : Word}
    (h : MapsSection entry base) : MapsSection (Function.update l1 i entry i) base := by
  rwa [Function.update_self]

theorem mapsSection_update_of_ne {l1 : Nat → Word} {i j base : Nat} {entry : Word} (hne : j ≠ i)
    (h : MapsSection (l1 j) base) : MapsSection (Function.update l1 i entry j) base := by
  rwa [Function.update_of_ne hne]

/-! ## The constructor -/

/-- The constructor has copied `i` words and the object knows its block. -/
def Cloned (clone new : Word) (i : Nat) (v : View) : Prop :=
  Copying clone new i v ∧ v.system.accessor.clonedSRAMBlock = some clone

/-- The constructor has finished. -/
def SetUp (clone new : Word) (v : View) : Prop :=
  Exposed clone new v ∧ v.system.accessor.initSuccessful = true

/-- The destructor has finished. -/
def TornDown (v : View) : Prop :=
  Restored v ∧ v.system.accessor.clonedSRAMBlock = none

theorem stable_setUp {clone new : Word} (p : Placement clone new) {todo : List SRAMOp} :
    Stable View.access View.Permitted (SetUp clone new) todo :=
  stable_exposed p (.inl rfl)

theorem stable_tornDown {todo : List SRAMOp} :
    Stable View.access View.Permitted TornDown todo :=
  stable_restored (P := (· = none)) fun _ h => .inr h

/-- No access by others reaches the object. -/
theorem accessor_access (v : View) (todo : List SRAMOp) (a : Access) :
    (v.access todo a).system.accessor = v.system.accessor := by
  have hstore : ∀ va value, (v.system.store va value).accessor = v.system.accessor := by
    intro va value
    unfold System.store
    split <;> rfl
  cases a with
  | os w o value => exact hstore _ _
  | user o value => exact hstore _ _

theorem stable_cloned {clone new : Word} {i : Nat} {todo : List SRAMOp}
    (h : Stable View.access View.Permitted (Copying clone new i) todo) :
    Stable View.access View.Permitted (Cloned clone new i) todo :=
  fun v a ha hv => ⟨h v a ha hv.1, by rw [accessor_access]; exact hv.2⟩

theorem copyPending_setClonedBlock (block : Word) (todo : List SRAMOp) (o : Nat) :
    copyPending (.setClonedBlock block :: todo) o = copyPending todo o := by
  simp [copyPending]

theorem copyPending_of_nocopy {todo : List SRAMOp} {o : Nat}
    (h : ∀ dst src, SRAMOp.copyWord dst src ∉ todo) : copyPending todo o = false := by
  rw [copyPending, List.any_eq_false]
  intro op hop
  cases op with
  | copyWord dst src => exact absurd hop (h dst src)
  | _ => simp

section Constructor

variable {clone new : Word} (p : Placement clone new)
include p

/-- The entry of a megabyte that is not the clone's may be replaced. -/
theorem cloneMapped_update {s : System} (h : CloneMapped s clone) {i : Nat}
    (hi : l1IndexOf clone ≠ i) (entry : Word) :
    CloneMapped { s with l1 := Function.update s.l1 i entry } clone :=
  h.congr p.cloneAligned (Function.update_of_ne hi _ _) fun _ _ _ => rfl

/-- One word is copied to the clone. -/
theorem copying_step {i : Nat} (hi : i < sramSize / 4) {v : View} (h : Copying clone new i v) :
    Copying clone new (i + 1) (v.exec (copyOp clone sramPhysicalAddress i)) := by
  have hsize : sramSize = 262144 := rfl
  have happ := p.before_or_after
  obtain ⟨t, hsrc, ht⟩ := walk_section h.window sramAligned (show 4 * i < 2 ^ 20 by omega)
  obtain ⟨u, hdst, hu⟩ := h.core.cloneMapped.identity (4 * i) (by omega)
  have hmem : ∀ x, (v.exec (copyOp clone sramPhysicalAddress i)).system.mem x =
      if clone.toNat + 4 * i ≤ x ∧ x < clone.toNat + 4 * i + 4 then
        v.system.mem (sramPhysicalAddress.toNat + 4 * i + (x - (clone.toNat + 4 * i)))
      else v.system.mem x := by
    intro x
    rw [← writeWord_readWord, ← ht, ← hu]
    exact congrFun (congrArg System.mem (exec_copyWord h.core.running hsrc hdst)) x
  have hstep := exec_copyWord h.core.running hsrc hdst
  have hexec : v.exec (copyOp clone sramPhysicalAddress i) = { v with
      system := { v.system with
        mem :=
          writeWord v.system.mem u.physical.toNat (readWord v.system.mem t.physical.toNat) } } :=
    congrArg (fun s => View.mk s v.kept) hstep
  rw [hexec] at hmem ⊢
  refine
    { core :=
        { running := h.core.running
          alive := h.core.alive
          newAddress := h.core.newAddress
          cloneMapped := h.core.cloneMapped.congr p.cloneAligned rfl fun a _ hclone => ?_ }
      window := h.window
      initializing := h.initializing
      copied := fun o ho hlt => ?_
      pending := fun o ho hle => ?_ }
  · simp only [Block.Holds, cloneBlock] at hclone
    refine (hmem a).trans (if_neg ?_)
    omega
  · apply (hmem _).trans
    split_ifs with hin
    · -- a byte of the word just copied
      have hsum : sramPhysicalAddress.toNat + 4 * i + (clone.toNat + o - (clone.toNat + 4 * i)) =
          sramPhysicalAddress.toNat + o := by omega
      rw [hsum]
      exact h.pending o ho (by omega)
    · exact h.copied o ho (by omega)
  · refine (hmem _).trans ((if_neg ?_).trans (h.pending o ho (by omega)))
    omega

/-- The window is turned to the clone. -/
theorem relocate_window {v : View} (h : Copying clone new (sramSize / 4) v)
    (hcloned : v.system.accessor.clonedSRAMBlock = some clone) (ap : MMUAccessPermission)
    (cp : MMUCachePolicy) :
    Relocated clone new
      (v.exec (.mapSectionInDomain sramPhysicalAddress clone ap cp)) := by
  have hsize : sramSize = 262144 := rfl
  rw [View.exec, exec_mapSectionInDomain h.core.running h.core.alive]
  exact
    { core :=
        { running := h.core.running
          alive := h.core.alive
          newAddress := h.core.newAddress
          cloneMapped := cloneMapped_update p h.core.cloneMapped p.cloneNotSram _ }
      cloned := hcloned
      window := mapsSection_update_self (mapsSection_descriptor p.cloneAligned _ _ _)
      content := fun o ho => h.copied o ho (by omega) }

/-- The window at zero follows. -/
theorem relocate_zero {v : View} (h : Relocated clone new v) (ap : MMUAccessPermission)
    (cp : MMUCachePolicy) :
    Relocated clone new (v.exec (.mapSectionInDomain 0x00000000#32 clone ap cp)) ∧
      MapsSection ((v.exec (.mapSectionInDomain 0x00000000#32 clone ap cp)).system.l1
        (l1IndexOf Window.zero.base)) clone.toNat := by
  rw [View.exec, exec_mapSectionInDomain h.core.running h.core.alive]
  refine ⟨?_, ?_⟩
  · exact
      { core :=
          { running := h.core.running
            alive := h.core.alive
            newAddress := h.core.newAddress
            cloneMapped := cloneMapped_update p h.core.cloneMapped p.cloneNotZero _ }
        cloned := h.cloned
        window := mapsSection_update_of_ne (by decide) h.window
        content := h.content }
  · exact mapsSection_update_self (mapsSection_descriptor p.cloneAligned _ _ _)

/-- The SRAM appears at the new address. -/
theorem expose_new {v : View} (h : Relocated clone new v)
    (hzero : MapsSection (v.system.l1 (l1IndexOf Window.zero.base)) clone.toNat)
    (ap : MMUAccessPermission) (cp : MMUCachePolicy) (domain : Byte) :
    Exposed clone new
      (v.exec (.mapSection new sramPhysicalAddress (sectionAttributes ap cp domain))) := by
  rw [View.exec, exec_mapSection h.core.running h.core.alive]
  exact
    { core :=
        { running := h.core.running
          alive := h.core.alive
          newAddress := h.core.newAddress
          cloneMapped := cloneMapped_update p h.core.cloneMapped p.newNotClone.symm _ }
      cloned := h.cloned
      window := mapsSection_update_of_ne p.newNotSram.symm h.window
      content := h.content
      zero := fun hne => mapsSection_update_of_ne hne.symm hzero
      newMapped := mapsSection_update_self (mapsSection_descriptor sramAligned _ _ _) }

/-- Before the windows move: nothing is pending, nothing is lost but handler
writes. -/
theorem stable_copied {todo : List SRAMOp} (hdisable : SRAMOp.disableInterrupts ∈ todo)
    (hnocopy : ∀ dst src, SRAMOp.copyWord dst src ∉ todo) :
    Stable View.access View.Permitted (Cloned clone new (sramSize / 4)) todo := by
  have hsize : sramSize = 262144 := rfl
  refine stable_cloned (stable_copying p hdisable fun o ho => ?_)
  rw [copyPending_of_nocopy hnocopy]
  simp only [Bool.false_eq_true, false_iff]
  omega

/-- The outline of the constructor. -/
theorem construct_outline (ap : MMUAccessPermission) (cp : MMUCachePolicy) (domain : Byte) :
    Outline View.exec View.access View.Permitted (Copying clone new 0)
      (construct new ap cp domain (some clone)) (SetUp clone new) := by
  have hnocopy : ∀ dst src, SRAMOp.copyWord dst src ∉ remap new clone ap cp domain := by
    simp [remap]
  have hdisable : SRAMOp.disableInterrupts ∈ remap new clone ap cp domain := by simp [remap]
  have hloop : ∀ i, i ≤ sramSize / 4 → ∀ o, o < sramSize →
      (copyPending ((List.range' i (sramSize / 4 - i)).map (copyOp clone sramPhysicalAddress) ++
        remap new clone ap cp domain) o = true ↔ 4 * i ≤ o) :=
    fun i hi o ho => copyPending_iff ho hi hnocopy
  rw [construct]
  -- the object records its block
  refine .cons (stable_copying p (by simp [remap]) fun o ho => ?_)
    (fun v h => ?_) ?_ (Q := Cloned clone new 0)
  · have hzero := hloop 0 (Nat.zero_le _) o ho
    rw [Nat.sub_zero] at hzero
    rw [memcpy_eq, copyPending_setClonedBlock]
    exact hzero
  · rw [View.exec, exec_setClonedBlock h.core.running]
    exact ⟨copying_same h p ⟨rfl, rfl, rfl, rfl, rfl⟩ rfl rfl, rfl⟩
  -- the copy
  rw [memcpy_eq]
  refine .loop (I := Cloned clone new) (sramSize / 4) 0 (fun i _ hi => ⟨?_, fun v h => ?_⟩) ?_
  · rw [Nat.zero_add]
    exact stable_cloned (stable_copying p (List.mem_append_right _ hdisable)
      (hloop i (by omega)))
  · have hstep := copying_step p (by omega) h.1
    refine ⟨hstep, ?_⟩
    obtain ⟨t, hsrc, -⟩ := walk_section h.1.window sramAligned
      (show 4 * i < 2 ^ 20 by have hsize : sramSize = 262144 := rfl; omega)
    obtain ⟨u, hdst, -⟩ := h.1.core.cloneMapped.identity (4 * i)
      (by have hsize : sramSize = 262144 := rfl; omega)
    rw [View.exec, copyOp, exec_copyWord h.1.core.running hsrc hdst]
    exact h.2
  rw [Nat.zero_add]
  -- flush, drain, check
  refine .cons (stable_copied p hdisable hnocopy) (Q := Cloned clone new (sramSize / 4))
    (fun v h => ?_) ?_
  · rwa [View.exec, exec_flushDataCacheRange h.1.core.running]
  refine .cons (stable_copied p (by simp) (by simp)) (Q := Cloned clone new (sramSize / 4))
    (fun v h => ?_) ?_
  · rwa [View.exec, exec_drainWriteBuffer h.1.core.running]
  refine .cons (stable_copied p (by simp) (by simp)) (Q := Cloned clone new (sramSize / 4))
    (fun v h => ?_) ?_
  · rw [View.exec, exec_checkIdentityMapped h.1.core.running h.1.core.alive h.1.window]
    exact ⟨copying_same h.1 p ⟨rfl, rfl, rfl, rfl, rfl⟩ rfl rfl, h.2⟩
  -- no handler from here on
  refine .cons (stable_copied p (by simp) (by simp))
    (Q := fun v => Cloned clone new (sramSize / 4) v ∧ Masked v) (fun v h => ?_) ?_
  · obtain ⟨calls, hexec, hhead⟩ := exec_disableInterrupts h.1.core.running
    rw [View.exec, hexec]
    exact ⟨⟨copying_same h.1 p ⟨rfl, rfl, rfl, rfl, rfl⟩ rfl rfl, h.2⟩,
      fun hcallbacks => by simp [System.masked, hhead hcallbacks.1]⟩
  -- the three sections
  refine .cons (stable_of_masked fun v h => h.2)
    (Q := fun v => Relocated clone new v ∧ Masked v ∧
      v.system.accessor.initSuccessful = false) (fun v h => ?_) ?_
  · refine ⟨relocate_window p h.1.1 h.1.2 _ _, ?_⟩
    rw [View.exec, exec_mapSectionInDomain h.1.1.core.running h.1.1.core.alive]
    exact ⟨h.2, h.1.1.initializing⟩
  refine .cons (stable_of_masked fun v h => h.2.1)
    (Q := fun v => Relocated clone new v ∧
      MapsSection (v.system.l1 (l1IndexOf Window.zero.base)) clone.toNat ∧ Masked v ∧
      v.system.accessor.initSuccessful = false) (fun v h => ?_) ?_
  · obtain ⟨hrelocated, hzero⟩ := relocate_zero p h.1 .fullAccess .nonCachedNonBuffered
    refine ⟨hrelocated, hzero, ?_⟩
    rw [View.exec, exec_mapSectionInDomain h.1.core.running h.1.core.alive]
    exact h.2
  refine .cons (stable_of_masked fun v h => h.2.2.1)
    (Q := fun v => Exposed clone new v ∧ Masked v ∧
      v.system.accessor.initSuccessful = false) (fun v h => ?_) ?_
  · refine ⟨expose_new p h.1 h.2.1 ap cp domain, ?_⟩
    rw [View.exec, exec_mapSection h.1.core.running h.1.core.alive]
    exact h.2.2
  -- handlers may run again, through the new windows
  refine .cons (stable_of_masked fun v h => h.2.1)
    (Q := fun v => Exposed clone new v ∧ v.system.accessor.initSuccessful = false)
    (fun v h => ?_) ?_
  · obtain ⟨calls, hexec⟩ := exec_enableInterrupts h.1.core.running
    rw [View.exec, hexec]
    exact ⟨exposed_same h.1 p ⟨rfl, rfl, rfl, rfl, rfl⟩ rfl rfl, h.2.2⟩
  refine .cons (stable_exposed p (.inr (by simp))) (fun v h => ?_)
    (.done (stable_setUp p))
  rw [View.exec, exec_setInitSuccessful h.1.core.running]
  exact ⟨exposed_same h.1 p ⟨rfl, rfl, rfl, rfl, rfl⟩ rfl rfl, rfl⟩

end Constructor

/-! ## The destructor -/

/-- The destructor has copied `i` words back. -/
structure CopyingBack (clone new : Word) (i : Nat) (v : View) : Prop where
  exposed : Exposed clone new v
  masked : Masked v
  initialized : v.system.accessor.initSuccessful = true
  copied : ∀ o, o < sramSize → o < 4 * i →
    v.system.mem (sramPhysicalAddress.toNat + o) = v.kept o

section Destructor

variable {clone new : Word} (p : Placement clone new)
include p

/-- One word is copied back, through the new address. -/
theorem copyBack_step {i : Nat} (hi : i < sramSize / 4) {v : View} (h : CopyingBack clone new i v) :
    CopyingBack clone new (i + 1) (v.exec (copyOp new clone i)) := by
  have hsize : sramSize = 262144 := rfl
  have happ := p.before_or_after
  obtain ⟨t, hsrc, ht⟩ := h.exposed.core.cloneMapped.identity (4 * i) (by omega)
  obtain ⟨u, hdst, hu⟩ := walk_section h.exposed.newMapped p.newAligned
    (show 4 * i < 2 ^ 20 by omega)
  have hexec : v.exec (copyOp new clone i) = { v with
      system := { v.system with
        mem := writeWord v.system.mem (sramPhysicalAddress.toNat + 4 * i)
          (readWord v.system.mem (clone.toNat + 4 * i)) } } := by
    rw [View.exec, copyOp, exec_copyWord h.exposed.core.running hsrc hdst, ht, hu]
  have hmem := writeWord_readWord v.system.mem (sramPhysicalAddress.toNat + 4 * i)
    (clone.toNat + 4 * i)
  rw [hexec]
  refine
    { exposed :=
        { core :=
            { running := h.exposed.core.running
              alive := h.exposed.core.alive
              newAddress := h.exposed.core.newAddress
              cloneMapped :=
                h.exposed.core.cloneMapped.congr p.cloneAligned rfl fun a hsram _ => ?_ }
          cloned := h.exposed.cloned
          window := h.exposed.window
          content := fun o ho => ?_
          zero := h.exposed.zero
          newMapped := h.exposed.newMapped }
      masked := h.masked
      initialized := h.initialized
      copied := fun o ho hlt => ?_ }
  · simp only [Block.Holds, sramBlock] at hsram
    exact (hmem a).trans (if_neg (by omega))
  · exact (hmem _).trans ((if_neg (by omega)).trans (h.exposed.content o ho))
  · apply (hmem _).trans
    split_ifs with hin
    · have hsum : clone.toNat + 4 * i + (sramPhysicalAddress.toNat + o -
          (sramPhysicalAddress.toNat + 4 * i)) = clone.toNat + o := by omega
      rw [hsum]
      exact h.exposed.content o ho
    · exact h.copied o ho (by omega)

/-- The outline of the destructor. -/
theorem destroy_outline :
    Outline View.exec View.access View.Permitted (SetUp clone new)
      (.disableInterrupts :: (memcpy new clone sramSize ++ restore new clone)) TornDown := by
  -- no handler from the first step on
  refine .cons (stable_setUp p) (Q := CopyingBack clone new 0) (fun v h => ?_) ?_
  · obtain ⟨calls, hexec, hhead⟩ := exec_disableInterrupts h.1.core.running
    rw [View.exec, hexec]
    exact
      { exposed := exposed_same h.1 p ⟨rfl, rfl, rfl, rfl, rfl⟩ rfl rfl
        masked := fun hcallbacks => by simp [System.masked, hhead hcallbacks.1]
        initialized := h.2
        copied := fun o _ hlt => absurd hlt (by omega) }
  rw [memcpy_eq]
  refine .loop (I := CopyingBack clone new) (sramSize / 4) 0 (fun i _ hi => ⟨?_, fun v h => ?_⟩) ?_
  · rw [Nat.zero_add, restore]
    have hlen : sramSize / 4 - i = sramSize / 4 - i - 1 + 1 := by omega
    rw [hlen, List.range'_succ]
    exact stable_of_masked fun v h => h.masked
  · exact copyBack_step p (by omega) h
  rw [Nat.zero_add]
  refine .cons (stable_of_masked fun v h => h.masked) (Q := CopyingBack clone new (sramSize / 4))
    (fun v h => ?_) ?_
  · rwa [View.exec, exec_flushDataCacheRange h.exposed.core.running]
  refine .cons (stable_of_masked fun v h => h.masked) (Q := CopyingBack clone new (sramSize / 4))
    (fun v h => ?_) ?_
  · rwa [View.exec, exec_drainWriteBuffer h.exposed.core.running]
  -- the window is turned back, the new address unmapped
  refine .cons (stable_of_masked fun v h => h.masked) (Q := fun v => Restored v ∧ Masked v)
    (fun v h => ?_) ?_
  · rw [View.exec, exec_mapSectionInDomain h.exposed.core.running h.exposed.core.alive]
    exact
      ⟨{ running := h.exposed.core.running
         alive := h.exposed.core.alive
         initialized := h.initialized
         window := mapsSection_update_self (mapsSection_descriptor sramAligned _ _ _)
         content := fun o ho => h.copied o ho (by have hsize : sramSize = 262144 := rfl; omega) },
        h.masked⟩
  refine .cons (stable_of_masked fun v h => h.2) (Q := fun v => Restored v ∧ Masked v)
    (fun v h => ?_) ?_
  · rw [View.exec, exec_map h.1.running h.1.alive]
    exact
      ⟨{ running := h.1.running
         alive := h.1.alive
         initialized := h.1.initialized
         window := mapsSection_update_of_ne p.newNotSram.symm h.1.window
         content := h.1.content },
        h.2⟩
  refine .cons (stable_of_masked fun v h => h.2) (Q := fun v => Restored v ∧ True)
    (fun v h => ?_) ?_
  · obtain ⟨calls, hexec⟩ := exec_enableInterrupts h.1.running
    rw [View.exec, hexec]
    exact ⟨restored_same h.1 ⟨rfl, rfl, rfl, rfl, rfl⟩ rfl rfl, trivial⟩
  refine .cons (stable_restored (P := fun _ => True) fun _ _ => .inl (by simp)) (fun v h => ?_)
    (.done stable_tornDown)
  rw [View.exec, exec_alignedFree h.1.running]
  exact ⟨restored_same h.1 ⟨rfl, rfl, rfl, rfl, rfl⟩ rfl rfl, rfl⟩

/-- On an object that is set up the destructor follows its outline. -/
theorem at_destroy {v : View} (h : SetUp clone new v) :
    At View.exec View.access View.Permitted TornDown v (destroy v.system.accessor) := by
  refine ⟨SetUp clone new, h, ?_⟩
  simp only [destroy, h.1.cloned, h.2, if_true, h.1.core.newAddress]
  exact destroy_outline p

end Destructor

/-- On an empty object it does nothing. -/
theorem at_destroy_empty {v : View} (h : TornDown v) :
    At View.exec View.access View.Permitted TornDown v (destroy v.system.accessor) := by
  refine ⟨TornDown, h, ?_⟩
  simp only [destroy, h.2]
  exact .done stable_tornDown

/-! ## Any interleaving -/

/-- What holds when the constructor is called. -/
structure Ready (s : System) (clone : Word) : Prop where
  running : s.failure = none
  alive : s.editorAlive = true
  initializing : s.accessor.initSuccessful = false
  placement : Placement clone s.accessor.newSRAMAddress
  cloneMapped : CloneMapped s clone
  window : MapsSection (s.l1 (l1IndexOf sramPhysicalAddress)) sramPhysicalAddress.toNat

/-- The constructor is called: the OS expects what the SRAM holds. -/
def start (s : System) (ap : MMUAccessPermission) (cp : MMUCachePolicy) (domain : Byte)
    (clone : Word) : Config :=
  { view := { system := s, kept := fun o => s.mem (sramPhysicalAddress.toNat + o) }
    todo := construct s.accessor.newSRAMAddress ap cp domain (some clone) }

/-- The configuration is on one of the two outlines. -/
def OnOutline (clone new : Word) (c : Config) : Prop :=
  At View.exec View.access View.Permitted (SetUp clone new) c.view c.todo ∨
    At View.exec View.access View.Permitted TornDown c.view c.todo

theorem at_construct {s : System} {clone : Word} (h : Ready s clone) (ap : MMUAccessPermission)
    (cp : MMUCachePolicy) (domain : Byte) :
    At View.exec View.access View.Permitted (SetUp clone s.accessor.newSRAMAddress)
      (start s ap cp domain clone).view (start s ap cp domain clone).todo := by
  refine ⟨_, ?_, construct_outline h.placement ap cp domain⟩
  exact
    { core := ⟨h.running, h.alive, rfl, h.cloneMapped⟩
      window := h.window
      initializing := h.initializing
      copied := fun o _ hlt => absurd hlt (by omega)
      pending := fun o _ _ => rfl }

theorem onOutline_step {clone new : Word} (p : Placement clone new) (c : Config) (e : Event)
    (hlegal : c.Legal e) (h : OnOutline clone new c) : OnOutline clone new (c.step e) := by
  obtain ⟨v, todo⟩ := c
  cases e with
  | program =>
      cases todo with
      | nil => exact h
      | cons op rest => exact h.imp At.program_step At.program_step
  | access a => exact h.imp (At.environment_step hlegal) (At.environment_step hlegal)
  | destroy =>
      obtain rfl : todo = [] := hlegal
      rcases h with hexposed | hrestored
      · exact .inr (at_destroy p hexposed.done)
      · exact .inr (at_destroy_empty hrestored.done)

theorem onOutline_run {s : System} {clone : Word} (h : Ready s clone) (ap : MMUAccessPermission)
    (cp : MMUCachePolicy) (domain : Byte) (es : List Event)
    (hallowed : Allowed Config.step Config.Legal (start s ap cp domain clone) es) :
    OnOutline clone s.accessor.newSRAMAddress
      (run Config.step (start s ap cp domain clone) es) :=
  run_invariant Config.step Config.Legal (onOutline_step h.placement) es _ hallowed
    (.inl (at_construct h ap cp domain))

/-- Whatever is interleaved, whenever no call is running the OS's window reads
what was kept, and nothing has failed. -/
theorem window_run {s : System} {clone : Word} (h : Ready s clone) (ap : MMUAccessPermission)
    (cp : MMUCachePolicy) (domain : Byte) (es : List Event)
    (hallowed : Allowed Config.step Config.Legal (start s ap cp domain clone) es)
    (hidle : (run Config.step (start s ap cp domain clone) es).todo = []) :
    let c := run Config.step (start s ap cp domain clone) es
    c.view.system.failure = none ∧ ∀ o, o < sramSize →
      c.view.system.load (sramPhysicalAddress + BitVec.ofNat 32 o) = some (c.view.kept o) := by
  intro c
  have hon : OnOutline clone s.accessor.newSRAMAddress c := onOutline_run h ap cp domain es hallowed
  rw [OnOutline, show c.todo = [] from hidle] at hon
  rcases hon with hexposed | hrestored
  · obtain ⟨hv, -⟩ := hexposed.done
    refine ⟨hv.core.running, fun o ho => ?_⟩
    rw [load_section hv.window sramAligned (Nat.lt_trans ho sramSize_lt), hv.content o ho]
  · obtain ⟨hv, -⟩ := hrestored.done
    refine ⟨hv.running, fun o ho => ?_⟩
    rw [load_section hv.window sramAligned (Nat.lt_trans ho sramSize_lt), hv.content o ho]

/-! ## Undisturbed calls -/

/-- The running call comes to its end undisturbed. -/
def finish (c : Config) : Config :=
  run Config.step c (List.replicate c.todo.length .program)

theorem run_program (n : Nat) :
    ∀ c : Config, (run Config.step c (List.replicate n .program)).todo = c.todo.drop n ∧
      (run Config.step c (List.replicate n .program)).view.kept = c.view.kept := by
  induction n with
  | zero => intro c; exact ⟨rfl, rfl⟩
  | succ n ih =>
      intro c
      obtain ⟨v, todo⟩ := c
      rw [List.replicate_succ, run_cons]
      obtain ⟨htodo, hkept⟩ := ih (Config.step ⟨v, todo⟩ .program)
      rw [htodo, hkept]
      cases todo with
      | nil => exact ⟨by simp [Config.step], rfl⟩
      | cons op rest => exact ⟨rfl, rfl⟩

theorem allowed_program (n : Nat) :
    ∀ c : Config, Allowed Config.step Config.Legal c (List.replicate n .program) := by
  induction n with
  | zero => intro c; trivial
  | succ n ih => intro c; exact ⟨trivial, ih _⟩

/-- An undisturbed call stays on its outline. -/
theorem at_program {R : View → Prop} (n : Nat) :
    ∀ c : Config, At View.exec View.access View.Permitted R c.view c.todo →
      At View.exec View.access View.Permitted R
        (run Config.step c (List.replicate n .program)).view
        (run Config.step c (List.replicate n .program)).todo := by
  induction n with
  | zero => intro c h; exact h
  | succ n ih =>
      intro c h
      obtain ⟨v, todo⟩ := c
      apply ih _
      cases todo with
      | nil => exact h
      | cons op rest => exact h.program_step

@[simp] theorem finish_todo (c : Config) : (finish c).todo = [] := by
  rw [finish, (run_program _ c).1, List.drop_length]

@[simp] theorem finish_kept (c : Config) : (finish c).view.kept = c.view.kept :=
  (run_program _ c).2

/-- At its end the call's last assertion holds. -/
theorem finish_done {R : View → Prop} {c : Config}
    (h : At View.exec View.access View.Permitted R c.view c.todo) : R (finish c).view := by
  have hat := at_program c.todo.length c h
  rw [← finish, finish_todo] at hat
  exact hat.done

/-- The constructor, undisturbed. -/
theorem setUp_finish {s : System} {clone : Word} (h : Ready s clone) (ap : MMUAccessPermission)
    (cp : MMUCachePolicy) (domain : Byte) :
    SetUp clone s.accessor.newSRAMAddress (finish (start s ap cp domain clone)).view :=
  finish_done (at_construct h ap cp domain)

/-- The destructor, undisturbed. -/
theorem tornDown_finish {clone new : Word} (p : Placement clone new) {c : Config}
    (h : SetUp clone new c.view) : TornDown (finish (c.step .destroy)).view :=
  finish_done (at_destroy p h)

/-! ## The last value written -/

/-- The step is a write of the OS to the offset. -/
def OsWrites : Event → Nat → Prop
  | .access (.os _ offset _), o => offset = o
  | _, _ => False

instance (e : Event) (o : Nat) : Decidable (OsWrites e o) := by
  unfold OsWrites
  split <;> infer_instance

/-- The value an access stores. -/
def valueOf : Event → Byte
  | .access (.os _ _ value) => value
  | .access (.user _ value) => value
  | _ => 0

/-- What the OS last wrote to the offset, or what the SRAM held at first. -/
def mostRecent (s : System) (es : List Event) (o : Nat) : Byte :=
  ((lastCovering OsWrites es o).map valueOf).getD (s.mem (sramPhysicalAddress.toNat + o))

/-- The step is not a write that the constructor loses. -/
def NotLost (c : Config) : Event → Prop
  | .access (.os _ offset _) => ¬ Lost c.view.system c.todo offset
  | _ => True

/-- If no write is lost, what is kept is what was written. -/
theorem kept_run (es : List Event) (c : Config) (o : Nat)
    (hallowed : Allowed Config.step NotLost c es) :
    (run Config.step c es).view.kept o =
      ((lastCovering OsWrites es o).map valueOf).getD (c.view.kept o) := by
  have hinv : ∀ c e, NotLost c e → True → True := fun _ _ _ h => h
  refine observe_run Config.step NotLost OsWrites (fun c o => c.view.kept o)
    (fun e _ => valueOf e) hinv
    (fun c e o hok _ => ?_) es c o hallowed trivial
  cases e with
  | program =>
      obtain ⟨v, todo⟩ := c
      cases todo <;> simp [OsWrites, Config.step, View.exec]
  | destroy => simp [OsWrites, Config.step]
  | access a =>
      cases a with
      | user offset value => simp [OsWrites, Config.step, View.access]
      | os w offset value =>
          simp only [Config.step, View.access, if_neg hok, OsWrites, valueOf,
            Function.update_apply, eq_comm]

/-! ## A concrete system -/

/-- Zeroed memory, the entries of the two windows as given, the heap block at
`0x10000000` identity mapped, and an accessor for `0x20000000`. -/
def bootSystem (zero sram : Word) (callbacks : Bool) : System :=
  { mem := fun _ => 0
    l1 := fun i =>
      if i = 0 then zero else if i = 0xA40 then sram
      else if i = 0x100 then 0x10000C02#32 else 0#32
    editorAlive := true
    accessor :=
      { newSRAMAddress := 0x20000000#32
        disableInterrupts := callbacks
        enableInterrupts := callbacks }
    calls := []
    failure := none }

theorem ready_bootSystem {zero sram : Word} {callbacks : Bool}
    (hsram : MapsSection sram sramPhysicalAddress.toNat) :
    Ready (bootSystem zero sram callbacks) 0x10000000#32 := by
  have hentry : (bootSystem zero sram callbacks).l1 (l1IndexOf 0x10000000#32) = 0x10000C02#32 := rfl
  have hclone : MapsSection ((bootSystem zero sram callbacks).l1 (l1IndexOf 0x10000000#32))
      0x10000000 := ⟨by rw [hentry]; decide, by rw [hentry]; decide⟩
  refine
    { running := rfl
      alive := rfl
      initializing := rfl
      placement :=
        { cloneAligned := by decide
          cloneNonNull := by decide
          cloneApart := Block.apart_of_le (.inl (by decide))
          newAligned := show 2 ^ 20 ∣ (0x20000000#32).toNat by decide
          newNotSram := show l1IndexOf 0x20000000#32 ≠ _ by decide
          newNotClone := show l1IndexOf 0x20000000#32 ≠ _ by decide }
      cloneMapped := ⟨fun o ho => ?_, fun b hb => ?_⟩
      window := hsram }
  · exact walk_section hclone (by decide) (Nat.lt_trans ho sramSize_lt)
  · have hnone : secondLevel 0x10000C02#32 = none := by decide
    rw [hentry, hnone] at hb
    simp at hb

end NspireUtils.Ports.SRAMLifetime
