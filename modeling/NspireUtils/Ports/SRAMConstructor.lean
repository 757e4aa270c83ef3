import NspireUtils.Ports.SRAMRestore

/-!
# How the constructor ends

The constructor copies the SRAM through `0xA4000000` before it looks at the
descriptor of that address, and of the descriptor it only looks at the top
twelve bits.  So a page table that lies in the SRAM's own megabyte is taken for
an identity mapping, one that lies elsewhere is not, whatever its pages say, and
a window that is not mapped ends the copy in a data abort.  `throws_iff` says
which calls throw; `decides_iff` for which tables that is the test the header
promises.

The block is allocated before all this, and freed by the destructor, which does
not run for an object whose constructor throws: `unwound_iff`.
-/

namespace NspireUtils.Ports.SRAMConstructor

open NspireUtils.Verified.BitFields
open NspireUtils.Verified.ByteMemory
open NspireUtils.Verified.ShortDescriptor
open NspireUtils.Ports.MMUDescriptors
open NspireUtils.Ports.TableEditors
open NspireUtils.Ports.SRAMAccessor
open NspireUtils.Ports.SRAMRelocation
open NspireUtils.Ports.SRAMLifetime
open NspireUtils.Ports.SRAMRestore

/-! ## What the constructor meets -/

/-- The second-level table of the entry, if it has one, does not lie in the
block. -/
def Spares (s : System) (clone : Word) (i : Nat) : Prop :=
  ∀ b, secondLevel (s.l1 i) = some b → b.Apart (cloneBlock clone)

/-- An entry without a second-level table spares every block. -/
theorem spares_of_none {s : System} {clone : Word} {i : Nat} (h : secondLevel (s.l1 i) = none) :
    Spares s clone i := by
  intro b hb
  rw [h] at hb
  simp at hb

/-- What `aligned_alloc` promises: the block is aligned, it is reached at its own
address, and the table it is reached through is not in it. -/
structure Allocated (s : System) (clone : Word) : Prop where
  aligned : 2 ^ 20 ∣ clone.toNat
  reached : ∀ o, o < sramSize → ∃ t, s.walk (clone + BitVec.ofNat 32 o) = .mapped t ∧
    t.physical.toNat = clone.toNat + o
  spared : Spares s clone (l1IndexOf clone)

/-- Word `i` of the SRAM's window is mapped. -/
def WordMapped (s : System) (i : Nat) : Prop :=
  ∃ t, s.walk (sramPhysicalAddress + BitVec.ofNat 32 (4 * i)) = .mapped t

/-- All words of the SRAM's window are mapped. -/
def WindowMapped (s : System) : Prop := ∀ i, i < sramSize / 4 → WordMapped s i

/-- Every address of the SRAM's window translates to itself. -/
def IdentityMapped (s : System) : Prop :=
  ∀ o, o < sramSize → ∃ t, s.walk (sramPhysicalAddress + BitVec.ofNat 32 o) = .mapped t ∧
    t.physical.toNat = sramPhysicalAddress.toNat + o

/-- The test the constructor makes on the SRAM's entry. -/
def TestPasses (s : System) : Prop :=
  s.getEntry sramPhysicalAddress ≠ 0xFFFFFFFF#32 ∧
    mmuL1EntryMappedAddress (s.getEntry sramPhysicalAddress) = sramPhysicalAddress

instance (s : System) : Decidable (TestPasses s) := by
  unfold TestPasses
  infer_instance

/-! ## The copy -/

section Copy

variable {s : System} {clone : Word} {mem : Memory}
  (hagree : ∀ a, ¬ (cloneBlock clone).Holds a → mem a = s.mem a)
include hagree

/-- Writes to the block do not change a walk through tables outside it. -/
theorem walk_congr {va : Word} (hspares : Spares s clone (l1IndexOf va)) :
    { s with mem }.walk va = s.walk va :=
  walkEntry_congr fun b hb a ha => hagree a (hspares b hb a ha)

theorem wordMapped_congr (hspares : Spares s clone (l1IndexOf sramPhysicalAddress)) {i : Nat}
    (hi : i < sramSize / 4) : WordMapped { s with mem } i ↔ WordMapped s i := by
  have hsize : sramSize = 262144 := rfl
  have hindex := l1IndexOf_offset sramAligned (show 4 * i < 2 ^ 20 by omega)
  rw [WordMapped, WordMapped, walk_congr hagree (by rwa [hindex])]

/-- One word is copied into the block, if it is mapped. -/
theorem exec_copyOp (hrunning : s.failure = none) (hclone : Allocated s clone)
    (hspares : Spares s clone (l1IndexOf sramPhysicalAddress)) {i : Nat} (hi : i < sramSize / 4)
    (hmapped : WordMapped s i) :
    ∃ mem', { s with mem }.exec (copyOp clone sramPhysicalAddress i) = { s with mem := mem' } ∧
      ∀ a, ¬ (cloneBlock clone).Holds a → mem' a = s.mem a := by
  have hsize : sramSize = 262144 := rfl
  obtain ⟨t, hsrc⟩ := (wordMapped_congr hagree hspares hi).mpr hmapped
  obtain ⟨u, hdst, hu⟩ := hclone.reached (4 * i) (by omega)
  have hindex := l1IndexOf_offset hclone.aligned (show 4 * i < 2 ^ 20 by omega)
  rw [← walk_congr hagree (by rw [hindex]; exact hclone.spared)] at hdst
  refine ⟨_, exec_copyWord (s := { s with mem }) hrunning hsrc hdst, fun a ha => ?_⟩
  simp only [Block.Holds, cloneBlock] at ha
  rw [writeWord_of_outside _ _ _ (by omega)]
  exact hagree a ha

/-- At a word that is not mapped the copy ends. -/
theorem exec_copyOp_abort (hrunning : s.failure = none)
    (hspares : Spares s clone (l1IndexOf sramPhysicalAddress)) {i : Nat} (hi : i < sramSize / 4)
    (hmapped : ¬ WordMapped s i) :
    ({ s with mem }.exec (copyOp clone sramPhysicalAddress i)).failure = some .dataAbort := by
  rw [← wordMapped_congr hagree hspares hi] at hmapped
  rw [copyOp, System.exec_of_running (s := { s with mem }) hrunning, System.perform]
  split
  · next t _ hsrc _ => exact absurd ⟨t, hsrc⟩ hmapped
  · rfl

end Copy

theorem execAll_of_failed {s : System} (h : s.failure ≠ none) (ops : List SRAMOp) :
    s.execAll ops = s := by
  induction ops with
  | nil => rfl
  | cons op rest ih => rw [System.execAll_cons, exec_of_failed h, ih]

section Memcpy

variable {s : System} {clone : Word} (hrunning : s.failure = none) (hclone : Allocated s clone)
  (hspares : Spares s clone (l1IndexOf sramPhysicalAddress))
include hrunning hclone hspares

/-- Words that are mapped are copied, and only the block changes. -/
theorem execAll_copyOps {is : List Nat} (his : ∀ i ∈ is, i < sramSize / 4)
    (hmapped : ∀ i ∈ is, WordMapped s i) :
    ∀ {mem : Memory}, (∀ a, ¬ (cloneBlock clone).Holds a → mem a = s.mem a) →
      ∃ mem', { s with mem }.execAll (is.map (copyOp clone sramPhysicalAddress)) =
          { s with mem := mem' } ∧ ∀ a, ¬ (cloneBlock clone).Holds a → mem' a = s.mem a := by
  induction is with
  | nil => intro mem hagree; exact ⟨mem, rfl, hagree⟩
  | cons i rest ih =>
      intro mem hagree
      obtain ⟨mem₁, hexec, hagree₁⟩ := exec_copyOp hagree hrunning hclone hspares
        (his i List.mem_cons_self) (hmapped i List.mem_cons_self)
      rw [List.map_cons, System.execAll_cons, hexec]
      exact ih (fun j hj => his j (List.mem_cons_of_mem _ hj))
        (fun j hj => hmapped j (List.mem_cons_of_mem _ hj)) hagree₁

/-- A word that is not mapped ends the copy in a data abort. -/
theorem execAll_copyOps_abort {is : List Nat} (his : ∀ i ∈ is, i < sramSize / 4)
    (hmapped : ¬ ∀ i ∈ is, WordMapped s i) :
    ∀ {mem : Memory}, (∀ a, ¬ (cloneBlock clone).Holds a → mem a = s.mem a) →
      ({ s with mem }.execAll (is.map (copyOp clone sramPhysicalAddress))).failure =
        some .dataAbort := by
  induction is with
  | nil => simp at hmapped
  | cons i rest ih =>
      intro mem hagree
      have hi := his i List.mem_cons_self
      rw [List.map_cons, System.execAll_cons]
      by_cases hfirst : WordMapped s i
      · obtain ⟨mem₁, hexec, hagree₁⟩ :=
          exec_copyOp hagree hrunning hclone hspares hi hfirst
        rw [hexec]
        refine ih (fun j hj => his j (List.mem_cons_of_mem _ hj)) ?_ hagree₁
        intro hall
        refine hmapped fun j hj => ?_
        rcases List.mem_cons.mp hj with rfl | hrest
        · exact hfirst
        · exact hall j hrest
      · have habort := exec_copyOp_abort hagree hrunning hspares hi hfirst
        rw [execAll_of_failed (by rw [habort]; simp), habort]

theorem execAll_memcpy (hmapped : WindowMapped s) :
    ∃ mem, s.execAll (memcpy clone sramPhysicalAddress sramSize) = { s with mem } ∧
      ∀ a, ¬ (cloneBlock clone).Holds a → mem a = s.mem a := by
  rw [memcpy_eq]
  refine execAll_copyOps hrunning hclone hspares (fun i hi => ?_) (fun i hi => hmapped i ?_)
    (fun _ _ => rfl) <;>
  · have hrange := List.mem_range'_1.mp hi
    omega

theorem execAll_memcpy_abort (hmapped : ¬ WindowMapped s) :
    (s.execAll (memcpy clone sramPhysicalAddress sramSize)).failure = some .dataAbort := by
  rw [memcpy_eq]
  refine execAll_copyOps_abort hrunning hclone hspares (fun i hi => ?_) (fun hall => ?_)
    (fun _ _ => rfl)
  · have hrange := List.mem_range'_1.mp hi
    omega
  · refine hmapped fun i hi => hall i (List.mem_range'_1.mpr ?_)
    omega

end Memcpy

/-! ## The test -/

section Test

variable {s : System} (hrunning : s.failure = none)
include hrunning

theorem exec_checkIdentityMapped_pass (htest : TestPasses s) :
    s.exec .checkIdentityMapped =
      { s with
        accessor :=
          { s.accessor with
            originalSRAMDomain := mmuDomainFromEntry (s.getEntry sramPhysicalAddress) } } := by
  rw [System.exec_of_running hrunning]
  simp only [System.perform, if_neg htest.1, htest.2, ne_eq, not_true_eq_false, if_false]

theorem exec_checkIdentityMapped_fail (htest : ¬ TestPasses s) :
    ∃ message, s.exec .checkIdentityMapped =
      { s with failure := some (.thrown (.runtimeError message)) } := by
  rw [System.exec_of_running hrunning, System.perform]
  by_cases hnone : s.getEntry sramPhysicalAddress = 0xFFFFFFFF#32
  · exact ⟨_, if_pos hnone⟩
  · by_cases haddress : mmuL1EntryMappedAddress (s.getEntry sramPhysicalAddress) =
        sramPhysicalAddress
    · exact absurd ⟨hnone, haddress⟩ htest
    · exact ⟨_, (if_neg hnone).trans (if_pos haddress)⟩

variable (new clone : Word) (ap : MMUAccessPermission) (cp : MMUCachePolicy) (domain : Byte)

/-- Past the test nothing throws. -/
theorem execAll_remap_pass (htest : TestPasses s) :
    (s.execAll (remap new clone ap cp domain)).failure = none := by
  have halive : s.editorAlive = true := by
    by_contra hdead
    exact htest.1 (if_neg hdead)
  rw [remap, System.execAll_cons, exec_flushDataCacheRange hrunning, System.execAll_cons,
    exec_drainWriteBuffer hrunning, System.execAll_cons,
    exec_checkIdentityMapped_pass hrunning htest]
  cases hdisable : s.accessor.disableInterrupts <;> cases henable : s.accessor.enableInterrupts <;>
    simp [System.exec, System.perform, System.mapSection, System.map, hrunning, halive, hdisable,
      henable]

theorem execAll_remap_fail (htest : ¬ TestPasses s) :
    ∃ message, s.execAll (remap new clone ap cp domain) =
      { s with failure := some (.thrown (.runtimeError message)) } := by
  obtain ⟨message, hexec⟩ := exec_checkIdentityMapped_fail hrunning htest
  refine ⟨message, ?_⟩
  rw [remap, System.execAll_cons, exec_flushDataCacheRange hrunning, System.execAll_cons,
    exec_drainWriteBuffer hrunning, System.execAll_cons, hexec, execAll_of_failed (by simp)]

end Test

/-! ## The constructor -/

/-- The call ended by a `std::runtime_error`. -/
def ThrowsRuntimeError (s : System) : Prop :=
  ∃ message, s.failure = some (.thrown (.runtimeError message))

section Construct

variable {s : System} {clone : Word} (hrunning : s.failure = none) (hclone : Allocated s clone)
  (hspares : Spares s clone (l1IndexOf sramPhysicalAddress))
  (ap : MMUAccessPermission) (cp : MMUCachePolicy) (domain : Byte)
include hrunning hclone hspares

/-- After the copy only the block and the object have changed. -/
theorem constructed_of_mapped (hmapped : WindowMapped s) :
    ∃ mem, (∀ a, ¬ (cloneBlock clone).Holds a → mem a = s.mem a) ∧
      constructed s ap cp domain clone =
        { s with
          mem, accessor := { s.accessor with clonedSRAMBlock := some clone } }.execAll
            (remap s.accessor.newSRAMAddress clone ap cp domain) := by
  obtain ⟨mem, hcopied, hagree⟩ := execAll_memcpy
    (s := { s with accessor := { s.accessor with clonedSRAMBlock := some clone } }) hrunning
    ⟨hclone.aligned, hclone.reached, hclone.spared⟩ hspares hmapped
  refine ⟨mem, hagree, ?_⟩
  rw [constructed, construct, System.execAll_cons, System.execAll_append,
    exec_setClonedBlock hrunning, hcopied]

/-- A window that is not mapped is not looked at: the copy aborts. -/
theorem constructed_abort (hmapped : ¬ WindowMapped s) :
    (constructed s ap cp domain clone).failure = some .dataAbort := by
  have habort := execAll_memcpy_abort
    (s := { s with accessor := { s.accessor with clonedSRAMBlock := some clone } }) hrunning
    ⟨hclone.aligned, hclone.reached, hclone.spared⟩ hspares hmapped
  rw [constructed, construct, System.execAll_cons, System.execAll_append,
    exec_setClonedBlock hrunning, execAll_of_failed (by rw [habort]; simp), habort]

theorem constructed_pass (hmapped : WindowMapped s) (htest : TestPasses s) :
    (constructed s ap cp domain clone).failure = none := by
  obtain ⟨mem, -, hconstructed⟩ :=
    constructed_of_mapped hrunning hclone hspares ap cp domain hmapped
  rw [hconstructed]
  exact execAll_remap_pass
    (s := { s with mem, accessor := { s.accessor with clonedSRAMBlock := some clone } })
    hrunning _ _ ap cp domain htest

/-- When the test fails, nothing but the copy has happened. -/
theorem constructed_fail (hmapped : WindowMapped s) (htest : ¬ TestPasses s) :
    ∃ mem message, constructed s ap cp domain clone =
      { s with
        mem, accessor := { s.accessor with clonedSRAMBlock := some clone },
        failure := some (.thrown (.runtimeError message)) } := by
  obtain ⟨mem, -, hconstructed⟩ :=
    constructed_of_mapped hrunning hclone hspares ap cp domain hmapped
  obtain ⟨message, hthrown⟩ := execAll_remap_fail
    (s := { s with mem, accessor := { s.accessor with clonedSRAMBlock := some clone } })
    hrunning s.accessor.newSRAMAddress clone ap cp domain htest
  exact ⟨mem, message, hconstructed.trans hthrown⟩

/-- The constructor throws when the window can be copied and its descriptor does
not name the SRAM's megabyte. -/
theorem throws_iff :
    ThrowsRuntimeError (constructed s ap cp domain clone) ↔ WindowMapped s ∧ ¬ TestPasses s := by
  by_cases hmapped : WindowMapped s
  · by_cases htest : TestPasses s
    · have hnone := constructed_pass hrunning hclone hspares ap cp domain hmapped htest
      simp [ThrowsRuntimeError, hnone, htest]
    · obtain ⟨mem, message, hconstructed⟩ :=
        constructed_fail hrunning hclone hspares ap cp domain hmapped htest
      rw [hconstructed]
      exact ⟨fun _ => ⟨hmapped, htest⟩, fun _ => ⟨message, rfl⟩⟩
  · have habort := constructed_abort hrunning hclone hspares ap cp domain hmapped
    simp [ThrowsRuntimeError, habort, hmapped]

end Construct

/-! ## What the test decides -/

/-- The entry's top twelve bits are those of the SRAM's address. -/
def NamesSram (entry : Word) : Prop := mmuL1EntryMappedAddress entry = sramPhysicalAddress

instance (entry : Word) : Decidable (NamesSram entry) := by
  unfold NamesSram
  infer_instance

/-- The tables for which the top twelve bits decide: the SRAM's entry is a
section; or it is a page table in the SRAM's megabyte whose pages map the window
to itself, or one elsewhere whose pages map the whole window, but not to
itself. -/
def TestDecides (s : System) : Prop :=
  (s.l1 (l1IndexOf sramPhysicalAddress)).extractLsb' 0 2 = 0b10#2 ∨
    (secondLevel (s.l1 (l1IndexOf sramPhysicalAddress))).isSome ∧
      if NamesSram (s.l1 (l1IndexOf sramPhysicalAddress)) then IdentityMapped s
      else WindowMapped s ∧ ¬ IdentityMapped s

theorem testPasses_iff {s : System} (halive : s.editorAlive = true) :
    TestPasses s ↔ NamesSram (s.l1 (l1IndexOf sramPhysicalAddress)) := by
  have hentry : s.getEntry sramPhysicalAddress = s.l1 (l1IndexOf sramPhysicalAddress) :=
    if_pos halive
  rw [TestPasses, hentry]
  refine ⟨fun h => h.2, fun h => ⟨fun hnone => ?_, h⟩⟩
  rw [NamesSram, hnone] at h
  exact absurd h (by decide)

theorem windowMapped_of_identity {s : System} (h : IdentityMapped s) : WindowMapped s := by
  intro i hi
  have hsize : sramSize = 262144 := rfl
  obtain ⟨t, hwalk, -⟩ := h (4 * i) (by omega)
  exact ⟨t, hwalk⟩

/-- The megabyte a section maps is the one its top twelve bits name. -/
theorem mapsSection_entry {entry : Word} (htype : entry.extractLsb' 0 2 = 0b10#2) :
    MapsSection entry (mmuL1EntryMappedAddress entry).toNat := by
  refine ⟨htype, ?_⟩
  rw [mmuL1EntryMappedAddress_eq, toNat_place _ _ (by omega)]

section Section

variable {s : System}
  (htype : (s.l1 (l1IndexOf sramPhysicalAddress)).extractLsb' 0 2 = 0b10#2)
include htype

theorem windowMapped_section : WindowMapped s := by
  intro i hi
  have hsize : sramSize = 262144 := rfl
  obtain ⟨t, hwalk, -⟩ := walk_section (mapsSection_entry htype) sramAligned
    (show 4 * i < 2 ^ 20 by omega)
  exact ⟨t, hwalk⟩

/-- A section maps the window to itself if it names the SRAM's megabyte. -/
theorem identityMapped_section :
    IdentityMapped s ↔ NamesSram (s.l1 (l1IndexOf sramPhysicalAddress)) := by
  constructor
  · intro h
    obtain ⟨t, hwalk, ht⟩ := h 0 (by decide)
    obtain ⟨u, hwalk', hu⟩ := walk_section (mapsSection_entry htype) sramAligned
      (show 0 < 2 ^ 20 by decide)
    obtain rfl := Walk.mapped.inj (hwalk.symm.trans hwalk')
    exact BitVec.eq_of_toNat_eq (by omega)
  · intro h o ho
    obtain ⟨t, hwalk, ht⟩ := walk_section (mapsSection_entry htype) sramAligned
      (Nat.lt_trans ho sramSize_lt)
    rw [h] at ht
    exact ⟨t, hwalk, ht⟩

end Section

/-- A fault is not mapped. -/
theorem not_windowMapped_fault {s : System}
    (htype : (s.l1 (l1IndexOf sramPhysicalAddress)).extractLsb' 0 2 = 0b00#2) :
    ¬ WindowMapped s := by
  intro h
  obtain ⟨t, hwalk⟩ := h 0 (by decide)
  simp [System.walk, walkEntry, htype] at hwalk

/-- **What the constructor accepts.**  For every table, and with the block
allocated, the constructor throws exactly when the window is not identity mapped
if and only if the table is one for which the top twelve bits decide. -/
theorem decides_iff (s : System) (clone : Word) (ap : MMUAccessPermission) (cp : MMUCachePolicy)
    (domain : Byte) (hrunning : s.failure = none) (halive : s.editorAlive = true)
    (hclone : Allocated s clone) (hspares : Spares s clone (l1IndexOf sramPhysicalAddress)) :
    (ThrowsRuntimeError (constructed s ap cp domain clone) ↔ ¬ IdentityMapped s) ↔
      TestDecides s := by
  rw [throws_iff hrunning hclone hspares ap cp domain, testPasses_iff halive, TestDecides]
  have himplies := @windowMapped_of_identity s
  have hpages : (s.l1 (l1IndexOf sramPhysicalAddress)).extractLsb' 0 2 ≠ 0b10#2 →
      (secondLevel (s.l1 (l1IndexOf sramPhysicalAddress))).isSome →
      ((WindowMapped s ∧ ¬ NamesSram (s.l1 (l1IndexOf sramPhysicalAddress)) ↔
          ¬ IdentityMapped s) ↔ TestDecides s) := by
    intro hsection hsome
    rw [TestDecides]
    split_ifs <;> tauto
  rcases type_cases ((s.l1 (l1IndexOf sramPhysicalAddress)).extractLsb' 0 2) with
    ht | ht | ht | ht
  · have hmapped := not_windowMapped_fault ht
    have hidentity : ¬ IdentityMapped s := fun h => hmapped (windowMapped_of_identity h)
    simp [secondLevel, ht, hmapped, hidentity]
  · exact hpages (by rw [ht]; decide) (by simp [secondLevel, ht])
  · have hmapped := windowMapped_section ht
    have hidentity := identityMapped_section ht
    simp [ht, hmapped, hidentity]
  · exact hpages (by rw [ht]; decide) (by simp [secondLevel, ht])

/-! ## Tables that pass and fail -/

/-- The block at `0x10000000` is allocated whatever memory holds. -/
theorem allocated_bootSystem (mem : Memory) (zero sram : Word) (callbacks : Bool) :
    Allocated { bootSystem zero sram callbacks with mem } 0x10000000#32 := by
  have hentry : (bootSystem zero sram callbacks).l1 (l1IndexOf 0x10000000#32) =
      0x10000C02#32 := rfl
  have hclone : MapsSection ((bootSystem zero sram callbacks).l1 (l1IndexOf 0x10000000#32))
      0x10000000 := ⟨by rw [hentry]; decide, by rw [hentry]; decide⟩
  refine ⟨by decide, fun o ho => ?_, spares_of_none ?_⟩
  · exact walk_section (s := { bootSystem zero sram callbacks with mem }) hclone (by decide)
      (Nat.lt_trans ho sramSize_lt)
  · show secondLevel 0x10000C02#32 = none
    decide

/-- A section onto the SRAM is accepted. -/
theorem decides_section :
    ThrowsRuntimeError (constructed (bootSystem 0#32 0xA4000C0E#32 true) .fullAccess
        .writeBackCache 0 0x10000000#32) ↔
      ¬ IdentityMapped (bootSystem 0#32 0xA4000C0E#32 true) := by
  refine (decides_iff (bootSystem 0#32 0xA4000C0E#32 true) 0x10000000#32 .fullAccess
    .writeBackCache 0 rfl rfl (allocated_bootSystem _ _ _ _) (spares_of_none ?_)).mpr
    (.inl (by decide))
  decide

/-- The SRAM's entry names a coarse table in the SRAM itself; all pages of the
table lead to address zero. -/
def coarseSystem : System :=
  { bootSystem 0#32 0xA4000001#32 true with mem := fun a => if a % 4 = 0 then 2 else 0 }

/-- The table's address passes the test, the pages are not looked at. -/
theorem coarse_accepted :
    ¬ ∀ (s : System) (clone : Word) (ap : MMUAccessPermission) (cp : MMUCachePolicy)
      (domain : Byte), s.failure = none → s.editorAlive = true → Allocated s clone →
      Spares s clone (l1IndexOf sramPhysicalAddress) →
      (ThrowsRuntimeError (constructed s ap cp domain clone) ↔ ¬ IdentityMapped s) := by
  intro hall
  have hallocated : Allocated coarseSystem 0x10000000#32 := allocated_bootSystem _ _ _ _
  have hentry : coarseSystem.l1 (l1IndexOf sramPhysicalAddress) = 0xA4000001#32 := rfl
  have hspares : Spares coarseSystem 0x10000000#32 (l1IndexOf sramPhysicalAddress) := by
    intro b hb
    rw [hentry, show secondLevel 0xA4000001#32 = some ⟨0xA4000000, 4 * 256⟩ by decide] at hb
    obtain rfl := Option.some.inj hb
    exact Block.apart_of_le (.inr (by decide))
  have hpasses : TestPasses coarseSystem :=
    (testPasses_iff rfl).mpr (show NamesSram 0xA4000001#32 by decide)
  have haccepted := throws_iff (s := coarseSystem) rfl hallocated hspares .fullAccess
    .writeBackCache 0
  have hclaim := hall coarseSystem 0x10000000#32 .fullAccess .writeBackCache 0 rfl rfl
    hallocated hspares
  have hidentity : IdentityMapped coarseSystem := by
    by_contra hnot
    exact (haccepted.mp (hclaim.mpr hnot)).2 hpasses
  obtain ⟨t, hwalk, ht⟩ := hidentity 0 (by decide)
  have hzero : coarseSystem.walk (sramPhysicalAddress + BitVec.ofNat 32 0) =
      .mapped ⟨0#32, 0#2, 0#2, 0#4⟩ := by decide
  obtain rfl := Walk.mapped.inj (hzero.symm.trans hwalk)
  exact absurd ht (by decide)

/-! ## What an exception leaves behind -/

/-- The system, the translation table base, and the addresses of the live heap
blocks. -/
structure Process where
  system : System
  ttbr0 : Word
  live : List Word

namespace Process

/-- `aligned_alloc`, given what it returned. -/
def alignedAlloc (p : Process) (allocated : Option Word) : Process :=
  { p with live := allocated.toList ++ p.live }

/-- One operation; `aligned_free` ends the life of its block. -/
def exec (p : Process) (op : SRAMOp) : Process :=
  { p with
    system := p.system.exec op
    live :=
      match op with
      | .alignedFree block => if p.system.failure.isSome then p.live else p.live.erase block
      | _ => p.live }

def execAll (p : Process) (ops : List SRAMOp) : Process := ops.foldl exec p

/-- `SRAM_Accessor::SRAM_Accessor` with its allocation. -/
def construct (p : Process) (ap : MMUAccessPermission) (cp : MMUCachePolicy) (domain : Byte)
    (allocated : Option Word) : Process :=
  (p.alignedAlloc allocated).execAll
    (SRAMAccessor.construct p.system.accessor.newSRAMAddress ap cp domain allocated)

@[simp] theorem execAll_cons (p : Process) (op : SRAMOp) (ops : List SRAMOp) :
    p.execAll (op :: ops) = (p.exec op).execAll ops := rfl

theorem execAll_system (ops : List SRAMOp) :
    ∀ p : Process, (p.execAll ops).system = p.system.execAll ops := by
  induction ops with
  | nil => intro p; rfl
  | cons op rest ih => intro p; exact ih (p.exec op)

/-- No operation of the accessor writes the register. -/
theorem execAll_ttbr0 (ops : List SRAMOp) : ∀ p : Process, (p.execAll ops).ttbr0 = p.ttbr0 := by
  induction ops with
  | nil => intro p; rfl
  | cons op rest ih => intro p; exact ih (p.exec op)

/-- Operations that free nothing keep every block alive. -/
theorem execAll_live {ops : List SRAMOp} (hfree : ∀ block, SRAMOp.alignedFree block ∉ ops) :
    ∀ p : Process, (p.execAll ops).live = p.live := by
  induction ops with
  | nil => intro p; rfl
  | cons op rest ih =>
      intro p
      have hrest := ih (fun block hblock => hfree block (List.mem_cons_of_mem _ hblock)) (p.exec op)
      rw [execAll_cons, hrest]
      cases op with
      | alignedFree block => exact absurd List.mem_cons_self (hfree block)
      | _ => rfl

end Process

/-- The constructor frees nothing. -/
theorem alignedFree_notMem_construct (new : Word) (ap : MMUAccessPermission) (cp : MMUCachePolicy)
    (domain : Byte) (allocated : Option Word) (block : Word) :
    SRAMOp.alignedFree block ∉ construct new ap cp domain allocated := by
  cases allocated with
  | none => simp [construct]
  | some clone => simp [construct, remap, memcpy]

/-- Everything is as it was: the table, the translation table base, the interrupt
mask and the heap; and interrupts were disabled as often as enabled. -/
structure Unwound (p q : Process) : Prop where
  l1 : q.system.l1 = p.system.l1
  ttbr0 : q.ttbr0 = p.ttbr0
  masked : q.system.masked = p.system.masked
  balanced : q.system.calls.count .disable + p.system.calls.count .enable =
    q.system.calls.count .enable + p.system.calls.count .disable
  live : ∀ b, b ∈ q.live ↔ b ∈ p.live

/-- If the call exits by an exception, everything is as it was. -/
def UnwindsOnThrow (p q : Process) : Prop :=
  (∃ e, q.system.failure = some (.thrown e)) → Unwound p q

section Exceptions

variable (p : Process) (ap : MMUAccessPermission) (cp : MMUCachePolicy) (domain : Byte)

theorem construct_live (allocated : Option Word) :
    (p.construct ap cp domain allocated).live = allocated.toList ++ p.live :=
  Process.execAll_live (alignedFree_notMem_construct _ ap cp domain allocated) _

theorem construct_system (clone : Word) :
    (p.construct ap cp domain (some clone)).system = constructed p.system ap cp domain clone :=
  Process.execAll_system _ _

/-- `std::bad_alloc` leaves nothing behind. -/
theorem unwound_badAlloc (hrunning : p.system.failure = none) :
    Unwound p (p.construct ap cp domain none) := by
  have hsystem : (p.construct ap cp domain none).system =
      { p.system with failure := some (.thrown .badAlloc) } := by
    rw [Process.construct, Process.execAll_system]
    exact System.exec_of_running hrunning _
  exact
    { l1 := by rw [hsystem]
      ttbr0 := Process.execAll_ttbr0 _ _
      masked := by rw [hsystem]; rfl
      balanced := by rw [hsystem]; exact Nat.add_comm _ _
      live := fun b => by rw [construct_live]; simp }

/-- **What an exception leaves behind.**  For every table, every argument and
every outcome of the allocation: a constructor that exits by an exception leaves
everything as it was if and only if the allocation failed, or no
`std::runtime_error` is due, because the test passes or the copy before it
aborts. -/
theorem unwound_iff (allocated : Option Word) (hrunning : p.system.failure = none)
    (hallocated : ∀ clone, allocated = some clone →
      Allocated p.system clone ∧ Spares p.system clone (l1IndexOf sramPhysicalAddress) ∧
        clone ∉ p.live) :
    UnwindsOnThrow p (p.construct ap cp domain allocated) ↔
      allocated = none ∨ TestPasses p.system ∨ ¬ WindowMapped p.system := by
  cases allocated with
  | none => exact ⟨fun _ => .inl rfl, fun _ _ => unwound_badAlloc p ap cp domain hrunning⟩
  | some clone =>
      obtain ⟨hclone, hspares, hfresh⟩ := hallocated clone rfl
      rw [UnwindsOnThrow, construct_system]
      constructor
      · intro hunwound
        by_contra hcon
        push Not at hcon
        obtain ⟨-, htest, hmapped⟩ := hcon
        obtain ⟨mem, message, hconstructed⟩ :=
          constructed_fail hrunning hclone hspares ap cp domain hmapped htest
        have hlive := (hunwound ⟨_, by rw [hconstructed]⟩).live clone
        rw [construct_live] at hlive
        exact hfresh (hlive.mp (by simp))
      · rintro (hnone | htest | hmapped) ⟨e, he⟩
        · simp at hnone
        · by_cases hmapped : WindowMapped p.system
          · rw [constructed_pass hrunning hclone hspares ap cp domain hmapped htest] at he
            simp at he
          · rw [constructed_abort hrunning hclone hspares ap cp domain hmapped] at he
            simp at he
        · rw [constructed_abort hrunning hclone hspares ap cp domain hmapped] at he
          simp at he

end Exceptions

/-- The process on `bootSystem`, with one live block. -/
def bootProcess (sram : Word) : Process :=
  { system := bootSystem 0#32 sram true, ttbr0 := 0x11300000#32, live := [0x12000000#32] }

/-- With a section onto the SRAM nothing is thrown. -/
theorem unwound_section :
    UnwindsOnThrow (bootProcess 0xA4000C0A#32) ((bootProcess 0xA4000C0A#32).construct .fullAccess
      .writeBackCache 0 (some 0x10000000#32)) := by
  refine (unwound_iff (bootProcess 0xA4000C0A#32) .fullAccess .writeBackCache 0 _ rfl
    (fun clone hclone => ?_)).mpr (.inr (.inl (by decide)))
  obtain rfl := Option.some.inj hclone
  exact ⟨allocated_bootSystem _ _ _ _, spares_of_none (by decide), by decide⟩

/-- The SRAM's window is a section that leads elsewhere: the exception is the one
the header promises, and the block stays allocated. -/
theorem clone_leaked :
    ¬ UnwindsOnThrow (bootProcess 0x90000C0A#32) ((bootProcess 0x90000C0A#32).construct .fullAccess
      .writeBackCache 0 (some 0x10000000#32)) := by
  intro hunwound
  obtain ⟨mem, message, hconstructed⟩ := constructed_fail (s := (bootProcess 0x90000C0A#32).system)
    rfl (allocated_bootSystem _ _ _ _) (spares_of_none (by decide)) .fullAccess .writeBackCache 0
    (windowMapped_section (by decide)) (by decide)
  have hlive := (hunwound ⟨.runtimeError message, by rw [construct_system, hconstructed]⟩).live
    0x10000000#32
  rw [construct_live] at hlive
  exact absurd (hlive.mp (by simp)) (by decide)

end NspireUtils.Ports.SRAMConstructor
