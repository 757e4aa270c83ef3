import NspireUtils.Ports.SRAMConstructor

/-!
# What the constructor remaps

`MapSection` replaces first-level entries, so everything moves by megabytes: with
the 256 kB of the clone or of the SRAM the rest of their megabytes becomes visible.
`remapped` says where addresses lead after the constructor; at an aligned new address
the SRAM begins.
-/

namespace NspireUtils.Ports.SRAMWindows

open NspireUtils.Verified.BitFields
open NspireUtils.Verified.ByteMemory
open NspireUtils.Verified.ShortDescriptor
open NspireUtils.Ports.MMUDescriptors
open NspireUtils.Ports.TableEditors
open NspireUtils.Ports.SRAMAccessor
open NspireUtils.Ports.SRAMRelocation
open NspireUtils.Ports.SRAMLifetime
open NspireUtils.Ports.SRAMRestore
open NspireUtils.Ports.SRAMConstructor

/-- What holds when the constructor is called: both windows are sections onto the
SRAM, the new address is a fault, and the allocated block holds none of the
tables. -/
structure Relocatable (s : System) (clone : Word) : Prop where
  running : s.failure = none
  alive : s.editorAlive = true
  windows : ∀ w : Window, MapsSection (s.l1 (l1IndexOf w.base)) sramPhysicalAddress.toNat
  newFault : (s.l1 (l1IndexOf s.accessor.newSRAMAddress)).extractLsb' 0 2 = 0b00#2
  allocated : Allocated s clone
  spared : ∀ i, i < 4096 → Spares s clone i

/-- The OS's windows lead to the clone. -/
def WindowsReach (clone : Word) (s : System) : Prop :=
  ∀ (w : Window) (o : Nat), o < sramSize → ∃ t, s.walk (w.base + BitVec.ofNat 32 o) = .mapped t ∧
    t.physical.toNat = clone.toNat + o

/-- Addresses that changed their translation lead to the two blocks. -/
def OnlyBlocksReached (clone : Word) (s s' : System) : Prop :=
  ∀ va t, s'.walk va ≠ s.walk va → s'.walk va = .mapped t →
    (cloneBlock clone).Holds t.physical.toNat ∨ sramBlock.Holds t.physical.toNat

/-- Where addresses lead after the constructor: an aligned `newSRAMAddress` to the SRAM
and the rest of its megabyte, the windows to the clone.  An address whose translation
changed lies in the new megabyte or in one of the windows; there it leads to the SRAM's
megabyte, or, at its own offset, to the megabyte that begins with the clone. -/
structure Remapped (clone new : Word) (s s' : System) : Prop where
  newAddress : 2 ^ 20 ∣ new.toNat → ∀ o, o < 2 ^ 20 →
    ∃ t, s'.walk (new + BitVec.ofNat 32 o) = .mapped t ∧
      t.physical.toNat = sramPhysicalAddress.toNat + o
  windows : WindowsReach clone s'
  changed : ∀ va, s'.walk va ≠ s.walk va → ∃ t, s'.walk va = .mapped t ∧
    (l1IndexOf va = l1IndexOf new ∧
        t.physical.toNat / 2 ^ 20 = sramPhysicalAddress.toNat / 2 ^ 20 ∨
      (∃ w : Window, l1IndexOf va = l1IndexOf w.base) ∧
        t.physical.toNat = clone.toNat + va.toNat % 2 ^ 20)

/-! ## Megabytes -/

/-- A section keeps the offset in the megabyte. -/
theorem walk_megabyte {s : System} {va : Word} {physical : Nat}
    (h : MapsSection (s.l1 (l1IndexOf va)) physical) :
    ∃ t, s.walk va = .mapped t ∧ t.physical.toNat = physical + va.toNat % 2 ^ 20 := by
  obtain ⟨htype, hphysical⟩ := h
  refine ⟨_, walkEntry_section s.mem va htype, ?_⟩
  rw [BitVec.toNat_append, ← Nat.shiftLeft_add_eq_or_of_lt (BitVec.isLt _), Nat.shiftLeft_eq,
    hphysical, toNat_extract]
  omega

/-- An offset that does not leave the megabyte of the address. -/
theorem offset_megabyte {va : Word} {o : Nat} (ho : va.toNat % 2 ^ 20 + o < 2 ^ 20) :
    l1IndexOf (va + BitVec.ofNat 32 o) = l1IndexOf va ∧
      (va + BitVec.ofNat 32 o).toNat % 2 ^ 20 = va.toNat % 2 ^ 20 + o := by
  have hlt := va.isLt
  have hsum : (va + BitVec.ofNat 32 o).toNat = va.toNat + o := by
    rw [BitVec.toNat_add, BitVec.toNat_ofNat]
    omega
  simp only [l1IndexOf, toNat_extract, hsum]
  omega

/-- Only copies write memory. -/
theorem execAll_mem {ops : List SRAMOp} (hnocopy : ∀ dst src, SRAMOp.copyWord dst src ∉ ops) :
    ∀ s : System, (s.execAll ops).mem = s.mem := by
  induction ops with
  | nil => intro s; rfl
  | cons op rest ih =>
      intro s
      rw [System.execAll_cons, ih fun dst src hmem => hnocopy dst src (List.mem_cons_of_mem _ hmem)]
      by_cases hrunning : s.failure = none
      · rw [System.exec_of_running hrunning]
        cases op with
        | copyWord dst src => exact absurd List.mem_cons_self (hnocopy dst src)
        | _ => simp only [System.perform, System.mapSection, System.map] <;> split_ifs <;> rfl
      · rw [exec_of_failed hrunning]

/-! ## After the constructor -/

section Constructed

variable {s : System} {clone : Word} (h : Relocatable s clone) (ap : MMUAccessPermission)
  (cp : MMUCachePolicy) (domain : Byte)
include h

/-- The new address lies in neither window. -/
theorem new_ne_window (w : Window) :
    l1IndexOf s.accessor.newSRAMAddress ≠ l1IndexOf w.base := by
  intro heq
  have hfault := h.newFault
  rw [heq, (h.windows w).1] at hfault
  exact absurd hfault (by decide)

theorem constructed_running : (constructed s ap cp domain clone).failure = none := by
  have hwindow := h.windows .sram
  refine constructed_pass h.running h.allocated (h.spared _ (l1IndexOf_lt _)) ap cp domain
    (windowMapped_section hwindow.1) ((testPasses_iff h.alive).mpr ?_)
  exact BitVec.eq_of_toNat_eq ((mapsSection_entry hwindow.1).2.symm.trans hwindow.2)

theorem constructed_mem {a : Nat} (ha : ¬ (cloneBlock clone).Holds a) :
    (constructed s ap cp domain clone).mem a = s.mem a := by
  obtain ⟨mem, hagree, hconstructed⟩ := constructed_of_mapped h.running h.allocated
    (h.spared _ (l1IndexOf_lt _)) ap cp domain (windowMapped_section (h.windows .sram).1)
  rw [hconstructed, execAll_mem (by simp [remap])]
  exact hagree a ha

/-- Both windows are sections onto the clone. -/
theorem constructed_window (w : Window) :
    MapsSection ((constructed s ap cp domain clone).l1 (l1IndexOf w.base)) clone.toNat := by
  obtain ⟨hl1, -, -⟩ := constructed_done (constructed_running h ap cp domain)
  rw [hl1]
  apply mapsSection_update_of_ne (new_ne_window h w).symm
  cases w with
  | zero => exact mapsSection_update_self (mapsSection_descriptor h.allocated.aligned _ _ _)
  | sram =>
      exact mapsSection_update_of_ne (by decide)
        (mapsSection_update_self (mapsSection_descriptor h.allocated.aligned _ _ _))

/-- The megabyte of the new address is a section onto the SRAM. -/
theorem constructed_new :
    MapsSection ((constructed s ap cp domain clone).l1 (l1IndexOf s.accessor.newSRAMAddress))
      sramPhysicalAddress.toNat := by
  obtain ⟨hl1, -, -⟩ := constructed_done (constructed_running h ap cp domain)
  rw [hl1]
  exact mapsSection_update_self (mapsSection_descriptor sramAligned _ _ _)

/-- In every other megabyte nothing changed. -/
theorem constructed_walk_other {va : Word}
    (hnew : l1IndexOf va ≠ l1IndexOf s.accessor.newSRAMAddress)
    (hwindow : ∀ w : Window, l1IndexOf va ≠ l1IndexOf w.base) :
    (constructed s ap cp domain clone).walk va = s.walk va := by
  obtain ⟨hl1, -, -⟩ := constructed_done (constructed_running h ap cp domain)
  rw [System.walk, hl1, Function.update_of_ne hnew, Function.update_of_ne (hwindow .zero),
    Function.update_of_ne (show l1IndexOf va ≠ l1IndexOf sramPhysicalAddress from hwindow .sram)]
  exact walkEntry_congr fun b hb a ha =>
    constructed_mem h ap cp domain (h.spared _ (l1IndexOf_lt va) b hb a ha)

end Constructed

/-- **What the constructor remaps.**  For every new address, every placement of
the block and every table whose windows lead to the SRAM. -/
theorem remapped (s : System) (clone : Word) (h : Relocatable s clone) (ap : MMUAccessPermission)
    (cp : MMUCachePolicy) (domain : Byte) :
    (constructed s ap cp domain clone).failure = none ∧
      Remapped clone s.accessor.newSRAMAddress s (constructed s ap cp domain clone) := by
  have hnew := constructed_new h ap cp domain
  have hwindow := constructed_window h ap cp domain
  refine ⟨constructed_running h ap cp domain, fun haligned o ho => ?_, fun w o ho => ?_,
    fun va hva => ?_⟩
  · have hstart : s.accessor.newSRAMAddress.toNat % 2 ^ 20 = 0 := Nat.mod_eq_zero_of_dvd haligned
    obtain ⟨hindex, hoffset⟩ := offset_megabyte (by rwa [hstart, Nat.zero_add])
    rw [hstart, Nat.zero_add] at hoffset
    rw [← hindex] at hnew
    obtain ⟨t, hwalk, ht⟩ := walk_megabyte hnew
    exact ⟨t, hwalk, by rw [ht, hoffset]⟩
  · exact walk_section (hwindow w) (by cases w <;> decide) (Nat.lt_trans ho sramSize_lt)
  · by_cases hinNew : l1IndexOf va = l1IndexOf s.accessor.newSRAMAddress
    · rw [← hinNew] at hnew
      obtain ⟨t, hwalk, ht⟩ := walk_megabyte hnew
      have hbase : sramPhysicalAddress.toNat = 0xA4000000 := rfl
      exact ⟨t, hwalk, .inl ⟨hinNew, by omega⟩⟩
    · by_cases hinWindow : ∃ w : Window, l1IndexOf va = l1IndexOf w.base
      · obtain ⟨w, hw⟩ := hinWindow
        have hsection := hwindow w
        rw [← hw] at hsection
        obtain ⟨t, hwalk, ht⟩ := walk_megabyte hsection
        exact ⟨t, hwalk, .inr ⟨⟨w, hw⟩, ht⟩⟩
      · exact absurd (constructed_walk_other h ap cp domain hinNew (not_exists.mp hinWindow)) hva

/-! ## Behind the windows -/

theorem relocatable_bootSystem :
    Relocatable (bootSystem 0xA4000C0E#32 0xA4000C0E#32 false) 0x10000000#32 := by
  have hallocated := allocated_bootSystem (fun _ => 0) 0xA4000C0E#32 0xA4000C0E#32 false
  refine
    { running := rfl
      alive := rfl
      windows := fun w => by cases w <;> exact ⟨by decide, by decide⟩
      newFault := by decide
      allocated := ⟨hallocated.aligned, hallocated.reached, hallocated.spared⟩
      spared := fun i _ => spares_of_none ?_ }
  simp only [bootSystem]
  split_ifs <;> decide

/-- Both windows are sections onto the SRAM, which is asked for at `0x20000000`. -/
theorem remapped_boot :
    (constructed (bootSystem 0xA4000C0E#32 0xA4000C0E#32 false) .fullAccess .writeBackCache 0
        0x10000000#32).failure = none ∧
      Remapped 0x10000000#32 0x20000000#32 (bootSystem 0xA4000C0E#32 0xA4000C0E#32 false)
        (constructed (bootSystem 0xA4000C0E#32 0xA4000C0E#32 false) .fullAccess .writeBackCache 0
          0x10000000#32) :=
  remapped _ 0x10000000#32 relocatable_bootSystem .fullAccess .writeBackCache 0

/-- Behind the SRAM's window, at `0xA4040000`, the memory after the clone is reached. -/
theorem granule_too_coarse :
    ¬ OnlyBlocksReached 0x10000000#32 (bootSystem 0xA4000C0E#32 0xA4000C0E#32 false)
        (constructed (bootSystem 0xA4000C0E#32 0xA4000C0E#32 false) .fullAccess .writeBackCache 0
          0x10000000#32) := by
  intro honly
  have hindex : l1IndexOf Window.sram.base = l1IndexOf 0xA4040000#32 := by decide
  have hwindow := constructed_window relocatable_bootSystem .fullAccess .writeBackCache 0 .sram
  have hsram := relocatable_bootSystem.windows .sram
  rw [hindex] at hwindow hsram
  obtain ⟨t, hwalk, ht⟩ := walk_megabyte hwindow
  obtain ⟨u, hbefore, hu⟩ := walk_megabyte hsram
  have hbase : sramPhysicalAddress.toNat = 0xA4000000 := rfl
  have hclone : (0x10000000#32).toNat = 0x10000000 := rfl
  have hoffset : (0xA4040000#32).toNat % 2 ^ 20 = 0x40000 := by decide
  have hchanged : (constructed (bootSystem 0xA4000C0E#32 0xA4000C0E#32 false) .fullAccess
      .writeBackCache 0 0x10000000#32).walk 0xA4040000#32 ≠
        (bootSystem 0xA4000C0E#32 0xA4000C0E#32 false).walk 0xA4040000#32 := by
    intro heq
    obtain rfl := Walk.mapped.inj ((hwalk.symm.trans heq).trans hbefore)
    omega
  have hsize : sramSize = 0x40000 := rfl
  have hreached := honly _ t hchanged hwalk
  simp only [Block.Holds, cloneBlock, sramBlock] at hreached
  omega

end NspireUtils.Ports.SRAMWindows
