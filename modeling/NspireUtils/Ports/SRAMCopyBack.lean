import NspireUtils.Ports.SRAMCaches

/-!
# Copying the clone back through the cache

The destructor writes the SRAM through its new address and reads the clone through
the heap's.  What it flushes is the clone, the block it has read; the constructor
flushes the block it has written.  So with a write-back mapping of the new address
the contents stay in the cache, in lines whose address is unmapped next.

The OS works on the clone through windows that are not cached, so what memory holds
in the clone when the destructor is called is the content that has to come back.
`copiedBack_iff` says for which mappings and for which lines in the cache it does,
whatever is evicted while the destructor runs.
-/

namespace NspireUtils.Ports.SRAMCopyBack

open NspireUtils.Verified.BitFields
open NspireUtils.Verified.ByteMemory
open NspireUtils.Verified.ShortDescriptor
open NspireUtils.Verified.Runs
open NspireUtils.Verified.WriteBackCache (lineSize lineOf)
open NspireUtils.Verified.VirtualCache
open NspireUtils.Verified.AliasedCopy (Instr BlockCopy)
open NspireUtils.Ports.MMUDescriptors
open NspireUtils.Ports.TableEditors
open NspireUtils.Ports.SRAMAccessor
open NspireUtils.Ports.SRAMRelocation
open NspireUtils.Ports.SRAMLifetime
open NspireUtils.Ports.SRAMRestore
open NspireUtils.Ports.SRAMCaches

/-- The physical SRAM holds the content in memory, and no line of the new address is
dirty. -/
structure CopiedBack (new : Word) (content : Nat → Byte) (v : Virtual) : Prop where
  sram : ∀ o, o < sramSize → v.mem (sramPhysicalAddress.toNat + o) = content o
  clean : ∀ o e, o < sramSize → v.lines (lineOf (new.toNat + o)) = some e → e.dirty = false

/-- What the clone holds in memory. -/
def cloneContent (clone : Word) (v : Virtual) (o : Nat) : Byte := v.mem (clone.toNat + o)

/-- The lines in the cache when the destructor is called: none of the new address is
dirty, the clone reads through its address as it is in memory, and a dirty line that
would be written over the clone or the SRAM holds the clone's bytes. -/
structure Unspoiled (s : System) (clone new : Word) (v : Virtual) : Prop where
  clean : ∀ o e, o < sramSize → v.lines (lineOf (new.toNat + o)) = some e → e.dirty = false
  reads : ∀ o, o < sramSize →
    v.read (policyAt s (clone + BitVec.ofNat 32 (4 * (o / 4)))) (clone.toNat + o)
      (clone.toNat + o) = cloneContent clone v o
  dirty : ∀ k e, v.lines k = some e → e.dirty = true → ∀ o, o < sramSize →
    (lineOf (clone.toNat + o) = e.physical →
        e.data ((clone.toNat + o) % lineSize) = cloneContent clone v o) ∧
      (lineOf (sramPhysicalAddress.toNat + o) = e.physical →
        e.data ((sramPhysicalAddress.toNat + o) % lineSize) = cloneContent clone v o)

/-- In every run of the destructor that comes to its end, whatever lines are evicted
meanwhile, the content is copied back. -/
def AlwaysCopiedBack (s : System) (clone new : Word) (v : Virtual) : Prop :=
  ∀ events, (run CachedConfig.step ⟨⟨s, v⟩, destroy s.accessor⟩ events).todo = [] →
    CopiedBack new (cloneContent clone v)
      (run CachedConfig.step ⟨⟨s, v⟩, destroy s.accessor⟩ events).state.cache

/-! ## The destructor as a copy between aliases -/

/-- The copy of the destructor. -/
def copyBack (s : System) (clone new : Word) : BlockCopy :=
  { words := sramSize / 4
    src := clone.toNat
    srcPolicy := fun i => policyAt s (clone + BitVec.ofNat 32 (4 * i))
    dst := new.toNat
    dstPhysical := sramPhysicalAddress.toNat
    dstPolicy := policyAt s new }

/-- What the destructor finds: the clone at its address, and the SRAM at the new one. -/
structure Aliased (s : System) (clone new : Word) : Prop where
  running : s.failure = none
  placement : Placement clone new
  cloneMapped : CloneMapped s clone
  newMapped : MapsSection (s.l1 (l1IndexOf new)) sramPhysicalAddress.toNat

section Copy

variable {s : System} {clone new : Word} (h : Aliased s clone new)

theorem size_copyBack : (copyBack s clone new).size = sramSize :=
  Nat.mul_div_cancel' (show 4 ∣ sramSize by decide)

theorem placed_copyBack (p : Placement clone new) : (copyBack s clone new).Placed := by
  have hbefore := p.before_or_after
  have hindex := p.newNotClone
  obtain ⟨hclone, -, -, hnew, -, -⟩ := p
  have hsram : sramPhysicalAddress.toNat = 0xA4000000 := rfl
  simp only [l1IndexOf, toNat_extract] at hindex
  have hsize : sramSize = 262144 := rfl
  refine
    { srcAligned := show 32 ∣ clone.toNat by omega
      dstAligned := show 32 ∣ new.toNat by omega
      physicalAligned := show 32 ∣ sramPhysicalAddress.toNat by decide
      sizeAligned := ?_
      apart := ?_
      physicalApart := ?_ } <;> rw [size_copyBack, hsize]
  · decide
  · show clone.toNat + 262144 ≤ new.toNat ∨ new.toNat + 262144 ≤ clone.toNat
    omega
  · rwa [hsize] at hbefore

/-- Through a section the policy is the same everywhere. -/
theorem policyAt_offset (haligned : 2 ^ 20 ∣ new.toNat)
    (hmapped : MapsSection (s.l1 (l1IndexOf new)) sramPhysicalAddress.toNat) {o : Nat}
    (ho : o < 2 ^ 20) : policyAt s (new + BitVec.ofNat 32 o) = policyAt s new := by
  simp only [policyAt, System.walk]
  rw [l1IndexOf_offset haligned ho, walkEntry_section _ _ hmapped.1,
    walkEntry_section _ _ hmapped.1]
  rfl

section

include h

/-- A word of `memcpy` is a word of the copy. -/
theorem cacheInstr_copyOp {i : Nat} (hi : i < sramSize / 4) :
    cacheInstr s (copyOp new clone i) = .copyWord ((copyBack s clone new).word i) ∧
      execTables s (copyOp new clone i) = s := by
  have hoffset : 4 * i < sramSize := by
    unfold sramSize at hi ⊢
    omega
  have hlt := Nat.lt_trans hoffset sramSize_lt
  obtain ⟨t, ht, htphysical⟩ := h.cloneMapped.identity _ hoffset
  obtain ⟨u, hu, huphysical⟩ := walk_section h.newMapped h.placement.newAligned hlt
  refine ⟨?_, execTables_copyWord h.running ht hu⟩
  rw [copyOp, cacheInstr_copyWord h.running ht hu, htphysical, huphysical,
    policyAt_offset h.placement.newAligned h.newMapped hlt,
    toNat_offset h.placement.newAligned hlt, toNat_offset h.placement.cloneAligned hlt]
  rfl

theorem instrs_memcpy {is : List Nat} (his : ∀ i ∈ is, i < sramSize / 4) :
    instrs s (is.map (copyOp new clone)) =
      is.map fun i => .copyWord ((copyBack s clone new).word i) := by
  rw [(instrs_copyOps fun i hi => (cacheInstr_copyOp h (his i hi)).2).1]
  exact List.map_congr_left fun i hi => (cacheInstr_copyOp h (his i hi)).1

/-- Masking the interrupts changes no translation. -/
theorem aliased_disableInterrupts :
    Aliased (execTables s .disableInterrupts) clone new ∧
      copyBack (execTables s .disableInterrupts) clone new = copyBack s clone new := by
  obtain ⟨calls, hcalls, -⟩ := exec_disableInterrupts h.running
  rw [execTables, hcalls]
  exact ⟨⟨h.running, h.placement, ⟨h.cloneMapped.identity, h.cloneMapped.tables⟩, h.newMapped⟩, rfl⟩

end

/-- The operations before the contents are copied back, and those after. -/
theorem destroy_eq {a : Accessor} (hcloned : a.clonedSRAMBlock = some clone)
    (hinit : a.initSuccessful = true) :
    destroy a = (.disableInterrupts :: memcpy a.newSRAMAddress clone sramSize) ++
      restore a.newSRAMAddress clone := by
  rw [destroy, hcloned]
  exact if_pos hinit

include h

theorem instrs_copies :
    instrs s (.disableInterrupts :: memcpy new clone sramSize) =
      .other :: (List.range' 0 (sramSize / 4)).map
        fun i => .copyWord ((copyBack s clone new).word i) := by
  obtain ⟨haliased, hcopy⟩ := aliased_disableInterrupts h
  rw [instrs, cacheInstr_other (by simp) (by simp), memcpy_eq, instrs_memcpy haliased, hcopy]
  intro i hi
  exact (List.mem_range'_1.mp hi).2.trans_eq (Nat.zero_add _)

/-- The end of the destructor cleans lines of the clone and reaches the cache in no other
way. -/
theorem cleaning_restore (s' : System) :
    (copyBack s clone new).Cleaning (instrs s' (restore new clone)) := by
  have hlines : ∀ l ∈ flushedLines clone (clone + BitVec.ofNat 32 sramSize),
      l ∈ (copyBack s clone new).srcLines := by
    intro l hl
    obtain ⟨o, ho, hline⟩ := (mem_flushedClone h.placement.cloneAligned).mp hl
    exact BlockCopy.mem_srcLines.mpr ⟨o, ho.trans_eq size_copyBack.symm, hline⟩
  intro i hi
  rcases instrs_of_nocopy (by simp [restore]) s' i hi with hother | ⟨start, stop, hmem, hclean⟩
  · exact .inl hother
  · obtain ⟨rfl, rfl⟩ : start = clone ∧ stop = clone + BitVec.ofNat 32 sramSize := by
      simpa [restore] using hmem
    exact .inr ⟨_, hclean, hlines⟩

theorem program_destroy (s' : System) :
    (copyBack s clone new).Program
      (instrs s (.disableInterrupts :: memcpy new clone sramSize))
      (instrs s' (restore new clone)) := by
  rw [instrs_copies h]
  refine ⟨fun i hi => ?_, fun j hj => ?_, cleaning_restore h s'⟩
  · rcases List.mem_cons.mp hi with rfl | hmem
    · exact .inl rfl
    · obtain ⟨j, hj, rfl⟩ := List.mem_map.mp hmem
      exact .inr ⟨j, (List.mem_range'_1.mp hj).2.trans_eq (Nat.zero_add _), rfl⟩
  · refine List.mem_cons_of_mem _ (List.mem_map.mpr ⟨j, ?_, rfl⟩)
    exact List.mem_range'_1.mpr ⟨Nat.zero_le j, hj.trans_eq (Nat.zero_add _).symm⟩

omit h in
theorem harmless_copyBack (v : Virtual) :
    (copyBack s clone new).Harmless (cloneContent clone v) v ↔ Unspoiled s clone new v := by
  have hsize : ∀ {o}, o < (copyBack s clone new).size ↔ o < sramSize := by simp [size_copyBack]
  constructor
  · rintro ⟨hreads, hclean, hdirty⟩
    exact ⟨fun o e ho => hclean o e (hsize.mpr ho), fun o ho => hreads o (hsize.mpr ho),
      fun k e he hd o ho => hdirty k e he hd o (hsize.mpr ho)⟩
  · rintro ⟨hclean, hreads, hdirty⟩
    exact ⟨fun o ho => hreads o (hsize.mp ho), fun o e ho => hclean o e (hsize.mp ho),
      fun k e he hd o ho => hdirty k e he hd o (hsize.mp ho)⟩

omit h in
theorem copied_copyBack {content : Nat → Byte} {v : Virtual} :
    (copyBack s clone new).Copied content v ↔ CopiedBack new content v := by
  have hsize : ∀ {o}, o < (copyBack s clone new).size ↔ o < sramSize := by simp [size_copyBack]
  constructor
  · rintro ⟨hmem, hclean⟩
    exact ⟨fun o ho => hmem o (hsize.mpr ho), fun o e ho => hclean o e (hsize.mpr ho)⟩
  · rintro ⟨hsram, hclean⟩
    exact ⟨fun o ho => hsram o (hsize.mp ho), fun o e ho => hclean o e (hsize.mp ho)⟩

/-- The destructor comes to its end in the same runs as the copy. -/
theorem always_iff (hcloned : s.accessor.clonedSRAMBlock = some clone)
    (hinit : s.accessor.initSuccessful = true) (hnew : s.accessor.newSRAMAddress = new)
    (v : Virtual) :
    AlwaysCopiedBack s clone new v ↔
      policyAt s new ≠ .writeBack ∧ Unspoiled s clone new v := by
  have hiff := BlockCopy.copied_iff (placed_copyBack h.placement) (show 0 < sramSize / 4 by decide)
    (program_destroy h (execAllTables s (.disableInterrupts :: memcpy new clone sramSize))) v
    (cloneContent clone v) fun o _ => rfl
  rw [← instrs_append, ← hnew, ← destroy_eq hcloned hinit, harmless_copyBack] at hiff
  rw [← hnew]
  refine Iff.trans (forall_congr' fun events => ?_) hiff
  have hrun : onCache (run CachedConfig.step ⟨⟨s, v⟩, destroy s.accessor⟩ events) =
      run Verified.AliasedCopy.Config.step ⟨v, instrs s (destroy s.accessor)⟩ events :=
    onCache_run events _
  rw [← onCache_done, ← hrun, copied_copyBack]
  rfl

end Copy

/-! ## After the constructor -/

section Constructed

variable {s : System} {clone : Word} (h : Ready s clone) (ap : MMUAccessPermission)
  (cp : MMUCachePolicy) (domain : Byte)
include h

theorem aliased_constructed :
    Aliased (constructed s ap cp domain clone) clone s.accessor.newSRAMAddress := by
  rw [← finish_start]
  obtain ⟨hexposed, -⟩ := setUp_finish h ap cp domain
  exact ⟨hexposed.core.running, h.placement, hexposed.core.cloneMapped, hexposed.newMapped⟩

/-- After the constructor the policy of the new address is the one it was given. -/
theorem always_constructed_iff (v : Virtual) :
    AlwaysCopiedBack (constructed s ap cp domain clone) clone s.accessor.newSRAMAddress v ↔
      selected cp ≠ .writeBack ∧
        Unspoiled (constructed s ap cp domain clone) clone s.accessor.newSRAMAddress v := by
  have haliased := aliased_constructed h ap cp domain
  obtain ⟨hl1, -, haccessor⟩ := constructed_done haliased.running
  have hpolicy : policyAt (constructed s ap cp domain clone) s.accessor.newSRAMAddress =
      selected cp :=
    policyAt_section (by rw [hl1, Function.update_self])
  rw [always_iff haliased (by rw [haccessor]) (by rw [haccessor]) (by rw [haccessor]) v, hpolicy]

end Constructed

/-- **When the contents are copied back.**  After the constructor and whatever happened to
the clone and to the cache since, every run of the destructor leaves the clone's bytes in
the physical SRAM and no dirty line at the new address, if and only if the new address
was not mapped write-back and the lines in the cache do not spoil the copy. -/
theorem copiedBack_iff {s : System} {clone : Word} (h : Ready s clone) (ap : MMUAccessPermission)
    (cp : MMUCachePolicy) (domain : Byte) (v : Virtual) :
    AlwaysCopiedBack (constructed s ap cp domain clone) clone s.accessor.newSRAMAddress v ↔
      cp ≠ .writeBackCache ∧
        Unspoiled (constructed s ap cp domain clone) clone s.accessor.newSRAMAddress v := by
  rw [always_constructed_iff h, Ne, selected_eq_writeBack]

/-- An empty cache. -/
def emptyCache (mem : Memory) : Virtual := { mem, lines := fun _ => none }

theorem unspoiled_emptyCache (s : System) (clone new : Word) (mem : Memory) :
    Unspoiled s clone new (emptyCache mem) := by
  refine ⟨fun o e _ he => ?_, fun o _ => ?_, fun k e he => ?_⟩
  · exact absurd he (by simp [emptyCache])
  · simp only [Virtual.read, emptyCache, ite_self, cloneContent]
  · exact absurd he (by simp [emptyCache])

/-- Written through, the contents of an empty cache come back. -/
theorem copiedBack_writeThrough :
    AlwaysCopiedBack
      (constructed (bootSystem 0xA4000C1E#32 0xA4000C1E#32 false) .fullAccess .writeThroughCache 0
        0x10000000#32) 0x10000000#32 0x20000000#32 (emptyCache fun a => BitVec.ofNat 8 a) :=
  (copiedBack_iff (ready_bootSystem ⟨by decide, by decide⟩) .fullAccess .writeThroughCache 0 _).mpr
    ⟨by decide, unspoiled_emptyCache _ _ _ _⟩

/-- With the default policy they stay in the cache. -/
theorem contents_stay_cached :
    ¬ ∀ (s : System) (clone : Word) (ap : MMUAccessPermission) (cp : MMUCachePolicy) (domain : Byte)
      (v : Virtual), Ready s clone →
      AlwaysCopiedBack (constructed s ap cp domain clone) clone s.accessor.newSRAMAddress v := by
  intro hall
  have hready : Ready (bootSystem 0xA4000C1E#32 0xA4000C1E#32 false) 0x10000000#32 :=
    ready_bootSystem ⟨by decide, by decide⟩
  have hclaim := hall _ _ .fullAccess .writeBackCache 0 (emptyCache fun _ => 0) hready
  exact ((always_constructed_iff hready _ _ _ _).mp hclaim).1 rfl

end NspireUtils.Ports.SRAMCopyBack
