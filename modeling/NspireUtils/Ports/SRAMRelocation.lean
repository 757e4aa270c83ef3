import NspireUtils.Ports.SRAMAccessor
import NspireUtils.Verified.ProofOutline
import NspireUtils.Verified.Runs

/-!
# Relocating the SRAM under a running OS

The life of an `SRAM_Accessor` with the OS, its interrupt handlers and the user
of the SRAM acting in between: `Config.step` performs one operation of the
running constructor or destructor, one access of somebody else, or the call of
the destructor.

`kept` is a history variable.  It records for each address of the OS's window
the last value written there that the accessor did not lose: a write is `Lost`
if it falls between the copy of its word and the call of `disableInterrupts` in
the constructor.  `window_run` is the theorem about every interleaving: once a
call has finished, the window reads what was kept.

The proof is a pair of proof outlines, one for the constructor and one for the
destructor, with an assertion before every operation.
-/

namespace NspireUtils.Ports.SRAMRelocation

open NspireUtils.Verified.BitFields
open NspireUtils.Verified.ByteMemory
open NspireUtils.Verified.ShortDescriptor
open NspireUtils.Verified.Runs
open NspireUtils.Verified.ProofOutline
open NspireUtils.Ports.MMUDescriptors
open NspireUtils.Ports.TableEditors
open NspireUtils.Ports.SRAMAccessor

/-- The two windows through which the OS reaches the SRAM. -/
inductive Window where
  | sram
  | zero
  deriving Repr, DecidableEq

/-- Where the window begins. -/
def Window.base : Window → Word
  | .sram => sramPhysicalAddress
  | .zero => 0x00000000#32

/-- A store by the OS or one of its handlers, or by the user of the SRAM. -/
inductive Access where
  | os (w : Window) (offset : Nat) (value : Byte)
  | user (offset : Nat) (value : Byte)
  deriving Repr, DecidableEq

/-- The system, and what the OS may expect to read in its window. -/
structure View where
  system : System
  kept : Nat → Byte

/-- The constructor has still to copy the word of the offset. -/
def copyPending (todo : List SRAMOp) (offset : Nat) : Bool :=
  todo.any fun op =>
    match op with
    | .copyWord _ src => src == sramPhysicalAddress + BitVec.ofNat 32 (4 * (offset / 4))
    | _ => false

/-- A store to the offset now is lost: the constructor has copied its word and
has not yet disabled interrupts. -/
def Lost (s : System) (todo : List SRAMOp) (offset : Nat) : Prop :=
  s.accessor.initSuccessful = false ∧ .disableInterrupts ∈ todo ∧ copyPending todo offset = false

instance (s : System) (todo : List SRAMOp) (offset : Nat) : Decidable (Lost s todo offset) := by
  unfold Lost
  infer_instance

namespace View

/-- An operation of the accessor. -/
def exec (v : View) (op : SRAMOp) : View := { v with system := v.system.exec op }

/-- An access by somebody else. -/
def access (v : View) (todo : List SRAMOp) : Access → View
  | .os w offset value =>
      { system := v.system.store (w.base + BitVec.ofNat 32 offset) value
        kept := if Lost v.system todo offset then v.kept
          else Function.update v.kept offset value }
  | .user offset value =>
      { v with
        system := v.system.store
          (v.system.accessor.newSRAMAddress + BitVec.ofNat 32 offset) value }

/-- Both callbacks are given. -/
def HasCallbacks (v : View) : Prop :=
  v.system.accessor.disableInterrupts = true ∧ v.system.accessor.enableInterrupts = true

/-- The accessor is set up and no call is running. -/
def Between (v : View) (todo : List SRAMOp) : Prop :=
  todo = [] ∧ v.system.accessor.initSuccessful = true ∧
    v.system.accessor.clonedSRAMBlock.isSome = true

/-- The accesses that can happen.  The OS's window is accessed when no call is
running, and by handlers whenever interrupts are not masked; the other two
windows only while the accessor is set up. -/
def Permitted (v : View) (todo : List SRAMOp) : Access → Prop
  | .os .sram offset _ =>
      offset < sramSize ∧ (todo = [] ∨ (v.HasCallbacks ∧ v.system.masked = false))
  | .os .zero offset _ =>
      offset < sramSize ∧ v.Between todo ∧
        l1IndexOf v.system.accessor.newSRAMAddress ≠ l1IndexOf Window.zero.base
  | .user offset _ => offset < sramSize ∧ v.Between todo

end View

/-- The state of a run: the view and the operations of the running call. -/
structure Config where
  view : View
  todo : List SRAMOp

/-- One step of a run. -/
inductive Event where
  | program
  | access (a : Access)
  | destroy
  deriving Repr, DecidableEq

namespace Config

/-- One step. -/
def step (c : Config) : Event → Config
  | .program =>
      match c.todo with
      | [] => c
      | op :: rest => { view := c.view.exec op, todo := rest }
  | .access a => { c with view := c.view.access c.todo a }
  | .destroy => { c with todo := destroy c.view.system.accessor }

/-- The destructor is called when no call is running. -/
def Legal (c : Config) : Event → Prop
  | .program => True
  | .access a => c.view.Permitted c.todo a
  | .destroy => c.todo = []

end Config

/-! ## Accesses through a section -/

/-- The entry is a section descriptor onto the megabyte at `base`. -/
def MapsSection (entry : Word) (base : Nat) : Prop :=
  entry.extractLsb' 0 2 = 0b10#2 ∧ (entry.extractLsb' 20 12).toNat * 2 ^ 20 = base

/-- The descriptor `MapSection` writes maps the megabyte it was given. -/
theorem mapsSection_descriptor {physicalAddr : Word} (haligned : 2 ^ 20 ∣ physicalAddr.toNat)
    (ap : MMUAccessPermission) (cp : MMUCachePolicy) (domain : Byte) :
    MapsSection (sectionDescriptor physicalAddr (sectionAttributes ap cp domain))
      physicalAddr.toNat := by
  obtain ⟨htype, hbase, -⟩ := sectionDescriptor_fields physicalAddr ap cp domain
  refine ⟨htype, ?_⟩
  rw [hbase]
  exact toNat_extract_high_of_dvd (k := 20) (by omega) haligned

section Addresses

variable {base : Word} {offset : Nat} (haligned : 2 ^ 20 ∣ base.toNat) (ho : offset < 2 ^ 20)
include haligned ho

theorem toNat_offset : (base + BitVec.ofNat 32 offset).toNat = base.toNat + offset := by
  have hlt := base.isLt
  rw [BitVec.toNat_add, BitVec.toNat_ofNat]
  omega

/-- An offset below 1 MB stays in the megabyte. -/
theorem l1IndexOf_offset : l1IndexOf (base + BitVec.ofNat 32 offset) = l1IndexOf base := by
  have hsum := toNat_offset haligned ho
  simp only [l1IndexOf, toNat_extract]
  omega

theorem extract_offset :
    ((base + BitVec.ofNat 32 offset).extractLsb' 0 20).toNat = offset := by
  have hsum := toNat_offset haligned ho
  rw [toNat_extract]
  omega

end Addresses

/-- A section maps its megabyte to one megabyte of memory. -/
theorem walk_section {s : System} {base : Word} {physical offset : Nat}
    (h : MapsSection (s.l1 (l1IndexOf base)) physical) (haligned : 2 ^ 20 ∣ base.toNat)
    (ho : offset < 2 ^ 20) :
    ∃ t, s.walk (base + BitVec.ofNat 32 offset) = .mapped t ∧
      t.physical.toNat = physical + offset := by
  obtain ⟨htype, hphysical⟩ := h
  have hindex := l1IndexOf_offset haligned ho
  have hwalk := walkEntry_section s.mem (base + BitVec.ofNat 32 offset) htype
  rw [← hindex] at hwalk
  refine ⟨_, hwalk, ?_⟩
  rw [BitVec.toNat_append, ← Nat.shiftLeft_add_eq_or_of_lt (BitVec.isLt _), Nat.shiftLeft_eq,
    hindex, extract_offset haligned ho, hphysical]

theorem load_section {s : System} {base : Word} {physical offset : Nat}
    (h : MapsSection (s.l1 (l1IndexOf base)) physical) (haligned : 2 ^ 20 ∣ base.toNat)
    (ho : offset < 2 ^ 20) :
    s.load (base + BitVec.ofNat 32 offset) = some (s.mem (physical + offset)) := by
  obtain ⟨t, hwalk, hphysical⟩ := walk_section h haligned ho
  rw [System.load, hwalk, ← hphysical]

theorem store_section {s : System} {base : Word} {physical offset : Nat}
    (h : MapsSection (s.l1 (l1IndexOf base)) physical) (haligned : 2 ^ 20 ∣ base.toNat)
    (ho : offset < 2 ^ 20) (value : Byte) :
    s.store (base + BitVec.ofNat 32 offset) value =
      { s with mem := Function.update s.mem (physical + offset) value } := by
  obtain ⟨t, hwalk, hphysical⟩ := walk_section h haligned ho
  rw [System.store, hwalk, ← hphysical]

/-- A copied word, between two addresses that are mapped. -/
theorem exec_copyWord {s : System} {dst src : Word} {t u : Translation}
    (hrunning : s.failure = none) (hsrc : s.walk src = .mapped t) (hdst : s.walk dst = .mapped u) :
    s.exec (.copyWord dst src) =
      { s with
        mem := writeWord s.mem u.physical.toNat (readWord s.mem t.physical.toNat) } := by
  rw [System.exec_of_running hrunning, System.perform, hsrc, hdst]

/-! ## Where the pieces lie -/

/-- The physical SRAM. -/
def sramBlock : Block := ⟨sramPhysicalAddress.toNat, sramSize⟩

/-- The block the SRAM is cloned into. -/
def cloneBlock (clone : Word) : Block := ⟨clone.toNat, sramSize⟩

/-- What the caller and the allocator promise about the addresses: the clone is
an aligned heap block apart from the SRAM, and the new address begins a megabyte
that holds neither. -/
structure Placement (clone newSRAMAddress : Word) : Prop where
  cloneAligned : 2 ^ 20 ∣ clone.toNat
  cloneNonNull : clone ≠ 0
  cloneApart : (cloneBlock clone).Apart sramBlock
  newAligned : 2 ^ 20 ∣ newSRAMAddress.toNat
  newNotSram : l1IndexOf newSRAMAddress ≠ l1IndexOf sramPhysicalAddress
  newNotClone : l1IndexOf newSRAMAddress ≠ l1IndexOf clone

theorem sramAligned : 2 ^ 20 ∣ sramPhysicalAddress.toNat := by decide

/-- Aligned addresses in the same megabyte are equal. -/
theorem eq_of_l1IndexOf {x y : Word} (hx : 2 ^ 20 ∣ x.toNat) (hy : 2 ^ 20 ∣ y.toNat)
    (h : l1IndexOf x = l1IndexOf y) : x = y := by
  have hltx := x.isLt
  have hlty := y.isLt
  simp only [l1IndexOf, toNat_extract] at h
  exact BitVec.eq_of_toNat_eq (by omega)

namespace Placement

variable {clone new : Word} (p : Placement clone new)
include p

/-- The clone and the SRAM lie one after the other. -/
theorem before_or_after :
    clone.toNat + sramSize ≤ sramPhysicalAddress.toNat ∨
      sramPhysicalAddress.toNat + sramSize ≤ clone.toNat :=
  p.cloneApart.before_or_after (show 0 < sramSize by decide) (show 0 < sramSize by decide)

theorem cloneNotSram : l1IndexOf clone ≠ l1IndexOf sramPhysicalAddress := by
  intro h
  have heq := eq_of_l1IndexOf p.cloneAligned sramAligned h
  have happ := before_or_after p
  rw [heq] at happ
  simp only [sramSize] at happ
  omega

theorem cloneNotZero : l1IndexOf clone ≠ l1IndexOf Window.zero.base := fun h =>
  p.cloneNonNull (eq_of_l1IndexOf p.cloneAligned (by decide) h)

end Placement

/-- The clone is reached at its physical address, through tables that lie in
neither block. -/
structure CloneMapped (s : System) (clone : Word) : Prop where
  identity : ∀ o, o < sramSize → ∃ t, s.walk (clone + BitVec.ofNat 32 o) = .mapped t ∧
    t.physical.toNat = clone.toNat + o
  tables : ∀ b, secondLevel (s.l1 (l1IndexOf clone)) = some b →
    b.Apart sramBlock ∧ b.Apart (cloneBlock clone)

theorem sramSize_lt : sramSize < 2 ^ 20 := by decide

/-- The clone stays mapped if its entry stays and only the two blocks are
written. -/
theorem CloneMapped.congr {s s' : System} {clone : Word} (h : CloneMapped s clone)
    (haligned : 2 ^ 20 ∣ clone.toNat)
    (hentry : s'.l1 (l1IndexOf clone) = s.l1 (l1IndexOf clone))
    (hmem : ∀ a, ¬ sramBlock.Holds a → ¬ (cloneBlock clone).Holds a → s'.mem a = s.mem a) :
    CloneMapped s' clone := by
  refine ⟨fun o ho => ?_, fun b hb => h.tables b (by rwa [hentry] at hb)⟩
  obtain ⟨t, hwalk, hphysical⟩ := h.identity o ho
  refine ⟨t, ?_, hphysical⟩
  rw [← hwalk]
  have hindex := l1IndexOf_offset haligned (Nat.lt_trans ho sramSize_lt)
  rw [System.walk, System.walk, hindex, hentry]
  refine walkEntry_congr fun b hb a ha => ?_
  obtain ⟨hsram, hclone⟩ := h.tables b hb
  exact hmem a (hsram a ha) (hclone a ha)

/-! ## The assertions of the outline -/

/-- What every assertion says. -/
structure Core (clone new : Word) (s : System) : Prop where
  running : s.failure = none
  alive : s.editorAlive = true
  newAddress : s.accessor.newSRAMAddress = new
  cloneMapped : CloneMapped s clone

/-- Handlers cannot run. -/
def Masked (v : View) : Prop := v.HasCallbacks → v.system.masked = true

/-- The constructor has copied `i` words. -/
structure Copying (clone new : Word) (i : Nat) (v : View) : Prop where
  core : Core clone new v.system
  window : MapsSection (v.system.l1 (l1IndexOf sramPhysicalAddress)) sramPhysicalAddress.toNat
  initializing : v.system.accessor.initSuccessful = false
  copied : ∀ o, o < sramSize → o < 4 * i → v.system.mem (clone.toNat + o) = v.kept o
  pending : ∀ o, o < sramSize → 4 * i ≤ o →
    v.system.mem (sramPhysicalAddress.toNat + o) = v.kept o

/-- The OS's window leads to the clone. -/
structure Relocated (clone new : Word) (v : View) : Prop where
  core : Core clone new v.system
  cloned : v.system.accessor.clonedSRAMBlock = some clone
  window : MapsSection (v.system.l1 (l1IndexOf sramPhysicalAddress)) clone.toNat
  content : ∀ o, o < sramSize → v.system.mem (clone.toNat + o) = v.kept o

/-- So does the window at zero, unless the SRAM was asked for there. -/
def ZeroMapped (clone new : Word) (v : View) : Prop :=
  l1IndexOf new ≠ l1IndexOf Window.zero.base →
    MapsSection (v.system.l1 (l1IndexOf Window.zero.base)) clone.toNat

/-- The new address leads to the SRAM. -/
def NewMapped (new : Word) (v : View) : Prop :=
  MapsSection (v.system.l1 (l1IndexOf new)) sramPhysicalAddress.toNat

/-- All three windows are in place. -/
structure Exposed (clone new : Word) (v : View) : Prop extends Relocated clone new v where
  zero : ZeroMapped clone new v
  newMapped : NewMapped new v

/-- The OS's window leads to the SRAM again. -/
structure Restored (v : View) : Prop where
  running : v.system.failure = none
  alive : v.system.editorAlive = true
  initialized : v.system.accessor.initSuccessful = true
  window : MapsSection (v.system.l1 (l1IndexOf sramPhysicalAddress)) sramPhysicalAddress.toNat
  content : ∀ o, o < sramSize → v.system.mem (sramPhysicalAddress.toNat + o) = v.kept o

/-! ## Stability -/

/-- Word `i` of a `memcpy`. -/
def copyOp (dst src : Word) (i : Nat) : SRAMOp :=
  .copyWord (dst + BitVec.ofNat 32 (4 * i)) (src + BitVec.ofNat 32 (4 * i))

theorem memcpy_eq (dst src : Word) (bytes : Nat) :
    memcpy dst src bytes = (List.range' 0 (bytes / 4)).map (copyOp dst src) := rfl

/-- While `memcpy` is at word `i`, the words from `i` on are pending. -/
theorem copyPending_iff {clone : Word} {i offset : Nat} {rest : List SRAMOp}
    (ho : offset < sramSize) (hi : i ≤ sramSize / 4)
    (hrest : ∀ dst src, SRAMOp.copyWord dst src ∉ rest) :
    copyPending ((List.range' i (sramSize / 4 - i)).map
      (copyOp clone sramPhysicalAddress) ++ rest) offset = true ↔ 4 * i ≤ offset := by
  have hsize : sramSize = 262144 := rfl
  simp only [copyPending, List.any_eq_true]
  constructor
  · rintro ⟨op, hop, hsrc⟩
    rcases List.mem_append.mp hop with hmem | hmem
    · obtain ⟨j, hj, rfl⟩ := List.mem_map.mp hmem
      have hrange := List.mem_range'_1.mp hj
      simp only [copyOp, beq_iff_eq] at hsrc
      have heq := congrArg BitVec.toNat hsrc
      rw [toNat_offset (by decide) (by omega), toNat_offset (by decide) (by omega)] at heq
      omega
    · cases op with
      | copyWord dst src => exact absurd hmem (hrest dst src)
      | _ => simp at hsrc
  · intro hle
    refine ⟨copyOp clone sramPhysicalAddress (offset / 4), List.mem_append_left _ ?_, by
      simp [copyOp]⟩
    exact List.mem_map_of_mem (List.mem_range'_1.mpr (by omega))

section Stability

variable {clone new : Word} (p : Placement clone new)

/-- Nothing interferes while interrupts are masked and a call is running. -/
theorem stable_of_masked {P : View → Prop} {op : SRAMOp} {rest : List SRAMOp}
    (hmasked : ∀ v, P v → Masked v) : Stable View.access View.Permitted P (op :: rest) := by
  intro v a ha hP
  have hno : ∀ offset, ¬ (offset < sramSize ∧
      (op :: rest = [] ∨ (v.HasCallbacks ∧ v.system.masked = false))) := by
    rintro offset ⟨-, hnil | ⟨hcallbacks, hunmasked⟩⟩
    · simp at hnil
    · rw [hmasked v hP hcallbacks] at hunmasked
      simp at hunmasked
  cases a with
  | os w offset value =>
      cases w with
      | sram => exact absurd ha (hno offset)
      | zero => exact absurd ha.2.1.1 (by simp)
  | user offset value => exact absurd ha.2.1 (by simp)

include p

/-- A handler that writes a word not copied yet is followed by its copy; one
that writes a copied word is lost. -/
theorem stable_copying {i : Nat} {todo : List SRAMOp}
    (hdisable : SRAMOp.disableInterrupts ∈ todo)
    (hpending : ∀ o, o < sramSize → (copyPending todo o = true ↔ 4 * i ≤ o)) :
    Stable View.access View.Permitted (Copying clone new i) todo := by
  have happ := p.before_or_after
  have hne := List.ne_nil_of_mem hdisable
  intro v a ha hv
  cases a with
  | user offset value => exact absurd ha.2.1 hne
  | os w offset value =>
      cases w with
      | zero => exact absurd ha.2.1.1 hne
      | sram =>
          have ho : offset < sramSize := ha.1
          have hstore := store_section hv.window sramAligned
            (Nat.lt_trans ho sramSize_lt) value
          have hlost : Lost v.system todo offset ↔ offset < 4 * i := by
            have hiff := hpending offset ho
            simp only [Lost, hv.initializing, hdisable, true_and]
            cases hcase : copyPending todo offset with
            | true => simp only [Bool.true_eq_false, false_iff]; have := hiff.mp hcase; omega
            | false =>
                simp only [true_iff]
                by_contra hcon
                rw [hiff.mpr (by omega)] at hcase
                simp at hcase
          simp only [View.access, Window.base, hstore, hlost]
          refine
            { core :=
                { running := hv.core.running
                  alive := hv.core.alive
                  newAddress := hv.core.newAddress
                  cloneMapped := hv.core.cloneMapped.congr p.cloneAligned rfl fun a hsram _ => ?_ }
              window := hv.window
              initializing := hv.initializing
              copied := fun o hN hlt => ?_
              pending := fun o hN hle => ?_ }
          · refine Function.update_of_ne ?_ _ _
            rintro rfl
            exact hsram ⟨Nat.le_add_right _ _, Nat.add_lt_add_left ho _⟩
          · show Function.update v.system.mem _ value (clone.toNat + o) =
              (if offset < 4 * i then v.kept else Function.update v.kept offset value) o
            rw [Function.update_of_ne (by omega), hv.copied o hN hlt]
            split_ifs with hcase
            · rfl
            · exact (Function.update_of_ne (by omega) _ _).symm
          · show Function.update v.system.mem _ value (sramPhysicalAddress.toNat + o) =
              (if offset < 4 * i then v.kept else Function.update v.kept offset value) o
            by_cases heq : o = offset
            · subst heq
              simp [Nat.not_lt.mpr hle]
            · rw [Function.update_of_ne (by omega), hv.pending o hN hle]
              split_ifs with hcase
              · rfl
              · exact (Function.update_of_ne heq _ _).symm

/-- A store to the OS's window once it leads to the clone. -/
theorem exposed_store {v : View} (hv : Exposed clone new v) {o : Nat} (ho : o < sramSize)
    (value : Byte) :
    Exposed clone new
      { system :=
          { v.system with mem := Function.update v.system.mem (clone.toNat + o) value }
        kept := Function.update v.kept o value } := by
  refine
    { core :=
        { running := hv.core.running
          alive := hv.core.alive
          newAddress := hv.core.newAddress
          cloneMapped := hv.core.cloneMapped.congr p.cloneAligned rfl fun a _ hclone => ?_ }
      cloned := hv.cloned
      window := hv.window
      content := fun o' ho' => ?_
      zero := hv.zero
      newMapped := hv.newMapped }
  · refine Function.update_of_ne ?_ _ _
    rintro rfl
    exact hclone ⟨Nat.le_add_right _ _, Nat.add_lt_add_left ho _⟩
  · show Function.update v.system.mem _ value (clone.toNat + o') = Function.update v.kept o value o'
    by_cases heq : o' = o
    · subst heq
      simp
    · rw [Function.update_of_ne (by omega), Function.update_of_ne heq]
      exact hv.content o' ho'

/-- A store by the user of the SRAM does not reach the clone. -/
theorem exposed_userStore {v : View} (hv : Exposed clone new v) {o : Nat} (ho : o < sramSize)
    (value : Byte) :
    Exposed clone new
      { v with
        system :=
          { v.system with
            mem := Function.update v.system.mem (sramPhysicalAddress.toNat + o) value } } := by
  have happ := p.before_or_after
  refine
    { core :=
        { running := hv.core.running
          alive := hv.core.alive
          newAddress := hv.core.newAddress
          cloneMapped := hv.core.cloneMapped.congr p.cloneAligned rfl fun a hsram _ => ?_ }
      cloned := hv.cloned
      window := hv.window
      content := fun o' ho' => ?_
      zero := hv.zero
      newMapped := hv.newMapped }
  · refine Function.update_of_ne ?_ _ _
    rintro rfl
    exact hsram ⟨Nat.le_add_right _ _, Nat.add_lt_add_left ho _⟩
  · show Function.update v.system.mem _ value (clone.toNat + o') = v.kept o'
    rw [Function.update_of_ne (by omega)]
    exact hv.content o' ho'

omit p in
/-- Through either window the OS stores into the clone. -/
theorem os_store {v : View} (hv : Exposed clone new v) {w : Window} {o : Nat} (ho : o < sramSize)
    (hzero : w = .zero → l1IndexOf new ≠ l1IndexOf Window.zero.base) (value : Byte) :
    v.system.store (w.base + BitVec.ofNat 32 o) value =
      { v.system with mem := Function.update v.system.mem (clone.toNat + o) value } := by
  cases w with
  | sram => exact store_section hv.window sramAligned (Nat.lt_trans ho sramSize_lt) value
  | zero =>
      exact store_section (hv.zero (hzero rfl)) (by decide) (Nat.lt_trans ho sramSize_lt) value

/-- Through the new address the user stores into the SRAM. -/
theorem user_store {v : View} (hv : Exposed clone new v) {o : Nat} (ho : o < sramSize)
    (value : Byte) :
    v.system.store (v.system.accessor.newSRAMAddress + BitVec.ofNat 32 o) value =
      { v.system with
        mem := Function.update v.system.mem (sramPhysicalAddress.toNat + o) value } := by
  rw [hv.core.newAddress]
  exact store_section hv.newMapped p.newAligned (Nat.lt_trans ho sramSize_lt) value

/-- While all windows are in place, every access does what its owner expects. -/
theorem stable_exposed {b : Bool} {todo : List SRAMOp}
    (hnot : b = true ∨ SRAMOp.disableInterrupts ∉ todo) :
    Stable View.access View.Permitted
      (fun v => Exposed clone new v ∧ v.system.accessor.initSuccessful = b) todo := by
  rintro v a ha ⟨hv, hb⟩
  have hlost : ∀ o, ¬ Lost v.system todo o := by
    rintro o ⟨hinit, hmem, -⟩
    rw [hb] at hinit
    rcases hnot with htrue | hdisable
    · simp [htrue] at hinit
    · exact hdisable hmem
  cases a with
  | os w o value =>
      have ho : o < sramSize := by cases w <;> exact ha.1
      have hstore :=
        os_store hv (w := w) ho (by rintro rfl; exact hv.core.newAddress ▸ ha.2.2) value
      simp only [View.access, hstore, if_neg (hlost o)]
      exact ⟨exposed_store p hv ho value, hb⟩
  | user o value =>
      have ho : o < sramSize := ha.1
      have hstore := user_store p hv ho value
      simp only [View.access, hstore]
      exact ⟨exposed_userStore p hv ho value, hb⟩

end Stability

/-- Back on the SRAM, the OS writes where it reads. -/
theorem stable_restored {todo : List SRAMOp} {P : Option Word → Prop}
    (hP : ∀ block, P block → todo ≠ [] ∨ block = none) :
    Stable View.access View.Permitted
      (fun v => Restored v ∧ P v.system.accessor.clonedSRAMBlock) todo := by
  rintro v a ha ⟨hv, hblock⟩
  have hnotBetween : ¬ v.Between todo := by
    rintro ⟨hnil, -, hsome⟩
    rcases hP _ hblock with hne | hnone
    · exact hne hnil
    · simp [hnone] at hsome
  have hlost : ∀ o, ¬ Lost v.system todo o := by
    rintro o ⟨hinit, -, -⟩
    simp [hv.initialized] at hinit
  cases a with
  | user o value => exact absurd ha.2 hnotBetween
  | os w o value =>
      cases w with
      | zero => exact absurd ha.2.1 hnotBetween
      | sram =>
          have ho : o < sramSize := ha.1
          have hstore := store_section hv.window sramAligned (Nat.lt_trans ho sramSize_lt) value
          simp only [View.access, Window.base, hstore, if_neg (hlost o)]
          refine ⟨{ hv with content := fun o' ho' => ?_ }, hblock⟩
          show Function.update v.system.mem _ value (sramPhysicalAddress.toNat + o') =
            Function.update v.kept o value o'
          by_cases heq : o' = o
          · subst heq
            simp
          · rw [Function.update_of_ne (by omega), Function.update_of_ne heq]
            exact hv.content o' ho'

end NspireUtils.Ports.SRAMRelocation
