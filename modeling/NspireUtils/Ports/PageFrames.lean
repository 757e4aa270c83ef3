import NspireUtils.Ports.LastWriter

/-!
# What a page call leaves alone

`Map4KBPage` and `Map64KBPage` take a virtual address, and of it the bits that
number a page within a megabyte; the megabyte is the one the editor was
constructed for.  An address keeps its translation unless its first-level entry
leads to the editor's table and it lies in the page of that number
(`pageFrames`), whatever address the call was given.

`walk_pageRun` is the same for any sequence of page calls on the coarse editors of
a session.
-/

namespace NspireUtils.Ports.PageFrames

open NspireUtils.Verified.BitFields
open NspireUtils.Verified.ByteMemory
open NspireUtils.Verified.ShortDescriptor
open NspireUtils.Verified.Runs
open NspireUtils.Ports.Bus
open NspireUtils.Ports.MMUDescriptors
open NspireUtils.Ports.TableEditors
open NspireUtils.Ports.CoarseSplit
open NspireUtils.Ports.LastWriter

/-! ## Pages -/

/-- The page of `2 ^ g` bytes an address lies in. -/
def pageOf (g : Nat) (x : Word) : Nat := x.toNat / 2 ^ g

/-- The number of the page within its megabyte. -/
def pageInRegion (g : Nat) (x : Word) : Nat := x.toNat % 2 ^ 20 / 2 ^ g

/-- The address of the editor's megabyte with the offset of another. -/
def inRegion (c : MMUL2CoarsePageTableEditor) (va : Word) : Word :=
  c.virtualAddr.extractLsb' 20 12 ++ va.extractLsb' 0 20

theorem toNat_inRegion (c : MMUL2CoarsePageTableEditor) (va : Word) :
    (inRegion c va).toNat = l1IndexOf c.virtualAddr * 2 ^ 20 + va.toNat % 2 ^ 20 := by
  have hva : (va.extractLsb' 0 20).toNat = va.toNat % 2 ^ 20 := by
    rw [toNat_extract, Nat.pow_zero, Nat.div_one]
  rw [inRegion, BitVec.toNat_append, hva, ← Nat.shiftLeft_add_eq_or_of_lt (by omega),
    Nat.shiftLeft_eq, l1IndexOf]

/-- An address of the editor's megabyte is meant as it is. -/
theorem inRegion_of_region {c : MMUL2CoarsePageTableEditor} {va : Word}
    (h : l1IndexOf va = l1IndexOf c.virtualAddr) : inRegion c va = va := by
  apply BitVec.eq_of_toNat_eq
  have hlt := va.isLt
  rw [toNat_inRegion, ← h, l1IndexOf, toNat_extract]
  omega

/-- The two page sizes. -/
def Granule (g : Nat) : Prop := g = 12 ∨ g = 16

theorem pageOf_eq_iff {g : Nat} (hg : Granule g) (x y : Word) :
    pageOf g x = pageOf g y ↔ l1IndexOf x = l1IndexOf y ∧ pageInRegion g x = pageInRegion g y := by
  have hx := x.isLt
  have hy := y.isLt
  simp only [pageOf, pageInRegion, l1IndexOf, toNat_extract]
  rcases hg with rfl | rfl <;> omega

theorem pageInRegion_eq_iff {g : Nat} (hg : Granule g) (x y : Word) :
    pageInRegion g x = pageInRegion g y ↔
      coarseIndexOf x / 2 ^ (g - 12) = coarseIndexOf y / 2 ^ (g - 12) := by
  have hx := x.isLt
  have hy := y.isLt
  simp only [pageInRegion, coarseIndexOf, toNat_extract]
  rcases hg with rfl | rfl <;> omega

theorem pageInRegion_inRegion (g : Nat) (c : MMUL2CoarsePageTableEditor) (va : Word) :
    pageInRegion g (inRegion c va) = pageInRegion g va := by
  have hoffset : (inRegion c va).toNat % 2 ^ 20 = va.toNat % 2 ^ 20 := by
    rw [toNat_inRegion]
    omega
  rw [pageInRegion, hoffset, pageInRegion]

theorem l1IndexOf_inRegion (c : MMUL2CoarsePageTableEditor) (va : Word) :
    l1IndexOf (inRegion c va) = l1IndexOf c.virtualAddr := by
  have hlt := l1IndexOf_lt c.virtualAddr
  rw [l1IndexOf, toNat_extract, toNat_inRegion]
  omega

/-! ## The editor's table among the tables in use -/

/-- The first-level entry of `x` leads to the editor's table. -/
def LeadsTo (m : Machine) (c : MMUL2CoarsePageTableEditor) (x : Word) : Prop :=
  ∃ l2Table, c.l2Table = some l2Table ∧
    secondLevel (tableEntry m.mem (ttbBase m.ttbr0) (l1IndexOf x)) = some (l2Block l2Table)

/-- The editor's table is a block of its own among the tables in use. -/
structure Placed (m : Machine) (l2Table : Word) : Prop where
  apartL1 : (l2Block l2Table).Apart (l1Block (ttbBase m.ttbr0))
  apartL2 : ∀ i, i < 4096 → ∀ b, secondLevel (tableEntry m.mem (ttbBase m.ttbr0) i) = some b →
    b = l2Block l2Table ∨ (l2Block l2Table).Apart b

/-- Only the editor's megabyte uses its table. -/
def OwnRegion (m : Machine) (c : MMUL2CoarsePageTableEditor) : Prop :=
  ∀ x, LeadsTo m c x → l1IndexOf x = l1IndexOf c.virtualAddr

/-- What a call for the page of `va` leaves alone: every address that does not use the
editor's table or lies in a page of another number, and so, where only the editor's
megabyte uses the table, every address outside one page of it. -/
structure PageFrame (g : Nat) (m m' : Machine) (c : MMUL2CoarsePageTableEditor) (va : Word) :
    Prop where
  elsewhere : ∀ x, ¬ (LeadsTo m c x ∧ pageInRegion g x = pageInRegion g va) → m'.walk x = m.walk x
  region : OwnRegion m c → ∀ x, pageOf g x ≠ pageOf g (inRegion c va) → m'.walk x = m.walk x
  named : OwnRegion m c → l1IndexOf va = l1IndexOf c.virtualAddr →
    ∀ x, pageOf g x ≠ pageOf g va → m'.walk x = m.walk x

section Calls

variable {m : Machine} {c : MMUL2CoarsePageTableEditor} {l2Table : Word} {ops : List BusOp}

/-- Only a coarse entry leads to a block of that size. -/
theorem coarse_of_secondLevel {entry : Word} (h : secondLevel entry = some (l2Block l2Table)) :
    entry.extractLsb' 0 2 = 0b01#2 ∧ coarseBase entry = l2Table.toNat := by
  unfold secondLevel at h
  split_ifs at h with hcoarse hfine
  · exact ⟨hcoarse, congrArg Block.start (Option.some.inj h)⟩
  · exact absurd (congrArg Block.size (Option.some.inj h)) (show 4 * 1024 ≠ l2TableSize by decide)

/-- Operations on the editor's table leave an address alone if its first-level entry
leads elsewhere. -/
theorem walk_of_leadsElsewhere (hplaced : Placed m l2Table) (hops : Within ops (l2Block l2Table))
    (hregs : (m.execAll ops).ttbr0 = m.ttbr0) {x : Word}
    (hx : secondLevel (tableEntry m.mem (ttbBase m.ttbr0) (l1IndexOf x)) ≠
      some (l2Block l2Table)) : (m.execAll ops).walk x = m.walk x := by
  have hi := l1IndexOf_lt x
  have hentry : tableEntry (m.execAll ops).mem (ttbBase m.ttbr0) (l1IndexOf x) =
      tableEntry m.mem (ttbBase m.ttbr0) (l1IndexOf x) :=
    tableEntry_congr hi fun a ha =>
      execAll_of_outside ops m (hops.spares fun hold => hplaced.apartL1 a hold ha)
  simp only [Machine.walk, Verified.ShortDescriptor.walk, hregs, walkTable, hentry]
  refine walkEntry_congr fun b hb a ha => execAll_of_outside ops m (hops.spares fun hold => ?_)
  rcases hplaced.apartL2 _ hi b hb with rfl | hapart
  · exact hx hb
  · exact hapart a hold ha

/-- They leave it alone if they leave its entry in the table alone. -/
theorem walk_of_leadsTo (hplaced : Placed m l2Table) (hops : Within ops (l2Block l2Table))
    (hregs : (m.execAll ops).ttbr0 = m.ttbr0) {x : Word}
    (hx : secondLevel (tableEntry m.mem (ttbBase m.ttbr0) (l1IndexOf x)) = some (l2Block l2Table))
    (hentry : tableEntry (m.execAll ops).mem l2Table.toNat (coarseIndexOf x) =
      tableEntry m.mem l2Table.toNat (coarseIndexOf x)) :
    (m.execAll ops).walk x = m.walk x := by
  obtain ⟨hcoarse, hbase⟩ := coarse_of_secondLevel hx
  have hfirst : tableEntry (m.execAll ops).mem (ttbBase m.ttbr0) (l1IndexOf x) =
      tableEntry m.mem (ttbBase m.ttbr0) (l1IndexOf x) :=
    tableEntry_congr (l1IndexOf_lt x) fun a ha =>
      execAll_of_outside ops m (hops.spares fun hold => hplaced.apartL1 a hold ha)
  simp only [Machine.walk, Verified.ShortDescriptor.walk, hregs, walkTable, hfirst]
  rw [walkEntry_coarse _ x hcoarse, walkEntry_coarse _ x hcoarse, hbase, hentry]

/-- A page call. -/
theorem pageFrame_of_entries {g : Nat} (hg : Granule g) (hc : c.l2Table = some l2Table)
    (hplaced : Placed m l2Table) (hops : Within ops (l2Block l2Table))
    (hregs : (m.execAll ops).ttbr0 = m.ttbr0) {va : Word}
    (hentry : ∀ i, i / 2 ^ (g - 12) ≠ coarseIndexOf va / 2 ^ (g - 12) →
      tableEntry (m.execAll ops).mem l2Table.toNat i = tableEntry m.mem l2Table.toNat i) :
    PageFrame g m (m.execAll ops) c va := by
  have helsewhere : ∀ x, ¬ (LeadsTo m c x ∧ pageInRegion g x = pageInRegion g va) →
      (m.execAll ops).walk x = m.walk x := by
    intro x hx
    by_cases hleads : secondLevel (tableEntry m.mem (ttbBase m.ttbr0) (l1IndexOf x)) =
        some (l2Block l2Table)
    · refine walk_of_leadsTo hplaced hops hregs hleads (hentry _ fun hpage => hx ⟨?_, ?_⟩)
      · exact ⟨l2Table, hc, hleads⟩
      · exact (pageInRegion_eq_iff hg x va).mpr hpage
    · exact walk_of_leadsElsewhere hplaced hops hregs hleads
  have hregion : OwnRegion m c → ∀ x, pageOf g x ≠ pageOf g (inRegion c va) →
      (m.execAll ops).walk x = m.walk x := by
    intro hown x hx
    refine helsewhere x fun hhit => hx ((pageOf_eq_iff hg _ _).mpr ⟨?_, ?_⟩)
    · rw [l1IndexOf_inRegion]
      exact hown x hhit.1
    · rw [pageInRegion_inRegion]
      exact hhit.2
  refine ⟨helsewhere, hregion, fun hown hva x hx => hregion hown x ?_⟩
  rwa [inRegion_of_region hva]

theorem pageFrame_refl {g : Nat} {va : Word} : PageFrame g m m c va :=
  ⟨fun _ _ => rfl, fun _ _ _ => rfl, fun _ _ _ _ => rfl⟩

theorem pageFrame_map4KBPage (hplaced : ∀ l2Table, c.l2Table = some l2Table → Placed m l2Table)
    (virtualAddr physicalAddr attributes : Word) :
    PageFrame 12 m (m.execAll (c.map4KBPage virtualAddr physicalAddr attributes)) c
      virtualAddr := by
  cases hc : c.l2Table with
  | none =>
      rw [show c.map4KBPage virtualAddr physicalAddr attributes = [] by
        simp only [MMUL2CoarsePageTableEditor.map4KBPage, hc]]
      exact pageFrame_refl
  | some l2Table =>
      refine pageFrame_of_entries (.inl rfl) hc (hplaced l2Table hc)
        (c.map4KBPage_within _ _ _ hc) (c.map4KBPage_ttbr0 m _ _ _) fun i hi => ?_
      rw [c.tableEntry_map4KBPage m _ _ _ hc, if_neg (by simpa using hi)]

theorem pageFrame_map64KBPage (hplaced : ∀ l2Table, c.l2Table = some l2Table → Placed m l2Table)
    (virtualAddr physicalAddr attributes : Word) :
    PageFrame 16 m (m.execAll (c.map64KBPage virtualAddr physicalAddr attributes)) c
      virtualAddr := by
  cases hc : c.l2Table with
  | none =>
      rw [show c.map64KBPage virtualAddr physicalAddr attributes = [] by
        simp only [MMUL2CoarsePageTableEditor.map64KBPage, hc]]
      exact pageFrame_refl
  | some l2Table =>
      refine pageFrame_of_entries (.inr rfl) hc (hplaced l2Table hc)
        (c.map64KBPage_within _ _ _ hc) (c.map64KBPage_ttbr0 m _ _ _) fun i hi => ?_
      exact (c.tableEntry_map64KBPage m _ _ _ hc i).trans (if_neg hi)

end Calls

/-! ## The coarse editors of a session -/

section Session

variable {s : EditSession} {m : Machine} (h : Ready s m) {c : LiveCoarse} (hc : c ∈ s.coarse)
include h hc

theorem placed_of_ready (l2Table : Word) (hl2Table : c.editor.l2Table = some l2Table) :
    Placed m l2Table := by
  obtain rfl : c.l2Table = l2Table := Option.some.inj (c.owns.symm.trans hl2Table)
  refine ⟨fun a ha => ?_, fun i hi b hb => ?_⟩
  · rw [h.active]
    exact h.apartL1 c hc a ha
  · rw [h.active] at hb
    by_cases hregion : i = c.region
    · rw [hregion, h.entry c hc, secondLevel_coarseL1Entry c.domain c.aligned] at hb
      exact .inl (Option.some.inj hb).symm
    · exact .inr (h.apartL2 c hc i hi hregion b hb)

theorem ownRegion_of_ready : OwnRegion m c.editor := by
  rintro x ⟨l2Table, hl2Table, hleads⟩
  obtain rfl : c.l2Table = l2Table := Option.some.inj (c.owns.symm.trans hl2Table)
  rw [h.active] at hleads
  by_contra hregion
  have hapart := h.apartL2 c hc _ (l1IndexOf_lt x) hregion _ hleads
  have hstart : (l2Block c.l2Table).Holds c.l2Table.toNat :=
    ⟨Nat.le_refl _, Nat.lt_add_of_pos_right (l2Block_size_pos c.l2Table)⟩
  exact hapart _ hstart hstart

end Session

/-- **What a page call leaves alone.**  Whatever address it is given; the tables are
identity mapped. -/
theorem pageFrames (m : Machine) (c : MMUL2CoarsePageTableEditor)
    (hplaced : ∀ l2Table, c.l2Table = some l2Table → Placed m l2Table)
    (virtualAddr physicalAddr attributes : Word) :
    PageFrame 12 m (m.execAll (c.map4KBPage virtualAddr physicalAddr attributes)) c virtualAddr ∧
      PageFrame 16 m (m.execAll (c.map64KBPage virtualAddr physicalAddr attributes)) c
        virtualAddr :=
  ⟨pageFrame_map4KBPage hplaced virtualAddr physicalAddr attributes,
    pageFrame_map64KBPage hplaced virtualAddr physicalAddr attributes⟩

theorem pageFrames_otherRegion :
    ∃ (m : Machine) (c : MMUL2CoarsePageTableEditor), c.virtualAddr = 0x10000000#32 ∧
      OwnRegion m c ∧
        PageFrame 12 m (m.execAll (c.map4KBPage 0x20003000#32 0x30000000#32 0#32)) c
            0x20003000#32 ∧
          PageFrame 16 m (m.execAll (c.map64KBPage 0x20003000#32 0x30000000#32 0#32)) c
            0x20003000#32 := by
  obtain ⟨s, m, c, hready, hc, hva, -, -⟩ := ready_oneSection
  exact ⟨m, c.editor, hva, ownRegion_of_ready hready hc,
    pageFrames m c.editor (placed_of_ready hready hc) 0x20003000#32 0x30000000#32 0#32⟩

/-- Given an address of another megabyte, a call remaps the page of that number in the
editor's own. -/
theorem other_page_remapped :
    ∃ (m : Machine) (c : MMUL2CoarsePageTableEditor), c.virtualAddr = 0x10000000#32 ∧
      pageOf 12 0x10003000#32 ≠ pageOf 12 0x20003000#32 ∧
        m.walk 0x10003000#32 =
          .mapped
            { physical := 0x10003000#32, permission := 0b11#2, cache := 0b11#2, domain := 3#4 } ∧
        (m.execAll (c.map4KBPage 0x20003000#32 0x30000000#32 0#32)).walk 0x10003000#32 =
          .mapped
            { physical := 0x30000000#32, permission := 0b00#2, cache := 0b00#2
              domain := 3#4 } := by
  obtain ⟨s, m, c, hready, hc, hva, hdomain, hwalk⟩ := ready_oneSection
  refine ⟨m, c.editor, hva, by decide, hwalk, ?_⟩
  have hregion : l1IndexOf 0x10003000#32 = c.region := by
    rw [LiveCoarse.region, hva]
    decide
  rw [walk_pageCall hready hc (c.editor.map4KBPage_within _ _ _ c.owns)
      (c.editor.map4KBPage_ttbr0 m _ _ _), if_pos hregion,
    c.editor.tableEntry_map4KBPage m _ _ _ c.owns, if_pos (by decide), hdomain]
  rfl

/-! ## Any sequence of page calls -/

/-- A page call on a coarse editor, at any address. -/
inductive PageCall where
  | map64KBPage (c : LiveCoarse) (virtualAddr physicalAddr attributes : Word)
  | map4KBPage (c : LiveCoarse) (virtualAddr physicalAddr attributes : Word)

namespace PageCall

/-- The editor of the call. -/
def coarse : PageCall → LiveCoarse
  | map64KBPage c _ _ _ => c
  | map4KBPage c _ _ _ => c

/-- The address it is given. -/
def virtualAddr : PageCall → Word
  | map64KBPage _ va _ _ => va
  | map4KBPage _ va _ _ => va

/-- The size of its page. -/
def granule : PageCall → Nat
  | map64KBPage .. => 16
  | map4KBPage .. => 12

/-- Its operations. -/
def operations : PageCall → List BusOp
  | map64KBPage c va pa attributes => c.editor.map64KBPage va pa attributes
  | map4KBPage c va pa attributes => c.editor.map4KBPage va pa attributes

end PageCall

/-- The machine after a page call. -/
def step (m : Machine) (call : PageCall) : Machine := m.execAll call.operations

section Step

variable {s : EditSession} {m : Machine} (h : Ready s m) {call : PageCall}
  (hcall : call.coarse ∈ s.coarse)
include h hcall

theorem ready_pageCall : Ready s (step m call) := by
  cases call with
  | map64KBPage c va pa attributes =>
      exact ready_of_within h hcall (c.editor.map64KBPage_within _ _ _ c.owns)
        (c.editor.map64KBPage_ttbr0 m _ _ _)
  | map4KBPage c va pa attributes =>
      exact ready_of_within h hcall (c.editor.map4KBPage_within _ _ _ c.owns)
        (c.editor.map4KBPage_ttbr0 m _ _ _)

theorem pageFrame_pageCall :
    PageFrame call.granule m (step m call) call.coarse.editor call.virtualAddr := by
  have hplaced := placed_of_ready h hcall
  cases call with
  | map64KBPage c va pa attributes => exact pageFrame_map64KBPage hplaced va pa attributes
  | map4KBPage c va pa attributes => exact pageFrame_map4KBPage hplaced va pa attributes

end Step

/-- The call is not for the page of `x`, counted in the megabyte of its editor. -/
def PageCall.Misses (call : PageCall) (x : Word) : Prop :=
  pageOf call.granule x ≠ pageOf call.granule (inRegion call.coarse.editor call.virtualAddr)

/-- **Any sequence of page calls.**  An address that every call misses keeps its
translation. -/
theorem walk_pageRun {s : EditSession} {m : Machine} (h : Ready s m) (calls : List PageCall)
    (hcalls : ∀ call ∈ calls, call.coarse ∈ s.coarse) (x : Word)
    (hx : ∀ call ∈ calls, call.Misses x) : (run step m calls).walk x = m.walk x := by
  have hstep : ∀ (m' : Machine) (call : PageCall), call.coarse ∈ s.coarse ∧ call.Misses x →
      Ready s m' ∧ m'.walk x = m.walk x →
        Ready s (step m' call) ∧ (step m' call).walk x = m.walk x := by
    rintro m' call ⟨hcall, hmisses⟩ ⟨hready, hwalk⟩
    have hframe := pageFrame_pageCall hready hcall
    exact ⟨ready_pageCall hready hcall,
      (hframe.region (ownRegion_of_ready hready hcall) x hmisses).trans hwalk⟩
  have hallowed := (allowed_const step (fun call => call.coarse ∈ s.coarse ∧ call.Misses x) calls
    m).mpr fun call hin => ⟨hcalls call hin, hx call hin⟩
  exact (run_invariant step _ hstep calls m hallowed ⟨h, rfl⟩).2

end NspireUtils.Ports.PageFrames
