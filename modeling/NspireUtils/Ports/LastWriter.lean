import NspireUtils.Ports.CoarseSplit
import NspireUtils.Verified.Runs

/-!
# Mapping calls: the last writer wins on its granule

`MapSection`, `Map64KBPage` and `Map4KBPage` edit the same tables at three
granularities.  `EditSession` fixes the active `MMUEditor` and the coarse editors
that are alive on it; `Ready` is what their constructors established, and no
mapping call breaks it.  Over any sequence of calls each address is translated
as the last call that covers it asked for, and as at the start if none does:
`walk_run`.

One call is settled by `walk_step`: a section call through the one entry it
replaces, a page call through the second-level table behind an entry that stays
what the coarse editor's constructor made it.
-/

namespace NspireUtils.Ports.LastWriter

open NspireUtils.Verified.BitFields
open NspireUtils.Verified.ByteMemory
open NspireUtils.Verified.ShortDescriptor
open NspireUtils.Verified.Runs
open NspireUtils.Ports.Bus
open NspireUtils.Ports.MMUDescriptors
open NspireUtils.Ports.TableEditors
open NspireUtils.Ports.CoarseSplit

/-- A coarse editor that is alive, with the table it owns and the domain it was
constructed with. -/
structure LiveCoarse where
  editor : MMUL2CoarsePageTableEditor
  l2Table : Word
  domain : Byte
  owns : editor.l2Table = some l2Table
  aligned : 2 ^ 10 ∣ l2Table.toNat

/-- The first-level index of the megabyte the coarse editor edits. -/
def LiveCoarse.region (c : LiveCoarse) : Nat := l1IndexOf c.editor.virtualAddr

/-- An `MMUEditor` that is alive and the coarse editors alive on it. -/
structure EditSession where
  editor : MMUEditor
  table : Word
  coarse : List LiveCoarse
  owns : editor.editedTable = some table

/-- The editor's table is active, the tables in use are apart, and behind the
entry of each coarse editor stands its own table. -/
structure Ready (s : EditSession) (m : Machine) : Prop where
  active : ttbBase m.ttbr0 = s.table.toNat
  tables : TablesApart m.mem s.table
  entry : ∀ c ∈ s.coarse,
    tableEntry m.mem s.table.toNat c.region = coarseL1Entry c.l2Table c.domain
  apartL1 : ∀ c ∈ s.coarse, (l2Block c.l2Table).Apart (l1Block s.table.toNat)
  apartL2 : ∀ c ∈ s.coarse, ∀ i, i < 4096 → i ≠ c.region →
    ∀ b, secondLevel (tableEntry m.mem s.table.toNat i) = some b → (l2Block c.l2Table).Apart b

/-! ## The calls -/

/-- A mapping call, with its attributes given as the arguments of the helpers
that build them. -/
inductive MappingCall where
  | mapSection (virtualAddr physicalAddr : Word) (ap : MMUAccessPermission)
      (cp : MMUCachePolicy) (domain : Byte)
  | map64KBPage (c : LiveCoarse) (virtualAddr physicalAddr : Word)
      (a0 a1 a2 a3 : MMUAccessPermission) (cp : MMUCachePolicy)
  | map4KBPage (c : LiveCoarse) (virtualAddr physicalAddr : Word)
      (a0 a1 a2 a3 : MMUAccessPermission) (cp : MMUCachePolicy)

/-- The attributes of a page: `MMUL2SubpageAccessPermissions | MMUCachePolicy`. -/
def pageAttributes (a0 a1 a2 a3 : MMUAccessPermission) (cp : MMUCachePolicy) : Word :=
  mmuL2SubpageAccessPermissions a0 a1 a2 a3 ||| cp.toWord

namespace EditSession

/-- The bus operations of a call. -/
def operations (s : EditSession) : MappingCall → List BusOp
  | .mapSection va pa ap cp domain => s.editor.mapSection va pa (sectionAttributes ap cp domain)
  | .map64KBPage c va pa a0 a1 a2 a3 cp =>
      c.editor.map64KBPage va pa (pageAttributes a0 a1 a2 a3 cp)
  | .map4KBPage c va pa a0 a1 a2 a3 cp =>
      c.editor.map4KBPage va pa (pageAttributes a0 a1 a2 a3 cp)

/-- The machine after a call. -/
def step (s : EditSession) (m : Machine) (call : MappingCall) : Machine :=
  m.execAll (s.operations call)

/-- A section call stays off the megabytes of the live coarse editors; a page
call stays inside the megabyte of its own. -/
def Permitted (s : EditSession) : MappingCall → Prop
  | .mapSection va _ _ _ _ => ∀ c ∈ s.coarse, l1IndexOf va ≠ c.region
  | .map64KBPage c va _ _ _ _ _ _ => c ∈ s.coarse ∧ l1IndexOf va = c.region
  | .map4KBPage c va _ _ _ _ _ _ => c ∈ s.coarse ∧ l1IndexOf va = c.region

end EditSession

namespace MappingCall

/-- The address lies in the granule the call maps: its megabyte, its 64 KB or
its 4 KB. -/
def Covers : MappingCall → Word → Prop
  | .mapSection va _ _ _ _, x => x.extractLsb' 20 12 = va.extractLsb' 20 12
  | .map64KBPage _ va _ _ _ _ _ _, x => x.extractLsb' 16 16 = va.extractLsb' 16 16
  | .map4KBPage _ va _ _ _ _ _ _, x => x.extractLsb' 12 20 = va.extractLsb' 12 20

instance (call : MappingCall) (x : Word) : Decidable (call.Covers x) := by
  cases call <;> exact inferInstanceAs (Decidable (_ = _))

/-- What the call asks for at an address it covers: the physical granule with
the address's offset in it, the permission of the subpage the address lies in,
the cache policy, and the domain. -/
def answer : MappingCall → Word → Walk
  | .mapSection _ pa ap cp domain, x =>
      .mapped
        { physical := pa.extractLsb' 20 12 ++ x.extractLsb' 0 20
          permission := ap.code
          cache := cp.code
          domain := domain.extractLsb' 0 4 }
  | .map64KBPage c _ pa a0 a1 a2 a3 cp, x =>
      .mapped
        { physical := pa.extractLsb' 16 16 ++ x.extractLsb' 0 16
          permission := (subpage a0 a1 a2 a3 (x.extractLsb' 14 2).toNat).code
          cache := cp.code
          domain := c.domain.extractLsb' 0 4 }
  | .map4KBPage c _ pa a0 a1 a2 a3 cp, x =>
      .mapped
        { physical := pa.extractLsb' 12 20 ++ x.extractLsb' 0 12
          permission := (subpage a0 a1 a2 a3 (x.extractLsb' 10 2).toNat).code
          cache := cp.code
          domain := c.domain.extractLsb' 0 4 }

end MappingCall

/-! ## Granules and indices -/

theorem section_covers_iff (x va : Word) :
    x.extractLsb' 20 12 = va.extractLsb' 20 12 ↔ l1IndexOf x = l1IndexOf va :=
  ⟨fun h => by rw [l1IndexOf, h, l1IndexOf], fun h => BitVec.eq_of_toNat_eq h⟩

theorem largePage_covers_iff (x va : Word) :
    x.extractLsb' 16 16 = va.extractLsb' 16 16 ↔
      l1IndexOf x = l1IndexOf va ∧ coarseIndexOf x / 16 = coarseIndexOf va / 16 := by
  have hx := x.isLt
  have hva := va.isLt
  rw [← BitVec.toNat_inj]
  simp only [l1IndexOf, coarseIndexOf, toNat_extract]
  omega

theorem smallPage_covers_iff (x va : Word) :
    x.extractLsb' 12 20 = va.extractLsb' 12 20 ↔
      l1IndexOf x = l1IndexOf va ∧ coarseIndexOf x = coarseIndexOf va := by
  have hx := x.isLt
  have hva := va.isLt
  rw [← BitVec.toNat_inj]
  simp only [l1IndexOf, coarseIndexOf, toNat_extract]
  omega

/-! ## What the descriptors translate to -/

/-- Through a section descriptor the walk answers as the call asked. -/
theorem walkEntry_sectionDescriptor (mem : Memory) (va pa x : Word) (ap : MMUAccessPermission)
    (cp : MMUCachePolicy) (domain : Byte) :
    walkEntry mem (sectionDescriptor pa (sectionAttributes ap cp domain)) x =
      (MappingCall.mapSection va pa ap cp domain).answer x := by
  obtain ⟨htype, hbase, hperm, hcache, hdomain⟩ := sectionDescriptor_fields pa ap cp domain
  simp only [walkEntry, htype, hbase, hperm, hcache, hdomain]
  rfl

/-- Permission field `i` of the attributes of a page, under any base and type
that keep off bits `[11:2]`. -/
theorem subpagePermission_pageAttributes {rest : Word} (a0 a1 a2 a3 : MMUAccessPermission)
    (cp : MMUCachePolicy) (hrest : ∀ j, j < 4 → rest.extractLsb' (4 + 2 * j) 2 = 0#2) {i : Nat}
    (hi : i < 4) :
    subpagePermission (rest ||| pageAttributes a0 a1 a2 a3 cp) i =
      (subpage a0 a1 a2 a3 i).code := by
  have hfield := hrest i hi
  have hcases : i = 0 ∨ i = 1 ∨ i = 2 ∨ i = 3 := by omega
  rw [subpagePermission, pageAttributes, mmuL2SubpageAccessPermissions_eq, cp.toWord_eq,
    extract_or, hfield]
  rcases hcases with rfl | rfl | rfl | rfl
  all_goals
    simp (disch := omega) only [extract_or, extract_place_self, extract_place_of_apart,
      BitVec.or_zero, BitVec.zero_or, Nat.mul_zero, Nat.add_zero, Nat.mul_one, Nat.reduceMul,
      Nat.reduceAdd, subpage]

/-- A 64 KB descriptor in a coarse table answers as the call asked. -/
theorem coarseDescriptor_largePageDescriptor (c : LiveCoarse) (va pa x : Word)
    (a0 a1 a2 a3 : MMUAccessPermission) (cp : MMUCachePolicy) :
    coarseDescriptor (c.domain.extractLsb' 0 4)
        (largePageDescriptor pa (pageAttributes a0 a1 a2 a3 cp)) x =
      (MappingCall.map64KBPage c va pa a0 a1 a2 a3 cp).answer x := by
  have hperm : subpagePermission (largePageDescriptor pa (pageAttributes a0 a1 a2 a3 cp))
      (x.extractLsb' 14 2).toNat = (subpage a0 a1 a2 a3 (x.extractLsb' 14 2).toNat).code := by
    rw [largePageDescriptor_eq]
    refine subpagePermission_pageAttributes a0 a1 a2 a3 cp (fun j hj => ?_)
      (x.extractLsb' 14 2).isLt
    simp (disch := omega) only [extract_or, extract_place_of_apart, BitVec.or_zero]
  have hfields : (largePageDescriptor pa (pageAttributes a0 a1 a2 a3 cp)).extractLsb' 0 2 = 0b01#2 ∧
      (largePageDescriptor pa (pageAttributes a0 a1 a2 a3 cp)).extractLsb' 16 16 =
        pa.extractLsb' 16 16 ∧
      (largePageDescriptor pa (pageAttributes a0 a1 a2 a3 cp)).extractLsb' 2 2 = cp.code := by
    rw [largePageDescriptor_eq, pageAttributes, mmuL2SubpageAccessPermissions_eq, cp.toWord_eq]
    refine ⟨?_, ?_, ?_⟩ <;>
      simp (disch := omega) only [extract_or, extract_place_self, extract_place_of_apart,
        BitVec.or_zero, BitVec.zero_or]
  obtain ⟨htype, hbase, hcache⟩ := hfields
  simp only [coarseDescriptor, largePage, htype, hbase, hperm, hcache]
  rfl

/-- A 4 KB descriptor in a coarse table answers as the call asked. -/
theorem coarseDescriptor_smallPageDescriptor (c : LiveCoarse) (va pa x : Word)
    (a0 a1 a2 a3 : MMUAccessPermission) (cp : MMUCachePolicy) :
    coarseDescriptor (c.domain.extractLsb' 0 4)
        (smallPageDescriptor pa (pageAttributes a0 a1 a2 a3 cp)) x =
      (MappingCall.map4KBPage c va pa a0 a1 a2 a3 cp).answer x := by
  have hperm : subpagePermission (smallPageDescriptor pa (pageAttributes a0 a1 a2 a3 cp))
      (x.extractLsb' 10 2).toNat = (subpage a0 a1 a2 a3 (x.extractLsb' 10 2).toNat).code := by
    rw [smallPageDescriptor_eq]
    refine subpagePermission_pageAttributes a0 a1 a2 a3 cp (fun j hj => ?_)
      (x.extractLsb' 10 2).isLt
    simp (disch := omega) only [extract_or, extract_place_of_apart, BitVec.or_zero]
  have hfields : (smallPageDescriptor pa (pageAttributes a0 a1 a2 a3 cp)).extractLsb' 0 2 = 0b10#2 ∧
      (smallPageDescriptor pa (pageAttributes a0 a1 a2 a3 cp)).extractLsb' 12 20 =
        pa.extractLsb' 12 20 ∧
      (smallPageDescriptor pa (pageAttributes a0 a1 a2 a3 cp)).extractLsb' 2 2 = cp.code := by
    rw [smallPageDescriptor_eq, pageAttributes, mmuL2SubpageAccessPermissions_eq, cp.toWord_eq]
    refine ⟨?_, ?_, ?_⟩ <;>
      simp (disch := omega) only [extract_or, extract_place_self, extract_place_of_apart,
        BitVec.or_zero, BitVec.zero_or]
  obtain ⟨htype, hbase, hcache⟩ := hfields
  simp only [coarseDescriptor, smallPage, htype, hbase, hperm, hcache]
  rfl

/-! ## One call -/

/-- A section call replaces one first-level entry. -/
theorem tableEntry_mapSection (s : EditSession) (m : Machine) (va pa : Word)
    (ap : MMUAccessPermission) (cp : MMUCachePolicy) (domain : Byte) (i : Nat) :
    tableEntry (s.step m (.mapSection va pa ap cp domain)).mem s.table.toNat i =
      if i = l1IndexOf va then sectionDescriptor pa (sectionAttributes ap cp domain)
      else tableEntry m.mem s.table.toNat i := by
  simp only [EditSession.step, EditSession.operations, MMUEditor.mapSection_eq_map]
  exact s.editor.tableEntry_map m _ _ s.owns i

section Call

variable {s : EditSession} {m : Machine} (h : Ready s m)
include h

/-- What a page call leaves alone: the first-level table. -/
theorem tableEntry_of_pageCall {c : LiveCoarse} {ops : List BusOp} (hc : c ∈ s.coarse)
    (hops : Within ops (l2Block c.l2Table)) {i : Nat} (hi : i < 4096) :
    tableEntry (m.execAll ops).mem s.table.toNat i = tableEntry m.mem s.table.toNat i :=
  tableEntry_congr hi fun a ha =>
    execAll_of_outside ops m (hops.spares fun hold => h.apartL1 c hc a hold ha)

/-- A page call inside the megabyte of its editor: outside it nothing changes,
inside it the walk reads the edited table. -/
theorem walk_pageCall {c : LiveCoarse} {ops : List BusOp} (hc : c ∈ s.coarse)
    (hops : Within ops (l2Block c.l2Table))
    (hregs : (m.execAll ops).ttbr0 = m.ttbr0) (x : Word) :
    (m.execAll ops).walk x =
      if l1IndexOf x = c.region then
        coarseDescriptor (c.domain.extractLsb' 0 4)
          (tableEntry (m.execAll ops).mem c.l2Table.toNat (coarseIndexOf x)) x
      else m.walk x := by
  have hx := l1IndexOf_lt x
  simp only [Machine.walk, Verified.ShortDescriptor.walk, hregs, h.active, walkTable]
  rw [tableEntry_of_pageCall h hc hops hx]
  split_ifs with hregion
  · rw [hregion, h.entry c hc, walkEntry_coarseL1Entry _ c.domain c.aligned]
  · refine walkEntry_congr fun b hb a ha => execAll_of_outside ops m (hops.spares fun hold => ?_)
    exact h.apartL2 c hc _ hx hregion b hb a hold ha

/-- In the megabyte of a live coarse editor the walk reads its table. -/
theorem walk_region {c : LiveCoarse} (hc : c ∈ s.coarse) {x : Word}
    (hx : l1IndexOf x = c.region) :
    m.walk x = coarseDescriptor (c.domain.extractLsb' 0 4)
      (tableEntry m.mem c.l2Table.toNat (coarseIndexOf x)) x := by
  simp only [Machine.walk, Verified.ShortDescriptor.walk, h.active, walkTable]
  rw [hx, h.entry c hc, walkEntry_coarseL1Entry _ c.domain c.aligned]

/-- Nothing written in the table of a live coarse editor breaks what the constructors
established. -/
theorem ready_of_within {c : LiveCoarse} {ops : List BusOp} (hc : c ∈ s.coarse)
    (hops : Within ops (l2Block c.l2Table)) (hregs : (m.execAll ops).ttbr0 = m.ttbr0) :
    Ready s (m.execAll ops) := by
  have hentry : ∀ i, i < 4096 → tableEntry (m.execAll ops).mem s.table.toNat i =
      tableEntry m.mem s.table.toNat i := fun i hi => tableEntry_of_pageCall h hc hops hi
  refine ⟨by rw [hregs, h.active], fun i hi b hb => ?_, fun d hd => ?_, h.apartL1,
    fun d hd i hi hne b hb => ?_⟩
  · rw [hentry i hi] at hb
    exact h.tables i hi b hb
  · rw [hentry d.region (l1IndexOf_lt _)]
    exact h.entry d hd
  · rw [hentry i hi] at hb
    exact h.apartL2 d hd i hi hne b hb

/-- No mapping call breaks what the constructors established. -/
theorem ready_step (call : MappingCall) (hcall : s.Permitted call) : Ready s (s.step m call) := by
  cases call with
  | mapSection va pa ap cp domain =>
      have hentry := tableEntry_mapSection s m va pa ap cp domain
      -- a section entry names no second-level table
      have hsecond : ∀ i b, secondLevel (tableEntry (s.step m (.mapSection va pa ap cp domain)).mem
          s.table.toNat i) = some b →
            secondLevel (tableEntry m.mem s.table.toNat i) = some b := by
        intro i b hb
        rw [hentry] at hb
        split_ifs at hb with hi
        · simp [secondLevel, (sectionDescriptor_fields pa ap cp domain).1] at hb
        · exact hb
      refine ⟨?_, fun i hi b hb => h.tables i hi b (hsecond i b hb), fun d hd => ?_, h.apartL1,
        fun d hd i hi hne b hb => h.apartL2 d hd i hi hne b (hsecond i b hb)⟩
      · simp only [EditSession.step, EditSession.operations, MMUEditor.mapSection_eq_map,
          MMUEditor.map_ttbr0]
        exact h.active
      · rw [hentry, if_neg (fun heq => hcall d hd heq.symm)]
        exact h.entry d hd
  | map64KBPage c va pa a0 a1 a2 a3 cp =>
      exact ready_of_within h hcall.1 (c.editor.map64KBPage_within _ _ _ c.owns)
        (c.editor.map64KBPage_ttbr0 m _ _ _)
  | map4KBPage c va pa a0 a1 a2 a3 cp =>
      exact ready_of_within h hcall.1 (c.editor.map4KBPage_within _ _ _ c.owns)
        (c.editor.map4KBPage_ttbr0 m _ _ _)

/-- One call: what it covers it decides, the rest it leaves alone. -/
theorem walk_step (call : MappingCall) (hcall : s.Permitted call) (x : Word) :
    (s.step m call).walk x = if call.Covers x then call.answer x else m.walk x := by
  have hx := l1IndexOf_lt x
  cases call with
  | mapSection va pa ap cp domain =>
      simp only [MappingCall.Covers, section_covers_iff]
      have hregs : (s.step m (.mapSection va pa ap cp domain)).ttbr0 = m.ttbr0 := by
        simp only [EditSession.step, EditSession.operations, MMUEditor.mapSection_eq_map,
          MMUEditor.map_ttbr0]
      simp only [Machine.walk, Verified.ShortDescriptor.walk, hregs, h.active, walkTable,
        tableEntry_mapSection]
      split_ifs with hsame
      · exact walkEntry_sectionDescriptor _ va pa x ap cp domain
      · -- the table the entry names lies outside the first-level table
        simp only [EditSession.step, EditSession.operations, MMUEditor.mapSection_eq_map]
        rw [s.editor.map_mem m _ _ s.owns]
        refine walkEntry_congr fun b hb a ha => writeWord_of_outside _ _ _ ?_
        have hva := l1IndexOf_lt va
        have hmiss := h.tables _ hx b hb a
        simp only [Block.Holds, l1Block] at hmiss
        by_contra hcon
        exact hmiss (by omega) ha
  | map64KBPage c va pa a0 a1 a2 a3 cp =>
      obtain ⟨hc, hregion⟩ := hcall
      simp only [MappingCall.Covers, largePage_covers_iff, EditSession.step,
        EditSession.operations]
      rw [walk_pageCall h hc (c.editor.map64KBPage_within _ _ _ c.owns) (by simp),
        c.editor.tableEntry_map64KBPage m _ _ _ c.owns, hregion]
      by_cases hxr : l1IndexOf x = c.region
      · simp only [hxr, true_and, ↓reduceIte]
        split_ifs with hgranule
        · exact coarseDescriptor_largePageDescriptor c va pa x a0 a1 a2 a3 cp
        · exact (walk_region h hc hxr).symm
      · simp only [hxr, false_and, ↓reduceIte]
  | map4KBPage c va pa a0 a1 a2 a3 cp =>
      obtain ⟨hc, hregion⟩ := hcall
      simp only [MappingCall.Covers, smallPage_covers_iff, EditSession.step,
        EditSession.operations]
      rw [walk_pageCall h hc (c.editor.map4KBPage_within _ _ _ c.owns) (by simp),
        c.editor.tableEntry_map4KBPage m _ _ _ c.owns, hregion]
      by_cases hxr : l1IndexOf x = c.region
      · simp only [hxr, true_and, ↓reduceIte]
        split_ifs with hgranule
        · exact coarseDescriptor_smallPageDescriptor c va pa x a0 a1 a2 a3 cp
        · exact (walk_region h hc hxr).symm
      · simp only [hxr, false_and, ↓reduceIte]

end Call

/-! ## The constructors -/

/-- An editor without coarse editors is ready. -/
theorem ready_start (m : Machine) (e : MMUEditor) (table : Word) (he : e.editedTable = some table)
    (hactive : ttbBase m.ttbr0 = table.toNat) (htables : TablesApart m.mem table) :
    Ready { editor := e, table, coarse := [], owns := he } m :=
  ⟨hactive, htables, by simp, by simp, by simp⟩

/-- The constructor of a coarse editor on a megabyte without one makes the
session ready with the new editor in it. -/
theorem ready_construct (s : EditSession) (m : Machine) (h : Ready s m) (ref : Nat)
    (virtualAddr l2Table : Word) (domain : Byte) (c : MMUL2CoarsePageTableEditor)
    (ops : List BusOp) (hfresh : FreshL2 m.mem s.table l2Table)
    (hregion : ∀ d ∈ s.coarse, l1IndexOf virtualAddr ≠ d.region)
    (hctor : MMUL2CoarsePageTableEditor.construct m ref s.editor virtualAddr domain
      (some l2Table) = .ok (c, ops)) :
    ∃ hc : c.l2Table = some l2Table,
      Ready { s with coarse := s.coarse ++ [⟨c, l2Table, domain, hc, hfresh.aligned⟩] }
        (m.execAll ops) := by
  obtain ⟨q, hq, -, hcdef, -⟩ := MMUL2CoarsePageTableEditor.construct_ok s.owns hctor
  obtain ⟨-, -, -, hregs, -, -⟩ := construct_mem s.owns hctor
  obtain rfl : l2Table = q := Option.some.inj hq
  have hc : c.l2Table = some l2Table := by rw [hcdef]
  have hva : c.virtualAddr = virtualAddr := by rw [hcdef]
  have hentry : ∀ i, i < 4096 → tableEntry (m.execAll ops).mem s.table.toNat i =
      if i = l1IndexOf virtualAddr then coarseL1Entry l2Table domain
      else tableEntry m.mem s.table.toNat i :=
    fun i hi => tableEntry_construct s.owns hctor hfresh.apartL1 hi
  -- an entry names the new table or the table it named before
  have hsecond : ∀ i, i < 4096 → ∀ b,
      secondLevel (tableEntry (m.execAll ops).mem s.table.toNat i) = some b →
        (i = l1IndexOf virtualAddr ∧ b = l2Block l2Table) ∨
          (i ≠ l1IndexOf virtualAddr ∧
            secondLevel (tableEntry m.mem s.table.toNat i) = some b) := by
    intro i hi b hb
    rw [hentry i hi] at hb
    split_ifs at hb with heq
    · rw [secondLevel_coarseL1Entry domain hfresh.aligned, Option.some.injEq] at hb
      exact .inl ⟨heq, hb.symm⟩
    · exact .inr ⟨heq, hb⟩
  have hold : ∀ d ∈ s.coarse, secondLevel (tableEntry m.mem s.table.toNat d.region) =
      some (l2Block d.l2Table) := fun d hd => by
    rw [h.entry d hd, secondLevel_coarseL1Entry d.domain d.aligned]
  refine ⟨hc, ⟨by rw [hregs, h.active], fun i hi b hb => ?_, fun d hd => ?_, fun d hd => ?_,
    fun d hd i hi hne b hb => ?_⟩⟩
  · rcases hsecond i hi b hb with ⟨-, rfl⟩ | ⟨-, hb'⟩
    · exact hfresh.apartL1.symm
    · exact h.tables i hi b hb'
  · rcases List.mem_append.mp hd with hd' | hd'
    · rw [hentry d.region (l1IndexOf_lt _), if_neg fun heq => hregion d hd' heq.symm]
      exact h.entry d hd'
    · obtain rfl := List.mem_singleton.mp hd'
      have hnew := hentry _ (l1IndexOf_lt c.virtualAddr)
      rw [if_pos (by rw [hva])] at hnew
      exact hnew
  · rcases List.mem_append.mp hd with hd' | hd'
    · exact h.apartL1 d hd'
    · obtain rfl := List.mem_singleton.mp hd'
      exact hfresh.apartL1
  · rcases List.mem_append.mp hd with hd' | hd'
    · rcases hsecond i hi b hb with ⟨-, rfl⟩ | ⟨-, hb'⟩
      · exact (hfresh.apartL2 _ (l1IndexOf_lt _) _ (hold d hd')).symm
      · exact h.apartL2 d hd' i hi hne b hb'
    · obtain rfl := List.mem_singleton.mp hd'
      rcases hsecond i hi b hb with ⟨heq, -⟩ | ⟨-, hb'⟩
      · exact absurd (by rw [heq, LiveCoarse.region, hva]) hne
      · exact hfresh.apartL2 i hi b hb'

/-- A session with a coarse editor on the megabyte of the one section. -/
theorem ready_oneSection :
    ∃ (s : EditSession) (m : Machine) (c : LiveCoarse), Ready s m ∧ c ∈ s.coarse ∧
      c.editor.virtualAddr = 0x10000000#32 ∧ c.domain = 3#8 ∧
        m.walk 0x10003000#32 =
          .mapped
            { physical := 0x10003000#32, permission := 0b11#2, cache := 0b11#2
              domain := 3#4 } := by
  obtain ⟨c, ops, hctor⟩ := construct_oneSection
  have hstart : Ready { editor := oneSectionEditor, table := 0x4000#32, coarse := [], owns := rfl }
    oneSection := ready_start oneSection oneSectionEditor 0x4000#32 rfl (by decide)
      tablesApart_oneSection
  obtain ⟨hc, hready⟩ := ready_construct _ oneSection hstart 0 0x10000000#32 0x8000#32 3#8 c ops
    freshL2_oneSection (by simp) hctor
  obtain ⟨_, -, hfine, hcdef, -⟩ := MMUL2CoarsePageTableEditor.construct_ok rfl hctor
  obtain ⟨q', hq', -, -, hnew, -⟩ := construct_mem (e := oneSectionEditor) rfl hctor
  obtain rfl : 0x8000#32 = q' := Option.some.inj hq'
  have hva : c.virtualAddr = 0x10000000#32 := congrArg MMUL2CoarsePageTableEditor.virtualAddr hcdef
  refine ⟨_, _, ⟨c, 0x8000#32, 3#8, hc, freshL2_oneSection.aligned⟩, hready, by simp, hva, rfl, ?_⟩
  have hregion : l1IndexOf 0x10003000#32 =
      LiveCoarse.region ⟨c, 0x8000#32, 3#8, hc, freshL2_oneSection.aligned⟩ := by
    rw [LiveCoarse.region, hva]
    decide
  rw [walk_region hready (by simp) hregion, hnew _ (coarseIndexOf_lt _) freshL2_oneSection.apartL1,
    coarseDescriptor_newL2Entry _ _ _ _ hfine]
  rfl

/-! ## Any sequence of calls -/

/-- **The last writer wins**, on its granule and nowhere else.  After any
sequence of mapping calls every address is translated as the last call covering
it asked for; an address no call covers keeps the translation it had.  The tables are
identity mapped. -/
theorem walk_run (s : EditSession) (m : Machine) (calls : List MappingCall) (h : Ready s m)
    (hcalls : ∀ call ∈ calls, s.Permitted call) (x : Word) :
    (run s.step m calls).walk x =
      ((lastCovering MappingCall.Covers calls x).map (·.answer x)).getD (m.walk x) :=
  observe_run s.step (fun _ call => s.Permitted call) MappingCall.Covers Machine.walk
    MappingCall.answer (fun _ call hcall hm => ready_step hm call hcall)
    (fun _ call y hcall hm => walk_step hm call hcall y) calls m x
    ((allowed_const s.step s.Permitted calls m).mpr hcalls) h

/-- A small page punches a hole into a large page written before it. -/
theorem walk_run_small_over_large :
    ∃ s m c, Ready s m ∧ c ∈ s.coarse ∧
      (run s.step m
        [ .map64KBPage c 0x10000000#32 0x20000000#32 .fullAccess .noAccess .noAccess .noAccess
            .writeBackCache
        , .map4KBPage c 0x10001000#32 0x30000000#32 .noAccess .noAccess .noAccess .userReadOnly
            .nonCachedNonBuffered ]).walk 0x10001C04#32 =
        .mapped
          { physical := 0x30000C04#32, permission := 0b10#2, cache := 0b00#2, domain := 3#4 } := by
  obtain ⟨s, m, c, hready, hc, hregion, hdomain, -⟩ := ready_oneSection
  refine ⟨s, m, c, hready, hc, ?_⟩
  rw [walk_run _ _ _ hready]
  · show Walk.mapped
        { physical := 0x30000C04#32, permission := 0b10#2, cache := 0b00#2
          domain := c.domain.extractLsb' 0 4 } = _
    rw [hdomain]
    rfl
  · intro call hcall
    simp only [List.mem_cons, List.not_mem_nil, or_false] at hcall
    rcases hcall with rfl | rfl
    · exact ⟨hc, by rw [LiveCoarse.region, hregion]⟩
    · refine ⟨hc, ?_⟩
      rw [LiveCoarse.region, hregion]
      decide

/-! ## Tables that are not apart -/

/-- A session on the table of `oneSectionEditor`. -/
def sessionWith (coarse : List LiveCoarse) : EditSession where
  editor := oneSectionEditor
  table := 0x4000#32
  coarse := coarse
  owns := rfl

/-- The editor of a coarse table at `0x8000` for the megabyte at `0x10000000`. -/
def sharedCoarse : LiveCoarse where
  editor :=
    { parentMMUEditor := 0, oldL1Entry := 0, virtualAddr := 0x10000000#32
      l2Table := some 0x8000#32 }
  l2Table := 0x8000#32
  domain := 3#8
  owns := rfl
  aligned := by decide

/-- A table in which the next megabyte leads to that coarse table too. -/
def shared : Machine :=
  { mem := writeWord (writeWord (fun _ => 0) 0x4400 (coarseL1Entry 0x8000#32 3#8)) 0x4404
      (coarseL1Entry 0x8000#32 3#8)
    ttbr0 := 0x4000#32 }

theorem tableEntry_shared (i : Nat) : tableEntry shared.mem 0x4000 i =
    if i = 256 ∨ i = 257 then coarseL1Entry 0x8000#32 3#8 else 0 := by
  rw [tableEntry, shared]
  by_cases hsecond : i = 257
  · rw [if_pos (.inr hsecond), hsecond, readWord_writeWord_self]
  · rw [readWord_writeWord_of_apart _ _ _ (by omega)]
    by_cases hfirst : i = 256
    · rw [if_pos (.inl hfirst), hfirst, readWord_writeWord_self]
    · rw [if_neg (by omega), readWord_writeWord_of_apart _ _ _ (by omega)]
      show ((0 : Byte) ++ (0 : Byte) ++ (0 : Byte) ++ (0 : Byte) : Word) = 0
      decide

/-- The coarse table is all faults. -/
theorem tableEntry_second : tableEntry shared.mem 0x8000 1 = 0 := by
  rw [tableEntry, shared, readWord_writeWord_of_apart _ _ _ (by omega),
    readWord_writeWord_of_apart _ _ _ (by omega)]
  show ((0 : Byte) ++ (0 : Byte) ++ (0 : Byte) ++ (0 : Byte) : Word) = 0
  decide

theorem tablesApart_shared : TablesApart shared.mem 0x4000#32 := by
  intro i _ b hb
  have hentry : secondLevel (if i = 256 ∨ i = 257 then coarseL1Entry 0x8000#32 3#8 else 0) =
    some b := tableEntry_shared i ▸ hb
  split_ifs at hentry with hi
  · rw [secondLevel_coarseL1Entry _ (by decide), Option.some.injEq] at hentry
    rw [← hentry]
    exact Block.apart_of_le (.inl (by decide))
  · have hfault : secondLevel 0 = none := by decide
    rw [hfault] at hentry
    exact absurd hentry (by simp)

/-- The second megabyte is translated through the coarse table. -/
theorem walkTable_shared {mem : Memory}
    (h : tableEntry mem 0x4000 257 = coarseL1Entry 0x8000#32 3#8) :
    walkTable mem 0x4000 0x10101000#32 =
      coarseDescriptor 3#4 (tableEntry mem 0x8000 1) 0x10101000#32 := by
  have hindex : l1IndexOf 0x10101000#32 = 257 ∧ coarseIndexOf 0x10101000#32 = 1 := by decide
  rw [walkTable, hindex.1, h, walkEntry_coarseL1Entry mem 3#8 (by decide), hindex.2]
  rfl

/-- Where a coarse table lies over the first-level table, a section call moves an
address that it does not cover; where two megabytes lead to one coarse table, a page
call does. -/
theorem uncovered_address_moves :
    (¬ ∀ (s : EditSession) (m : Machine) (calls : List MappingCall),
      ttbBase m.ttbr0 = s.table.toNat →
      (∀ c ∈ s.coarse, tableEntry m.mem s.table.toNat c.region = coarseL1Entry c.l2Table c.domain) →
      (∀ call ∈ calls, s.Permitted call) → ∀ x, (run s.step m calls).walk x =
        ((lastCovering MappingCall.Covers calls x).map (·.answer x)).getD (m.walk x)) ∧
    ¬ ∀ (s : EditSession) (m : Machine) (calls : List MappingCall),
      ttbBase m.ttbr0 = s.table.toNat → TablesApart m.mem s.table →
      (∀ c ∈ s.coarse, tableEntry m.mem s.table.toNat c.region = coarseL1Entry c.l2Table c.domain) →
      (∀ call ∈ calls, s.Permitted call) → ∀ x, (run s.step m calls).walk x =
        ((lastCovering MappingCall.Covers calls x).map (·.answer x)).getD (m.walk x) := by
  refine ⟨fun hall => ?_, fun hall => ?_⟩
  · have hwalk := hall (sessionWith []) overlaid
      [.mapSection 0x10000000#32 0x20000000#32 .fullAccess .writeBackCache 0] rfl
      (by simp [sessionWith]) (by simp [EditSession.Permitted, sessionWith]) 0
    have hslot : l1IndexOf 0x10000000#32 = 256 := by decide
    have hentry := tableEntry_mapSection (sessionWith []) overlaid 0x10000000#32 0x20000000#32
      .fullAccess .writeBackCache 0
    rw [hslot] at hentry
    have hbefore := walkTable_overlaid (tableEntry_overlaid 0)
    rw [tableEntry_overlaid 256] at hbefore
    have hthen := walkTable_overlaid ((hentry 0).trans (tableEntry_overlaid 0))
    have hmapped : tableEntry _ 0x4000 256 = _ := hentry 256
    rw [hmapped] at hthen
    have hsame := (hthen.symm.trans hwalk).trans hbefore
    exact absurd hsame (by decide)
  · have hregion : l1IndexOf 0x10001000#32 = sharedCoarse.region := by decide
    have hwalk := hall (sessionWith [sharedCoarse]) shared
      [.map4KBPage sharedCoarse 0x10001000#32 0x30000000#32 .fullAccess .fullAccess .fullAccess
        .fullAccess .writeBackCache] rfl tablesApart_shared
      (by
        intro c hc
        obtain rfl := List.mem_singleton.mp hc
        exact tableEntry_shared 256)
      (by
        intro call hcall
        obtain rfl := List.mem_singleton.mp hcall
        exact ⟨List.mem_singleton_self _, hregion⟩) 0x10101000#32
    have hindex : coarseIndexOf 0x10001000#32 = 1 := by decide
    have hapart : (l2Block 0x8000#32).Apart (l1Block 0x4000) :=
      Block.apart_of_le (.inr (by decide))
    have hwithin := sharedCoarse.editor.map4KBPage_within 0x10001000#32 0x30000000#32
      (pageAttributes .fullAccess .fullAccess .fullAccess .fullAccess .writeBackCache)
      sharedCoarse.owns
    have hpage := sharedCoarse.editor.tableEntry_map4KBPage shared 0x10001000#32 0x30000000#32
      (pageAttributes .fullAccess .fullAccess .fullAccess .fullAccess .writeBackCache)
      sharedCoarse.owns 1
    rw [hindex, if_pos rfl] at hpage
    have hfirst : tableEntry (shared.execAll _).mem 0x4000 257 = tableEntry shared.mem 0x4000 257 :=
      tableEntry_congr (by omega) fun a ha => execAll_of_outside _ shared
        (hwithin.spares fun hold => hapart a hold ha)
    have hbefore := walkTable_shared (tableEntry_shared 257)
    rw [tableEntry_second] at hbefore
    have hthen := walkTable_shared (hfirst.trans (tableEntry_shared 257))
    have hmapped : tableEntry (shared.execAll _).mem 0x8000 1 = _ := hpage
    rw [hmapped] at hthen
    have hsame := (hthen.symm.trans hwalk).trans hbefore
    exact absurd hsame (by decide)

end NspireUtils.Ports.LastWriter
