import NspireUtils.Ports.SRAMCaches
import NspireUtils.Ports.SRAMIsolation

/-!
# Lines of the old mapping

The constructor changes where three addresses lead, and leaves the lines in the
cache that were filled through them.  A line keeps the physical address it was
filled from, so a dirty line of one of the OS's windows is still written to the
SRAM when it is evicted, long after the user put something else there.

`old` and `stored` are history variables: the lines that were filled before the
last entry was replaced and are still in the cache, and the last byte the user
stored at each offset.  `noStaleLines_iff` says which lines the constructor may
find without harm.  The OS's reads are safe in any case, since the constructor
maps the windows uncached.
-/

namespace NspireUtils.Ports.SRAMStaleLines

open NspireUtils.Verified.BitFields
open NspireUtils.Verified.ByteMemory
open NspireUtils.Verified.ShortDescriptor
open NspireUtils.Verified.Runs
open NspireUtils.Verified.WriteBackCache (lineSize lineOf)
open NspireUtils.Verified.VirtualCache
open NspireUtils.Verified.AliasedCopy (WordCopy Instr)
open NspireUtils.Ports.MMUDescriptors
open NspireUtils.Ports.TableEditors
open NspireUtils.Ports.SRAMAccessor
open NspireUtils.Ports.SRAMRelocation
open NspireUtils.Ports.SRAMLifetime
open NspireUtils.Ports.SRAMRestore
open NspireUtils.Ports.SRAMConstructor
open NspireUtils.Ports.SRAMIsolation
open NspireUtils.Ports.SRAMCaches

/-- The system, the operations of the constructor still to come, and the two
histories. -/
structure Config where
  state : CachedSystem
  todo : List SRAMOp
  old : Nat → Bool
  stored : Nat → Option Byte

/-- One step of a run.  The user stores words of the SRAM. -/
inductive Event where
  | program
  | evict (l : Nat)
  | user (i : Nat) (value : Word)
  deriving Repr, DecidableEq

/-- The operation replaces an entry of the table. -/
def remaps : SRAMOp → Bool
  | .mapSectionInDomain .. => true
  | .mapSection .. => true
  | .map .. => true
  | _ => false

/-- The user's address of a word. -/
def userAddress (s : System) (i : Nat) : Word :=
  s.accessor.newSRAMAddress + BitVec.ofNat 32 (4 * i)

namespace Config

/-- One step. -/
def step (c : Config) : Event → Config
  | .program =>
      match c.todo with
      | [] => c
      | op :: rest =>
          { c with
            state := c.state.exec op
            todo := rest
            old := if remaps op then fun l => (c.state.cache.lines l).isSome else c.old }
  | .evict l =>
      { c with
        state := { c.state with cache := c.state.cache.evict l }
        old := Function.update c.old l false }
  | .user i value =>
      match c.state.system.walk (userAddress c.state.system i) with
      | .mapped t =>
          { c with
            state :=
              { c.state with
                cache := c.state.cache.storeWord (policyOf t)
                  (userAddress c.state.system i).toNat t.physical.toNat value }
            stored := fun o =>
              if o / 4 = i then some (value.extractLsb' (8 * (o % 4)) 8) else c.stored o }
      | _ => c

/-- The user stores to the SRAM after the constructor. -/
def Legal (c : Config) : Event → Prop
  | .program => True
  | .evict _ => True
  | .user i _ => c.todo = [] ∧ i < sramSize / 4

end Config

/-- A read at the address finds a line of the old mapping. -/
def HitsOld (c : Config) (va : Word) : Prop :=
  (policyAt c.state.system va).cached = true ∧ c.old (lineOf va.toNat) = true

/-- Evicting an old line overwrites no byte of the user's in the SRAM, and the OS's reads
find no old line. -/
structure NoStaleLines (c : Config) : Prop where
  eviction : ∀ l o x, c.old l = true → o < sramSize → c.stored o = some x →
    c.state.cache.mem (sramPhysicalAddress.toNat + o) = x →
    (c.state.cache.evict l).mem (sramPhysicalAddress.toNat + o) = x
  reads : ∀ (w : Window) (o : Nat), o < sramSize → ¬ HitsOld c (w.base + BitVec.ofNat 32 o)

/-- The constructor is called. -/
def start (s : System) (ap : MMUAccessPermission) (cp : MMUCachePolicy) (domain : Byte)
    (clone : Word) (v : Virtual) : Config :=
  { state := { system := s, cache := v }
    todo := construct s.accessor.newSRAMAddress ap cp domain (some clone)
    old := fun _ => false
    stored := fun _ => none }

/-- In every state after the constructor, whatever lines were evicted and whatever the user
stored. -/
def LeavesNoStaleLines (c₀ : Config) : Prop :=
  ∀ events, Allowed Config.step Config.Legal c₀ events →
    (run Config.step c₀ events).todo = [] → NoStaleLines (run Config.step c₀ events)

/-- The line belongs to one of the OS's windows. -/
def InWindow (l : Nat) : Prop :=
  ∃ (w : Window) (o : Nat), o < sramSize ∧ lineOf (w.base.toNat + o) = l

/-- The physical line belongs to the SRAM. -/
def OverSram (physical : Nat) : Prop :=
  ∃ o, o < sramSize ∧ lineOf (sramPhysicalAddress.toNat + o) = physical

/-- The SRAM was reached through the windows only. -/
def FilledFromWindows (v : Virtual) : Prop :=
  ∀ k e, v.lines k = some e → OverSram e.physical → InWindow k

/-- Nothing of the SRAM waits to be written back. -/
def SramClean (v : Virtual) : Prop :=
  ∀ k e, v.lines k = some e → OverSram e.physical → e.dirty = false

/-! ## The constructor as a program on the cache -/

/-- A word copied from a window to a place that is not the SRAM's. -/
def CopiesOut (w : WordCopy) : Prop :=
  InWindow (lineOf w.src) ∧ ¬ InWindow (lineOf w.dst) ∧ ¬ OverSram (lineOf w.dstPhysical)

/-- An instruction that stores or cleans no line of a window. -/
def Outside : Instr → Prop
  | .copyWord w => CopiesOut w
  | .cleanLines ls => ∀ l ∈ ls, ¬ InWindow l
  | .other => True

/-- An aligned block that is not a window's shares no line with one. -/
theorem notInWindow {base : Word} (haligned : 2 ^ 20 ∣ base.toNat)
    (hne : ∀ w : Window, l1IndexOf base ≠ l1IndexOf w.base) {o : Nat} (ho : o < sramSize) :
    ¬ InWindow (lineOf (base.toNat + o)) := by
  rintro ⟨w, o', ho', hline⟩
  have hwindow : 2 ^ 20 ∣ w.base.toNat := by cases w <;> decide
  have hindex := hne w
  simp only [l1IndexOf, toNat_extract] at hindex
  unfold sramSize at ho ho'
  simp only [lineOf, lineSize] at hline
  omega

theorem clone_notInWindow {clone new : Word} (p : Placement clone new) {o : Nat}
    (ho : o < sramSize) : ¬ InWindow (lineOf (clone.toNat + o)) := by
  refine notInWindow p.cloneAligned (fun w => ?_) ho
  cases w with
  | sram => exact p.cloneNotSram
  | zero => exact p.cloneNotZero

/-- Nor is the clone over the SRAM. -/
theorem clone_notOverSram {clone new : Word} (p : Placement clone new) {o : Nat}
    (ho : o < sramSize) : ¬ OverSram (lineOf (clone.toNat + o)) := by
  rintro ⟨o', ho', hline⟩
  have hbefore := p.before_or_after
  have haligned := p.cloneAligned
  have hsram : sramPhysicalAddress.toNat = 0xA4000000 := rfl
  unfold sramSize at ho ho' hbefore
  simp only [lineOf, lineSize] at hline
  omega

section Constructor

variable {s : System} {clone new : Word} (p : Placement clone new) (hrunning : s.failure = none)
  (hwindow : MapsSection (s.l1 (l1IndexOf sramPhysicalAddress)) sramPhysicalAddress.toNat)
  (hclone : CloneMapped s clone)
include p hrunning hwindow hclone

/-- A word of the first `memcpy`. -/
theorem exec_copyOut {i : Nat} (hi : i < sramSize / 4) :
    execTables s (copyOp clone sramPhysicalAddress i) = s ∧
      ∃ w, cacheInstr s (copyOp clone sramPhysicalAddress i) = .copyWord w ∧ CopiesOut w := by
  have ho : 4 * i < sramSize := by
    unfold sramSize at hi ⊢
    omega
  have hlt := Nat.lt_trans ho sramSize_lt
  obtain ⟨t, ht, -⟩ := walk_section hwindow sramAligned hlt
  obtain ⟨u, hu, huphysical⟩ := hclone.identity _ ho
  refine ⟨execTables_copyWord hrunning ht hu, _, cacheInstr_copyWord hrunning ht hu, ?_, ?_, ?_⟩
  · exact ⟨.sram, 4 * i, ho, congrArg lineOf (toNat_offset sramAligned hlt).symm⟩
  · rw [toNat_offset p.cloneAligned hlt]
    exact clone_notInWindow p ho
  · rw [huphysical]
    exact clone_notOverSram p ho

theorem outside_memcpy {i : Instr}
    (hi : i ∈ instrs s (memcpy clone sramPhysicalAddress sramSize)) : Outside i := by
  have hlt : ∀ j ∈ List.range' 0 (sramSize / 4), j < sramSize / 4 := fun j hj =>
    (List.mem_range'_1.mp hj).2.trans_eq (Nat.zero_add _)
  rw [memcpy_eq, (instrs_copyOps fun j hj =>
    (exec_copyOut p hrunning hwindow hclone (hlt j hj)).1).1] at hi
  obtain ⟨j, hj, rfl⟩ := List.mem_map.mp hi
  obtain ⟨-, w, hw, hout⟩ := exec_copyOut p hrunning hwindow hclone (hlt j hj)
  rw [hw]
  exact hout

theorem execAllTables_memcpy :
    execAllTables s (memcpy clone sramPhysicalAddress sramSize) = s := by
  rw [memcpy_eq]
  refine (instrs_copyOps fun i hi => (exec_copyOut p hrunning hwindow hclone ?_).1).2
  exact (List.mem_range'_1.mp hi).2.trans_eq (Nat.zero_add _)

end Constructor

/-- The system once the object knows its block. -/
def cloned (s : System) (clone : Word) : System :=
  { s with accessor := { s.accessor with clonedSRAMBlock := some clone } }

/-- The tables after the constructor. -/
structure Relocated (clone new : Word) (ap : MMUAccessPermission) (cp : MMUCachePolicy)
    (domain : Byte) (s : System) : Prop where
  newAddress : s.accessor.newSRAMAddress = new
  windows : ∀ w : Window, ∃ dom, s.l1 (l1IndexOf w.base) =
    sectionDescriptor clone (sectionAttributes .fullAccess .nonCachedNonBuffered dom)
  newEntry : s.l1 (l1IndexOf new) =
    sectionDescriptor sramPhysicalAddress (sectionAttributes ap cp domain)

section Quiet

variable {s : System} {clone : Word} (h : Quiet s clone) (ap : MMUAccessPermission)
  (cp : MMUCachePolicy) (domain : Byte)
include h

omit h in
theorem execTables_setClonedBlock (hrunning : s.failure = none) :
    execTables s (.setClonedBlock clone) = cloned s clone := by
  rw [execTables, exec_setClonedBlock hrunning]
  rfl

theorem cloneMapped_cloned : CloneMapped (cloned s clone) clone :=
  ⟨h.cloneMapped.identity, h.cloneMapped.tables⟩

/-- The constructor flushes the clone. -/
theorem outside_remap (s' : System) {i : Instr}
    (hi : i ∈ instrs s' (remap s.accessor.newSRAMAddress clone ap cp domain)) : Outside i := by
  have p := h.ready.placement
  rcases instrs_of_nocopy (by simp [remap]) s' i hi with rfl | ⟨start, stop, hmem, rfl⟩
  · trivial
  · obtain ⟨rfl, rfl⟩ : start = clone ∧ stop = clone + BitVec.ofNat 32 sramSize := by
      simpa [remap] using hmem
    intro l hl
    obtain ⟨o, ho, rfl⟩ := (mem_flushedClone p.cloneAligned).mp hl
    exact clone_notInWindow p ho

/-- It loads from the window, stores to the clone, and flushes the clone. -/
theorem outside_construct {i : Instr}
    (hi : i ∈ instrs s (construct s.accessor.newSRAMAddress ap cp domain (some clone))) :
    Outside i := by
  rw [construct, instrs, execTables_setClonedBlock h.running, instrs_append] at hi
  rcases List.mem_cons.mp hi with rfl | hi
  · rw [cacheInstr_other (by simp) (by simp)]
    trivial
  · rcases List.mem_append.mp hi with hcopy | hrest
    · exact outside_memcpy h.ready.placement (s := cloned s clone) h.running (h.windows .sram)
        (cloneMapped_cloned h) hcopy
    · exact outside_remap h ap cp domain _ hrest

theorem relocated_construct :
    Relocated clone s.accessor.newSRAMAddress ap cp domain
      (execAllTables s (construct s.accessor.newSRAMAddress ap cp domain (some clone))) := by
  have hcopied : execAllTables s (.setClonedBlock clone ::
      memcpy clone sramPhysicalAddress sramSize) = cloned s clone := by
    rw [execAllTables, List.foldl_cons, execTables_setClonedBlock h.running]
    exact execAllTables_memcpy h.ready.placement (s := cloned s clone) h.running (h.windows .sram)
      (cloneMapped_cloned h)
  have htest : TestPasses (cloned s clone) := by
    apply (testPasses_iff (s := cloned s clone) h.alive).mpr
    have hwindow := h.windows .sram
    exact BitVec.eq_of_toNat_eq ((mapsSection_entry hwindow.1).2.symm.trans hwindow.2)
  obtain ⟨hl1, -, haccessor⟩ := execAll_remap_done
    (execAll_remap_pass (s := cloned s clone) h.running s.accessor.newSRAMAddress clone ap cp
      domain htest)
  rw [construct, ← List.cons_append, execAllTables_append, hcopied,
    execAllTables_of_nocopy (by simp [remap])]
  refine ⟨by rw [haccessor]; rfl, fun w => ⟨oldDomain (cloned s clone), ?_⟩,
    by rw [hl1]; exact Function.update_self ..⟩
  rw [hl1, Function.update_of_ne (h.new_ne_window w).symm]
  cases w with
  | zero => exact Function.update_self ..
  | sram =>
      refine (Function.update_of_ne (show l1IndexOf Window.sram.base ≠ l1IndexOf Window.zero.base by
        decide) _ _).trans ?_
      exact Function.update_self ..

end Quiet

/-! ## What every step keeps -/

/-- Lines over the SRAM are clean lines of a window. -/
def Confined (v : Virtual) : Prop :=
  ∀ k e, v.lines k = some e → OverSram e.physical → InWindow k ∧ e.dirty = false

theorem confined_exec {v : Virtual} (h : Confined v) {i : Instr} (hi : Outside i) :
    Confined (Verified.AliasedCopy.exec v i) := by
  cases i with
  | other => exact h
  | cleanLines ls =>
      intro k e' he' hover
      obtain ⟨e, he, hphysical, himp⟩ := (v.retires_cleanAll ls).clean_line he'
      obtain ⟨hin, hclean⟩ := h k e he (hphysical ▸ hover)
      exact ⟨hin, himp hclean⟩
  | copyWord w =>
      obtain ⟨hsrc, hdst, hphysical⟩ : CopiesOut w := hi
      have hfill : Confined (v.fill w.srcPolicy (lineOf w.src) (lineOf w.srcPhysical)) := by
        intro k e' he' hover
        rcases v.lines_fill he' with hsome | ⟨rfl, -, hclean, -⟩
        · exact h k e' hsome hover
        · exact ⟨hsrc, hclean⟩
      intro k e' he' hover
      rcases Virtual.lines_storeWord _ he' with hsame | ⟨rfl, ⟨-, heq⟩ | ⟨e, he, heq⟩⟩
      · exact hfill k e' hsame hover
      · rw [heq] at hover
        exact absurd hover hphysical
      · rw [heq] at hover
        exact absurd (hfill _ e he hover).1 hdst

/-- The constructor removes no line. -/
theorem present_exec {v : Virtual} (i : Instr) {k : Nat} (h : v.lines k ≠ none) :
    (Verified.AliasedCopy.exec v i).lines k ≠ none := by
  cases i with
  | other => exact h
  | cleanLines ls => exact v.present_cleanAll h
  | copyWord w => exact Virtual.present_storeWord _ _ _ (v.present_fill h)

/-- While the constructor runs, every line over the SRAM is a clean line of a window, and
afterwards every old one is. -/
structure Tame (final : System) (c : Config) : Prop where
  tables : execAllTables c.state.system c.todo = final
  outside : ∀ i ∈ instrs c.state.system c.todo, Outside i
  present : ∀ k, c.old k = true → c.state.cache.lines k ≠ none
  lines : ∀ k e, c.state.cache.lines k = some e → c.todo ≠ [] ∨ c.old k = true →
    OverSram e.physical → InWindow k ∧ e.dirty = false

section Tame

variable {final : System} {clone new : Word} {ap : MMUAccessPermission} {cp : MMUCachePolicy}
  {domain : Byte} (hfinal : Relocated clone new ap cp domain final)
  (hnewAligned : 2 ^ 20 ∣ new.toNat) (hnewWindow : ∀ w : Window, l1IndexOf new ≠ l1IndexOf w.base)

theorem tame_program {c : Config} (h : Tame final c) : Tame final (c.step .program) := by
  obtain ⟨s, todo, old, stored⟩ := c
  cases todo with
  | nil => exact h
  | cons op rest =>
      have hconfined : Confined s.cache := fun k e he =>
        h.lines k e he (.inl (List.cons_ne_nil _ _))
      have hexec := confined_exec hconfined (h.outside _ List.mem_cons_self)
      refine ⟨h.tables, fun i hi => h.outside i (List.mem_cons_of_mem _ hi), fun k hk => ?_,
        fun k e he _ => hexec k e he⟩
      apply present_exec (cacheInstr s.system op)
      simp only [Config.step] at hk
      split_ifs at hk
      · exact Option.isSome_iff_ne_none.mp hk
      · exact h.present k hk

theorem tame_evict {c : Config} (h : Tame final c) (l : Nat) : Tame final (c.step (.evict l)) := by
  refine ⟨h.tables, h.outside, fun k hk => ?_, fun k e' he' hor hover => ?_⟩
  · by_cases hkl : k = l
    · subst hkl
      simp [Config.step] at hk
    · simp only [Config.step, Function.update_of_ne hkl] at hk
      exact (Virtual.lines_evict_of_ne _ hkl).trans_ne (h.present k hk)
  · obtain ⟨e, he, hphysical, himp⟩ := (c.state.cache.retires_evict l).clean_line he'
    have hold : c.todo ≠ [] ∨ c.old k = true := by
      refine hor.imp_right fun hk => ?_
      by_cases hkl : k = l
      · subst hkl
        simp [Config.step] at hk
      · simpa only [Config.step, Function.update_of_ne hkl] using hk
    obtain ⟨hin, hclean⟩ := h.lines k e he hold (hphysical ▸ hover)
    exact ⟨hin, himp hclean⟩

include hfinal hnewAligned hnewWindow in
theorem tame_user {c : Config} (h : Tame final c) {i : Nat} (value : Word)
    (htodo : c.todo = []) (hi : i < sramSize / 4) : Tame final (c.step (.user i value)) := by
  obtain ⟨s, todo, old, stored⟩ := c
  subst htodo
  have hsystem : s.system = final := h.tables
  have ho : 4 * i < sramSize := by
    unfold sramSize at hi ⊢
    omega
  have hnot : ¬ InWindow (lineOf (userAddress s.system i).toNat) := by
    rw [userAddress, hsystem, hfinal.newAddress,
      toNat_offset hnewAligned (Nat.lt_trans ho sramSize_lt)]
    exact notInWindow hnewAligned hnewWindow ho
  simp only [Config.step]
  split
  · refine ⟨h.tables, h.outside, fun k hk => ?_, fun k e' he' hor hover => ?_⟩
    · exact Virtual.present_storeWord _ _ _ (h.present k hk)
    · have hk : old k = true := hor.resolve_left fun hne => hne rfl
      rcases Virtual.lines_storeWord _ he' with hsame | ⟨rfl, ⟨hnone, -⟩ | ⟨e, he, heq⟩⟩
      · exact h.lines k e' hsame (.inr hk) hover
      · exact absurd hnone (h.present _ hk)
      · rw [heq] at hover
        exact absurd (h.lines _ e he (.inr hk) hover).1 hnot
  · exact h

include hfinal hnewAligned hnewWindow in
theorem tame_step (c : Config) (e : Event) (he : c.Legal e) (h : Tame final c) :
    Tame final (c.step e) := by
  cases e with
  | program => exact tame_program h
  | evict l => exact tame_evict h l
  | user i value => exact tame_user hfinal hnewAligned hnewWindow h value he.1 he.2

include hfinal in
/-- Then no old line is left that could do harm. -/
theorem noStaleLines_of_tame {c : Config} (h : Tame final c) (htodo : c.todo = []) :
    NoStaleLines c := by
  refine ⟨fun l o x hold ho _ hx => ?_, fun w o ho hhits => ?_⟩
  · rcases c.state.cache.mem_evict l (sramPhysicalAddress.toNat + o) with
      hsame | ⟨e, he, hdirty, hline, -⟩
    · rw [hsame, hx]
    · rw [(h.lines l e he (.inr hold) ⟨o, ho, hline⟩).2] at hdirty
      exact absurd hdirty (by decide)
  · obtain ⟨dom, hentry⟩ := hfinal.windows w
    have hbase : 2 ^ 20 ∣ w.base.toNat := by cases w <;> decide
    have hsystem : c.state.system = final := by
      have htables := h.tables
      rwa [htodo] at htables
    rw [← l1IndexOf_offset hbase (Nat.lt_trans ho sramSize_lt)] at hentry
    have hcached := hhits.1
    rw [hsystem, policyAt_section hentry] at hcached
    exact absurd hcached (by decide)

end Tame

/-! ## A line that stays -/

theorem kept_exec {v : Virtual} {i : Instr} (hi : Outside i) {k : Nat} (hk : InWindow k)
    {e : CacheLine} (he : v.lines k = some e) :
    (Verified.AliasedCopy.exec v i).lines k = some e := by
  cases i with
  | other => exact he
  | cleanLines ls => exact (v.lines_cleanAll_of_notMem fun hin => hi k hin hk).trans he
  | copyWord w =>
      have hne : k ≠ lineOf w.dst := by
        rintro rfl
        exact hi.2.1 hk
      exact (Virtual.lines_storeWord_of_ne _ _ _ hne).trans (v.lines_fill_of_some he)

/-- The line is in the cache, and old or about to become so. -/
structure Kept (final : System) (k : Nat) (e : CacheLine) (c : Config) : Prop where
  tables : execAllTables c.state.system c.todo = final
  outside : ∀ i ∈ instrs c.state.system c.todo, Outside i
  line : c.state.cache.lines k = some e
  marked : c.old k = true ∨ ∃ op ∈ c.todo, remaps op = true

theorem kept_program {final : System} {k : Nat} (hk : InWindow k) {e : CacheLine} {c : Config}
    (h : Kept final k e c) : Kept final k e (c.step .program) := by
  obtain ⟨s, todo, old, stored⟩ := c
  cases todo with
  | nil => exact h
  | cons op rest =>
      refine ⟨h.tables, fun i hi => h.outside i (List.mem_cons_of_mem _ hi),
        kept_exec (h.outside _ List.mem_cons_self) hk h.line, ?_⟩
      by_cases hremaps : remaps op = true
      · left
        simp only [Config.step, hremaps, if_true]
        exact Option.isSome_iff_exists.mpr ⟨e, h.line⟩
      · simp only [Config.step, hremaps]
        refine h.marked.imp id fun hop => ?_
        obtain ⟨op', hmem, hop'⟩ := hop
        refine ⟨op', (List.mem_cons.mp hmem).resolve_left ?_, hop'⟩
        rintro rfl
        exact hremaps hop'

/-- The constructor without interruption. -/
def finished (c : Config) : Config :=
  run Config.step c (List.replicate c.todo.length .program)

theorem finished_todo (c : Config) : (finished c).todo = [] := by
  obtain ⟨s, todo, old, stored⟩ := c
  induction todo generalizing s old with
  | nil => rfl
  | cons op rest ih => exact ih _ _

theorem allowed_finished (c : Config) :
    Allowed Config.step Config.Legal c (List.replicate c.todo.length .program) := by
  refine Allowed.mono Config.step (fun _ e => e = .program) (fun c e he => ?_) _ c ?_
  · subst he
    trivial
  · exact (allowed_const Config.step (· = .program) _ c).mpr fun e he => List.eq_of_mem_replicate he

theorem kept_finished {final : System} {k : Nat} (hk : InWindow k) {e : CacheLine} {c : Config}
    (h : Kept final k e c) : Kept final k e (finished c) := by
  refine run_invariant Config.step (fun _ e => e = .program) (fun c e' he' hc => ?_) _ c ?_ h
  · subst he'
    exact kept_program hk hc
  · exact (allowed_const Config.step (· = .program) _ c).mpr fun e he => List.eq_of_mem_replicate he

/-! ## What the line can do -/

/-- The line of a word of the user's is evicted, the word stored, and the line evicted
again. -/
def storeAndEvict (l i : Nat) (value : Word) : List Event :=
  [.evict l, .user i value, .evict l]

/-- A word whose first byte is another one. -/
theorem exists_other_byte (b : Byte) : ∃ value : Word, value.extractLsb' 0 8 ≠ b := by
  refine ⟨(b + 1#8).setWidth 32, ?_⟩
  revert b
  decide

section Damage

variable {final : System} {clone new : Word} {ap : MMUAccessPermission} {cp : MMUCachePolicy}
  {domain : Byte} (hfinal : Relocated clone new ap cp domain final)
  (hnewAligned : 2 ^ 20 ∣ new.toNat) {k : Nat} {e : CacheLine} {i : Nat} (hi : i < sramSize / 4)
include hfinal hnewAligned hi

/-- The user's value is in memory then, and the old line still in the cache. -/
theorem stored_storeAndEvict (hk : k ≠ lineOf (new.toNat + 4 * i)) {c : Config}
    (h : Kept final k e c) (htodo : c.todo = []) (value : Word) :
    ∃ c', run Config.step c (storeAndEvict (lineOf (new.toNat + 4 * i)) i value) = c' ∧
      c'.todo = [] ∧ c'.old k = true ∧ c'.state.cache.lines k = some e ∧
      c'.stored (4 * i) = some (value.extractLsb' 0 8) ∧
      c'.state.cache.mem (sramPhysicalAddress.toNat + 4 * i) = value.extractLsb' 0 8 := by
  obtain ⟨⟨system, cache⟩, todo, old, stored⟩ := c
  subst htodo
  obtain rfl : system = final := h.tables
  have hold : old k = true := h.marked.resolve_right (by simp)
  have ho : 4 * i < 2 ^ 20 := by
    unfold sramSize at hi
    omega
  have hmapped : MapsSection (system.l1 (l1IndexOf new)) sramPhysicalAddress.toNat := by
    rw [hfinal.newEntry]
    exact mapsSection_descriptor sramAligned ap cp domain
  obtain ⟨t, hwalk, hphysical⟩ := walk_section hmapped hnewAligned ho
  have haddr : userAddress system i = new + BitVec.ofNat 32 (4 * i) := by
    rw [userAddress, hfinal.newAddress]
  have hva : (userAddress system i).toNat = new.toNat + 4 * i := by
    rw [haddr, toNat_offset hnewAligned ho]
  rw [← haddr] at hwalk
  refine ⟨_, rfl, ?_⟩
  simp only [storeAndEvict, run_cons, run_nil, Config.step, hwalk, hva, hphysical]
  refine ⟨trivial, ?_, ?_, ?_, ?_⟩
  · simp only [Function.update_of_ne hk, hold]
  · rw [Virtual.lines_evict_of_ne _ hk, Virtual.lines_storeWord_of_ne _ _ _ hk,
      Virtual.lines_evict_of_ne _ hk, h.line]
  · rw [if_pos (by omega), Nat.mul_mod_right]
  · apply Virtual.mem_evict_storeWord _ value (Virtual.lines_evict_self _ _)
    have hsram : sramPhysicalAddress.toNat = 0xA4000000 := rfl
    simp only [lineSize]
    omega

/-- If the line is dirty and lies over the word, it is written over the value. -/
theorem harm_of_dirty (hk : k ≠ lineOf (new.toNat + 4 * i)) {c : Config}
    (h : Kept final k e c) (htodo : c.todo = []) (hdirty : e.dirty = true)
    (hover : lineOf (sramPhysicalAddress.toNat + 4 * i) = e.physical) :
    ∃ value, let c' := run Config.step c (storeAndEvict (lineOf (new.toNat + 4 * i)) i value)
      c'.todo = [] ∧ ¬ NoStaleLines c' := by
  have hoffset : 4 * i < sramSize := by
    unfold sramSize at hi ⊢
    omega
  obtain ⟨value, hvalue⟩ :=
    exists_other_byte (e.data ((sramPhysicalAddress.toNat + 4 * i) % lineSize))
  obtain ⟨c', hrun, hdone, hold, hline, hstored, hmem⟩ :=
    stored_storeAndEvict hfinal hnewAligned hi hk h htodo value
  refine ⟨value, ?_⟩
  simp only [hrun]
  refine ⟨hdone, fun hclaim => hvalue ?_⟩
  have hharmless := hclaim.eviction k (4 * i) _ hold hoffset hstored hmem
  rw [Virtual.mem_evict_of_dirty _ hline hdirty hover] at hharmless
  exact hharmless.symm

omit hfinal hnewAligned in
theorem allowed_storeAndEvict {c : Config} (htodo : c.todo = []) (l : Nat) (value : Word) :
    Allowed Config.step Config.Legal c (storeAndEvict l i value) :=
  ⟨trivial, ⟨htodo, hi⟩, trivial, trivial⟩

/-- So it must not be in the cache when the constructor is called. -/
theorem not_leaves_of_dirty (hin : InWindow k) (hk : k ≠ lineOf (new.toNat + 4 * i)) {c : Config}
    (h : Kept final k e c) (hdirty : e.dirty = true)
    (hover : lineOf (sramPhysicalAddress.toNat + 4 * i) = e.physical) :
    ¬ LeavesNoStaleLines c := by
  intro hclaim
  have hready := finished_todo c
  obtain ⟨value, hdone, hharm⟩ :=
    harm_of_dirty hfinal hnewAligned hi hk (kept_finished hin h) hready hdirty hover
  have hallowed := allowed_storeAndEvict hi hready (lineOf (new.toNat + 4 * i)) value
  rw [finished, ← run_append] at hdone hharm
  exact hharm (hclaim _ ((allowed_append _ _ _ _ _).mpr ⟨allowed_finished c, hallowed⟩) hdone)

end Damage

/-! ## Both directions -/

section Both

variable {s : System} {clone : Word} (h : Quiet s clone) (ap : MMUAccessPermission)
  (cp : MMUCachePolicy) (domain : Byte) {v : Virtual} (hfilled : FilledFromWindows v)
include h hfilled

theorem noStaleLines_of_clean (hclean : SramClean v) :
    LeavesNoStaleLines (start s ap cp domain clone v) := by
  intro events hallowed htodo
  have hfinal := relocated_construct h ap cp domain
  have hstart : Tame (execAllTables s (construct s.accessor.newSRAMAddress ap cp domain
      (some clone))) (start s ap cp domain clone v) :=
    { tables := rfl
      outside := fun i hi => outside_construct h ap cp domain hi
      present := fun k hk => absurd hk (by simp [start])
      lines := fun k e he _ hover => ⟨hfilled k e he hover, hclean k e he hover⟩ }
  have hrun := run_invariant Config.step Config.Legal
    (tame_step hfinal h.newAligned h.new_ne_window) events _ hallowed hstart
  exact noStaleLines_of_tame hfinal hrun htodo

theorem clean_of_noStaleLines (hclaim : LeavesNoStaleLines (start s ap cp domain clone v)) :
    SramClean v := by
  rintro k e he ⟨o, ho, hover⟩
  by_contra hdirty
  have hk : InWindow k := hfilled k e he ⟨o, ho, hover⟩
  have hfinal := relocated_construct h ap cp domain
  have hstart : Kept (execAllTables s (construct s.accessor.newSRAMAddress ap cp domain
      (some clone))) k e (start s ap cp domain clone v) :=
    { tables := rfl
      outside := fun i hi => outside_construct h ap cp domain hi
      line := he
      marked := .inr ⟨.mapSection s.accessor.newSRAMAddress sramPhysicalAddress
        (sectionAttributes ap cp domain), by simp [start, construct, remap], rfl⟩ }
  -- the first word of the line
  have hword : o / 32 * 8 < sramSize / 4 := by
    unfold sramSize at ho ⊢
    omega
  have hfirst : lineOf (sramPhysicalAddress.toNat + 4 * (o / 32 * 8)) = e.physical := by
    have hsram : sramPhysicalAddress.toNat = 0xA4000000 := rfl
    rw [← hover]
    simp only [lineOf, lineSize]
    omega
  have hne : k ≠ lineOf (s.accessor.newSRAMAddress.toNat + 4 * (o / 32 * 8)) := by
    rintro rfl
    refine notInWindow h.newAligned h.new_ne_window ?_ hk
    omega
  exact not_leaves_of_dirty hfinal h.newAligned hword hk hne hstart (by simpa using hdirty) hfirst
    hclaim

end Both

/-- **When the constructor leaves no stale line.**  If the SRAM was reached through the
windows only, no eviction of an old line ever overwrites a value of the user's and no
read of the OS's finds an old line, if and only if no line of the windows is dirty when
the constructor is called. -/
theorem noStaleLines_iff {s : System} {clone : Word} (h : Quiet s clone)
    (ap : MMUAccessPermission) (cp : MMUCachePolicy) (domain : Byte) {v : Virtual}
    (hfilled : FilledFromWindows v) :
    LeavesNoStaleLines (start s ap cp domain clone v) ↔ SramClean v :=
  ⟨clean_of_noStaleLines h ap cp domain hfilled, noStaleLines_of_clean h ap cp domain hfilled⟩

/-- The first line of the SRAM's window. -/
def firstLine (dirty : Bool) : CacheLine :=
  { physical := lineOf sramPhysicalAddress.toNat, dirty, data := fun _ => 1 }

/-- It is in the cache. -/
def windowLine (dirty : Bool) : Virtual :=
  { mem := fun _ => 0
    lines := Function.update (fun _ => none) (lineOf sramPhysicalAddress.toNat)
      (some (firstLine dirty)) }

theorem lines_windowLine (dirty : Bool) :
    (windowLine dirty).lines (lineOf sramPhysicalAddress.toNat) = some (firstLine dirty) := by
  simp only [windowLine, Function.update_self]

/-- No other line is. -/
theorem windowLine_some {dirty : Bool} {k : Nat} {e : CacheLine}
    (he : (windowLine dirty).lines k = some e) :
    k = lineOf sramPhysicalAddress.toNat ∧ e = firstLine dirty := by
  by_cases hk : k = lineOf sramPhysicalAddress.toNat
  · subst hk
    exact ⟨rfl, (Option.some.inj ((lines_windowLine dirty).symm.trans he)).symm⟩
  · simp [windowLine, Function.update_of_ne hk] at he

theorem filled_windowLine (dirty : Bool) : FilledFromWindows (windowLine dirty) := by
  intro k e he _
  exact ⟨.sram, 0, by decide, (windowLine_some he).1.symm⟩

/-- A clean line does no harm. -/
theorem noStaleLines_cleanLine :
    LeavesNoStaleLines
      (start quietSystem .fullAccess .writeBackCache 0 0x10000000#32 (windowLine false)) :=
  (noStaleLines_iff quiet_quietSystem .fullAccess .writeBackCache 0
    (filled_windowLine false)).mpr fun _ _ he _ => by
      rw [(windowLine_some he).2]
      rfl

/-- A dirty one does. -/
theorem dirty_line_harms :
    ¬ ∀ (s : System) (clone : Word) (ap : MMUAccessPermission) (cp : MMUCachePolicy)
      (domain : Byte) (v : Virtual), Quiet s clone → FilledFromWindows v →
      LeavesNoStaleLines (start s ap cp domain clone v) := by
  intro hall
  have hclaim := hall quietSystem 0x10000000#32 .fullAccess .writeBackCache 0 (windowLine true)
    quiet_quietSystem (filled_windowLine true)
  have hclean := clean_of_noStaleLines quiet_quietSystem _ _ _ (filled_windowLine true) hclaim
    _ _ (lines_windowLine true) ⟨0, by decide, rfl⟩
  exact absurd hclean (by decide)

end NspireUtils.Ports.SRAMStaleLines
