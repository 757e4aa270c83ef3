import NspireUtils.Ports.SRAMLifetime

/-!
# The OS does not know the difference

While an accessor is set up, the OS works on the clone through its two windows
and the user on the SRAM through the new address.  `relocation_hidden` compares
the OS with the same OS on the machine without an accessor: every byte it can
read is the same, the user's bytes depend on the user alone, and after the
destructor the SRAM holds what the OS last wrote.
-/

namespace NspireUtils.Ports.SRAMIsolation

open NspireUtils.Verified.ByteMemory
open NspireUtils.Verified.ShortDescriptor
open NspireUtils.Verified.Runs
open NspireUtils.Verified.ProofOutline
open NspireUtils.Ports.MMUDescriptors
open NspireUtils.Ports.TableEditors
open NspireUtils.Ports.SRAMAccessor
open NspireUtils.Ports.SRAMRelocation
open NspireUtils.Ports.SRAMLifetime

/-- The offset the access goes to. -/
def offsetOf : Access → Nat
  | .os _ offset _ => offset
  | .user offset _ => offset

/-- The OS alone, on a system without an accessor. -/
def withoutAccessor (s : System) (accesses : List Access) : System :=
  accesses.foldl
    (fun s a =>
      match a with
      | .os w offset value => s.store (w.base + BitVec.ofNat 32 offset) value
      | .user _ _ => s) s

/-- The step is a write of the user to the offset. -/
def UserWrites : Event → Nat → Prop
  | .access (.user offset _), o => offset = o
  | _, _ => False

instance (e : Event) (o : Nat) : Decidable (UserWrites e o) := by
  unfold UserWrites
  split <;> infer_instance

/-- What holds when the constructor is called on a system whose two windows are
sections onto the SRAM, for an aligned address with a fault entry. -/
structure Quiet (s : System) (clone : Word) : Prop where
  running : s.failure = none
  alive : s.editorAlive = true
  initializing : s.accessor.initSuccessful = false
  windows : ∀ w : Window, MapsSection (s.l1 (l1IndexOf w.base)) sramPhysicalAddress.toNat
  newAligned : 2 ^ 20 ∣ s.accessor.newSRAMAddress.toNat
  newFault : (s.l1 (l1IndexOf s.accessor.newSRAMAddress)).extractLsb' 0 2 = 0b00#2
  cloneAligned : 2 ^ 20 ∣ clone.toNat
  cloneNonNull : clone ≠ 0
  cloneApart : (cloneBlock clone).Apart sramBlock
  cloneMapped : CloneMapped s clone

namespace Quiet

variable {s : System} {clone : Word} (h : Quiet s clone)
include h

/-- The new address lies in neither window. -/
theorem new_ne_window (w : Window) :
    l1IndexOf s.accessor.newSRAMAddress ≠ l1IndexOf w.base := by
  intro heq
  have htype := (h.windows w).1
  rw [← heq, h.newFault] at htype
  exact absurd htype (by decide)

/-- A fault entry maps no clone. -/
theorem new_ne_clone : l1IndexOf s.accessor.newSRAMAddress ≠ l1IndexOf clone := by
  intro heq
  obtain ⟨t, hwalk, -⟩ := h.cloneMapped.identity 0 (by decide)
  rw [System.walk, l1IndexOf_offset h.cloneAligned (by decide), ← heq, walkEntry,
    if_pos h.newFault] at hwalk
  simp at hwalk

theorem ready : Ready s clone :=
  { running := h.running
    alive := h.alive
    initializing := h.initializing
    placement :=
      { cloneAligned := h.cloneAligned
        cloneNonNull := h.cloneNonNull
        cloneApart := h.cloneApart
        newAligned := h.newAligned
        newNotSram := h.new_ne_window .sram
        newNotClone := h.new_ne_clone }
    cloneMapped := h.cloneMapped
    window := h.windows .sram }

end Quiet

/-! ## Without an accessor -/

/-- The user's writes are not the OS's. -/
theorem mostRecent_user (s : System) (offset : Nat) (value : Byte) (es : List Event) (o : Nat) :
    mostRecent s (.access (.user offset value) :: es) o = mostRecent s es o := by
  have hnot : ¬ OsWrites (.access (.user offset value)) o := id
  rw [mostRecent, lastCovering_cons, if_neg hnot, Option.or_none, mostRecent]

/-- A write of the OS is what later reads find, unless it writes again. -/
theorem mostRecent_os (s : System) (w : Window) (offset : Nat) (value : Byte) (es : List Event)
    (o : Nat) :
    mostRecent s (.access (.os w offset value) :: es) o =
      mostRecent { s with
        mem := Function.update s.mem (sramPhysicalAddress.toNat + offset) value } es o := by
  rw [mostRecent, lastCovering_cons, mostRecent]
  cases hlast : lastCovering OsWrites es o with
  | some e => rfl
  | none =>
      have hiff : OsWrites (.access (.os w offset value)) o ↔ offset = o := Iff.rfl
      simp only [Option.none_or, Option.map_none, Option.getD_none, hiff, Function.update_apply,
        Nat.add_left_cancel_iff]
      by_cases heq : offset = o
      · simp [heq, valueOf]
      · have hne : o ≠ offset := fun h => heq h.symm
        simp [heq, hne]

/-- On the plain system the windows read what the OS last wrote. -/
theorem load_withoutAccessor (s : System)
    (hwindows : ∀ w : Window, MapsSection (s.l1 (l1IndexOf w.base)) sramPhysicalAddress.toNat)
    (accesses : List Access) (hin : ∀ a ∈ accesses, offsetOf a < sramSize) (w : Window) {o : Nat}
    (ho : o < sramSize) :
    (withoutAccessor s accesses).load (w.base + BitVec.ofNat 32 o) =
      some (mostRecent s (accesses.map .access) o) := by
  have hbase : ∀ w : Window, 2 ^ 20 ∣ w.base.toNat := by
    intro w
    cases w <;> decide
  have hload : ∀ s : System,
      (∀ w : Window, MapsSection (s.l1 (l1IndexOf w.base)) sramPhysicalAddress.toNat) →
      s.load (w.base + BitVec.ofNat 32 o) = some (s.mem (sramPhysicalAddress.toNat + o)) :=
    fun s hs => load_section (hs w) (hbase w) (Nat.lt_trans ho sramSize_lt)
  induction accesses generalizing s with
  | nil => exact hload s hwindows
  | cons a rest ih =>
      have hrest : ∀ b ∈ rest, offsetOf b < sramSize :=
        fun b hb => hin b (List.mem_cons_of_mem _ hb)
      cases a with
      | user offset value =>
          rw [List.map_cons, mostRecent_user]
          exact ih s hwindows hrest
      | os w' offset value =>
          have hoffset : offset < sramSize := hin _ List.mem_cons_self
          have hstore := store_section (hwindows w') (hbase w')
            (Nat.lt_trans hoffset sramSize_lt) value
          have hstep : withoutAccessor s (.os w' offset value :: rest) =
              withoutAccessor { s with
                mem := Function.update s.mem (sramPhysicalAddress.toNat + offset) value } rest := by
            rw [← hstore]
            rfl
          rw [hstep, List.map_cons, mostRecent_os]
          exact ih { s with
            mem := Function.update s.mem (sramPhysicalAddress.toNat + offset) value } hwindows hrest

/-! ## Between the constructor and the destructor -/

/-- The step is an access in range. -/
def InRange (_ : Config) (e : Event) : Prop := ∃ a, e = .access a ∧ offsetOf a < sramSize

theorem inRange_accesses {accesses : List Access} (hin : ∀ a ∈ accesses, offsetOf a < sramSize) :
    ∀ c : Config, Allowed Config.step InRange c (accesses.map .access) := by
  induction accesses with
  | nil => intro c; trivial
  | cons a rest ih =>
      intro c
      exact ⟨⟨a, rfl, hin a List.mem_cons_self⟩,
        ih (fun b hb => hin b (List.mem_cons_of_mem _ hb)) _⟩

section Between

variable {clone new : Word} (p : Placement clone new)
  (hzero : l1IndexOf new ≠ l1IndexOf Window.zero.base)

include hzero in
/-- Every access in range is possible. -/
theorem permitted_of_setUp {v : View} (h : SetUp clone new v) {a : Access}
    (ha : offsetOf a < sramSize) : v.Permitted [] a := by
  have hbetween : v.Between [] := ⟨rfl, h.2, by rw [h.1.cloned]; rfl⟩
  cases a with
  | os w offset value =>
      cases w with
      | sram => exact ⟨ha, .inl rfl⟩
      | zero => exact ⟨ha, hbetween, by rw [h.1.core.newAddress]; exact hzero⟩
  | user offset value => exact ⟨ha, hbetween⟩

/-- The accessor is set up and no call is running. -/
def Idle (clone new : Word) (c : Config) : Prop := SetUp clone new c.view ∧ c.todo = []

include p hzero

theorem idle_step (c : Config) (e : Event) (he : InRange c e) (h : Idle clone new c) :
    Idle clone new (c.step e) := by
  obtain ⟨v, todo⟩ := c
  obtain ⟨a, rfl, ha⟩ := he
  obtain ⟨hv, rfl⟩ : SetUp clone new v ∧ todo = [] := h
  exact ⟨stable_setUp p v a (permitted_of_setUp hzero hv ha) hv, rfl⟩

/-- What the user reads depends on the user alone. -/
theorem user_step (c : Config) (e : Event) (o : Nat) (he : InRange c e) (h : Idle clone new c)
    (ho : o < sramSize) :
    (c.step e).view.system.load (new + BitVec.ofNat 32 o) =
      if UserWrites e o then some (valueOf e)
      else c.view.system.load (new + BitVec.ofNat 32 o) := by
  have happ := p.before_or_after
  have hafter := (idle_step p hzero c e he h).1.1.newMapped
  obtain ⟨v, todo⟩ := c
  obtain ⟨a, rfl, ha⟩ := he
  obtain ⟨⟨hv, -⟩, rfl⟩ : SetUp clone new v ∧ todo = [] := h
  rw [load_section hafter p.newAligned (Nat.lt_trans ho sramSize_lt),
    load_section hv.newMapped p.newAligned (Nat.lt_trans ho sramSize_lt)]
  cases a with
  | os w offset value =>
      have hoffset : offset < sramSize := ha
      have hnot : ¬ UserWrites (.access (.os w offset value)) o := id
      rw [if_neg hnot]
      simp only [Config.step, View.access, os_store hv hoffset (fun _ => hzero) value]
      rw [Function.update_of_ne (by omega)]
  | user offset value =>
      have hoffset : offset < sramSize := ha
      have hiff : UserWrites (.access (.user offset value)) o ↔ offset = o := Iff.rfl
      simp only [Config.step, View.access, user_store p hv hoffset value, hiff, valueOf]
      by_cases heq : offset = o
      · subst heq
        rw [if_pos rfl, Function.update_self]
      · rw [if_neg heq, Function.update_of_ne (by omega)]

omit p in
/-- The windows of the OS read what was kept. -/
theorem window_idle {c : Config} (h : Idle clone new c) (w : Window) {o : Nat}
    (ho : o < sramSize) :
    c.view.system.load (w.base + BitVec.ofNat 32 o) = some (c.view.kept o) := by
  have hlt := Nat.lt_trans ho sramSize_lt
  have hcontent := h.1.1.content o ho
  cases w with
  | sram =>
      have hload := load_section h.1.1.window sramAligned hlt
      rw [hcontent] at hload
      exact hload
  | zero =>
      have hload := load_section (h.1.1.zero hzero) (by decide) hlt
      rw [hcontent] at hload
      exact hload

theorem idle_run {c : Config} (h : Idle clone new c) {accesses : List Access}
    (hin : ∀ a ∈ accesses, offsetOf a < sramSize) :
    Idle clone new (run Config.step c (accesses.map .access)) :=
  run_invariant Config.step InRange (idle_step p hzero) _ c (inRange_accesses hin c) h

/-- What the user reads after the accesses. -/
theorem user_run {c : Config} (h : Idle clone new c) {accesses : List Access}
    (hin : ∀ a ∈ accesses, offsetOf a < sramSize) {o : Nat} (ho : o < sramSize) :
    (run Config.step c (accesses.map .access)).view.system.load (new + BitVec.ofNat 32 o) =
      ((lastCovering UserWrites (accesses.map .access) o).map fun e => some (valueOf e)).getD
        (c.view.system.load (new + BitVec.ofNat 32 o)) :=
  observe_run Config.step InRange (fun e (_ : Unit) => UserWrites e o)
    (fun c _ => c.view.system.load (new + BitVec.ofNat 32 o)) (fun e _ => some (valueOf e))
    (idle_step p hzero) (fun c e _ he hc => user_step p hzero c e o he hc ho) _ c ()
    (inRange_accesses hin c) h

end Between

/-! ## What is kept -/

/-- While no call is running no write is lost. -/
theorem kept_accesses (accesses : List Access) {c : Config} (htodo : c.todo = []) (o : Nat) :
    (run Config.step c (accesses.map .access)).view.kept o =
      ((lastCovering OsWrites (accesses.map .access) o).map valueOf).getD (c.view.kept o) := by
  apply kept_run _ c o
  clear o
  induction accesses generalizing c with
  | nil => trivial
  | cons a rest ih =>
      refine ⟨?_, ih (c := c.step (.access a)) htodo⟩
      cases a with
      | user offset value => trivial
      | os w offset value =>
          rintro ⟨-, hmem, -⟩
          rw [htodo] at hmem
          simp at hmem

/-- The access goes through the window at the SRAM's own address. -/
def ThroughSram (a : Access) : Prop :=
  ∃ offset value, a = .os .sram offset value ∧ offset < sramSize

/-- What happens when the accessor is gone: an access of the OS, or a write by somebody
else to memory that is theirs. -/
inductive Later where
  | access (a : Access)
  | elsewhere (address : Nat) (value : Byte)

namespace Later

def apply (c : Config) : Later → Config
  | .access a => c.step (.access a)
  | .elsewhere address value =>
      { c with view := { c.view with system := { c.view.system with
        mem := Function.update c.view.system.mem address value } } }

/-- The OS keeps to its window, the others to memory outside the SRAM: the clone's block,
which has been freed, may be anybody's. -/
def Permitted : Later → Prop
  | .access a => ThroughSram a
  | .elsewhere address _ => ¬ sramBlock.Holds address

def accessOf : Later → Option Access
  | .access a => some a
  | .elsewhere _ _ => none

end Later

/-- A write outside the SRAM is none of the OS's business. -/
theorem tornDown_elsewhere {c : Config} (h : TornDown c.view) {address : Nat}
    (hoff : ¬ sramBlock.Holds address) (value : Byte) :
    TornDown (Later.apply c (.elsewhere address value)).view := by
  obtain ⟨hrestored, hfreed⟩ := h
  refine ⟨{ running := hrestored.running
            alive := hrestored.alive
            initialized := hrestored.initialized
            window := hrestored.window
            content := fun o ho => ?_ }, hfreed⟩
  have hne : sramPhysicalAddress.toNat + o ≠ address := by
    rintro rfl
    exact hoff ⟨Nat.le_add_right _ _, Nat.add_lt_add_left ho _⟩
  exact (Function.update_of_ne hne _ _).trans (hrestored.content o ho)

/-- After the destructor the OS reads and writes the SRAM. -/
theorem kept_later (later : List Later) (hlater : ∀ x ∈ later, x.Permitted) {c : Config}
    (h : TornDown c.view) (htodo : c.todo = []) (o : Nat) :
    TornDown (run Later.apply c later).view ∧ (run Later.apply c later).view.kept o =
      ((lastCovering OsWrites ((later.filterMap Later.accessOf).map .access) o).map
        valueOf).getD (c.view.kept o) := by
  induction later generalizing c with
  | nil => exact ⟨h, rfl⟩
  | cons x rest ih =>
      have hrest : ∀ y ∈ rest, y.Permitted := fun y hy => hlater y (List.mem_cons_of_mem _ hy)
      cases x with
      | elsewhere address value =>
          exact ih hrest (tornDown_elsewhere h (hlater _ List.mem_cons_self) value) htodo
      | access a =>
          obtain ⟨offset, value, rfl, hoffset⟩ := hlater _ List.mem_cons_self
          have hpermitted : c.view.Permitted c.todo (.os .sram offset value) :=
            ⟨hoffset, .inl htodo⟩
          have hstep := kept_accesses [.os .sram offset value] htodo o
          obtain ⟨hdown, hkept⟩ := ih (c := c.step (.access (.os .sram offset value))) hrest
            (stable_tornDown c.view _ hpermitted h) htodo
          refine ⟨hdown, hkept.trans ?_⟩
          have hlist : (Later.access (.os .sram offset value) :: rest).filterMap Later.accessOf =
              .os .sram offset value :: rest.filterMap Later.accessOf := rfl
          rw [show (c.step (.access (.os .sram offset value))).view.kept o = _ from hstep, hlist,
            List.map_cons, lastCovering_cons, List.map_cons, List.map_nil, lastCovering_cons]
          cases lastCovering OsWrites ((rest.filterMap Later.accessOf).map .access) o <;> rfl

theorem tornDown_run (later : List Later) (hlater : ∀ x ∈ later, x.Permitted) {c : Config}
    (h : TornDown c.view) (htodo : c.todo = []) {o : Nat} (ho : o < sramSize) :
    (run Later.apply c later).view.system.load (sramPhysicalAddress + BitVec.ofNat 32 o) =
      some (((lastCovering OsWrites ((later.filterMap Later.accessOf).map .access) o).map
        valueOf).getD (c.view.kept o)) := by
  obtain ⟨hdown, hkept⟩ := kept_later later hlater h htodo o
  rw [load_section hdown.1.window sramAligned (Nat.lt_trans ho sramSize_lt),
    hdown.1.content o ho, hkept]

/-! ## The whole life -/

theorem idle_finish {s : System} {clone : Word} (h : Quiet s clone) (ap : MMUAccessPermission)
    (cp : MMUCachePolicy) (domain : Byte) :
    Idle clone s.accessor.newSRAMAddress (finish (start s ap cp domain clone)) :=
  ⟨setUp_finish h.ready ap cp domain, finish_todo (start s ap cp domain clone)⟩

/-- At first the OS expects what the SRAM holds. -/
theorem kept_start (s : System) (ap : MMUAccessPermission) (cp : MMUCachePolicy) (domain : Byte)
    (clone : Word) (o : Nat) :
    (finish (start s ap cp domain clone)).view.kept o = s.mem (sramPhysicalAddress.toNat + o) := by
  rw [finish_kept]
  rfl

/-- `relocation_hidden` for a machine on which the constructor has just
finished. -/
theorem hidden_of_idle {s : System} {clone : Word} (h : Quiet s clone) {c₁ : Config}
    (hidle : Idle clone s.accessor.newSRAMAddress c₁)
    (hfirst : ∀ o, c₁.view.kept o = s.mem (sramPhysicalAddress.toNat + o))
    {accesses : List Access} (hin : ∀ a ∈ accesses, offsetOf a < sramSize) {later : List Later}
    (hlater : ∀ x ∈ later, x.Permitted) {o : Nat} (ho : o < sramSize) :
    (∀ w : Window, (run Config.step c₁ (accesses.map .access)).view.system.load
        (w.base + BitVec.ofNat 32 o) =
      (withoutAccessor s accesses).load (w.base + BitVec.ofNat 32 o)) ∧
    (run Config.step c₁ (accesses.map .access)).view.system.load
        (s.accessor.newSRAMAddress + BitVec.ofNat 32 o) =
      ((lastCovering UserWrites (accesses.map .access) o).map fun e => some (valueOf e)).getD
        (c₁.view.system.load (s.accessor.newSRAMAddress + BitVec.ofNat 32 o)) ∧
    (run Later.apply (finish ((run Config.step c₁ (accesses.map .access)).step .destroy))
        later).view.system.load (sramPhysicalAddress + BitVec.ofNat 32 o) =
      some (mostRecent s ((accesses ++ later.filterMap Later.accessOf).map .access) o) := by
  have p := h.ready.placement
  have hzero := h.new_ne_window .zero
  have hidle₂ := idle_run p hzero hidle hin
  have hkept := kept_accesses accesses hidle.2 o
  rw [hfirst] at hkept
  refine ⟨fun w => ?_, user_run p hzero hidle hin ho, ?_⟩
  · rw [window_idle hzero hidle₂ w ho, hkept,
      load_withoutAccessor s h.windows accesses hin w ho]
    rfl
  · have hdown := tornDown_finish p hidle₂.1
    rw [tornDown_run later hlater hdown (finish_todo _) ho, finish_kept]
    have hdestroy : ((run Config.step c₁ (accesses.map .access)).step .destroy).view.kept o =
        (run Config.step c₁ (accesses.map .access)).view.kept o := rfl
    rw [hdestroy, hkept, mostRecent, List.map_append, lastCovering_append]
    cases lastCovering OsWrites ((later.filterMap Later.accessOf).map .access) o <;> rfl

/-- **The relocation is hidden.**  Let the constructor finish, let the OS and the
user access their windows in any order, and let the destructor run.  Before it,
every byte the OS can read is the one it would read without an accessor, and
every byte the user can read is what the user last wrote, or what the
constructor left there.  After it, the SRAM's window always reads what the OS
last wrote, or the SRAM's first content, whatever is written outside the SRAM, the
freed clone included. -/
theorem relocation_hidden (s : System) (clone : Word) (h : Quiet s clone)
    (ap : MMUAccessPermission) (cp : MMUCachePolicy) (domain : Byte) (accesses : List Access)
    (hin : ∀ a ∈ accesses, offsetOf a < sramSize) (later : List Later)
    (hlater : ∀ x ∈ later, x.Permitted) :
    let c₁ := finish (start s ap cp domain clone)
    let c₂ := run Config.step c₁ (accesses.map .access)
    let c₃ := finish (c₂.step .destroy)
    ∀ o, o < sramSize →
      (∀ w : Window, c₂.view.system.load (w.base + BitVec.ofNat 32 o) =
        (withoutAccessor s accesses).load (w.base + BitVec.ofNat 32 o)) ∧
      c₂.view.system.load (s.accessor.newSRAMAddress + BitVec.ofNat 32 o) =
        ((lastCovering UserWrites (accesses.map .access) o).map fun e => some (valueOf e)).getD
          (c₁.view.system.load (s.accessor.newSRAMAddress + BitVec.ofNat 32 o)) ∧
      (run Later.apply c₃ later).view.system.load (sramPhysicalAddress + BitVec.ofNat 32 o) =
        some (mostRecent s ((accesses ++ later.filterMap Later.accessOf).map .access) o) := by
  have hidle := idle_finish h ap cp domain
  have hfirst := kept_start s ap cp domain clone
  generalize finish (start s ap cp domain clone) = c₁ at hidle hfirst
  intro c₁ c₂ c₃ o ho
  exact hidden_of_idle h hidle hfirst hin hlater ho

/-- Both windows are sections onto the SRAM, no callbacks are given. -/
def quietSystem : System := bootSystem 0xA4000C02#32 0xA4000C02#32 false

theorem quiet_quietSystem : Quiet quietSystem 0x10000000#32 := by
  have hready : Ready quietSystem 0x10000000#32 := ready_bootSystem ⟨by decide, by decide⟩
  exact
    { running := rfl
      alive := rfl
      initializing := rfl
      windows := fun w => by cases w <;> exact ⟨by decide, by decide⟩
      newAligned := hready.placement.newAligned
      newFault := by decide
      cloneAligned := hready.placement.cloneAligned
      cloneNonNull := hready.placement.cloneNonNull
      cloneApart := hready.placement.cloneApart
      cloneMapped := hready.cloneMapped }

/-- The OS writes through one window and reads through the other; the user's
byte at the same offset is its own. -/
def aliased : List Access := [.os .sram 4 0x11#8, .user 4 0x22#8, .os .zero 4 0x33#8]

/-- The clone's byte is overwritten once it is freed. -/
def afterwards : List Later := [.access (.os .sram 8 0x44#8), .elsewhere 0x10000004 0x55#8]

/-- The accessor when both are done. -/
def used : Config :=
  run Config.step (finish (start quietSystem .fullAccess .writeBackCache 0 0x10000000#32))
    (aliased.map .access)

theorem relocation_hidden_aliased :
    used.view.system.load (Window.sram.base + BitVec.ofNat 32 4) = some 0x33#8 ∧
      used.view.system.load (0x20000000#32 + BitVec.ofNat 32 4) = some 0x22#8 ∧
      (run Later.apply (finish (used.step .destroy)) afterwards).view.system.load
        (sramPhysicalAddress + BitVec.ofNat 32 4) = some 0x33#8 := by
  have hplain : (withoutAccessor quietSystem aliased).load
      (Window.sram.base + BitVec.ofNat 32 4) = some 0x33#8 := by
    rw [load_withoutAccessor quietSystem quiet_quietSystem.windows _ (by decide) .sram (by decide)]
    rfl
  have hlater : ∀ x ∈ afterwards, x.Permitted := by
    intro x hx
    simp only [afterwards, List.mem_cons, List.not_mem_nil, or_false] at hx
    rcases hx with rfl | rfl
    · exact ⟨8, 0x44#8, rfl, by decide⟩
    · have habove : ¬ sramPhysicalAddress.toNat ≤ 0x10000004 := by decide
      exact fun hheld => habove hheld.1
  obtain ⟨hos, huser, hafter⟩ := relocation_hidden quietSystem 0x10000000#32 quiet_quietSystem
    .fullAccess .writeBackCache 0 aliased (by decide) afterwards hlater 4 (by decide)
  rw [used]
  exact ⟨(hos .sram).trans hplain, huser, hafter⟩

end NspireUtils.Ports.SRAMIsolation
