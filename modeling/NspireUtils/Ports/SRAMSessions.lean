import NspireUtils.Ports.SRAMConstructor

/-!
# One accessor at a time

Any number of `SRAM_Accessor` objects, constructed and destroyed in any order, while the
rest of the program maps what it likes outside the SRAM's megabyte and writes what it
likes to memory.

`exclusive` says that the check for the identity mapping makes the constructor a lock:
while an object lives every other constructor throws, and without one none does.
-/

namespace NspireUtils.Ports.SRAMSessions

open NspireUtils.Verified.ByteMemory
open NspireUtils.Verified.ShortDescriptor
open NspireUtils.Verified.Runs
open NspireUtils.Ports.MMUDescriptors
open NspireUtils.Ports.TableEditors
open NspireUtils.Ports.SRAMAccessor
open NspireUtils.Ports.SRAMRelocation
open NspireUtils.Ports.SRAMLifetime
open NspireUtils.Ports.SRAMRestore
open NspireUtils.Ports.SRAMConstructor

/-- The arguments of a constructor call. -/
structure Arguments where
  newSRAMAddress : Word
  disableInterrupts : Bool
  enableInterrupts : Bool
  sramAccessPermission : MMUAccessPermission
  sramCachePolicy : MMUCachePolicy
  sramDomain : Byte
  deriving Repr, DecidableEq

/-- The object before its constructor runs. -/
def Arguments.object (x : Arguments) : Accessor where
  newSRAMAddress := x.newSRAMAddress
  disableInterrupts := x.disableInterrupts
  enableInterrupts := x.enableInterrupts

/-- The system and the objects that live, the newest first.  The system's accessor is the
object of the last call. -/
structure World where
  system : System
  objects : List Accessor

/-- What happens. -/
inductive Event where
  | construct (x : Arguments) (allocated : Option Word)
  | destroy (i : Nat)
  | map (virtualAddr entry : Word)
  | store (mem : Memory)

namespace World

/-- The system when a constructor begins. -/
def begun (w : World) (x : Arguments) : System := { w.system with accessor := x.object }

@[simp] theorem begun_l1 (w : World) (x : Arguments) : (w.begun x).l1 = w.system.l1 := rfl

@[simp] theorem begun_newSRAMAddress (w : World) (x : Arguments) :
    (w.begun x).accessor.newSRAMAddress = x.newSRAMAddress :=
  rfl

/-- The constructor's call. -/
def called (w : World) (x : Arguments) (allocated : Option Word) : System :=
  (w.begun x).execAll
    (SRAMAccessor.construct x.newSRAMAddress x.sramAccessPermission x.sramCachePolicy x.sramDomain
      allocated)

theorem called_some (w : World) (x : Arguments) (clone : Word) :
    w.called x (some clone) = constructed (w.begun x) x.sramAccessPermission x.sramCachePolicy
      x.sramDomain clone :=
  rfl

/-- An exception is caught, and there is no object.  A data abort ends the program. -/
def construct (w : World) (x : Arguments) (allocated : Option Word) : World :=
  let after := w.called x allocated
  match after.failure with
  | none => ⟨after, after.accessor :: w.objects⟩
  | some (.thrown _) => { w with system := { after with failure := none } }
  | some .dataAbort => { w with system := after }

/-- The destructor of the `i`th object. -/
def destroy (w : World) (i : Nat) : World :=
  match w.objects[i]? with
  | none => w
  | some a =>
      ⟨{ w.system with accessor := a }.execAll (SRAMAccessor.destroy a), w.objects.eraseIdx i⟩

def perform (w : World) : Event → World
  | .construct x allocated => w.construct x allocated
  | .destroy i => w.destroy i
  | .map virtualAddr entry => { w with system := w.system.map virtualAddr entry }
  | .store mem => { w with system := { w.system with mem } }

/-- No data abort has happened. -/
def Running (w : World) : Prop := w.system.failure = none

instance (w : World) : Decidable w.Running := by
  unfold Running
  infer_instance

def step (w : World) (e : Event) : World := if w.Running then w.perform e else w

end World

/-- The address is outside the SRAM's megabyte. -/
def OutsideSram (va : Word) : Prop := l1IndexOf va ≠ l1IndexOf sramPhysicalAddress

instance (va : Word) : Decidable (OutsideSram va) := by
  unfold OutsideSram
  infer_instance

/-- The new address and the heap's block are outside the SRAM, and so is what others
map. -/
def Permitted (w : World) : Event → Prop
  | .construct x allocated => OutsideSram x.newSRAMAddress ∧
      ∀ clone, allocated = some clone →
        Allocated (w.begun x) clone ∧ clone ≠ sramPhysicalAddress
  | .destroy _ => True
  | .map virtualAddr _ => OutsideSram virtualAddr
  | .store _ => True

/-- An object that is set up: the SRAM's megabyte leads to its block. -/
structure Holder (w : World) (a : Accessor) (clone : Word) : Prop where
  block : a.clonedSRAMBlock = some clone
  done : a.initSuccessful = true
  outside : OutsideSram a.newSRAMAddress
  aligned : 2 ^ 20 ∣ clone.toNat
  apart : clone ≠ sramPhysicalAddress
  mapped : MapsSection (w.system.l1 (l1IndexOf sramPhysicalAddress)) clone.toNat

/-- At most one object lives, and if none does the SRAM is where it was. -/
structure Exclusive (w : World) : Prop where
  editorAlive : w.system.editorAlive = true
  objects : (w.objects = [] ∧
      MapsSection (w.system.l1 (l1IndexOf sramPhysicalAddress)) sramPhysicalAddress.toNat) ∨
    ∃ a clone, w.objects = [a] ∧ Holder w a clone

/-! ## The constructor -/

theorem mapsSection_unique {entry : Word} {base base' : Nat} (h : MapsSection entry base)
    (h' : MapsSection entry base') : base = base' :=
  h.2.symm.trans h'.2

/-- The SRAM's entry is a section, and leads to the SRAM if no object lives. -/
theorem Exclusive.entry {w : World} (h : Exclusive w) : ∃ base,
    MapsSection (w.system.l1 (l1IndexOf sramPhysicalAddress)) base ∧
      (w.objects = [] ↔ base = sramPhysicalAddress.toNat) := by
  rcases h.objects with ⟨hnone, hmapped⟩ | ⟨a, clone, hone, hholder⟩
  · exact ⟨_, hmapped, by simp [hnone]⟩
  · have hapart : clone.toNat ≠ sramPhysicalAddress.toNat := fun heq =>
      hholder.apart (BitVec.eq_of_toNat_eq heq)
    exact ⟨_, hholder.mapped, by simp [hone, hapart]⟩

/-- The constructor's call came to its end. -/
theorem construct_of_done {w : World} {x : Arguments} {allocated : Option Word}
    (h : (w.called x allocated).failure = none) :
    w.construct x allocated =
      ⟨w.called x allocated, (w.called x allocated).accessor :: w.objects⟩ := by
  simp only [World.construct, h]

theorem construct_system {w : World} {x : Arguments} {allocated : Option Word}
    (h : (w.called x allocated).failure = none) :
    (w.construct x allocated).system = w.called x allocated := by
  rw [construct_of_done h]

theorem construct_of_thrown {w : World} {x : Arguments} {allocated : Option Word} {e : Exception}
    (h : (w.called x allocated).failure = some (.thrown e)) :
    w.construct x allocated =
      { w with system := { w.called x allocated with failure := none } } := by
  simp only [World.construct, h]

/-- The call got the lock. -/
structure Granted (w : World) (x : Arguments) (clone : Word) : Prop where
  running : (w.construct x (some clone)).Running
  editorAlive : (w.construct x (some clone)).system.editorAlive = true
  holder : ∃ a, (w.construct x (some clone)).objects = [a] ∧
    Holder (w.construct x (some clone)) a clone

/-- It did not, and nothing but the new block has changed for the objects. -/
structure Refused (w : World) (x : Arguments) (clone : Word) : Prop where
  thrown : ThrowsRuntimeError (w.called x (some clone))
  running : (w.construct x (some clone)).Running
  objects : (w.construct x (some clone)).objects = w.objects
  tables : (w.construct x (some clone)).system.l1 = w.system.l1
  editorAlive : (w.construct x (some clone)).system.editorAlive = w.system.editorAlive

section Construct

variable {w : World} (hrunning : w.Running) (h : Exclusive w) {x : Arguments} {clone : Word}
include hrunning h

theorem granted (hnone : w.objects = [])
    (hpermitted : Permitted w (.construct x (some clone))) : Granted w x clone := by
  obtain ⟨houtside, hblock⟩ := hpermitted
  obtain ⟨hallocated, hapart⟩ := hblock clone rfl
  obtain ⟨base, hmapped, hbase⟩ := h.entry
  have hnames : NamesSram (w.system.l1 (l1IndexOf sramPhysicalAddress)) :=
    BitVec.eq_of_toNat_eq ((mapsSection_unique (mapsSection_entry hmapped.1) hmapped).trans
      (hbase.mp hnone))
  have hdone := constructed_pass (s := w.begun x) hrunning hallocated
    (spares_of_none (by simp [secondLevel, hmapped.1])) x.sramAccessPermission x.sramCachePolicy
    x.sramDomain (windowMapped_section hmapped.1) ((testPasses_iff h.editorAlive).mpr hnames)
  obtain ⟨hl1, halive, haccessor⟩ := constructed_done hdone
  rw [← w.called_some] at hdone hl1 halive haccessor
  have hsystem := construct_system hdone
  refine ⟨by rw [World.Running, hsystem, hdone], by rw [hsystem, halive],
    (w.called x (some clone)).accessor, by rw [construct_of_done hdone, hnone], ?_, ?_, ?_,
    hallocated.aligned, hapart, ?_⟩
  · rw [haccessor]
  · rw [haccessor]
  · rw [haccessor]
    exact houtside
  · have hzero : l1IndexOf sramPhysicalAddress ≠ l1IndexOf Window.zero.base := by decide
    rw [World.begun_newSRAMAddress] at hl1
    rw [hsystem, hl1, Function.update_of_ne houtside.symm, Function.update_of_ne hzero,
      Function.update_self]
    exact mapsSection_descriptor hallocated.aligned _ _ _

theorem refused (hsome : w.objects ≠ [])
    (hpermitted : Permitted w (.construct x (some clone))) : Refused w x clone := by
  obtain ⟨hallocated, -⟩ := hpermitted.2 clone rfl
  obtain ⟨base, hmapped, hbase⟩ := h.entry
  have hnames : ¬ NamesSram (w.system.l1 (l1IndexOf sramPhysicalAddress)) := fun hnames => by
    have hsame := mapsSection_unique (mapsSection_entry hmapped.1) hmapped
    rw [hnames] at hsame
    exact hsome (hbase.mpr hsame.symm)
  obtain ⟨mem, message, hfailed⟩ :=
    constructed_fail (s := w.begun x) hrunning hallocated
      (spares_of_none (by simp [secondLevel, hmapped.1])) x.sramAccessPermission
      x.sramCachePolicy x.sramDomain (windowMapped_section hmapped.1)
      fun htest => hnames ((testPasses_iff h.editorAlive).mp htest)
  rw [← w.called_some] at hfailed
  have hconstruct := construct_of_thrown (congrArg System.failure hfailed)
  refine ⟨⟨message, congrArg System.failure hfailed⟩, ?_, ?_, ?_, ?_⟩ <;> rw [hconstruct]
  · rfl
  · rw [hfailed]
    rfl
  · rw [hfailed]
    rfl

end Construct

/-- Without a block the constructor throws, and nothing has changed. -/
theorem construct_badAlloc {w : World} (hrunning : w.Running) (x : Arguments) :
    w.construct x none = { w with system := w.begun x } := by
  have hcalled : w.called x none =
      { w.begun x with failure := some (.thrown .badAlloc) } :=
    System.exec_of_running (s := w.begun x) hrunning .throwBadAlloc
  rw [construct_of_thrown (congrArg System.failure hcalled), hcalled]
  have hsame : { w.begun x with failure := none } = w.begun x := by
    rw [← show (w.begun x).failure = none from hrunning]
  rw [hsame]

/-! ## The destructor -/

/-- No operation takes the table from the editor. -/
theorem editorAlive_execAll (ops : List SRAMOp) (s : System) :
    (s.execAll ops).editorAlive = s.editorAlive := by
  have hmap : ∀ (s : System) (virtualAddr entry : Word),
      (s.map virtualAddr entry).editorAlive = s.editorAlive := by
    intro s virtualAddr entry
    unfold System.map
    split_ifs <;> rfl
  induction ops generalizing s with
  | nil => rfl
  | cons op rest ih =>
      rw [System.execAll_cons, ih]
      by_cases hrunning : s.failure = none
      · rw [System.exec_of_running hrunning]
        cases op with
        | copyWord dst src =>
            rw [System.perform]
            split <;> rfl
        | checkIdentityMapped =>
            simp only [System.perform]
            split_ifs <;> rfl
        | disableInterrupts | enableInterrupts =>
            rw [System.perform]
            split_ifs <;> rfl
        | mapSectionInDomain virtualAddr physicalAddr ap cp => exact hmap s virtualAddr _
        | mapSection virtualAddr physicalAddr attributes => exact hmap s virtualAddr _
        | map virtualAddr entry => exact hmap s virtualAddr entry
        | _ => rfl
      · rw [exec_of_failed hrunning]

/-- The destructor gives the lock back. -/
theorem destroyed_exclusive {w : World} (h : Exclusive w) {a : Accessor} {clone : Word}
    (hone : w.objects = [a]) (hholder : Holder w a clone) (hrunning : (w.destroy 0).Running) :
    Exclusive (w.destroy 0) := by
  have hdestroy : w.destroy 0 =
      ⟨destroyed { w.system with accessor := a } w.system.mem, []⟩ := by
    simp only [World.destroy, hone, List.getElem?_cons_zero, List.eraseIdx_zero, List.tail_cons]
    rfl
  rw [hdestroy] at hrunning ⊢
  have hl1 := destroyed_done (s := { w.system with accessor := a }) hholder.block hholder.done
    h.editorAlive hrunning
  refine ⟨(editorAlive_execAll _ _).trans h.editorAlive, .inl ⟨rfl, ?_⟩⟩
  show MapsSection ((destroyed { w.system with accessor := a } w.system.mem).l1
    (l1IndexOf sramPhysicalAddress)) _
  rw [hl1, Function.update_of_ne hholder.outside.symm, Function.update_self]
  exact mapsSection_descriptor sramAligned _ _ _

/-! ## Whole runs -/

theorem Exclusive.congr {w w' : World} (h : Exclusive w) (hobjects : w'.objects = w.objects)
    (hentry : w'.system.l1 (l1IndexOf sramPhysicalAddress) =
      w.system.l1 (l1IndexOf sramPhysicalAddress))
    (halive : w'.system.editorAlive = w.system.editorAlive) : Exclusive w' := by
  refine ⟨halive.trans h.editorAlive, ?_⟩
  rw [hobjects, hentry]
  refine h.objects.imp_right ?_
  rintro ⟨a, clone, hone, hblock, hdone, houtside, haligned, hapart, hmapped⟩
  exact ⟨a, clone, hone, hblock, hdone, houtside, haligned, hapart, hentry ▸ hmapped⟩

/-- What happens keeps the lock. -/
theorem exclusive_perform {w : World} {e : Event} (hpermitted : Permitted w e)
    (hrunning : w.Running) (h : Exclusive w) (hstill : (w.perform e).Running) :
    Exclusive (w.perform e) := by
  cases e with
  | construct x allocated =>
      cases allocated with
      | none =>
          have hnothing := construct_badAlloc hrunning x
          rw [World.perform, hnothing]
          exact h.congr rfl rfl rfl
      | some clone =>
          rw [World.perform]
          by_cases hnone : w.objects = []
          · have hgranted := granted hrunning h hnone hpermitted
            obtain ⟨a, hone, hholder⟩ := hgranted.holder
            exact ⟨hgranted.editorAlive, .inr ⟨a, clone, hone, hholder⟩⟩
          · have hrefused := refused hrunning h hnone hpermitted
            exact h.congr hrefused.objects (congrFun hrefused.tables _) hrefused.editorAlive
  | destroy i =>
      rcases h.objects with ⟨hnone, -⟩ | ⟨a, clone, hone, hholder⟩
      · have hnothing : w.destroy i = w := by simp [World.destroy, hnone]
        rw [World.perform, hnothing]
        exact h
      · cases i with
        | zero => exact destroyed_exclusive h hone hholder hstill
        | succ i =>
            have hnothing : w.destroy (i + 1) = w := by simp [World.destroy, hone]
            rw [World.perform, hnothing]
            exact h
  | map virtualAddr entry =>
      refine h.congr rfl ?_ ?_ <;> simp only [World.perform, System.map] <;> split_ifs
      · exact Function.update_of_ne hpermitted.symm _ _
      all_goals rfl
  | store mem => exact h.congr rfl rfl rfl

/-- No object lives, and the SRAM is where it should be. -/
structure Idle (w : World) : Prop where
  objects : w.objects = []
  editorAlive : w.system.editorAlive = true
  mapped : MapsSection (w.system.l1 (l1IndexOf sramPhysicalAddress)) sramPhysicalAddress.toNat

/-- **One accessor at a time.**  After every run that has not come to a data abort at most
one object lives.  If none does a constructor that has got its block succeeds, and else it
throws and leaves the table and the object alone. -/
theorem exclusive {w : World} (hidle : Idle w) (events : List Event)
    (hallowed : Allowed World.step Permitted w events)
    (hrunning : (run World.step w events).Running) :
    (run World.step w events).objects.length ≤ 1 ∧
      ∀ x clone, Permitted (run World.step w events) (.construct x (some clone)) →
        ((run World.step w events).objects = [] → Granted (run World.step w events) x clone) ∧
        ((run World.step w events).objects ≠ [] →
          Refused (run World.step w events) x clone) := by
  have hstep : ∀ (w : World) (e : Event), Permitted w e → (w.Running → Exclusive w) →
      (w.step e).Running → Exclusive (w.step e) := by
    intro w e hpermitted h
    unfold World.step
    split_ifs with hrunning
    · exact exclusive_perform hpermitted hrunning (h hrunning)
    · exact h
  have hexclusive := run_invariant World.step Permitted hstep events w hallowed
    (fun _ => ⟨hidle.editorAlive, .inl ⟨hidle.objects, hidle.mapped⟩⟩) hrunning
  refine ⟨?_, fun x clone hpermitted => ⟨fun hnone => ?_, fun hsome => ?_⟩⟩
  · rcases hexclusive.objects with ⟨hnone, -⟩ | ⟨a, clone, hone, -⟩
    · simp [hnone]
    · simp [hone]
  · exact granted hrunning hexclusive hnone hpermitted
  · exact refused hrunning hexclusive hsome hpermitted

/-- An accessor for `0x20000000`. -/
def fastMemory : Arguments where
  newSRAMAddress := 0x20000000
  disableInterrupts := false
  enableInterrupts := false
  sramAccessPermission := .fullAccess
  sramCachePolicy := .writeBackCache
  sramDomain := 0

def bootWorld : World := ⟨bootSystem 0#32 0xA4000C1E#32 false, []⟩

/-- After a call that got no block the next one succeeds. -/
theorem exclusive_retry :
    Granted (run World.step bootWorld [.construct fastMemory none]) fastMemory 0x10000000 := by
  have hblock := allocated_bootSystem (fun _ => 0) 0#32 0xA4000C1E#32 false
  exact ((exclusive (w := bootWorld) ⟨rfl, rfl, by decide, by decide⟩
    [.construct fastMemory none] ⟨⟨by decide, fun clone hnone => nomatch hnone⟩, trivial⟩ rfl).2
      fastMemory 0x10000000 ⟨by decide, fun clone hsome => by
        obtain rfl := Option.some.inj hsome
        exact ⟨⟨hblock.aligned, hblock.reached, hblock.spared⟩, by decide⟩⟩).1 rfl

end NspireUtils.Ports.SRAMSessions
