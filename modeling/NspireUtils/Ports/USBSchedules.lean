import NspireUtils.Ports.USBStructures
import NspireUtils.Verified.BitFields
import NspireUtils.Verified.UnflushedStores

/-!
# What the USB controller finds

`allocate`, `FOTG210::LinkMemoryStructures` and `FOTG210::ControllerStart`, on a
processor with a write-back cache.  The stores go through the cache, the
controller reads memory, and none of the three functions cleans a line: the
controller finds what was evicted by chance.  `schedules_iff` says when that is
enough.
-/

namespace NspireUtils.Ports.USBSchedules

open NspireUtils.Verified
open NspireUtils.Verified.BitFields
open NspireUtils.Verified.ByteMemory
open NspireUtils.Verified.Runs
open NspireUtils.Verified.WriteBackCache
open NspireUtils.Verified.UnflushedStores (Instr Event)
open NspireUtils.Ports.USBStructures hiding Event exec

/-! ## The controller -/

/-- `class FOTG210`. -/
structure FOTG210 where
  baseAddress : Word
  capLength : Byte
  deriving Repr, DecidableEq

/-- `FOTG210_CommandRegister`. -/
def commandRegister : Word := 0x00#32

/-- `FOTG210_PeriodicListBase`. -/
def periodicListBase : Word := 0x14#32

/-- `FOTG210_AsyncListAddr`. -/
def asyncListAddr : Word := 0x18#32

/-- `FOTG210_CommandRegisterBits::Run`. -/
def commandRun : Word := 1#32 <<< 0

namespace FOTG210

variable (c : FOTG210)

/-- The address of an operational register. -/
def register (offset : Word) : Word := c.baseAddress + c.capLength.setWidth 32 + offset

/-- `FOTG210::GetCommandRegister`. -/
def getCommandRegister : List USBOp := [.readRegister (c.register commandRegister)]

/-- `FOTG210::SetCommandRegister`. -/
def setCommandRegister (value : Word) : List USBOp :=
  [.writeRegister (c.register commandRegister) value]

/-- `FOTG210::LinkMemoryStructures`. -/
def linkMemoryStructures (memStructs : FOTG210MemoryStructures) : List USBOp :=
  [ .writeRegister (c.register periodicListBase) memStructs.frameList
  , .writeRegister (c.register asyncListAddr) memStructs.asyncScheduleQueueHead ]

/-- `FOTG210::ControllerStart`. -/
def controllerStart : List USBOp :=
  -- read to ensure posted write completes
  c.setCommandRegister commandRun ++ c.getCommandRegister

/-- The three calls. -/
def bringUp (m : FOTG210MemoryStructures) (a : Answers) : List USBOp :=
  (m.allocate a).2 ++ (c.linkMemoryStructures (m.allocate a).1 ++ c.controllerStart)

theorem register_inj {c : FOTG210} {x y : Word} (h : c.register x = c.register y) : x = y :=
  (BitVec.add_right_inj _).mp h

end FOTG210

/-! ## What it should find -/

/-- The terminate bit of a link pointer. -/
def Terminates (w : Word) : Prop := w.getLsbD 0 = true

instance (w : Word) : Decidable (Terminates w) := by
  unfold Terminates
  infer_instance

/-- The word at an offset of an idle queue head: linked to itself, head of the
reclamation list, and an overlay that is terminated, halted and empty. -/
def IdleWord (queueHead : Word) (offset : Nat) (w : Word) : Prop :=
  if offset = QueueHead.horizontalLinkPointer then
    w = queueHead ||| LinkPointerTypeTags.queueHead.toWord
  else if offset = QueueHead.info1EndpointCharacteristics then w.getLsbD 15 = true
  else if offset = QueueHead.overlayQTD + QueueTransferDescriptor.nextQTDPointer then Terminates w
  else if offset = QueueHead.overlayQTD + QueueTransferDescriptor.alternateNextQTDPointer then
    Terminates w
  else if offset = QueueHead.overlayQTD + QueueTransferDescriptor.token then w.getLsbD 6 = true
  else if QueueHead.overlayQTD + QueueTransferDescriptor.bufferPagePointerList 0 ≤ offset then
    w = 0#32
  else True

instance (queueHead : Word) (offset : Nat) (w : Word) :
    Decidable (IdleWord queueHead offset w) := by
  unfold IdleWord
  infer_instance

/-- The schedules in memory: an empty frame list and an idle queue head. -/
structure Initialised (m : Memory) (frameList queueHead : Word) : Prop where
  frameList : ∀ i, i < frameListEntries →
    Terminates (readWord m (frameList + BitVec.ofNat 32 (4 * i)).toNat)
  queueHead : ∀ j, j < 17 →
    IdleWord queueHead (4 * j) (readWord m (queueHead + BitVec.ofNat 32 (4 * j)).toNat)

/-- The frame list and the queue head share no word. -/
def StructuresApart (frameList queueHead : Word) : Prop :=
  ∀ i j, i < frameListEntries → j < 17 →
    frameList + BitVec.ofNat 32 (4 * i) ≠ queueHead + BitVec.ofNat 32 (4 * j)

/-! ## The machine -/

/-- Memory behind the cache, and the registers by address. -/
structure Machine where
  cache : Cached
  registers : Word → Word

/-- How an operation goes through the cache. -/
def instrOf : USBOp → Instr
  | .store address value => .store address.toNat value
  | _ => .other

/-- What an operation does to the registers. -/
def writeRegisters (registers : Word → Word) : USBOp → Word → Word
  | .writeRegister address value => Function.update registers address value
  | _ => registers

def Machine.exec (s : Machine) (op : USBOp) : Machine :=
  { cache := UnflushedStores.exec s.cache (instrOf op)
    registers := writeRegisters s.registers op }

/-- The machine, and what the calls have still to do. -/
structure Config where
  machine : Machine
  todo : List USBOp

/-- One step: of the program, or of the cache. -/
def Config.step (c : Config) : Event → Config
  | .program =>
      match c.todo with
      | [] => c
      | op :: rest => ⟨c.machine.exec op, rest⟩
  | .evict l => { c with machine.cache := UnflushedStores.writeBack c.machine.cache l }
  | .fill l => { c with machine.cache := c.machine.cache.fill l }

/-- The cache and the program alone. -/
def Config.behindCache (c : Config) : UnflushedStores.Config :=
  ⟨c.machine.cache, c.todo.map instrOf⟩

theorem behindCache_step (c : Config) (e : Event) :
    (c.step e).behindCache = c.behindCache.step e := by
  obtain ⟨s, todo⟩ := c
  cases e with
  | program => cases todo <;> rfl
  | evict l => rfl
  | fill l => rfl

theorem behindCache_run (events : List Event) : ∀ c : Config,
    (run Config.step c events).behindCache =
      run UnflushedStores.Config.step c.behindCache events := by
  induction events with
  | nil => intro c; rfl
  | cons e rest ih =>
      intro c
      rw [run_cons, run_cons, ih, behindCache_step]

/-- The registers do not depend on what the cache does. -/
theorem registers_run (events : List Event) : ∀ c : Config,
    (run Config.step c events).todo.foldl writeRegisters
        (run Config.step c events).machine.registers =
      c.todo.foldl writeRegisters c.machine.registers := by
  induction events with
  | nil => intro c; rfl
  | cons e rest ih =>
      intro c
      rw [run_cons, ih]
      obtain ⟨s, todo⟩ := c
      cases e with
      | program => cases todo <;> rfl
      | evict l => rfl
      | fill l => rfl

/-- At the end the registers lead to the structures. -/
theorem registers_bringUp {c : FOTG210} {m : FOTG210MemoryStructures} {a : Answers} {s : Machine}
    {events : List Event}
    (hdone : (run Config.step ⟨s, c.bringUp m a⟩ events).todo = []) :
    (run Config.step ⟨s, c.bringUp m a⟩ events).machine.registers (c.register periodicListBase) =
        (m.allocate a).1.frameList ∧
      (run Config.step ⟨s, c.bringUp m a⟩ events).machine.registers (c.register asyncListAddr) =
        (m.allocate a).1.asyncScheduleQueueHead := by
  have hregisters := registers_run events ⟨s, c.bringUp m a⟩
  rw [hdone, List.foldl_nil] at hregisters
  have hcommand : ∀ x : Word, x ≠ commandRegister → c.register x ≠ c.register commandRegister :=
    fun x hx h => hx (FOTG210.register_inj h)
  have hlinks : c.register periodicListBase ≠ c.register asyncListAddr :=
    fun h => absurd (FOTG210.register_inj h) (by decide)
  rw [hregisters, FOTG210.bringUp, List.foldl_append]
  constructor
  · exact (Function.update_of_ne (hcommand _ (by decide)) ..).trans
      ((Function.update_of_ne hlinks ..).trans (Function.update_self ..))
  · exact (Function.update_of_ne (hcommand _ (by decide)) ..).trans (Function.update_self ..)

/-! ## The stores -/

/-- The calls store the frame list and the queue head. -/
theorem store_mem_bringUp {c : FOTG210} {m : FOTG210MemoryStructures} {a : Answers}
    {address value : Word} :
    .store address value ∈ c.bringUp m a ↔
      .store address value ∈ initFrameList (m.allocate a).1.frameList ∨
        .store address value ∈ initQueueHead (m.allocate a).1.asyncScheduleQueueHead := by
  have hensure : ∀ pointer alignment size answer,
      USBOp.store address value ∉ (ensure pointer alignment size answer).2 := by
    intro pointer alignment size answer
    unfold ensure
    split_ifs <;> simp
  simp only [FOTG210.bringUp, FOTG210.linkMemoryStructures, FOTG210.controllerStart,
    FOTG210.setCommandRegister, FOTG210.getCommandRegister, FOTG210MemoryStructures.allocate,
    FOTG210MemoryStructures.ensureFrameList, FOTG210MemoryStructures.ensureQueueHead,
    List.mem_append, hensure, false_or]
  simp

theorem store_mem_instrs {ops : List USBOp} {x : Nat} {value : Word} :
    .store x value ∈ ops.map instrOf ↔
      ∃ address : Word, address.toNat = x ∧ .store address value ∈ ops := by
  rw [List.mem_map]
  constructor
  · rintro ⟨op, hop, hinstr⟩
    cases op with
    | store address v =>
        obtain ⟨rfl, rfl⟩ := Instr.store.inj hinstr
        exact ⟨address, rfl, hop⟩
    | alignedAlloc | writeRegister | readRegister => simp [instrOf] at hinstr
  · rintro ⟨address, rfl, hop⟩
    exact ⟨_, hop, rfl⟩

/-- What is stored in the queue head, by offset. -/
theorem mem_initQueueHead {queueHead address value : Word} :
    .store address value ∈ initQueueHead queueHead ↔
      ∃ o, (o, value) ∈ queueHeadWords queueHead ∧ queueHead + BitVec.ofNat 32 o = address := by
  rw [initQueueHead, List.mem_map]
  constructor
  · rintro ⟨⟨o, v⟩, hw, hstore⟩
    obtain ⟨rfl, rfl⟩ := USBOp.store.inj hstore
    exact ⟨o, hw, rfl⟩
  · rintro ⟨o, hw, rfl⟩
    exact ⟨_, hw, rfl⟩

/-- Words of an aligned structure are aligned. -/
theorem aligned_word {p : Word} (hp : 4 ∣ p.toNat) (i : Nat) :
    4 ∣ (p + BitVec.ofNat 32 (4 * i)).toNat := by
  rw [BitVec.toNat_add, BitVec.toNat_ofNat]
  omega

/-- Offsets in the queue head are told apart by the addresses. -/
theorem offset_inj {p : Word} {i j : Nat} (hi : i < 17) (hj : j < 17)
    (h : p + BitVec.ofNat 32 (4 * i) = p + BitVec.ofNat 32 (4 * j)) : i = j := by
  have heq := congrArg BitVec.toNat ((BitVec.add_right_inj p).mp h)
  rw [BitVec.toNat_ofNat, BitVec.toNat_ofNat] at heq
  omega

/-- What is stored in the queue head is what should be found there. -/
theorem idle_queueHeadWords {queueHead : Word} (haligned : 32 ∣ queueHead.toNat) :
    ∀ w ∈ queueHeadWords queueHead, IdleWord queueHead w.1 w.2 := by
  have hself : queueHead &&& ~~~0x1F#32 = queueHead := by
    apply BitVec.eq_of_toNat_eq
    rw [toNat_and_high queueHead _ 5 (by omega) (by decide)]
    omega
  have hrange : List.range 5 = [0, 1, 2, 3, 4] := rfl
  simp only [queueHeadWords, hself, hrange, List.flatMap_cons, List.flatMap_nil, List.cons_append,
    List.nil_append, List.append_nil, List.forall_mem_cons, List.not_mem_nil, IsEmpty.forall_iff,
    implies_true, and_true]
  refine ⟨rfl, rfl, trivial, trivial, rfl, rfl, rfl, ?_⟩
  -- the buffer pointers
  exact ⟨rfl, rfl, rfl, rfl, rfl, rfl, rfl, rfl, rfl, rfl⟩

/-- Structures that overlap do so at the first or at the last word of the queue
head. -/
theorem overlap_ends {frameList queueHead : Word} (hframeList : 4096 ∣ frameList.toNat)
    (hqueueHead : 32 ∣ queueHead.toNat) (h : ¬ StructuresApart frameList queueHead) :
    ∃ i, i < frameListEntries ∧
      (frameList + BitVec.ofNat 32 (4 * i) = queueHead + BitVec.ofNat 32 (4 * 0) ∨
        frameList + BitVec.ofNat 32 (4 * i) = queueHead + BitVec.ofNat 32 (4 * 16)) := by
  have hentries : frameListEntries = 1024 := rfl
  have hframeLt := frameList.isLt
  have hqueueLt := queueHead.isLt
  simp only [StructuresApart, not_forall, not_not] at h
  obtain ⟨i, j, hi, hj, heq⟩ := h
  have heq := congrArg BitVec.toNat heq
  have hword : ∀ (p : Word) (k : Nat), k < 1024 →
      (p + BitVec.ofNat 32 (4 * k)).toNat = (p.toNat + 4 * k) % 2 ^ 32 := by
    intro p k hk
    rw [BitVec.toNat_add, BitVec.toNat_ofNat]
    omega
  rw [hword _ _ (by omega), hword _ _ (by omega)] at heq
  by_cases hinside : frameList.toNat ≤ queueHead.toNat ∧ queueHead.toNat < frameList.toNat + 4096
  · refine ⟨(queueHead.toNat - frameList.toNat) / 4, by omega, .inl (BitVec.eq_of_toNat_eq ?_)⟩
    rw [hword _ _ (by omega), hword _ _ (by omega)]
    omega
  · refine ⟨((queueHead.toNat + 64) % 2 ^ 32 - frameList.toNat) / 4, by omega,
      .inr (BitVec.eq_of_toNat_eq ?_)⟩
    rw [hword _ _ (by omega), hword _ _ (by omega)]
    omega

section Stores

variable {c : FOTG210} {m : FOTG210MemoryStructures} {a : Answers}
  (hframeList : 4096 ∣ (m.allocate a).1.frameList.toNat)
  (hqueueHead : 32 ∣ (m.allocate a).1.asyncScheduleQueueHead.toNat)

/-- Apart from each other, the structures keep what is stored in them. -/
theorem terminates_stored
    (hapart : StructuresApart (m.allocate a).1.frameList (m.allocate a).1.asyncScheduleQueueHead)
    {i : Nat} (hi : i < frameListEntries) {value : Word}
    (hstore : .store ((m.allocate a).1.frameList + BitVec.ofNat 32 (4 * i)) value ∈
      c.bringUp m a) : Terminates value := by
  rcases store_mem_bringUp.mp hstore with hframe | hhead
  · obtain ⟨_, _, heq⟩ := mem_initFrameList.mp hframe
    obtain ⟨-, rfl⟩ := USBOp.store.inj heq
    rfl
  · obtain ⟨o, ho, haddress⟩ := mem_initQueueHead.mp hhead
    obtain ⟨j, hj, rfl⟩ := (offsets_queueHead _ o).mp (List.mem_map_of_mem (f := Prod.fst) ho)
    exact absurd haddress.symm (hapart i j hi hj)

include hqueueHead in
theorem idle_stored
    (hapart : StructuresApart (m.allocate a).1.frameList (m.allocate a).1.asyncScheduleQueueHead)
    {j : Nat} (hj : j < 17) {value : Word}
    (hstore : .store ((m.allocate a).1.asyncScheduleQueueHead + BitVec.ofNat 32 (4 * j)) value ∈
      c.bringUp m a) : IdleWord (m.allocate a).1.asyncScheduleQueueHead (4 * j) value := by
  rcases store_mem_bringUp.mp hstore with hframe | hhead
  · obtain ⟨i, hi, heq⟩ := mem_initFrameList.mp hframe
    exact absurd (USBOp.store.inj heq).1 (hapart i j hi hj)
  · obtain ⟨o, ho, haddress⟩ := mem_initQueueHead.mp hhead
    obtain ⟨k, hk, rfl⟩ := (offsets_queueHead _ o).mp (List.mem_map_of_mem (f := Prod.fst) ho)
    obtain rfl := offset_inj hk hj haddress
    exact idle_queueHeadWords hqueueHead _ ho

include hframeList hqueueHead in
/-- If they overlap, an entry of the frame list is overwritten by a word that does
not terminate it. -/
theorem apart_of_stored
    (hstored : ∀ i, i < frameListEntries → ∀ value,
      .store ((m.allocate a).1.frameList + BitVec.ofNat 32 (4 * i)) value ∈ c.bringUp m a →
        Terminates value) :
    StructuresApart (m.allocate a).1.frameList (m.allocate a).1.asyncScheduleQueueHead := by
  by_contra hoverlap
  obtain ⟨i, hi, hends⟩ := overlap_ends hframeList hqueueHead hoverlap
  have hword : ∀ o value, (o, value) ∈ queueHeadWords (m.allocate a).1.asyncScheduleQueueHead →
      (m.allocate a).1.frameList + BitVec.ofNat 32 (4 * i) =
        (m.allocate a).1.asyncScheduleQueueHead + BitVec.ofNat 32 o → Terminates value :=
    fun o value ho heq => hstored i hi value
      (store_mem_bringUp.mpr (.inr (mem_initQueueHead.mpr ⟨o, ho, heq.symm⟩)))
  rcases hends with hfirst | hlast
  · have hlink := hword _ _ List.mem_cons_self hfirst
    simp [Terminates, LinkPointerTypeTags.toWord] at hlink
  · have hbuffer := hword 64 0#32 (by simp [queueHeadWords, List.range_succ, QueueHead.overlayQTD,
      QueueTransferDescriptor.bufferPagePointerListHigh]) hlast
    exact absurd hbuffer (by decide)

end Stores

/-! ## The controller's view -/

/-- The library's theorem for a word of the machine. -/
theorem word_iff {s : Machine} (hbuffer : s.cache.buffer = []) {ops : List USBOp}
    (haligned : ∀ address value, .store address value ∈ ops → 4 ∣ address.toNat) {x : Word}
    (hx : 4 ∣ x.toNat) (R : Word → Prop) :
    (∀ events, (run Config.step ⟨s, ops⟩ events).todo = [] →
        R (readWord (run Config.step ⟨s, ops⟩ events).machine.cache.mem x.toNat)) ↔
      R (readWord s.cache.mem x.toNat) ∧ R (readWord s.cache.view x.toNat) ∧
        ∀ value, .store x value ∈ ops → R value := by
  have hinstrs : ∀ b v, .store b v ∈ ops.map instrOf → 4 ∣ b := by
    intro b v hb
    obtain ⟨address, rfl, hop⟩ := store_mem_instrs.mp hb
    exact haligned address v hop
  have hlibrary := UnflushedStores.word_iff hbuffer hinstrs hx R
  have hstores : (∀ v, .store x.toNat v ∈ ops.map instrOf → R v) ↔
      ∀ value, .store x value ∈ ops → R value := by
    refine forall_congr' fun v => imp_congr_left ?_
    rw [store_mem_instrs]
    constructor
    · rintro ⟨address, heq, hop⟩
      rwa [BitVec.eq_of_toNat_eq heq] at hop
    · exact fun hop => ⟨x, rfl, hop⟩
  rw [hstores] at hlibrary
  rw [← hlibrary]
  refine forall_congr' fun events => ?_
  have hrun := behindCache_run events ⟨s, ops⟩
  have hcache : (run Config.step ⟨s, ops⟩ events).machine.cache =
      (run UnflushedStores.Config.step ⟨s.cache, ops.map instrOf⟩ events).cache :=
    congrArg UnflushedStores.Config.cache hrun
  have htodo : (run Config.step ⟨s, ops⟩ events).todo.map instrOf =
      (run UnflushedStores.Config.step ⟨s.cache, ops.map instrOf⟩ events).todo :=
    congrArg UnflushedStores.Config.todo hrun
  rw [hcache, ← htodo, List.map_eq_nil_iff]

/-- However the cache evicts: when the three calls have ended, the registers lead to
initialised schedules in memory. -/
def AlwaysFound (c : FOTG210) (m : FOTG210MemoryStructures) (a : Answers) (s : Machine) : Prop :=
  ∀ events, (run Config.step ⟨s, c.bringUp m a⟩ events).todo = [] →
    Initialised (run Config.step ⟨s, c.bringUp m a⟩ events).machine.cache.mem
      ((run Config.step ⟨s, c.bringUp m a⟩ events).machine.registers
        (c.register periodicListBase))
      ((run Config.step ⟨s, c.bringUp m a⟩ events).machine.registers
        (c.register asyncListAddr))

section Found

variable {c : FOTG210} {m : FOTG210MemoryStructures} {a : Answers} {s : Machine}
  (hbuffer : s.cache.buffer = [])
  (hframeList : 4096 ∣ (m.allocate a).1.frameList.toNat)
  (hqueueHead : 32 ∣ (m.allocate a).1.asyncScheduleQueueHead.toNat)
include hframeList hqueueHead

theorem aligned_stores {address value : Word} (hstore : .store address value ∈ c.bringUp m a) :
    4 ∣ address.toNat := by
  rcases store_mem_bringUp.mp hstore with hframe | hhead
  · obtain ⟨i, -, heq⟩ := mem_initFrameList.mp hframe
    rw [← (USBOp.store.inj heq).1]
    exact aligned_word (by omega) i
  · obtain ⟨o, ho, rfl⟩ := mem_initQueueHead.mp hhead
    obtain ⟨j, -, rfl⟩ := (offsets_queueHead _ o).mp (List.mem_map_of_mem (f := Prod.fst) ho)
    exact aligned_word (by omega) j

include hbuffer

/-- `word_iff` for the three calls. -/
theorem calls_word_iff {x : Word} (hx : 4 ∣ x.toNat) (R : Word → Prop) :
    (∀ events, (run Config.step ⟨s, c.bringUp m a⟩ events).todo = [] →
        R (readWord (run Config.step ⟨s, c.bringUp m a⟩ events).machine.cache.mem x.toNat)) ↔
      R (readWord s.cache.mem x.toNat) ∧ R (readWord s.cache.view x.toNat) ∧
        ∀ value, .store x value ∈ c.bringUp m a → R value :=
  word_iff hbuffer (fun _ _ => aligned_stores hframeList hqueueHead) hx R

theorem entry_of_found (h : AlwaysFound c m a s) {i : Nat} (hi : i < frameListEntries) :
    Terminates (readWord s.cache.mem
        ((m.allocate a).1.frameList + BitVec.ofNat 32 (4 * i)).toNat) ∧
      Terminates (readWord s.cache.view
        ((m.allocate a).1.frameList + BitVec.ofNat 32 (4 * i)).toNat) ∧
      ∀ value, .store ((m.allocate a).1.frameList + BitVec.ofNat 32 (4 * i)) value ∈
        c.bringUp m a → Terminates value := by
  refine (calls_word_iff hbuffer hframeList hqueueHead (aligned_word (by omega) i)
    Terminates).mp fun events hdone => ?_
  have hfound := (h events hdone).frameList i hi
  rwa [(registers_bringUp hdone).1] at hfound

theorem headWord_of_found (h : AlwaysFound c m a s) {j : Nat} (hj : j < 17) :
    IdleWord (m.allocate a).1.asyncScheduleQueueHead (4 * j) (readWord s.cache.mem
        ((m.allocate a).1.asyncScheduleQueueHead + BitVec.ofNat 32 (4 * j)).toNat) ∧
      IdleWord (m.allocate a).1.asyncScheduleQueueHead (4 * j) (readWord s.cache.view
        ((m.allocate a).1.asyncScheduleQueueHead + BitVec.ofNat 32 (4 * j)).toNat) := by
  have hstored := (calls_word_iff hbuffer hframeList hqueueHead
    (x := (m.allocate a).1.asyncScheduleQueueHead + BitVec.ofNat 32 (4 * j))
    (aligned_word (by omega) j) (IdleWord (m.allocate a).1.asyncScheduleQueueHead (4 * j))).mp
      fun events hdone => by
        have hfound := (h events hdone).queueHead j hj
        rwa [(registers_bringUp hdone).2] at hfound
  exact ⟨hstored.1, hstored.2.1⟩

end Found

/-- **What the controller finds.**  Whatever the cache writes back and when, it finds
initialised schedules after the three calls if and only if the two structures do not
overlap, and the schedules were initialised before, in memory and in the dirty lines
over it. -/
theorem schedules_iff (c : FOTG210) (m : FOTG210MemoryStructures) (a : Answers) (s : Machine)
    (hbuffer : s.cache.buffer = [])
    (hframeList : 4096 ∣ (m.allocate a).1.frameList.toNat)
    (hqueueHead : 32 ∣ (m.allocate a).1.asyncScheduleQueueHead.toNat) :
    AlwaysFound c m a s ↔
      StructuresApart (m.allocate a).1.frameList (m.allocate a).1.asyncScheduleQueueHead ∧
        Initialised s.cache.mem (m.allocate a).1.frameList
          (m.allocate a).1.asyncScheduleQueueHead ∧
        Initialised s.cache.view (m.allocate a).1.frameList
          (m.allocate a).1.asyncScheduleQueueHead := by
  constructor
  · intro h
    have hentry := fun i hi =>
      entry_of_found (i := i) hbuffer hframeList hqueueHead h hi
    have hword := fun j hj => headWord_of_found (j := j) hbuffer hframeList hqueueHead h hj
    exact ⟨apart_of_stored hframeList hqueueHead fun i hi => (hentry i hi).2.2,
      ⟨fun i hi => (hentry i hi).1, fun j hj => (hword j hj).1⟩,
      ⟨fun i hi => (hentry i hi).2.1, fun j hj => (hword j hj).2⟩⟩
  · rintro ⟨hapart, hmem, hview⟩ events hdone
    rw [(registers_bringUp hdone).1, (registers_bringUp hdone).2]
    refine ⟨fun i hi => ?_, fun j hj => ?_⟩
    · exact (calls_word_iff hbuffer hframeList hqueueHead (aligned_word (by omega) i)
        Terminates).mpr
        ⟨hmem.frameList i hi, hview.frameList i hi, fun _ => terminates_stored hapart hi⟩
        events hdone
    · exact (calls_word_iff hbuffer hframeList hqueueHead (aligned_word (by omega) j)
        (IdleWord (m.allocate a).1.asyncScheduleQueueHead (4 * j))).mpr
        ⟨hmem.queueHead j hj, hview.queueHead j hj, fun _ => idle_stored hqueueHead hapart hj⟩
        events hdone

/-! ## A warm and a cold start -/

/-- The controller at `FOTG210_TopController_BaseAddress`. -/
def topController : FOTG210 := ⟨0xB0000000#32, 0x10⟩

/-- Both allocations succeed. -/
def bothAnswers : Answers := ⟨some 0x10002000#32, some 0x20000000#32⟩

theorem allocate_bothAnswers :
    (FOTG210MemoryStructures.allocate {} bothAnswers).1 = ⟨0x10002000#32, 0x20000000#32⟩ := rfl

/-- A machine whose cache is empty. -/
def emptyCache (mem : Memory) : Machine := ⟨⟨mem, [], fun _ => .absent, mem⟩, fun _ => 0⟩

theorem view_emptyCache (mem : Memory) : (emptyCache mem).cache.view = mem := rfl

/-- What an earlier start left, and what was evicted since. -/
def warmMemory : Memory := fun x =>
  if x < 0x20000000 then if x % 4 = 0 then 1 else 0
  else match x - 0x20000000 with
    | 0 => 0x02
    | 3 => 0x20
    | 5 => 0x80
    | 16 | 20 => 1
    | 24 => 0x40
    | _ => 0

theorem toNat_frame {i : Nat} (hi : i < frameListEntries) :
    (0x10002000#32 + BitVec.ofNat 32 (4 * i)).toNat = 0x10002000 + 4 * i := by
  have hentries : frameListEntries = 1024 := rfl
  rw [BitVec.toNat_add, BitVec.toNat_ofNat, BitVec.toNat_ofNat]
  omega

theorem initialised_warmMemory : Initialised warmMemory 0x10002000#32 0x20000000#32 := by
  refine ⟨fun i hi => ?_, fun j hj => ?_⟩
  · have hentries : frameListEntries = 1024 := rfl
    have hbyte : warmMemory (0x10002000 + 4 * i) = 1 := by
      rw [warmMemory, if_pos (by omega), if_pos (by omega)]
    rw [toNat_frame hi, Terminates, readWord, BitVec.getLsbD_append, hbyte]
    rfl
  · interval_cases j <;> decide

/-- A new object whose structures come to lie where they were before. -/
theorem schedules_warm : AlwaysFound topController {} bothAnswers (emptyCache warmMemory) := by
  refine (schedules_iff topController {} bothAnswers (emptyCache warmMemory) rfl ?_ ?_).mpr ?_
  · rw [allocate_bothAnswers]
    decide
  · rw [allocate_bothAnswers]
    decide
  · rw [allocate_bothAnswers, view_emptyCache]
    refine ⟨fun i j hi hj heq => ?_, initialised_warmMemory, initialised_warmMemory⟩
    have hentries : frameListEntries = 1024 := rfl
    have haddresses : (0x10002000#32 + BitVec.ofNat 32 (4 * i)).toNat =
        (0x20000000#32 + BitVec.ofNat 32 (4 * j)).toNat := congrArg BitVec.toNat heq
    rw [toNat_frame hi, BitVec.toNat_add, BitVec.toNat_ofNat, BitVec.toNat_ofNat] at haddresses
    omega

/-- On zeroed memory nothing may have been evicted when the controller starts. -/
theorem schedules_cold :
    ¬ ∀ (c : FOTG210) (m : FOTG210MemoryStructures) (a : Answers) (s : Machine),
      s.cache.buffer = [] → 4096 ∣ (m.allocate a).1.frameList.toNat →
      32 ∣ (m.allocate a).1.asyncScheduleQueueHead.toNat → AlwaysFound c m a s := by
  intro hall
  have hframeList : 4096 ∣ (FOTG210MemoryStructures.allocate {} bothAnswers).1.frameList.toNat := by
    rw [allocate_bothAnswers]
    decide
  have hqueueHead : 32 ∣
      (FOTG210MemoryStructures.allocate {} bothAnswers).1.asyncScheduleQueueHead.toNat := by
    rw [allocate_bothAnswers]
    decide
  have hentry := (entry_of_found rfl hframeList hqueueHead
    (hall topController {} bothAnswers (emptyCache fun _ => 0) rfl hframeList hqueueHead)
    (i := 0) (by decide)).1
  rw [allocate_bothAnswers] at hentry
  exact absurd hentry (by decide)

end NspireUtils.Ports.USBSchedules
