import NspireUtils.Verified.ByteMemory
import NspireUtils.Verified.Runs

/-!
# The memory structures of the USB controller

`FOTG210_MemoryStructures::allocate` of `devices/usb/structures.cpp`: it allocates
the frame list and the head of the asynchronous schedule, unless the object has
them, and fills them in.  A call denotes the list of its operations, given what
`aligned_alloc` answers.

The queue head has 17 words, four of its own and 13 of the transfer descriptor
it embeds, and is allocated with 32 bytes; and nothing looks at what
`aligned_alloc` returned.  `inside_iff` says which calls write only memory that
was allocated.
-/

namespace NspireUtils.Ports.USBStructures

open NspireUtils.Verified.ByteMemory
open NspireUtils.Verified.Runs

/-- `FOTG210_FrameList_Alignment`. -/
def frameListAlignment : Nat := 4096

/-- `FOTG210_FrameList_Entries`. -/
def frameListEntries : Nat := 1024

/-- `FOTG210_QTD_Alignment`. -/
def qtdAlignment : Nat := 32

/-! ## Layout

The offsets of the members of `struct QueueTransferDescriptor` and of
`struct QueueHead`. -/

namespace QueueTransferDescriptor

def nextQTDPointer : Nat := 0

def alternateNextQTDPointer : Nat := 4

def token : Nat := 8

def bufferPagePointerList (i : Nat) : Nat := 12 + 4 * i

def bufferPagePointerListHigh (i : Nat) : Nat := 32 + 4 * i

def size : Nat := 52

end QueueTransferDescriptor

namespace QueueHead

def horizontalLinkPointer : Nat := 0

def info1EndpointCharacteristics : Nat := 4

def info2EndpointCapabilities : Nat := 8

def currentQTDPointer : Nat := 12

def overlayQTD : Nat := 16

def size : Nat := overlayQTD + QueueTransferDescriptor.size

end QueueHead

/-- `LinkPointerTypeTags`. -/
inductive LinkPointerTypeTags where
  | isochronousTransferDescriptor
  | queueHead
  | splitTransactionIsochronousTransferDescriptor
  | frameSpanTraversalNode
  deriving Repr, DecidableEq

/-- The enumerator's value. -/
def LinkPointerTypeTags.toWord : LinkPointerTypeTags → Word
  | isochronousTransferDescriptor => 0#32 <<< 1
  | queueHead => 1#32 <<< 1
  | splitTransactionIsochronousTransferDescriptor => 2#32 <<< 1
  | frameSpanTraversalNode => 3#32 <<< 1

/-- `QH_EndpointCharacteristicsBits::HeadOfReclamationList`. -/
def headOfReclamationList : Word := 1#32 <<< 15

/-- `QTD_TokenBits::Halted`. -/
def halted : Word := 1#32 <<< 6

/-! ## `allocate` -/

/-- An operation on memory or on the controller's registers. -/
inductive USBOp where
  | alignedAlloc (alignment size : Nat) (result : Option Word)
  | store (address value : Word)
  | writeRegister (address value : Word)
  | readRegister (address : Word)
  deriving Repr, DecidableEq

/-- `struct FOTG210_MemoryStructures`; zero is the null pointer. -/
structure FOTG210MemoryStructures where
  frameList : Word := 0#32
  asyncScheduleQueueHead : Word := 0#32
  deriving Repr, DecidableEq

/-- What `aligned_alloc` answers to a call, should it be asked. -/
structure Answers where
  frameList : Option Word
  asyncScheduleQueueHead : Option Word
  deriving Repr, DecidableEq

/-- The pointer, allocated if it is null. -/
def ensure (pointer : Word) (alignment size : Nat) (answer : Option Word) : Word × List USBOp :=
  if pointer = 0#32 then (answer.getD 0#32, [.alignedAlloc alignment size answer])
  else (pointer, [])

/-- The stores to the frame list.  Irreducible, as no proof should meet all 1024 of
them. -/
@[irreducible] def initFrameList (frameList : Word) : List USBOp :=
  (List.range frameListEntries).map fun i =>
    -- terminate bit set
    .store (frameList + BitVec.ofNat 32 (4 * i)) 1#32

theorem mem_initFrameList {frameList : Word} {op : USBOp} :
    op ∈ initFrameList frameList ↔
      ∃ i, i < frameListEntries ∧ .store (frameList + BitVec.ofNat 32 (4 * i)) 1#32 = op := by
  unfold initFrameList
  simp only [List.mem_map, List.mem_range]

/-- What is stored in the queue head, by offset. -/
def queueHeadWords (queueHead : Word) : List (Nat × Word) :=
  [ (QueueHead.horizontalLinkPointer,
      (queueHead &&& ~~~0x1F#32) ||| LinkPointerTypeTags.queueHead.toWord)
  , (QueueHead.info1EndpointCharacteristics, headOfReclamationList)
  , (QueueHead.info2EndpointCapabilities, 0#32)
  , (QueueHead.currentQTDPointer, 0#32)
  -- the overlay
  , (QueueHead.overlayQTD + QueueTransferDescriptor.nextQTDPointer, 1#32)
  , (QueueHead.overlayQTD + QueueTransferDescriptor.alternateNextQTDPointer, 1#32)
  , (QueueHead.overlayQTD + QueueTransferDescriptor.token, halted) ] ++
  (List.range 5).flatMap fun i =>
    [ (QueueHead.overlayQTD + QueueTransferDescriptor.bufferPagePointerList i, 0#32)
    , (QueueHead.overlayQTD + QueueTransferDescriptor.bufferPagePointerListHigh i, 0#32) ]

/-- The stores to the queue head. -/
def initQueueHead (queueHead : Word) : List USBOp :=
  (queueHeadWords queueHead).map fun w => .store (queueHead + BitVec.ofNat 32 w.1) w.2

namespace FOTG210MemoryStructures

/-- The frame list after the call, and what was done for it. -/
def ensureFrameList (m : FOTG210MemoryStructures) (a : Answers) : Word × List USBOp :=
  ensure m.frameList frameListAlignment (frameListEntries * 4) a.frameList

/-- The queue head after the call, and what was done for it. -/
def ensureQueueHead (m : FOTG210MemoryStructures) (a : Answers) : Word × List USBOp :=
  ensure m.asyncScheduleQueueHead qtdAlignment 32 a.asyncScheduleQueueHead

/-- `FOTG210_MemoryStructures::allocate`: the object after it, and its
operations. -/
def allocate (m : FOTG210MemoryStructures) (a : Answers) :
    FOTG210MemoryStructures × List USBOp :=
  let (frameList, allocFrameList) := m.ensureFrameList a
  let (queueHead, allocQueueHead) := m.ensureQueueHead a
  (⟨frameList, queueHead⟩,
    (allocFrameList ++ initFrameList frameList) ++ (allocQueueHead ++ initQueueHead queueHead))

end FOTG210MemoryStructures

/-! ## The heap -/

/-- An operation on the live blocks: each is what `aligned_alloc` returned, with
the length it was asked for. -/
def exec (live : List Block) : USBOp → List Block
  | .alignedAlloc _ size (some p) => ⟨p.toNat, size⟩ :: live
  | _ => live

/-- A block has its header below it, ends in the address space, and lies apart
from the others and their headers. -/
def Fits (b : Block) (live : List Block) : Prop :=
  4 ≤ b.start ∧ b.start + b.size ≤ 2 ^ 32 ∧
    ∀ c ∈ live, b.start + b.size + 4 ≤ c.start ∨ c.start + c.size + 4 ≤ b.start

/-- What holds of the blocks of a heap. -/
def Disciplined : List Block → Prop
  | [] => True
  | b :: rest => Fits b rest ∧ Disciplined rest

/-- What `aligned_alloc` promises. -/
def Fresh (live : List Block) : USBOp → Prop
  | .alignedAlloc _ size (some p) => Fits ⟨p.toNat, size⟩ live
  | _ => True

/-- The bytes from the address on lie in one live block. -/
def InBlock (live : List Block) (p : Word) (n : Nat) : Prop :=
  ∃ b ∈ live, b.start ≤ p.toNat ∧ p.toNat + n ≤ b.start + b.size

/-- A store lies in a live block. -/
def Inside (live : List Block) : USBOp → Prop
  | .store address _ => InBlock live address 4
  | _ => True

/-- After a failed allocation nothing is stored. -/
def StopsOnFailure : List USBOp → Prop
  | [] => True
  | .alignedAlloc _ _ none :: rest => ∀ address value, .store address value ∉ rest
  | _ :: rest => StopsOnFailure rest

namespace Disciplined

theorem fits {live : List Block} (h : Disciplined live) {b : Block} (hb : b ∈ live) :
    4 ≤ b.start ∧ b.start + b.size ≤ 2 ^ 32 := by
  induction live with
  | nil => simp at hb
  | cons c rest ih =>
      rcases List.mem_cons.mp hb with rfl | hrest
      · exact ⟨h.1.1, h.1.2.1⟩
      · exact ih h.2 hrest

/-- Two blocks, with a header between them. -/
theorem apart {live : List Block} (h : Disciplined live) {b c : Block} (hb : b ∈ live)
    (hc : c ∈ live) :
    b = c ∨ b.start + b.size + 4 ≤ c.start ∨ c.start + c.size + 4 ≤ b.start := by
  induction live with
  | nil => simp at hb
  | cons d rest ih =>
      rcases List.mem_cons.mp hb with rfl | hb' <;> rcases List.mem_cons.mp hc with rfl | hc'
      · exact .inl rfl
      · exact .inr (h.1.2.2 c hc')
      · exact .inr ((h.1.2.2 b hb').symm)
      · exact ih h.2 hb' hc'

theorem exec {live : List Block} (h : Disciplined live) {op : USBOp} (hfresh : Fresh live op) :
    Disciplined (exec live op) := by
  cases op with
  | alignedAlloc alignment size result =>
      cases result with
      | none => exact h
      | some p => exact ⟨hfresh, h⟩
  | _ => exact h

end Disciplined

/-- There is no block at null. -/
theorem not_inBlock_null {live : List Block} (h : Disciplined live) (n : Nat) :
    ¬ InBlock live 0#32 n := by
  rintro ⟨b, hb, hle, -⟩
  have hfits := h.fits hb
  have hzero : (0#32 : Word).toNat = 0 := rfl
  omega

/-- **Words in live blocks.**  Words that follow each other do not lie in
different blocks: there is a header in between. -/
theorem words_inBlock_iff {live : List Block} (h : Disciplined live) (p : Word) {n : Nat}
    (hn : 4 * (n + 1) ≤ 2 ^ 32) :
    (∀ i, i < n + 1 → InBlock live (p + BitVec.ofNat 32 (4 * i)) 4) ↔
      InBlock live p (4 * (n + 1)) := by
  have hlt := p.isLt
  have haddress : ∀ i, i < n + 1 → (p + BitVec.ofNat 32 (4 * i)).toNat =
      if p.toNat + 4 * i < 2 ^ 32 then p.toNat + 4 * i else p.toNat + 4 * i - 2 ^ 32 := by
    intro i hi
    rw [BitVec.toNat_add, BitVec.toNat_ofNat]
    split_ifs <;> omega
  constructor
  · intro hwords
    have hprefix : ∀ k, k < n + 1 → InBlock live p (4 * (k + 1)) := by
      intro k
      induction k with
      | zero =>
          intro hk
          obtain ⟨b, hb, hstart, hend⟩ := hwords 0 hk
          have h0 := haddress 0 hk
          rw [if_pos (by omega)] at h0
          exact ⟨b, hb, by omega, by omega⟩
      | succ k ih =>
          intro hk
          obtain ⟨b, hb, hstart, hend⟩ := ih (by omega)
          obtain ⟨c, hc, hcstart, hcend⟩ := hwords (k + 1) hk
          have hbfits := h.fits hb
          have hcfits := h.fits hc
          have hnext := haddress (k + 1) hk
          split_ifs at hnext with hwrap
          · rcases h.apart hb hc with rfl | hafter | hbefore
            · exact ⟨b, hb, hstart, by omega⟩
            · omega
            · omega
          · omega
    exact hprefix n (Nat.lt_succ_self n)
  · rintro ⟨b, hb, hstart, hend⟩ i hi
    have hfits := h.fits hb
    have haddr := haddress i hi
    rw [if_pos (by omega)] at haddr
    exact ⟨b, hb, by omega, by omega⟩

/-! ## One call -/

/-- The operation is not an allocation. -/
def IsStore (op : USBOp) : Prop := ∃ address value, op = .store address value

theorem run_stores {ops : List USBOp} (h : ∀ op ∈ ops, IsStore op) (live : List Block) :
    run exec live ops = live := by
  induction ops with
  | nil => rfl
  | cons op rest ih =>
      obtain ⟨address, value, rfl⟩ := h op List.mem_cons_self
      exact ih fun op hop => h op (List.mem_cons_of_mem _ hop)

/-- What is asked of stores is asked of each of them. -/
theorem allowed_stores (P : List Block → USBOp → Prop) {ops : List USBOp}
    (h : ∀ op ∈ ops, IsStore op) (live : List Block) :
    Allowed exec P live ops ↔ ∀ op ∈ ops, P live op := by
  induction ops with
  | nil => simp [Allowed]
  | cons op rest ih =>
      obtain ⟨address, value, rfl⟩ := h op List.mem_cons_self
      have hrest := ih fun op hop => h op (List.mem_cons_of_mem _ hop)
      rw [Allowed, List.forall_mem_cons, ← hrest]
      exact Iff.rfl

/-- Stores ask the heap for nothing. -/
theorem fresh_of_isStore {op : USBOp} (h : IsStore op) (live : List Block) : Fresh live op := by
  obtain ⟨address, value, rfl⟩ := h
  trivial

theorem isStore_initFrameList (frameList : Word) : ∀ op ∈ initFrameList frameList, IsStore op := by
  intro op hop
  obtain ⟨i, -, rfl⟩ := mem_initFrameList.mp hop
  exact ⟨_, _, rfl⟩

theorem isStore_initQueueHead (queueHead : Word) : ∀ op ∈ initQueueHead queueHead, IsStore op := by
  intro op hop
  obtain ⟨w, -, rfl⟩ := List.mem_map.mp hop
  exact ⟨_, _, rfl⟩

/-- The queue head is written word by word, all 68 bytes of it. -/
theorem offsets_queueHead (queueHead : Word) (o : Nat) :
    o ∈ (queueHeadWords queueHead).map Prod.fst ↔ ∃ i, i < 17 ∧ o = 4 * i := by
  have hoffsets : (queueHeadWords queueHead).map Prod.fst =
      [0, 4, 8, 12, 16, 20, 24, 28, 48, 32, 52, 36, 56, 40, 60, 44, 64] := rfl
  rw [hoffsets]
  constructor
  · intro ho
    refine ⟨o / 4, ?_⟩
    fin_cases ho <;> decide
  · rintro ⟨i, hi, rfl⟩
    interval_cases i <;> decide

section Stores

variable {live : List Block} (h : Disciplined live)
include h

theorem allowed_initFrameList (frameList : Word) :
    Allowed exec Inside live (initFrameList frameList) ↔
      InBlock live frameList (frameListEntries * 4) := by
  rw [allowed_stores Inside (isStore_initFrameList frameList)]
  refine Iff.trans ?_ (words_inBlock_iff h frameList (n := 1023) (by decide))
  constructor
  · intro hall i hi
    exact hall _ (mem_initFrameList.mpr ⟨i, hi, rfl⟩)
  · intro hall op hop
    obtain ⟨i, hi, rfl⟩ := mem_initFrameList.mp hop
    exact hall i hi

theorem allowed_initQueueHead (queueHead : Word) :
    Allowed exec Inside live (initQueueHead queueHead) ↔
      InBlock live queueHead QueueHead.size := by
  rw [allowed_stores Inside (isStore_initQueueHead queueHead)]
  refine Iff.trans ?_ (words_inBlock_iff h queueHead (n := 16) (by decide))
  constructor
  · intro hall i hi
    obtain ⟨w, hw, hoffset⟩ :=
      List.mem_map.mp ((offsets_queueHead queueHead (4 * i)).mpr ⟨i, hi, rfl⟩)
    have hin := hall _ (List.mem_map.mpr ⟨w, hw, rfl⟩)
    rwa [hoffset] at hin
  · intro hall op hop
    obtain ⟨w, hw, rfl⟩ := List.mem_map.mp hop
    obtain ⟨i, hi, hoffset⟩ := (offsets_queueHead queueHead w.1).mp (List.mem_map_of_mem hw)
    rw [hoffset]
    exact hall i hi

/-- Whether the bytes behind a pointer are allocated, once it was allocated if it
was null. -/
theorem inBlock_ensure {pointer : Word} {alignment size n : Nat} {answer : Option Word}
    (hfresh : Allowed exec Fresh live (ensure pointer alignment size answer).2) :
    InBlock (run exec live (ensure pointer alignment size answer).2)
        (ensure pointer alignment size answer).1 n ↔
      if pointer = 0#32 then answer ≠ none ∧ n ≤ size else InBlock live pointer n := by
  unfold ensure at hfresh ⊢
  split_ifs at hfresh ⊢ with hnull
  · cases answer with
    | none =>
        have hnull := not_inBlock_null h n
        simpa [exec] using hnull
    | some p =>
        have hdisciplined : Disciplined (⟨p.toNat, size⟩ :: live) := ⟨hfresh.1, h⟩
        simp only [ne_eq, reduceCtorEq, not_false_eq_true, true_and]
        constructor
        · rintro ⟨b, hb, hstart, hend⟩
          have hend : p.toNat + n ≤ b.start + b.size := hend
          have hstart : b.start ≤ p.toNat := hstart
          rcases hdisciplined.apart List.mem_cons_self hb with rfl | hafter | hbefore
          · exact Nat.le_of_add_le_add_left hend
          · simp only at hafter
            omega
          · simp only at hbefore
            omega
        · intro hle
          exact ⟨_, List.mem_cons_self, Nat.le_refl _, Nat.add_le_add_left hle _⟩
  · rfl

theorem disciplined_ensure {pointer : Word} {alignment size : Nat} {answer : Option Word}
    (hfresh : Allowed exec Fresh live (ensure pointer alignment size answer).2) :
    Disciplined (run exec live (ensure pointer alignment size answer).2) := by
  unfold ensure at hfresh ⊢
  split_ifs at hfresh ⊢
  · exact h.exec hfresh.1
  · exact h

end Stores

/-- Allocations alone store nothing. -/
theorem allowed_ensure (live : List Block) (pointer : Word) (alignment size : Nat)
    (answer : Option Word) : Allowed exec Inside live (ensure pointer alignment size answer).2 := by
  unfold ensure
  split_ifs
  · exact ⟨trivial, trivial⟩
  · trivial

/-! ## Any number of calls -/

/-- The object and the heap. -/
structure State where
  structures : FOTG210MemoryStructures
  live : List Block

/-- A call of `allocate`; or somebody else allocates and frees, and leaves these
blocks. -/
inductive Event where
  | allocate (a : Answers)
  | others (live : List Block)

namespace State

def step (s : State) : Event → State
  | .allocate a =>
      { structures := (s.structures.allocate a).1
        live := run exec s.live (s.structures.allocate a).2 }
  | .others live => { s with live }

/-- The heap answers as it promises. -/
def HeapBehaves (s : State) : Event → Prop
  | .allocate a => Allowed exec Fresh s.live (s.structures.allocate a).2
  | .others live => Disciplined live

/-- The call stores in live blocks only, and nothing after a failed
allocation. -/
def StoresOwned (s : State) : Event → Prop
  | .allocate a => Allowed exec Inside s.live (s.structures.allocate a).2 ∧
      StopsOnFailure (s.structures.allocate a).2
  | .others _ => True

/-- What the call needs: a queue head that was there before and is large enough,
and a frame list that was, or that can be allocated. -/
def Provided (s : State) : Event → Prop
  | .allocate a =>
      (if s.structures.frameList = 0#32 then a.frameList ≠ none
        else InBlock s.live s.structures.frameList (frameListEntries * 4)) ∧
      s.structures.asyncScheduleQueueHead ≠ 0#32 ∧
        InBlock (run exec s.live (s.structures.ensureFrameList a).2)
          s.structures.asyncScheduleQueueHead QueueHead.size
  | .others _ => True

end State

theorem stopsOnFailure_of_succeeds {ops : List USBOp}
    (h : ∀ alignment size, .alignedAlloc alignment size none ∉ ops) : StopsOnFailure ops := by
  induction ops with
  | nil => trivial
  | cons op rest ih =>
      have hrest := ih fun alignment size hmem => h alignment size (List.mem_cons_of_mem _ hmem)
      cases op with
      | alignedAlloc alignment size result =>
          cases result with
          | none => exact absurd List.mem_cons_self (h alignment size)
          | some p => exact hrest
      | store address value => exact hrest
      | writeRegister address value => exact hrest
      | readRegister address => exact hrest

theorem fails_ensure {pointer : Word} {alignment size a n : Nat} {answer : Option Word}
    (h : .alignedAlloc a n none ∈ (ensure pointer alignment size answer).2) :
    pointer = 0#32 ∧ answer = none := by
  unfold ensure at h
  split_ifs at h with hnull
  · obtain ⟨-, -, hnone⟩ : a = alignment ∧ n = size ∧ none = answer := by simpa using h
    exact ⟨hnull, hnone.symm⟩
  · simp at h

namespace State

variable (s : State) (P : List Block → USBOp → Prop) (a : Answers)

/-- The parts of a call: what stores changes no block. -/
theorem allowed_parts :
    Allowed exec P s.live (s.structures.allocate a).2 ↔
      (Allowed exec P s.live (s.structures.ensureFrameList a).2 ∧
        Allowed exec P (run exec s.live (s.structures.ensureFrameList a).2)
          (initFrameList (s.structures.ensureFrameList a).1)) ∧
      Allowed exec P (run exec s.live (s.structures.ensureFrameList a).2)
          (s.structures.ensureQueueHead a).2 ∧
        Allowed exec P (run exec (run exec s.live (s.structures.ensureFrameList a).2)
            (s.structures.ensureQueueHead a).2)
          (initQueueHead (s.structures.ensureQueueHead a).1) := by
  have hstores := run_stores (isStore_initFrameList (s.structures.ensureFrameList a).1)
    (run exec s.live (s.structures.ensureFrameList a).2)
  simp only [FOTG210MemoryStructures.allocate, allowed_append]
  rw [run_append, hstores]

theorem live_allocate :
    (s.step (.allocate a)).live = run exec (run exec s.live (s.structures.ensureFrameList a).2)
      (s.structures.ensureQueueHead a).2 := by
  simp only [step, FOTG210MemoryStructures.allocate]
  rw [run_append, run_append, run_append, run_stores (isStore_initFrameList _),
    run_stores (isStore_initQueueHead _)]

/-- Only the two allocations matter to the heap. -/
theorem heapBehaves_of_allocations
    (hframe : Allowed exec Fresh s.live (s.structures.ensureFrameList a).2)
    (hhead : Allowed exec Fresh (run exec s.live (s.structures.ensureFrameList a).2)
      (s.structures.ensureQueueHead a).2) : s.HeapBehaves (.allocate a) := by
  rw [HeapBehaves, allowed_parts, allowed_stores Fresh (isStore_initFrameList _),
    allowed_stores Fresh (isStore_initQueueHead _)]
  exact ⟨⟨hframe, fun op hop => fresh_of_isStore (isStore_initFrameList _ op hop) _⟩, hhead,
    fun op hop => fresh_of_isStore (isStore_initQueueHead _ op hop) _⟩

end State

section Call

variable {s : State} (hdisciplined : Disciplined s.live) {a : Answers}
  (hheap : s.HeapBehaves (.allocate a))
include hdisciplined hheap

theorem disciplined_allocate : Disciplined (s.step (.allocate a)).live :=
  run_invariant exec Fresh (fun _ _ hfresh h => h.exec hfresh) _ _ hheap hdisciplined

/-- Where the stores of a call lie. -/
theorem allowed_allocate :
    Allowed exec Inside s.live (s.structures.allocate a).2 ↔ s.Provided (.allocate a) := by
  obtain ⟨⟨hframe, -⟩, hhead, -⟩ := (s.allowed_parts Fresh a).mp hheap
  rw [s.allowed_parts]
  have hfirst : Disciplined (run exec s.live (s.structures.ensureFrameList a).2) :=
    disciplined_ensure hdisciplined hframe
  have hsecond : Disciplined (run exec (run exec s.live (s.structures.ensureFrameList a).2)
      (s.structures.ensureQueueHead a).2) := disciplined_ensure hfirst hhead
  have hframeList : InBlock (run exec s.live (s.structures.ensureFrameList a).2)
      (s.structures.ensureFrameList a).1 (frameListEntries * 4) ↔ _ :=
    inBlock_ensure hdisciplined hframe
  have hqueueHead : InBlock (run exec (run exec s.live (s.structures.ensureFrameList a).2)
      (s.structures.ensureQueueHead a).2) (s.structures.ensureQueueHead a).1 QueueHead.size ↔ _ :=
    inBlock_ensure hfirst hhead
  have htooSmall : ¬ QueueHead.size ≤ 32 := by decide
  rw [allowed_initFrameList hfirst, allowed_initQueueHead hsecond, hframeList, hqueueHead]
  constructor
  · rintro ⟨⟨-, hframeStores⟩, -, hheadStores⟩
    split_ifs at hheadStores with hnull
    · exact absurd hheadStores.2 htooSmall
    · refine ⟨?_, hnull, hheadStores⟩
      split_ifs at hframeStores ⊢
      · exact hframeStores.1
      · exact hframeStores
  · rintro ⟨hframeIn, hpresent, hheadIn⟩
    refine ⟨⟨allowed_ensure _ _ _ _ _, ?_⟩, allowed_ensure _ _ _ _ _, ?_⟩
    · split_ifs at hframeIn ⊢
      · exact ⟨hframeIn, Nat.le_refl _⟩
      · exact hframeIn
    · rw [if_neg hpresent]
      exact hheadIn

omit hdisciplined hheap in
/-- If nothing that is allocated fails, the second half of the promise is
empty. -/
theorem stopsOnFailure_of_provided (h : s.Provided (.allocate a)) :
    StopsOnFailure (s.structures.allocate a).2 := by
  obtain ⟨hframeList, hpresent, -⟩ := h
  refine stopsOnFailure_of_succeeds fun alignment size hmem => ?_
  simp only [FOTG210MemoryStructures.allocate, List.mem_append] at hmem
  rcases hmem with (hframe | hstore) | (hhead | hstore)
  · obtain ⟨hnull, hfailed⟩ := fails_ensure hframe
    rw [if_pos hnull] at hframeList
    exact hframeList hfailed
  · obtain ⟨_, _, heq⟩ := isStore_initFrameList _ _ hstore
    exact absurd heq (by simp)
  · exact hpresent (fails_ensure hhead).1
  · obtain ⟨_, _, heq⟩ := isStore_initQueueHead _ _ hstore
    exact absurd heq (by simp)

theorem storesOwned_iff : s.StoresOwned (.allocate a) ↔ s.Provided (.allocate a) := by
  refine ⟨fun h => (allowed_allocate hdisciplined hheap).mp h.1, fun h => ⟨?_, ?_⟩⟩
  · exact (allowed_allocate hdisciplined hheap).mpr h
  · exact stopsOnFailure_of_provided h

end Call

/-- **Which calls write only memory they own.**  Over any number of calls, with
any answers of the heap and anything else that is allocated and freed in
between: every store of every call lies in a live block, and none follows a
failed allocation, if and only if each call found a queue head large enough and
found or got a frame list. -/
theorem inside_iff (events : List Event) (s : State) (hdisciplined : Disciplined s.live)
    (hheap : Allowed State.step State.HeapBehaves s events) :
    Allowed State.step State.StoresOwned s events ↔
      Allowed State.step State.Provided s events := by
  induction events generalizing s with
  | nil => exact Iff.rfl
  | cons e rest ih =>
      obtain ⟨hfirst, hrest⟩ := hheap
      cases e with
      | allocate a =>
          exact and_congr (storesOwned_iff hdisciplined hfirst)
            (ih _ (disciplined_allocate hdisciplined hfirst) hrest)
      | others live => exact and_congr Iff.rfl (ih _ hfirst hrest)

/-! ## Calls on small heaps -/

/-- The queue head is one of 96 bytes, the frame list is still to be
allocated. -/
def providedState : State where
  structures := { asyncScheduleQueueHead := 0x20000000#32 }
  live := [⟨0x20000000, 96⟩]

/-- What the first call leaves. -/
theorem step_providedState :
    (providedState.step (.allocate ⟨some 0x10001000#32, none⟩)).structures =
        ⟨0x10001000#32, 0x20000000#32⟩ ∧
      (providedState.step (.allocate ⟨some 0x10001000#32, none⟩)).live =
        [⟨0x10001000, 4096⟩, ⟨0x20000000, 96⟩] :=
  ⟨rfl, providedState.live_allocate _⟩

/-- Two calls, of which the first allocates the frame list. -/
theorem inside_provided :
    Allowed State.step State.StoresOwned providedState
      [.allocate ⟨some 0x10001000#32, none⟩, .allocate ⟨none, none⟩] := by
  have hheap : providedState.HeapBehaves (.allocate ⟨some 0x10001000#32, none⟩) :=
    providedState.heapBehaves_of_allocations _ ⟨⟨by decide, by decide, by decide⟩, trivial⟩ trivial
  obtain ⟨hstructures, hlive⟩ := step_providedState
  have hagain : (providedState.step (.allocate ⟨some 0x10001000#32, none⟩)).HeapBehaves
      (.allocate ⟨none, none⟩) := by
    generalize providedState.step (.allocate ⟨some 0x10001000#32, none⟩) = s₁ at hstructures
    obtain ⟨structures, live⟩ := s₁
    obtain rfl : structures = _ := hstructures
    exact State.heapBehaves_of_allocations _ _ trivial trivial
  refine (inside_iff [.allocate ⟨some 0x10001000#32, none⟩, .allocate ⟨none, none⟩] providedState
    ⟨⟨by decide, by decide, by simp⟩, trivial⟩ ⟨hheap, hagain, trivial⟩).mpr ⟨?_, ?_, trivial⟩
  · exact ⟨by simp [providedState], show 0x20000000#32 ≠ 0#32 by decide,
      ⟨0x20000000, 96⟩, List.mem_cons_of_mem _ List.mem_cons_self, by decide, by decide⟩
  · rw [State.Provided, hstructures, hlive]
    exact ⟨⟨⟨0x10001000, 4096⟩, List.mem_cons_self, by decide, by decide⟩, by decide,
      ⟨0x20000000, 96⟩, List.mem_cons_of_mem _ List.mem_cons_self, by decide, by decide⟩

/-- A new object on an empty heap. -/
def newState : State := ⟨{}, []⟩

/-- Both allocations succeed, and the queue head is written beyond its 32
bytes. -/
theorem queueHead_too_small :
    ¬ ∀ (s : State) (events : List Event), Disciplined s.live →
      Allowed State.step State.HeapBehaves s events →
      Allowed State.step State.StoresOwned s events := by
  intro hall
  have hheap : newState.HeapBehaves (.allocate ⟨some 0x10001000#32, some 0x20000000#32⟩) :=
    newState.heapBehaves_of_allocations _ ⟨⟨by decide, by decide, by decide⟩, trivial⟩
      ⟨⟨by decide, by decide, by decide⟩, trivial⟩
  have howned := (hall newState [.allocate ⟨some 0x10001000#32, some 0x20000000#32⟩] trivial
    ⟨hheap, trivial⟩).1
  obtain ⟨-, hpresent, -⟩ := (storesOwned_iff (s := newState) trivial hheap).mp howned
  exact hpresent rfl

end NspireUtils.Ports.USBStructures
