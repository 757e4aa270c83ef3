import NspireUtils.Verified.WordStores
import NspireUtils.Ports.AllocBounds
import NspireUtils.Ports.USBStructures

/-!
# The lifetime of the USB memory structures

An object of `FOTG210_MemoryStructures` on its memory: calls of `allocate`, of which the
first gets its blocks from `platform_malloc`, and the destructor, which gives them back
with `aligned_free`.

`aligned_alloc` keeps the raw pointer in the word below a block, and the queue head is
written beyond its block.  `destroy_lifetime` says where that ends: the frame list is
given back unless it lies 64 bytes above the queue head.
-/

namespace NspireUtils.Ports.USBLifetime

open NspireUtils.Verified.ByteMemory
open NspireUtils.Verified.Runs
open NspireUtils.Verified.WordStores
open NspireUtils.Ports.Alloc
open NspireUtils.Ports.AllocBounds
open NspireUtils.Ports.USBStructures

/-- What the stores among the operations write. -/
def writesOf (ops : List USBOp) : List (Nat × Word) :=
  ops.filterMap fun
    | .store address value => some (address.toNat, value)
    | _ => none

/-- The object and memory. -/
structure World where
  mem : Memory
  object : FOTG210MemoryStructures

/-- `if (!pointer) pointer = aligned_alloc(alignment, size)`. -/
def ensured (mem : Memory) (pointer alignment size : Word)
    (platformMalloc : Word → Option Word) : AllocOutcome :=
  if pointer = 0#32 then alignedAlloc mem platformMalloc alignment size
  else ⟨some pointer, none, mem⟩

namespace World

/-- The constructor. -/
def constructed (mem : Memory) : World := ⟨mem, {}⟩

/-- What the call asks the allocator for the frame list. -/
def frameListOutcome (w : World) (malloc : Word → Option Word) : AllocOutcome :=
  ensured w.mem w.object.frameList 4096#32 4096#32 malloc

/-- Memory with the frame list filled in. -/
def frameListFilled (w : World) (malloc : Word → Option Word) : Memory :=
  putAll (w.frameListOutcome malloc).mem
    (writesOf (initFrameList ((w.frameListOutcome malloc).result.getD 0#32)))

/-- And for the queue head. -/
def queueHeadOutcome (w : World) (malloc malloc' : Word → Option Word) : AllocOutcome :=
  ensured (w.frameListFilled malloc) w.object.asyncScheduleQueueHead 32#32 32#32 malloc'

/-- `FOTG210_MemoryStructures::allocate`, with what `platform_malloc` answers. -/
def allocate (w : World) (malloc malloc' : Word → Option Word) : World where
  mem := putAll (w.queueHeadOutcome malloc malloc').mem
    (writesOf (initQueueHead ((w.queueHeadOutcome malloc malloc').result.getD 0#32)))
  object :=
    { frameList := (w.frameListOutcome malloc).result.getD 0#32
      asyncScheduleQueueHead := (w.queueHeadOutcome malloc malloc').result.getD 0#32 }

/-- It is the call whose operations are known. -/
theorem allocate_object (w : World) (malloc malloc' : Word → Option Word) :
    (w.allocate malloc malloc').object =
      (w.object.allocate ⟨(w.frameListOutcome malloc).result,
        (w.queueHeadOutcome malloc malloc').result⟩).1 := by
  simp only [allocate, frameListOutcome, queueHeadOutcome, ensured,
    FOTG210MemoryStructures.allocate, FOTG210MemoryStructures.ensureFrameList,
    FOTG210MemoryStructures.ensureQueueHead, ensure]
  split_ifs <;> rfl

/-- `FOTG210_MemoryStructures::~FOTG210_MemoryStructures`: what `platform_free` is given;
`freed` is memory after it took the frame list. -/
def destroy (w : World) (freed : Memory) : List Word :=
  (if w.object.frameList = 0#32 then []
    else (alignedFree w.mem w.object.frameList).toList) ++
  (if w.object.asyncScheduleQueueHead = 0#32 then []
    else (alignedFree freed w.object.asyncScheduleQueueHead).toList)

end World

/-! ## The stores of a call -/

theorem mem_writesOf_initFrameList {frameList : Word} {p : Nat × Word}
    (h : p ∈ writesOf (initFrameList frameList)) :
    ∃ i, i < frameListEntries ∧ p.1 = (frameList + BitVec.ofNat 32 (4 * i)).toNat := by
  obtain ⟨op, hop, hp⟩ := List.mem_filterMap.mp h
  obtain ⟨i, hi, rfl⟩ := mem_initFrameList.mp hop
  obtain rfl := Option.some.inj hp
  exact ⟨i, hi, rfl⟩

/-- The frame list is written inside its block. -/
theorem readWord_initFrameList (m : Memory) {frameList : Word}
    (hspace : frameList.toNat + 4096 ≤ 2 ^ 32) {a : Nat}
    (ha : a + 4 ≤ frameList.toNat ∨ frameList.toNat + 4096 ≤ a) :
    readWord (putAll m (writesOf (initFrameList frameList))) a = readWord m a := by
  refine readWord_putAll_of_apart m _ fun p hp => ?_
  obtain ⟨i, hi, hi'⟩ := mem_writesOf_initFrameList hp
  have hentries : frameListEntries = 1024 := rfl
  rw [hi', WordsApart, BitVec.toNat_add, BitVec.toNat_ofNat]
  omega

theorem mem_writesOf_initQueueHead {queueHead : Word} {p : Nat × Word}
    (h : p ∈ writesOf (initQueueHead queueHead)) :
    ∃ i, i < 17 ∧ p.1 = (queueHead + BitVec.ofNat 32 (4 * i)).toNat := by
  obtain ⟨op, hop, hp⟩ := List.mem_filterMap.mp h
  obtain ⟨w, hw, rfl⟩ := List.mem_map.mp hop
  obtain rfl := Option.some.inj hp
  obtain ⟨i, hi, hoffset⟩ := (offsets_queueHead queueHead w.1).mp (List.mem_map_of_mem hw)
  exact ⟨i, hi, by rw [← hoffset]⟩

/-- The queue head is written up to 68 bytes, round the end of the address space if it
lies there. -/
theorem readWord_initQueueHead (m : Memory) {queueHead : Word} {a : Nat}
    (hwrap : queueHead.toNat + 68 ≤ 2 ^ 32 ∨ 36 ≤ a)
    (hspace : queueHead.toNat + 32 ≤ 2 ^ 32)
    (ha : a + 4 ≤ queueHead.toNat ∨ queueHead.toNat + 68 ≤ a) :
    readWord (putAll m (writesOf (initQueueHead queueHead))) a = readWord m a := by
  refine readWord_putAll_of_apart m _ fun p hp => ?_
  obtain ⟨i, hi, hi'⟩ := mem_writesOf_initQueueHead hp
  rw [hi', WordsApart, BitVec.toNat_add, BitVec.toNat_ofNat]
  omega

/-- 60 bytes above it a zero is left. -/
theorem readWord_initQueueHead_60 (m : Memory) {queueHead : Word}
    (hspace : queueHead.toNat + 68 ≤ 2 ^ 32) :
    readWord (putAll m (writesOf (initQueueHead queueHead))) (queueHead.toNat + 60) = 0#32 := by
  have haddress : ∀ n, n < 68 →
      (queueHead + BitVec.ofNat 32 n).toNat = queueHead.toNat + n := by
    intro n hn
    rw [BitVec.toNat_add, BitVec.toNat_ofNat]
    omega
  -- the word is the last `bufferPagePointerListHigh` but one, and two stores follow it
  obtain ⟨before, hbefore⟩ : ∃ before, writesOf (initQueueHead queueHead) =
      before ++ [((queueHead + BitVec.ofNat 32 60).toNat, 0#32),
        ((queueHead + BitVec.ofNat 32 44).toNat, 0#32),
        ((queueHead + BitVec.ofNat 32 64).toNat, 0#32)] := by
    refine ⟨(writesOf (initQueueHead queueHead)).take 14, ?_⟩
    rfl
  have hsplit : putAll m (writesOf (initQueueHead queueHead)) =
      writeWord (writeWord (writeWord (putAll m before) (queueHead.toNat + 60) 0#32)
        (queueHead.toNat + 44) 0#32) (queueHead.toNat + 64) 0#32 := by
    rw [hbefore, haddress 60 (by omega), haddress 44 (by omega), haddress 64 (by omega)]
    exact List.foldl_append
  rw [hsplit, readWord_writeWord_of_apart _ _ _ (by omega),
    readWord_writeWord_of_apart _ _ _ (by omega), readWord_writeWord_self]

/-! ## The two blocks -/

/-- The raw block of the frame list. -/
def frameListBlock (raw : Word) : Block := ⟨raw.toNat, (trueBlockSize 4096#32 4096#32).toNat⟩

/-- The raw block of the queue head. -/
def queueHeadBlock (raw : Word) : Block := ⟨raw.toNat, (trueBlockSize 32#32 32#32).toNat⟩

/-- `platform_malloc` gave two blocks of the address space, apart. -/
structure Blocks (rawFrameList rawQueueHead : Word) : Prop where
  frameList : rawFrameList.toNat + (trueBlockSize 4096#32 4096#32).toNat ≤ 2 ^ 32
  queueHead : rawQueueHead.toNat + (trueBlockSize 32#32 32#32).toNat ≤ 2 ^ 32
  apart : (frameListBlock rawFrameList).Apart (queueHeadBlock rawQueueHead)

/-- The frame list in its block. -/
abbrev frameListOf (raw : Word) : Word := alignedAddress 4096#32 raw

/-- The queue head in its block. -/
abbrev queueHeadOf (raw : Word) : Word := alignedAddress 32#32 raw

/-- The frame list lies in what the queue head's initialization goes on to write. -/
def Neighbours (rawFrameList rawQueueHead : Word) : Prop :=
  (queueHeadOf rawQueueHead).toNat + 64 = (frameListOf rawFrameList).toNat

instance (rawFrameList rawQueueHead : Word) : Decidable (Neighbours rawFrameList rawQueueHead) := by
  unfold Neighbours
  infer_instance

section Lifetime

variable {rawFrameList rawQueueHead : Word}

/-- Where the two pointers lie, in numbers. -/
structure Layout (rawFrameList rawQueueHead : Word) : Prop where
  frameListAligned : 4096 ∣ (frameListOf rawFrameList).toNat
  frameListHeader : rawFrameList.toNat + 4 ≤ (frameListOf rawFrameList).toNat
  frameListInside : (frameListOf rawFrameList).toNat + 4096 ≤ rawFrameList.toNat + 8195
  frameListSpace : rawFrameList.toNat + 8195 ≤ 2 ^ 32
  queueHeadAligned : 32 ∣ (queueHeadOf rawQueueHead).toNat
  queueHeadHeader : rawQueueHead.toNat + 4 ≤ (queueHeadOf rawQueueHead).toNat
  queueHeadInside : (queueHeadOf rawQueueHead).toNat + 32 ≤ rawQueueHead.toNat + 67
  queueHeadSpace : rawQueueHead.toNat + 67 ≤ 2 ^ 32
  apart : rawFrameList.toNat + 8195 ≤ rawQueueHead.toNat ∨
    rawQueueHead.toNat + 67 ≤ rawFrameList.toNat

theorem Blocks.layout (h : Blocks rawFrameList rawQueueHead) :
    Layout rawFrameList rawQueueHead := by
  have hframeList := @owned_of_fits 4096#32 4096#32 _ (by decide) (by decide) h.frameList
  have hqueueHead := @owned_of_fits 32#32 32#32 _ (by decide) (by decide) h.queueHead
  exact
    { frameListAligned := hframeList.aligned
      frameListHeader := hframeList.header
      frameListInside := hframeList.inside
      frameListSpace := h.frameList
      queueHeadAligned := hqueueHead.aligned
      queueHeadHeader := hqueueHead.header
      queueHeadInside := hqueueHead.inside
      queueHeadSpace := h.queueHead
      apart := h.apart.before_or_after (Nat.succ_pos 8194) (Nat.succ_pos 66) }

/-- A pointer with room below it is not null. -/
theorem ne_zero_of_header {raw ptr : Word} (h : raw.toNat + 4 ≤ ptr.toNat) : ptr ≠ 0#32 := by
  rintro rfl
  rw [BitVec.toNat_ofNat] at h
  omega

/-- What is kept: the object has its two blocks, and the word below the frame list is
the raw pointer, or the zero that the queue head's initialization has left there. -/
structure Kept (rawFrameList rawQueueHead : Word) (w : World) : Prop where
  object : w.object = ⟨frameListOf rawFrameList, queueHeadOf rawQueueHead⟩
  frameList : readWord w.mem ((frameListOf rawFrameList).toNat - 4) =
    if Neighbours rawFrameList rawQueueHead then 0#32 else rawFrameList
  queueHead : readWord w.mem ((queueHeadOf rawQueueHead).toNat - 4) = rawQueueHead

/-- What the initialization of the queue head does to the word below the frame list. -/
theorem readWord_frameList_header (h : Layout rawFrameList rawQueueHead) (m : Memory) :
    readWord (putAll m (writesOf (initQueueHead (queueHeadOf rawQueueHead))))
        ((frameListOf rawFrameList).toNat - 4) =
      if Neighbours rawFrameList rawQueueHead then 0#32
      else readWord m ((frameListOf rawFrameList).toNat - 4) := by
  obtain ⟨hdvd, hlo, hhi, hspace, hdvd', hlo', hhi', hspace', hapart⟩ := h
  by_cases hnext : Neighbours rawFrameList rawQueueHead
  · rw [if_pos hnext]
    rw [Neighbours] at hnext
    have haddress : (frameListOf rawFrameList).toNat - 4 =
        (queueHeadOf rawQueueHead).toNat + 60 := by omega
    rw [haddress]
    exact @readWord_initQueueHead_60 m (queueHeadOf rawQueueHead) (by omega)
  · rw [if_neg hnext]
    rw [Neighbours] at hnext
    have hwrap : (queueHeadOf rawQueueHead).toNat + 68 ≤ 2 ^ 32 ∨
        36 ≤ (frameListOf rawFrameList).toNat - 4 := by omega
    have hout : (frameListOf rawFrameList).toNat - 4 + 4 ≤ (queueHeadOf rawQueueHead).toNat ∨
        (queueHeadOf rawQueueHead).toNat + 68 ≤ (frameListOf rawFrameList).toNat - 4 := by omega
    exact @readWord_initQueueHead m (queueHeadOf rawQueueHead) _ hwrap (by omega) hout

/-- And to the one below the queue head. -/
theorem readWord_queueHead_header (h : Layout rawFrameList rawQueueHead) (m : Memory) :
    readWord (putAll m (writesOf (initQueueHead (queueHeadOf rawQueueHead))))
        ((queueHeadOf rawQueueHead).toNat - 4) =
      readWord m ((queueHeadOf rawQueueHead).toNat - 4) := by
  obtain ⟨-, -, -, -, -, hlo, hhi, hspace, -⟩ := h
  have hwrap : (queueHeadOf rawQueueHead).toNat + 68 ≤ 2 ^ 32 ∨
      36 ≤ (queueHeadOf rawQueueHead).toNat - 4 := by omega
  exact @readWord_initQueueHead m (queueHeadOf rawQueueHead) _ hwrap (by omega) (.inl (by omega))

/-- What the first call was answered. -/
structure Answered (rawFrameList rawQueueHead : Word) (malloc malloc' : Word → Option Word) :
    Prop where
  frameList : malloc (trueBlockSize 4096#32 4096#32) = some rawFrameList
  queueHead : malloc' (trueBlockSize 32#32 32#32) = some rawQueueHead

/-- The first call. -/
theorem kept_first (h : Layout rawFrameList rawQueueHead) (mem : Memory)
    {malloc malloc' : Word → Option Word}
    (hanswered : Answered rawFrameList rawQueueHead malloc malloc') :
    Kept rawFrameList rawQueueHead ((World.constructed mem).allocate malloc malloc') := by
  have hframeList : (World.constructed mem).frameListOutcome malloc =
      ⟨some (frameListOf rawFrameList), some rawFrameList,
        writeWord mem ((frameListOf rawFrameList).toNat - 4) rawFrameList⟩ :=
    alignedAlloc_block (by decide) hanswered.frameList
  have hfilled : (World.constructed mem).frameListFilled malloc =
      putAll (writeWord mem ((frameListOf rawFrameList).toNat - 4) rawFrameList)
        (writesOf (initFrameList (frameListOf rawFrameList))) := by
    rw [World.frameListFilled, hframeList]
    rfl
  have hqueueHead : (World.constructed mem).queueHeadOutcome malloc malloc' =
      ⟨some (queueHeadOf rawQueueHead), some rawQueueHead,
        writeWord ((World.constructed mem).frameListFilled malloc)
          ((queueHeadOf rawQueueHead).toNat - 4) rawQueueHead⟩ :=
    alignedAlloc_block (by decide) hanswered.queueHead
  have hmem : ((World.constructed mem).allocate malloc malloc').mem =
      putAll (writeWord ((World.constructed mem).frameListFilled malloc)
          ((queueHeadOf rawQueueHead).toNat - 4) rawQueueHead)
        (writesOf (initQueueHead (queueHeadOf rawQueueHead))) := by
    rw [World.allocate, hqueueHead]
    rfl
  have hkept : readWord ((World.constructed mem).frameListFilled malloc)
      ((frameListOf rawFrameList).toNat - 4) = rawFrameList := by
    have hlo := h.frameListHeader
    have hhi := h.frameListInside
    have hspace := h.frameListSpace
    rw [hfilled, readWord_initFrameList _ (by omega) (.inl (by omega)), readWord_writeWord_self]
  refine ⟨?_, ?_, ?_⟩
  · rw [World.allocate, hframeList, hqueueHead]
    rfl
  · rw [hmem, readWord_frameList_header h, readWord_writeWord_of_apart, hkept]
    obtain ⟨-, hlo, hhi, -, -, hlo', hhi', -, hapart⟩ := h
    omega
  · rw [hmem, readWord_queueHead_header h, readWord_writeWord_self]

/-- Any later one: the pointers are there, and neither header is in what it writes. -/
theorem kept_allocate (h : Layout rawFrameList rawQueueHead) {w : World}
    (hkept : Kept rawFrameList rawQueueHead w) (malloc malloc' : Word → Option Word) :
    Kept rawFrameList rawQueueHead (w.allocate malloc malloc') := by
  have hframeList : w.frameListOutcome malloc =
      ⟨some (frameListOf rawFrameList), none, w.mem⟩ := by
    rw [World.frameListOutcome, hkept.object]
    exact if_neg (ne_zero_of_header h.frameListHeader)
  have hfilled : w.frameListFilled malloc =
      putAll w.mem (writesOf (initFrameList (frameListOf rawFrameList))) := by
    rw [World.frameListFilled, hframeList]
    rfl
  have hqueueHead : w.queueHeadOutcome malloc malloc' =
      ⟨some (queueHeadOf rawQueueHead), none, w.frameListFilled malloc⟩ := by
    rw [World.queueHeadOutcome, hkept.object]
    exact if_neg (ne_zero_of_header h.queueHeadHeader)
  have hmem : (w.allocate malloc malloc').mem =
      putAll (w.frameListFilled malloc) (writesOf (initQueueHead (queueHeadOf rawQueueHead))) := by
    rw [World.allocate, hqueueHead]
    rfl
  obtain ⟨-, hlo, hhi, hspace, -, hlo', hhi', -, hapart⟩ := id h
  refine ⟨?_, ?_, ?_⟩
  · rw [World.allocate, hframeList, hqueueHead]
    rfl
  · rw [hmem, readWord_frameList_header h, hfilled,
      readWord_initFrameList _ (by omega) (.inl (by omega)), hkept.frameList]
    split_ifs <;> rfl
  · rw [hmem, readWord_queueHead_header h, hfilled, readWord_initFrameList _ (by omega) (by omega)]
    exact hkept.queueHead

/-- What happens to the object and to memory before the destructor. -/
inductive Event where
  | allocate (malloc malloc' : Word → Option Word)
  | others (mem : Memory)

def World.step (w : World) : Event → World
  | .allocate malloc malloc' => w.allocate malloc malloc'
  | .others mem => { w with mem := mem }

/-- The words below the two pointers are the allocator's. -/
def World.Quiet (rawFrameList rawQueueHead : Word) (w : World) : Event → Prop
  | .allocate _ _ => True
  | .others mem =>
      (∀ x, (frameListOf rawFrameList).toNat - 4 ≤ x → x < (frameListOf rawFrameList).toNat →
        mem x = w.mem x) ∧
      ∀ x, (queueHeadOf rawQueueHead).toNat - 4 ≤ x → x < (queueHeadOf rawQueueHead).toNat →
        mem x = w.mem x

theorem kept_step (h : Layout rawFrameList rawQueueHead) (w : World) (e : Event)
    (hquiet : w.Quiet rawFrameList rawQueueHead e) (hkept : Kept rawFrameList rawQueueHead w) :
    Kept rawFrameList rawQueueHead (w.step e) := by
  cases e with
  | allocate malloc malloc' => exact kept_allocate h hkept malloc malloc'
  | others mem =>
      have hlo := h.frameListHeader
      have hlo' := h.queueHeadHeader
      refine ⟨hkept.object, ?_, ?_⟩
      · refine (readWord_congr fun x hle hlt => ?_).trans hkept.frameList
        exact hquiet.1 x hle (by omega)
      · refine (readWord_congr fun x hle hlt => ?_).trans hkept.queueHead
        exact hquiet.2 x hle (by omega)

/-- What the destructor frees. -/
theorem destroy_of_kept (h : Layout rawFrameList rawQueueHead) {w : World}
    (hkept : Kept rawFrameList rawQueueHead w) {freed : Memory}
    (hfreed : ∀ x, (queueHeadOf rawQueueHead).toNat - 4 ≤ x →
      x < (queueHeadOf rawQueueHead).toNat → freed x = w.mem x) :
    w.destroy freed =
      [if Neighbours rawFrameList rawQueueHead then 0#32 else rawFrameList, rawQueueHead] := by
  have hlo := h.queueHeadHeader
  have hframeList : alignedFree w.mem (frameListOf rawFrameList) =
      some (if Neighbours rawFrameList rawQueueHead then 0#32 else rawFrameList) :=
    (if_neg (ne_zero_of_header h.frameListHeader)).trans (congrArg some hkept.frameList)
  have hqueueHead : alignedFree freed (queueHeadOf rawQueueHead) = some rawQueueHead := by
    have hread : readWord freed ((queueHeadOf rawQueueHead).toNat - 4) = rawQueueHead :=
      (readWord_congr fun x hle hlt => hfreed x hle (by omega)).trans hkept.queueHead
    exact (if_neg (ne_zero_of_header h.queueHeadHeader)).trans (congrArg some hread)
  rw [World.destroy, hkept.object, if_neg (ne_zero_of_header h.frameListHeader),
    if_neg (ne_zero_of_header h.queueHeadHeader), hframeList, hqueueHead]
  rfl

end Lifetime

/-- The destructor after any number of calls of `allocate`: both blocks go back, unless
the frame list lies 64 bytes above the queue head; then `platform_free` gets null for
it, and its block is never given back. -/
theorem destroy_lifetime (mem : Memory) {rawFrameList rawQueueHead : Word}
    (hblocks : Blocks rawFrameList rawQueueHead) {malloc malloc' : Word → Option Word}
    (hanswered : Answered rawFrameList rawQueueHead malloc malloc') (events : List Event)
    (hquiet : Allowed World.step (World.Quiet rawFrameList rawQueueHead)
      ((World.constructed mem).allocate malloc malloc') events)
    {freed : Memory}
    (hfreed : ∀ x, (queueHeadOf rawQueueHead).toNat - 4 ≤ x →
      x < (queueHeadOf rawQueueHead).toNat →
      freed x = (run World.step ((World.constructed mem).allocate malloc malloc') events).mem x) :
    (run World.step ((World.constructed mem).allocate malloc malloc') events).destroy freed =
      [if Neighbours rawFrameList rawQueueHead then 0#32 else rawFrameList, rawQueueHead] :=
  destroy_of_kept hblocks.layout
    (run_invariant World.step (World.Quiet rawFrameList rawQueueHead)
      (kept_step hblocks.layout) events _ hquiet (kept_first hblocks.layout mem hanswered))
    hfreed

/-- An object whose blocks lie one after the other in the heap, and `allocate` called
once more. -/
def neighbouring : World :=
  run World.step
    ((World.constructed fun _ => 0#8).allocate (fun _ => some 0x1FFC#32)
      fun _ => some 0x1FB8#32)
    [.allocate (fun _ => none) fun _ => none]

/-- Its frame list is not given back. -/
theorem destroy_lifetime_neighbours :
    neighbouring.destroy neighbouring.mem = [0#32, 0x1FB8#32] := by
  have hblocks : Blocks 0x1FFC#32 0x1FB8#32 := by
    refine ⟨by decide, by decide, fun a ha hb => ?_⟩
    simp only [frameListBlock, queueHeadBlock, Block.Holds, trueBlockSize,
      BitVec.toNat_add, BitVec.toNat_sub, BitVec.toNat_ofNat] at ha hb
    omega
  have hneighbours : Neighbours 0x1FFC#32 0x1FB8#32 := by decide
  have hdestroy := destroy_lifetime (fun _ => 0#8) hblocks
    (⟨rfl, rfl⟩ : Answered _ _ (fun _ => some 0x1FFC#32) fun _ => some 0x1FB8#32)
    [.allocate (fun _ => none) fun _ => none] ⟨trivial, trivial⟩ fun _ _ _ => rfl
  rwa [if_pos hneighbours] at hdestroy

end NspireUtils.Ports.USBLifetime
