import NspireUtils.Verified.BitFields
import NspireUtils.Verified.ByteMemory
import NspireUtils.Verified.Runs

/-!
# `aligned_alloc` and `aligned_free`

The allocator of `mem/Alloc.cpp`.  It asks `platform_malloc` for a block with
room for the alignment and for one pointer, returns the aligned address in it,
and keeps the raw pointer in the word below that address, where `aligned_free`
finds it again.

`Heap.step` is a run of the allocator, its clients and the rest of the system on
one memory.  `platform_malloc` is the environment: each allocation carries the
answer it would give.  Every allocation keeps the serial number of its creation,
so that "released exactly once" is a statement about allocations and not about
addresses, which may be reused.

The invariant is `Heap.Invariant`, its step lemma `invariant_step`; the property
clients rely on is `sound_run`.
-/

namespace NspireUtils.Ports.Alloc

open NspireUtils.Verified.BitFields
open NspireUtils.Verified.ByteMemory
open NspireUtils.Verified.Runs

/-- `is_power_of_two_size_t`. -/
def isPowerOfTwoSizeT (x : Word) : Bool := x != 0 && (x &&& (x - 1)) == 0

/-- What a call of `aligned_alloc` leaves behind: its result, the local `rawPtr`
if `platform_malloc` was reached and gave a block, and memory. -/
structure AllocOutcome where
  result : Option Word
  rawPtr : Option Word
  mem : Memory

/-- `trueBlockSize` in `aligned_alloc`: room for the original pointer and to
align. -/
def trueBlockSize (alignment size : Word) : Word := size + alignment - 1#32 + 4#32

/-- The address `aligned_alloc` computes from the raw pointer. -/
def alignedAddress (alignment rawPtr : Word) : Word :=
  let start := rawPtr + 4#32
  (start + (alignment - 1#32)) &&& ~~~(alignment - 1#32)

/-- `aligned_alloc`, given what `platform_malloc` answers to a request. -/
def alignedAlloc (mem : Memory) (platformMalloc : Word → Option Word) (alignment size : Word) :
    AllocOutcome :=
  -- sanity checks
  if size = 0 then ⟨none, none, mem⟩
  else if !isPowerOfTwoSizeT alignment then ⟨none, none, mem⟩
  else if alignment < 4#32 then ⟨none, none, mem⟩
  else
    match platformMalloc (trueBlockSize alignment size) with
    | none => ⟨none, none, mem⟩
    | some rawPtr =>
        let aligned := alignedAddress alignment rawPtr
        -- store original pointer just before aligned address
        ⟨some aligned, some rawPtr, writeWord mem (aligned.toNat - 4) rawPtr⟩

/-- `aligned_free`: the pointer it passes to `platform_free`. -/
def alignedFree (mem : Memory) (ptr : Word) : Option Word :=
  if ptr = 0 then none else some (readWord mem (ptr.toNat - 4))

/-! ## The address computation -/

theorem isPowerOfTwoSizeT_iff (x : Word) :
    isPowerOfTwoSizeT x = true ↔ ∃ k, k < 32 ∧ x.toNat = 2 ^ k := by
  have hnat : isPowerOfTwoSizeT x = true ↔ x.toNat.isPowerOfTwo := by
    have hzero : x ≠ 0 ↔ x.toNat ≠ 0 := by
      rw [Ne, ← BitVec.toNat_inj]
      rfl
    have hpred : x.toNat ≠ 0 → (x - 1).toNat = x.toNat - 1 := by
      intro hx
      have hlt := x.isLt
      simp only [BitVec.toNat_sub, BitVec.ofNat_eq_ofNat, BitVec.toNat_ofNat]
      omega
    rw [← Nat.ne_zero_and_sub_one_eq_zero_iff_isPowerOfTwo, isPowerOfTwoSizeT, Bool.and_eq_true,
      bne_iff_ne, beq_iff_eq, hzero, ← BitVec.toNat_inj, BitVec.toNat_and]
    refine and_congr_right fun hx => ?_
    rw [hpred hx]
    rfl
  rw [hnat]
  constructor
  · rintro ⟨k, hk⟩
    refine ⟨k, ?_, hk⟩
    have hlt := x.isLt
    rw [hk] at hlt
    exact (Nat.pow_lt_pow_iff_right (by decide)).mp hlt
  · rintro ⟨k, -, hk⟩
    exact ⟨k, hk⟩

/-- The rounding of the computed address: without wrap-around it is the first
multiple of the alignment that leaves room for the pointer. -/
theorem alignedAddress_spec {alignment rawPtr : Word}
    (hpow : isPowerOfTwoSizeT alignment = true)
    (hfit : rawPtr.toNat + 4 + (alignment.toNat - 1) < 2 ^ 32) :
    alignment.toNat ∣ (alignedAddress alignment rawPtr).toNat ∧
      rawPtr.toNat + 4 ≤ (alignedAddress alignment rawPtr).toNat ∧
      (alignedAddress alignment rawPtr).toNat ≤ rawPtr.toNat + 4 + (alignment.toNat - 1) := by
  obtain ⟨k, hk, halign⟩ := (isPowerOfTwoSizeT_iff alignment).mp hpow
  have hpos : 0 < 2 ^ k := Nat.two_pow_pos k
  have hsum : (rawPtr + 4#32 + (alignment - 1#32)).toNat =
      rawPtr.toNat + 4 + (alignment.toNat - 1) := by
    simp only [BitVec.toNat_add, BitVec.toNat_sub, BitVec.toNat_ofNat]
    omega
  have hround : (alignedAddress alignment rawPtr).toNat =
      (rawPtr.toNat + 4 + (2 ^ k - 1)) / 2 ^ k * 2 ^ k := by
    rw [alignedAddress, toNat_and_high _ _ k (by omega) (not_pred_two_pow halign), hsum, halign]
  have hdiv := Nat.div_add_mod (rawPtr.toNat + 4 + (2 ^ k - 1)) (2 ^ k)
  have hmod := Nat.mod_lt (rawPtr.toNat + 4 + (2 ^ k - 1)) hpos
  rw [Nat.mul_comm] at hdiv
  rw [hround, halign]
  refine ⟨Nat.dvd_mul_left _ _, ?_, ?_⟩ <;> omega

/-- The request without wrap-around. -/
theorem toNat_trueBlockSize {alignment size : Word} (hpos : 0 < size.toNat)
    (hfit : size.toNat + alignment.toNat + 3 < 2 ^ 32) :
    (trueBlockSize alignment size).toNat = size.toNat + alignment.toNat + 3 := by
  simp only [trueBlockSize, BitVec.toNat_add, BitVec.toNat_sub, BitVec.toNat_ofNat]
  omega

/-- A call that returned memory: its arguments passed the checks, and
`platform_malloc` gave the raw block. -/
theorem alignedAlloc_some {mem : Memory} {platformMalloc : Word → Option Word}
    {alignment size : Word} {ptr : Word}
    (h : (alignedAlloc mem platformMalloc alignment size).result = some ptr) :
    0 < size.toNat ∧ 4 ≤ alignment.toNat ∧ isPowerOfTwoSizeT alignment = true ∧
      ∃ rawPtr, platformMalloc (trueBlockSize alignment size) = some rawPtr ∧
        ptr = alignedAddress alignment rawPtr ∧
        (alignedAlloc mem platformMalloc alignment size).rawPtr = some rawPtr ∧
        (alignedAlloc mem platformMalloc alignment size).mem =
          writeWord mem (ptr.toNat - 4) rawPtr := by
  revert h
  unfold alignedAlloc
  split_ifs with hsize hpow hmin
  · simp
  · simp
  · simp
  · have hpos : 0 < size.toNat :=
      Nat.pos_of_ne_zero fun hzero => hsize (BitVec.eq_of_toNat_eq hzero)
    cases hanswer : platformMalloc (trueBlockSize alignment size) with
    | none => simp
    | some rawPtr =>
        intro h
        obtain rfl := Option.some.inj h
        exact ⟨hpos, BitVec.le_def.mp (BitVec.not_lt.mp hmin), by simpa using hpow,
          rawPtr, rfl, rfl, rfl, rfl⟩

/-- A call that returned null left memory alone. -/
theorem alignedAlloc_none {mem : Memory} {platformMalloc : Word → Option Word}
    {alignment size : Word}
    (h : (alignedAlloc mem platformMalloc alignment size).result = none) :
    (alignedAlloc mem platformMalloc alignment size).mem = mem := by
  revert h
  unfold alignedAlloc
  split_ifs
  · exact fun _ => rfl
  · exact fun _ => rfl
  · exact fun _ => rfl
  · cases platformMalloc (trueBlockSize alignment size) with
    | none => exact fun _ => rfl
    | some rawPtr => simp

/-! ## Runs of the allocator and its clients -/

/-- A successful allocation: what was asked, what was returned, and the block
behind it. -/
structure Allocation where
  serial : Nat
  alignment : Word
  size : Word
  ptr : Word
  rawPtr : Word
  deriving Repr, DecidableEq

namespace Allocation

/-- The bytes the client asked for. -/
def requested (a : Allocation) : Block := ⟨a.ptr.toNat, a.size.toNat⟩

/-- The block `platform_malloc` gave. -/
def rawBlock (a : Allocation) : Block := ⟨a.rawPtr.toNat, (trueBlockSize a.alignment a.size).toNat⟩

/-- The address is right: aligned, with room for the pointer below it and for
the request above it. -/
structure Placed (a : Allocation) : Prop where
  aligned : a.alignment.toNat ∣ a.ptr.toNat
  header : a.rawPtr.toNat + 4 ≤ a.ptr.toNat
  inside : a.ptr.toNat + a.size.toNat ≤ a.rawBlock.start + a.rawBlock.size
  nonempty : 0 < a.size.toNat

theorem Placed.requested_inside {a : Allocation} (h : a.Placed) {x : Nat}
    (hx : a.requested.Holds x) : a.rawBlock.Holds x := by
  have hheader := h.header
  have hinside := h.inside
  simp only [Block.Holds, requested] at hx
  simp only [rawBlock, Block.Holds] at hinside ⊢
  omega

theorem Placed.header_inside {a : Allocation} (h : a.Placed) {x : Nat}
    (hlo : a.ptr.toNat - 4 ≤ x) (hhi : x < a.ptr.toNat - 4 + 4) : a.rawBlock.Holds x := by
  have hheader := h.header
  have hinside := h.inside
  simp only [rawBlock, Block.Holds] at hinside ⊢
  omega

end Allocation

/-- A release: the pointer `aligned_free` passed to `platform_free`, and the
live allocation the client named. -/
structure Release where
  passed : Word
  allocation : Option Allocation
  deriving Repr, DecidableEq

/-- Memory, the allocations made so far and alive, and the releases so far. -/
structure Heap where
  mem : Memory
  created : List Allocation
  live : List Allocation
  releases : List Release

/-- One step of a client, of the allocator, or of the rest of the system. -/
inductive Action where
  | alloc (alignment size : Word) (platformMalloc : Word → Option Word)
  | clientWrite (address : Nat) (value : Byte)
  | otherWrite (address : Nat) (value : Byte)
  | free (ptr : Word)

namespace Heap

/-- No allocation yet. -/
def initial (mem : Memory) : Heap := ⟨mem, [], [], []⟩

/-- One step. -/
def step (h : Heap) : Action → Heap
  | .alloc alignment size platformMalloc =>
      let outcome := alignedAlloc h.mem platformMalloc alignment size
      match outcome.result, outcome.rawPtr with
      | some ptr, some rawPtr =>
          let a : Allocation := { serial := h.created.length, alignment, size, ptr, rawPtr }
          { h with mem := outcome.mem, created := a :: h.created, live := a :: h.live }
      | _, _ => { h with mem := outcome.mem }
  | .clientWrite address value => { h with mem := Function.update h.mem address value }
  | .otherWrite address value => { h with mem := Function.update h.mem address value }
  | .free ptr =>
      -- the client gives the pointer up, whatever becomes of the raw block
      let live := h.live.eraseP (·.ptr = ptr)
      match alignedFree h.mem ptr with
      | none => { h with live }
      | some passed =>
          { h with
            live
            releases := ⟨passed, h.live.find? (·.ptr = ptr)⟩ :: h.releases }

/-- What `platform_malloc` and the clients promise: a block given is in the
address space and disjoint from the live ones, clients write the bytes they
asked for, the rest of the system writes outside the live blocks, and only live
pointers are freed. -/
def Legal (h : Heap) : Action → Prop
  | .alloc alignment size platformMalloc =>
      size.toNat + alignment.toNat + 3 < 2 ^ 32 ∧
        ∀ rawPtr, platformMalloc (trueBlockSize alignment size) = some rawPtr →
          rawPtr.toNat + (trueBlockSize alignment size).toNat ≤ 2 ^ 32 ∧
            ∀ a ∈ h.live,
              (Block.mk rawPtr.toNat (trueBlockSize alignment size).toNat).Apart a.rawBlock
  | .clientWrite address _ => ∃ a ∈ h.live, a.requested.Holds address
  | .otherWrite address _ => ∀ a ∈ h.live, ¬ a.rawBlock.Holds address
  | .free ptr => ∃ a ∈ h.live, a.ptr = ptr

/-- How often the allocation was released. -/
def timesReleased (h : Heap) (a : Allocation) : Nat := (h.releases.filterMap (·.allocation)).count a

/-- What the allocator owes its clients. -/
structure Sound (h : Heap) : Prop where
  aligned : ∀ a ∈ h.created, a.alignment.toNat ∣ a.ptr.toNat
  inside : ∀ a ∈ h.live, ∀ x, a.requested.Holds x → a.rawBlock.Holds x
  disjoint : ∀ a ∈ h.live, ∀ b ∈ h.live, a ≠ b → a.requested.Apart b.requested
  header : ∀ a ∈ h.live, readWord h.mem (a.ptr.toNat - 4) = a.rawPtr
  passedRaw : ∀ r ∈ h.releases, ∃ a ∈ h.created, r.allocation = some a ∧ r.passed = a.rawPtr
  releasedOnce : ∀ a ∈ h.created, h.timesReleased a = if a ∈ h.live then 0 else 1

/-- Freeing `ptr` takes one allocation out of the live ones, and its raw pointer, and
nothing else, was passed to `platform_free`. -/
def Freed (ptr : Word) (h h' : Heap) : Prop :=
  ∃ a ∈ h.live, a.ptr = ptr ∧ h'.releases = ⟨a.rawPtr, some a⟩ :: h.releases ∧
    h'.live = h.live.erase a ∧ a ∉ h'.live

/-- Every `aligned_free` of the run does. -/
def FreesEach (h : Heap) (actions : List Action) : Prop :=
  ∀ before ptr after, actions = before ++ .free ptr :: after →
    Freed ptr (run step h before) (run step h (before ++ [.free ptr]))

/-- What every step keeps. -/
structure Invariant (h : Heap) : Prop where
  placed : ∀ a ∈ h.created, a.Placed
  serials : ∀ a ∈ h.created, a.serial < h.created.length
  distinct : h.created.Nodup
  apart : ∀ a ∈ h.live, ∀ b ∈ h.live, a ≠ b → a.rawBlock.Apart b.rawBlock
  header : ∀ a ∈ h.live, readWord h.mem (a.ptr.toNat - 4) = a.rawPtr
  passedRaw : ∀ r ∈ h.releases, ∃ a ∈ h.created, r.allocation = some a ∧ r.passed = a.rawPtr
  balance : h.created.Perm (h.releases.filterMap (·.allocation) ++ h.live)

theorem invariant_initial (mem : Memory) : (initial mem).Invariant :=
  ⟨by simp [initial], by simp [initial], by simp [initial], by simp [initial],
    by simp [initial], by simp [initial], by simp [initial]⟩

section Step

variable {h : Heap} (inv : h.Invariant)
include inv

theorem created_of_live {a : Allocation} (ha : a ∈ h.live) : a ∈ h.created :=
  inv.balance.mem_iff.mpr (List.mem_append_right _ ha)

/-- A byte outside every header of a live allocation may change. -/
theorem invariant_write (address : Nat) (value : Byte)
    (hout : ∀ a ∈ h.live, address < a.ptr.toNat - 4 ∨ a.ptr.toNat - 4 + 4 ≤ address) :
    Invariant { h with mem := Function.update h.mem address value } :=
  { inv with
    header := fun a ha => by
      rw [← inv.header a ha]
      refine readWord_congr fun x hlo hhi => Function.update_of_ne ?_ _ _
      have hmiss := hout a ha
      omega }

/-- The header of one live allocation lies outside the block of every other, and
below the bytes of its own. -/
theorem header_apart {a b : Allocation} (ha : a ∈ h.live) (hb : b ∈ h.live) {x : Nat}
    (hx : b.requested.Holds x) : x < a.ptr.toNat - 4 ∨ a.ptr.toNat - 4 + 4 ≤ x := by
  have hplaced := inv.placed a (created_of_live inv ha)
  by_cases hab : a = b
  · subst hab
    have hheader := hplaced.header
    simp only [Block.Holds, Allocation.requested] at hx
    omega
  · by_contra hcon
    exact inv.apart a ha b hb hab x (hplaced.header_inside (by omega) (by omega))
      ((inv.placed b (created_of_live inv hb)).requested_inside hx)

theorem invariant_alloc {alignment size : Word} {platformMalloc : Word → Option Word}
    (hlegal : h.Legal (.alloc alignment size platformMalloc)) :
    (h.step (.alloc alignment size platformMalloc)).Invariant := by
  obtain ⟨hfit, hblock⟩ := hlegal
  cases hres : (alignedAlloc h.mem platformMalloc alignment size).result with
  | none =>
      have hsame : h.step (.alloc alignment size platformMalloc) = h := by
        simp only [step, hres, alignedAlloc_none hres]
      rw [hsame]
      exact inv
  | some ptr =>
      obtain ⟨hsize, hmin, hpow, rawPtr, hanswer, hptr, hraw, hmem⟩ := alignedAlloc_some hres
      obtain ⟨hend, hfresh⟩ := hblock rawPtr hanswer
      have hstep : h.step (.alloc alignment size platformMalloc) =
          { h with
            mem := writeWord h.mem (ptr.toNat - 4) rawPtr
            created := ⟨h.created.length, alignment, size, ptr, rawPtr⟩ :: h.created
            live := ⟨h.created.length, alignment, size, ptr, rawPtr⟩ :: h.live } := by
        simp only [step, hres, hraw, hmem]
      generalize ha : (⟨h.created.length, alignment, size, ptr, rawPtr⟩ : Allocation) = a at hstep
      have haptr : a.ptr = ptr := by rw [← ha]
      have hnew : a.Placed := by
        subst ha
        have htrue := toNat_trueBlockSize hsize hfit
        rw [htrue] at hend
        obtain ⟨hdvd, hlo, hhi⟩ := @alignedAddress_spec alignment rawPtr hpow (by omega)
        rw [← hptr] at hdvd hlo hhi
        refine ⟨hdvd, hlo, ?_, hsize⟩
        simp only [Allocation.rawBlock, htrue]
        omega
      have hfresh' : ∀ b ∈ h.live, a.rawBlock.Apart b.rawBlock := by
        subst ha
        exact hfresh
      have hunused : a ∉ h.created := fun hmem => by
        have hlt := inv.serials a hmem
        rw [← ha] at hlt
        exact absurd hlt (Nat.lt_irrefl _)
      rw [hstep]
      refine
        { placed := List.forall_mem_cons.mpr ⟨hnew, inv.placed⟩
          serials := List.forall_mem_cons.mpr ⟨by rw [← ha]; simp, fun b hb => ?_⟩
          distinct := List.nodup_cons.mpr ⟨hunused, inv.distinct⟩
          apart := fun b hb c hc hbc => ?_
          header := List.forall_mem_cons.mpr ⟨?_, fun b hb => ?_⟩
          passedRaw := fun r hr => ?_
          balance := (inv.balance.cons a).trans List.perm_middle.symm }
      · have hlt := inv.serials b hb
        simp only [List.length_cons]
        omega
      · rcases List.mem_cons.mp hb with rfl | hb' <;> rcases List.mem_cons.mp hc with rfl | hc'
        · exact absurd rfl hbc
        · exact hfresh' c hc'
        · exact (hfresh' b hb').symm
        · exact inv.apart b hb' c hc' hbc
      · rw [haptr, ← ha]
        exact readWord_writeWord_self _ _ _
      · -- an older header lies in its own block, the new one in the new block
        rw [← inv.header b hb]
        refine readWord_congr fun x hlo hhi => writeWord_of_outside _ _ _ ?_
        have hb' := inv.placed b (created_of_live inv hb)
        have hmiss := hfresh' b hb x
        by_contra hcon
        exact hmiss (hnew.header_inside (by rw [haptr]; omega) (by rw [haptr]; omega))
          (hb'.header_inside hlo hhi)
      · obtain ⟨b, hb, hr'⟩ := inv.passedRaw r hr
        exact ⟨b, List.mem_cons_of_mem _ hb, hr'⟩

theorem nodup_live : h.live.Nodup := (inv.balance.nodup_iff.mp inv.distinct).of_append_right

/-- The word below a live pointer is the raw pointer of the allocation, and both that
`aligned_free` and its client mean this one. -/
theorem step_free {ptr : Word} (hlegal : h.Legal (.free ptr)) :
    ∃ b ∈ h.live, b.ptr = ptr ∧ h.step (.free ptr) =
      { h with live := h.live.erase b, releases := ⟨b.rawPtr, some b⟩ :: h.releases } := by
  obtain ⟨a, ha, hptr⟩ := hlegal
  obtain ⟨b, before, after, hbefore, hbptr, hlive, herase⟩ :=
    List.exists_of_eraseP (p := fun x => decide (x.ptr = ptr)) ha (by simpa using hptr)
  have hb : b ∈ h.live := by simp [hlive]
  have hfind : h.live.find? (·.ptr = ptr) = some b :=
    List.find?_eq_some_iff_append.mpr ⟨hbptr, before, after, hlive, by simpa using hbefore⟩
  have hsame : h.live.eraseP (·.ptr = ptr) = h.live.erase b := by
    rw [herase, hlive, List.erase_append_right _ fun hmem => hbefore b hmem hbptr,
      List.erase_cons_head]
  replace hbptr : b.ptr = ptr := by simpa using hbptr
  have hfree : alignedFree h.mem ptr = some b.rawPtr := by
    have hne : ptr ≠ 0 := by
      rintro rfl
      have hheader := (inv.placed b (created_of_live inv hb)).header
      rw [hbptr] at hheader
      simp at hheader
    rw [alignedFree, if_neg hne, ← inv.header b hb, hbptr]
  exact ⟨b, hb, hbptr, by simp only [step, hfree, hfind, hsame]⟩

theorem freed_step {ptr : Word} (hlegal : h.Legal (.free ptr)) :
    Freed ptr h (h.step (.free ptr)) := by
  obtain ⟨b, hb, hbptr, hstep⟩ := step_free inv hlegal
  rw [hstep]
  exact ⟨b, hb, hbptr, rfl, rfl, fun hmem => (nodup_live inv).mem_erase_iff.mp hmem |>.1 rfl⟩

theorem invariant_free {ptr : Word} (hlegal : h.Legal (.free ptr)) :
    (h.step (.free ptr)).Invariant := by
  obtain ⟨b, hb, -, hstep⟩ := step_free inv hlegal
  rw [hstep]
  refine
    { inv with
      apart := fun c hc d hd =>
        inv.apart c (List.mem_of_mem_erase hc) d (List.mem_of_mem_erase hd)
      header := fun c hc => inv.header c (List.mem_of_mem_erase hc)
      passedRaw := List.forall_mem_cons.mpr
        ⟨⟨b, created_of_live inv hb, rfl, rfl⟩, inv.passedRaw⟩
      balance := ?_ }
  calc h.created.Perm (h.releases.filterMap (·.allocation) ++ h.live) := inv.balance
    _ |>.Perm (h.releases.filterMap (·.allocation) ++ b :: h.live.erase b) :=
      (List.perm_cons_erase hb).append_left _
    _ |>.Perm (b :: (h.releases.filterMap (·.allocation) ++ h.live.erase b)) := List.perm_middle

/-- The invariant is what clients rely on. -/
theorem sound_of_invariant : h.Sound := by
  refine
    { aligned := fun a ha => (inv.placed a ha).aligned
      inside := fun a ha x hx => (inv.placed a (created_of_live inv ha)).requested_inside hx
      disjoint := fun a ha b hb hab x hx hx' => ?_
      header := inv.header
      passedRaw := inv.passedRaw
      releasedOnce := fun a ha => ?_ }
  · exact inv.apart a ha b hb hab x
      ((inv.placed a (created_of_live inv ha)).requested_inside hx)
      ((inv.placed b (created_of_live inv hb)).requested_inside hx')
  · have hlive := nodup_live inv
    have hone := List.count_eq_one_of_mem inv.distinct ha
    rw [inv.balance.count_eq, List.count_append] at hone
    rw [timesReleased]
    split_ifs with hmem
    · have hcount := List.count_eq_one_of_mem hlive hmem
      omega
    · have hcount := List.count_eq_zero_of_not_mem hmem
      omega

end Step

/-- Every step keeps the invariant. -/
theorem invariant_step (h : Heap) (action : Action) (hlegal : h.Legal action)
    (inv : h.Invariant) : (h.step action).Invariant := by
  cases action with
  | alloc alignment size platformMalloc => exact invariant_alloc inv hlegal
  | clientWrite address value =>
      obtain ⟨b, hb, hin⟩ := hlegal
      exact invariant_write inv address value fun a ha => header_apart inv ha hb hin
  | otherWrite address value =>
      refine invariant_write inv address value fun a ha => ?_
      by_contra hcon
      exact hlegal a ha
        ((inv.placed a (created_of_live inv ha)).header_inside (by omega) (by omega))
  | free ptr => exact invariant_free inv hlegal

/-- **The allocator is sound over whole runs.**  Whatever `platform_malloc`
answers and in whatever order memory is allocated, written and freed, results
are aligned, live requests are disjoint and inside their own blocks, the hidden
pointers survive, each release passes the raw pointer of its allocation, and an
allocation has been released once if it is no longer live and not at all if it
is.  Every `aligned_free` of the run ends one allocation and releases its block. -/
theorem sound_run (mem : Memory) (actions : List Action)
    (hlegal : Allowed step Legal (initial mem) actions) :
    (run step (initial mem) actions).Sound ∧ FreesEach (initial mem) actions := by
  have hrun := run_invariant step Legal invariant_step
  refine ⟨sound_of_invariant (hrun actions _ hlegal (invariant_initial mem)), ?_⟩
  rintro before ptr after rfl
  obtain ⟨hbefore, hfree, -⟩ := (allowed_append step Legal before _ _).mp hlegal
  rw [run_append]
  exact freed_step (hrun before _ hbefore (invariant_initial mem)) hfree

/-- The raw pointer `0x1001` leaves slack below and above the aligned address
`0x1010`; the client fills its first byte and frees it. -/
theorem sound_run_slack :
    (run step (initial fun _ => 0)
      [ .alloc 16#32 100#32 (fun _ => some 0x1001#32), .clientWrite 0x1010 0xFF#8
      , .free 0x1010#32 ]).Sound ∧
    FreesEach (initial fun _ => 0)
      [ .alloc 16#32 100#32 (fun _ => some 0x1001#32), .clientWrite 0x1010 0xFF#8
      , .free 0x1010#32 ] := by
  have hlive : (step (initial fun _ => 0) (.alloc 16#32 100#32 fun _ => some 0x1001#32)).live =
      [⟨0, 16#32, 100#32, 0x1010#32, 0x1001#32⟩] := rfl
  refine sound_run _ _ ⟨⟨by decide, ?_⟩, ⟨_, hlive ▸ List.mem_singleton_self _, by decide⟩,
    ⟨_, hlive ▸ List.mem_singleton_self _, rfl⟩, trivial⟩
  intro rawPtr hanswer
  obtain rfl : 0x1001#32 = rawPtr := Option.some.inj hanswer
  exact ⟨by decide, by simp [initial]⟩

end Heap

end NspireUtils.Ports.Alloc
