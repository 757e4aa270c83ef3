import NspireUtils.Ports.Alloc

/-!
# The bounds of an allocation

`aligned_alloc` pads the request by the alignment and a pointer, in 32 bits, and none of
its checks looks at the sum.  `owned_iff` says for which arguments it never hands out
memory it does not own.

`Allocator` asks it for arrays.  It has a check for the product of count and item size,
but `aligned_alloc` rejects the alignments 1 and 2, and the padding may still wrap:
`adequate_iff`.
-/

namespace NspireUtils.Ports.AllocBounds

open NspireUtils.Verified.ByteMemory
open NspireUtils.Ports.Alloc

/-- The arguments pass the checks of `aligned_alloc`. -/
def Accepted (alignment size : Word) : Prop :=
  size ≠ 0 ∧ isPowerOfTwoSizeT alignment = true ∧ 4 ≤ alignment.toNat

instance (alignment size : Word) : Decidable (Accepted alignment size) := by
  unfold Accepted
  infer_instance

/-- What `platform_malloc` promises for a request: null, or a block in the address
space. -/
def Answers (request : Word) (answer : Option Word) : Prop :=
  ∀ rawPtr, answer = some rawPtr → rawPtr ≠ 0 ∧ rawPtr.toNat + request.toNat ≤ 2 ^ 32

/-- The pointer is aligned, the header below it and the bytes above it lie in the raw
block, and neither the request nor the rounding wrapped. -/
structure Owned (alignment size rawPtr ptr : Word) : Prop where
  aligned : alignment.toNat ∣ ptr.toNat
  header : rawPtr.toNat + 4 ≤ ptr.toNat
  inside : ptr.toNat + size.toNat ≤ rawPtr.toNat + (trueBlockSize alignment size).toNat
  request : size.toNat + alignment.toNat + 3 < 2 ^ 32
  rounding : rawPtr.toNat + 4 + (alignment.toNat - 1) < 2 ^ 32

/-! ## `aligned_alloc` -/

section AlignedAlloc

variable {mem : Memory} {platformMalloc : Word → Option Word} {alignment size rawPtr : Word}

theorem alignedAlloc_of_not_accepted (h : ¬ Accepted alignment size) :
    (alignedAlloc mem platformMalloc alignment size).result = none := by
  cases hresult : (alignedAlloc mem platformMalloc alignment size).result with
  | none => rfl
  | some ptr =>
      obtain ⟨hsize, hmin, hpow, -⟩ := alignedAlloc_some hresult
      refine absurd ⟨fun hzero => ?_, hpow, hmin⟩ h
      rw [hzero] at hsize
      exact absurd hsize (by decide)

/-- Past the checks, `platform_malloc` decides. -/
theorem alignedAlloc_of_accepted (h : Accepted alignment size) :
    alignedAlloc mem platformMalloc alignment size =
      match platformMalloc (trueBlockSize alignment size) with
      | none => ⟨none, none, mem⟩
      | some rawPtr =>
          ⟨some (alignedAddress alignment rawPtr), some rawPtr,
            writeWord mem ((alignedAddress alignment rawPtr).toNat - 4) rawPtr⟩ := by
  obtain ⟨hsize, hpow, hmin⟩ := h
  have hlt : ¬ alignment < 4#32 := by
    rw [BitVec.lt_def]
    exact Nat.not_lt.mpr hmin
  have hpower : ¬ (!isPowerOfTwoSizeT alignment) = true := by rw [hpow]; decide
  exact (if_neg hsize).trans ((if_neg hpower).trans (if_neg hlt))

theorem alignedAlloc_null (h : Accepted alignment size)
    (hnull : platformMalloc (trueBlockSize alignment size) = none) :
    alignedAlloc mem platformMalloc alignment size = ⟨none, none, mem⟩ := by
  rw [alignedAlloc_of_accepted h, hnull]

theorem alignedAlloc_block (h : Accepted alignment size)
    (hblock : platformMalloc (trueBlockSize alignment size) = some rawPtr) :
    alignedAlloc mem platformMalloc alignment size =
      ⟨some (alignedAddress alignment rawPtr), some rawPtr,
        writeWord mem ((alignedAddress alignment rawPtr).toNat - 4) rawPtr⟩ := by
  rw [alignedAlloc_of_accepted h, hblock]

theorem Accepted.size_pos (h : Accepted alignment size) : 0 < size.toNat :=
  Nat.pos_of_ne_zero fun hzero => h.1 (BitVec.eq_of_toNat_eq hzero)

/-- If the request does not wrap, nothing does. -/
theorem owned_of_fits (h : Accepted alignment size)
    (hfits : size.toNat + alignment.toNat + 3 < 2 ^ 32)
    (hend : rawPtr.toNat + (trueBlockSize alignment size).toNat ≤ 2 ^ 32) :
    Owned alignment size rawPtr (alignedAddress alignment rawPtr) := by
  have hpos := h.size_pos
  have hmin := h.2.2
  have hrequest := toNat_trueBlockSize hpos hfits
  rw [hrequest] at hend
  have hrounding : rawPtr.toNat + 4 + (alignment.toNat - 1) < 2 ^ 32 := by omega
  obtain ⟨hdvd, hlo, hhi⟩ := alignedAddress_spec h.2.1 hrounding
  refine ⟨hdvd, hlo, ?_, hfits, hrounding⟩
  rw [hrequest]
  omega

/-- If it wraps, the block is shorter than what was asked for. -/
theorem trueBlockSize_lt_of_wraps (h : Accepted alignment size)
    (hwraps : 2 ^ 32 ≤ size.toNat + alignment.toNat + 3) :
    (trueBlockSize alignment size).toNat < size.toNat := by
  obtain ⟨k, hk, halign⟩ := (isPowerOfTwoSizeT_iff alignment).mp h.2.1
  have hmax : alignment.toNat ≤ 2 ^ 31 := by
    rw [halign]
    exact Nat.pow_le_pow_right (by decide) (by omega)
  have hsize := size.isLt
  simp only [trueBlockSize, BitVec.toNat_add, BitVec.toNat_sub, BitVec.toNat_ofNat]
  omega

/-- No block is long enough then. -/
theorem not_inside_of_wraps {ptr : Word} (h : Accepted alignment size)
    (hwraps : 2 ^ 32 ≤ size.toNat + alignment.toNat + 3) (hheader : rawPtr.toNat + 4 ≤ ptr.toNat) :
    rawPtr.toNat + (trueBlockSize alignment size).toNat < ptr.toNat + size.toNat := by
  have hshort := trueBlockSize_lt_of_wraps h hwraps
  omega

end AlignedAlloc

/-- A `platform_malloc` that has a block at 4, if it is not too long. -/
def lowBlock (request : Word) : Option Word :=
  if request.toNat + 4 ≤ 2 ^ 32 then some 4#32 else none

theorem answers_lowBlock (request : Word) : Answers request (lowBlock request) := by
  intro rawPtr hraw
  unfold lowBlock at hraw
  split_ifs at hraw with hfits
  obtain rfl := Option.some.inj hraw
  exact ⟨by decide, by rw [Nat.add_comm]; exact hfits⟩

/-- A request that wrapped fits there. -/
theorem lowBlock_of_wraps {alignment size : Word} (h : Accepted alignment size)
    (hwraps : 2 ^ 32 ≤ size.toNat + alignment.toNat + 3) :
    lowBlock (trueBlockSize alignment size) = some 4#32 := by
  have hshort := trueBlockSize_lt_of_wraps h hwraps
  have hsize := size.isLt
  obtain ⟨k, hk, halign⟩ := (isPowerOfTwoSizeT_iff alignment).mp h.2.1
  have hmax : alignment.toNat ≤ 2 ^ 31 := by
    rw [halign]
    exact Nat.pow_le_pow_right (by decide) (by omega)
  apply if_pos
  simp only [trueBlockSize, BitVec.toNat_add, BitVec.toNat_sub, BitVec.toNat_ofNat] at hshort ⊢
  omega

/-- The pointer into it is not null. -/
theorem header_lowBlock {alignment : Word} (hpow : isPowerOfTwoSizeT alignment = true) :
    (4#32 : Word).toNat + 4 ≤ (alignedAddress alignment 4#32).toNat := by
  obtain ⟨k, hk, halign⟩ := (isPowerOfTwoSizeT_iff alignment).mp hpow
  have hmax : alignment.toNat ≤ 2 ^ 31 := by
    rw [halign]
    exact Nat.pow_le_pow_right (by decide) (by omega)
  have hfour : (4#32 : Word).toNat = 4 := rfl
  exact (alignedAddress_spec hpow (by rw [hfour]; omega)).2.1

/-- **What `aligned_alloc` owns.**  For every block `platform_malloc` may give, the
pointer is good, if and only if the arguments are rejected or the padded request is
less than `2 ^ 32`. -/
theorem owned_iff (alignment size : Word) :
    (∀ (mem : Memory) (platformMalloc : Word → Option Word),
      (∀ request, Answers request (platformMalloc request)) →
      ∀ ptr, (alignedAlloc mem platformMalloc alignment size).result = some ptr → ptr ≠ 0 →
        ∃ rawPtr, platformMalloc (trueBlockSize alignment size) = some rawPtr ∧
          Owned alignment size rawPtr ptr) ↔
      (Accepted alignment size → size.toNat + alignment.toNat + 3 < 2 ^ 32) := by
  constructor
  · intro h haccepted
    by_contra hwraps
    have hwraps : 2 ^ 32 ≤ size.toNat + alignment.toNat + 3 := by omega
    have hraw := lowBlock_of_wraps haccepted hwraps
    have hheader := header_lowBlock haccepted.2.1
    have hresult := congrArg AllocOutcome.result
      (@alignedAlloc_block (fun _ => 0) lowBlock alignment size 4#32 haccepted hraw)
    have hne : alignedAddress alignment 4#32 ≠ 0 := by
      intro hzero
      rw [hzero] at hheader
      exact absurd hheader (by decide)
    obtain ⟨rawPtr, hanswer, howned⟩ := h _ lowBlock answers_lowBlock _ hresult hne
    obtain rfl := Option.some.inj (hraw.symm.trans hanswer)
    have hlong := not_inside_of_wraps haccepted hwraps hheader
    exact absurd howned.inside (Nat.not_le.mpr hlong)
  · intro hfits mem platformMalloc hanswers ptr hresult _
    by_cases haccepted : Accepted alignment size
    · obtain ⟨-, -, -, rawPtr, hanswer, rfl, -, -⟩ := alignedAlloc_some hresult
      have hend := (hanswers _ rawPtr hanswer).2
      exact ⟨rawPtr, hanswer, owned_of_fits haccepted (hfits haccepted) hend⟩
    · rw [alignedAlloc_of_not_accepted haccepted] at hresult
      exact absurd hresult (by simp)

/-- Almost 4 GB asked for, three bytes given. -/
theorem three_bytes_given :
    ¬ ∀ (alignment size : Word) (mem : Memory) (platformMalloc : Word → Option Word),
      (∀ request, Answers request (platformMalloc request)) →
      ∀ ptr, (alignedAlloc mem platformMalloc alignment size).result = some ptr → ptr ≠ 0 →
        ∃ rawPtr, platformMalloc (trueBlockSize alignment size) = some rawPtr ∧
          Owned alignment size rawPtr ptr := by
  intro hall
  obtain ⟨rawPtr, hanswer, howned⟩ := hall 4#32 0xFFFFFFFC#32 (fun _ => 0) lowBlock
    answers_lowBlock 8#32 rfl (by decide)
  obtain rfl : 4#32 = rawPtr := Option.some.inj hanswer
  exact absurd howned.inside (by decide)

/-! ## `Allocator` -/

/-- What `Allocator::allocate` throws. -/
inductive AllocateError where
  | badArrayNewLength
  | badAlloc
  deriving Repr, DecidableEq

/-- `Allocator<ItemType>::allocate`, for a type of the size and alignment. -/
def allocate (mem : Memory) (platformMalloc : Word → Option Word) (itemSize itemAlign n : Word) :
    Except AllocateError Word × Memory :=
  if n > 0xFFFFFFFF#32 / itemSize then (.error .badArrayNewLength, mem)
  else
    let outcome := alignedAlloc mem platformMalloc itemAlign (n * itemSize)
    match outcome.result with
    | none => (.error .badAlloc, outcome.mem)
    | some ptr => if ptr = 0 then (.error .badAlloc, outcome.mem) else (.ok ptr, outcome.mem)

/-- `Allocator<ItemType>::deallocate`: what is passed to `platform_free`. -/
def deallocate (mem : Memory) (ptr : Word) : Option Word := alignedFree mem ptr

/-- An array that was obtained: aligned, inside the raw block, and as long as its owner
writes in it only, `deallocate` releases that block. -/
structure Obtained (itemAlign : Word) (bytes : Nat) (rawPtr request ptr : Word) (mem : Memory) :
    Prop where
  aligned : itemAlign.toNat ∣ ptr.toNat
  inside : ∀ x, (Block.mk ptr.toNat bytes).Holds x → (Block.mk rawPtr.toNat request.toNat).Holds x
  released : ∀ mem', (∀ x, ¬ (Block.mk ptr.toNat bytes).Holds x → mem' x = mem x) →
    deallocate mem' ptr = some rawPtr

/-- `allocate` fails when it must and only then: it knows a product that is not
representable, reports memory exhausted only if `platform_malloc` was asked and gave
null or the padded request is not representable, and returns good arrays. -/
structure Adequate (itemSize itemAlign n : Word) (mem : Memory)
    (platformMalloc : Word → Option Word) : Prop where
  length : (allocate mem platformMalloc itemSize itemAlign n).1 = .error .badArrayNewLength ↔
    2 ^ 32 ≤ n.toNat * itemSize.toNat
  exhausted : (allocate mem platformMalloc itemSize itemAlign n).1 = .error .badAlloc →
    (Accepted itemAlign (n * itemSize) ∧
      platformMalloc (trueBlockSize itemAlign (n * itemSize)) = none) ∨
      2 ^ 32 ≤ n.toNat * itemSize.toNat + itemAlign.toNat + 3
  obtained : ∀ ptr, (allocate mem platformMalloc itemSize itemAlign n).1 = .ok ptr →
    ∃ rawPtr, platformMalloc (trueBlockSize itemAlign (n * itemSize)) = some rawPtr ∧
      Obtained itemAlign (n.toNat * itemSize.toNat) rawPtr
        (trueBlockSize itemAlign (n * itemSize)) ptr
        (allocate mem platformMalloc itemSize itemAlign n).2

/-- It is so for every behaviour of `platform_malloc`. -/
def AlwaysAdequate (itemSize itemAlign n : Word) : Prop :=
  ∀ (mem : Memory) (platformMalloc : Word → Option Word),
    (∀ request, Answers request (platformMalloc request)) →
    Adequate itemSize itemAlign n mem platformMalloc

section Allocate

variable {mem : Memory} {platformMalloc : Word → Option Word} {itemSize itemAlign n : Word}

/-- The check of the product. -/
theorem length_check (hsize : 0 < itemSize.toNat) :
    n > 0xFFFFFFFF#32 / itemSize ↔ 2 ^ 32 ≤ n.toNat * itemSize.toNat := by
  have hmax : (0xFFFFFFFF#32 : Word).toNat = 2 ^ 32 - 1 := rfl
  rw [gt_iff_lt, BitVec.lt_def, BitVec.toNat_udiv, hmax, Nat.div_lt_iff_lt_mul hsize]
  omega

theorem toNat_product (h : n.toNat * itemSize.toNat < 2 ^ 32) :
    (n * itemSize).toNat = n.toNat * itemSize.toNat := by
  rw [BitVec.toNat_mul, Nat.mod_eq_of_lt h]

theorem allocate_of_long (hsize : 0 < itemSize.toNat) (h : 2 ^ 32 ≤ n.toNat * itemSize.toNat) :
    allocate mem platformMalloc itemSize itemAlign n = (.error .badArrayNewLength, mem) :=
  if_pos ((length_check hsize).mpr h)

/-- A product that is representable is passed on. -/
theorem allocate_of_short (hsize : 0 < itemSize.toNat) (h : n.toNat * itemSize.toNat < 2 ^ 32) :
    allocate mem platformMalloc itemSize itemAlign n =
      match (alignedAlloc mem platformMalloc itemAlign (n * itemSize)).result with
      | none =>
          (.error .badAlloc, (alignedAlloc mem platformMalloc itemAlign (n * itemSize)).mem)
      | some ptr =>
          if ptr = 0 then
            (.error .badAlloc, (alignedAlloc mem platformMalloc itemAlign (n * itemSize)).mem)
          else (.ok ptr, (alignedAlloc mem platformMalloc itemAlign (n * itemSize)).mem) :=
  if_neg fun hlong => absurd ((length_check hsize).mp hlong) (Nat.not_le.mpr h)

/-- The hidden pointer survives what the owner writes. -/
theorem obtained_of_owned {rawPtr size ptr : Word} (howned : Owned itemAlign size rawPtr ptr) :
    Obtained itemAlign size.toNat rawPtr (trueBlockSize itemAlign size) ptr
      (writeWord mem (ptr.toNat - 4) rawPtr) := by
  have hheader := howned.header
  have hinside := howned.inside
  refine ⟨howned.aligned, fun x hx => ?_, fun mem' hmem' => ?_⟩
  · simp only [Block.Holds] at hx ⊢
    omega
  · have hne : ptr ≠ 0 := by
      rintro rfl
      exact absurd hheader (by simp)
    have hread : readWord mem' (ptr.toNat - 4) =
        readWord (writeWord mem (ptr.toNat - 4) rawPtr) (ptr.toNat - 4) := by
      refine readWord_congr fun x _ hx => hmem' x fun hin => ?_
      have hle := hin.1
      simp only at hle
      omega
    rw [deallocate, alignedFree, if_neg hne, hread, readWord_writeWord_self]

end Allocate

section Adequate

variable {itemSize itemAlign n : Word}

/-- A product that is not representable is reported. -/
theorem adequate_of_long (hsize : 0 < itemSize.toNat)
    (hlong : 2 ^ 32 ≤ n.toNat * itemSize.toNat) (mem : Memory)
    (platformMalloc : Word → Option Word) : Adequate itemSize itemAlign n mem platformMalloc := by
  have hallocate : (allocate mem platformMalloc itemSize itemAlign n).1 =
      .error .badArrayNewLength := congrArg Prod.fst (allocate_of_long hsize hlong)
  refine ⟨by rw [hallocate]; exact iff_of_true rfl hlong, fun hexhausted => ?_, fun ptr hptr => ?_⟩
  · rw [hallocate] at hexhausted
    exact absurd hexhausted (by simp)
  · rw [hallocate] at hptr
    exact absurd hptr (by simp)

section Short

variable (hsize : 0 < itemSize.toNat) (hn : 0 < n.toNat)
  (halign : isPowerOfTwoSizeT itemAlign = true) (hshort : n.toNat * itemSize.toNat < 2 ^ 32)
include hsize hn halign hshort

theorem accepted_iff : Accepted itemAlign (n * itemSize) ↔ 4 ≤ itemAlign.toNat := by
  refine ⟨fun h => h.2.2, fun hmin => ⟨fun hzero => ?_, halign, hmin⟩⟩
  have hproduct := toNat_product hshort
  rw [hzero] at hproduct
  exact absurd hproduct (Nat.ne_of_lt (Nat.mul_pos hn hsize))

/-- An alignment below that of a pointer is memory exhausted, whatever there is. -/
theorem allocate_of_small_align (hmin : ¬ 4 ≤ itemAlign.toNat) (mem : Memory)
    (platformMalloc : Word → Option Word) :
    (allocate mem platformMalloc itemSize itemAlign n).1 = .error .badAlloc := by
  have hrejected := mt (accepted_iff hsize hn halign hshort).mp hmin
  rw [allocate_of_short hsize hshort, alignedAlloc_of_not_accepted hrejected]

theorem allocate_of_null (hmin : 4 ≤ itemAlign.toNat) {mem : Memory}
    {platformMalloc : Word → Option Word}
    (hnull : platformMalloc (trueBlockSize itemAlign (n * itemSize)) = none) :
    (allocate mem platformMalloc itemSize itemAlign n).1 = .error .badAlloc := by
  have haccepted := (accepted_iff hsize hn halign hshort).mpr hmin
  rw [allocate_of_short hsize hshort, alignedAlloc_null haccepted hnull]

theorem allocate_of_block (hmin : 4 ≤ itemAlign.toNat) {mem : Memory}
    {platformMalloc : Word → Option Word} {rawPtr : Word}
    (hblock : platformMalloc (trueBlockSize itemAlign (n * itemSize)) = some rawPtr)
    (hheader : rawPtr.toNat + 4 ≤ (alignedAddress itemAlign rawPtr).toNat) :
    allocate mem platformMalloc itemSize itemAlign n =
      (.ok (alignedAddress itemAlign rawPtr),
        writeWord mem ((alignedAddress itemAlign rawPtr).toNat - 4) rawPtr) := by
  have haccepted := (accepted_iff hsize hn halign hshort).mpr hmin
  have hne : alignedAddress itemAlign rawPtr ≠ 0 := by
    intro hzero
    rw [hzero] at hheader
    exact absurd hheader (by simp)
  rw [allocate_of_short hsize hshort, alignedAlloc_block haccepted hblock]
  exact if_neg hne

/-- A request that fits is served as well as `platform_malloc` can. -/
theorem adequate_of_fits (hmin : 4 ≤ itemAlign.toNat)
    (hfits : n.toNat * itemSize.toNat + itemAlign.toNat + 3 < 2 ^ 32) {mem : Memory}
    {platformMalloc : Word → Option Word}
    (hanswers : ∀ request, Answers request (platformMalloc request)) :
    Adequate itemSize itemAlign n mem platformMalloc := by
  have haccepted := (accepted_iff hsize hn halign hshort).mpr hmin
  have hproduct := toNat_product hshort
  have hlength : ¬ 2 ^ 32 ≤ n.toNat * itemSize.toNat := Nat.not_le.mpr hshort
  cases hanswer : platformMalloc (trueBlockSize itemAlign (n * itemSize)) with
  | none =>
      have hnull := @allocate_of_null _ _ _ hsize hn halign hshort hmin mem platformMalloc hanswer
      refine ⟨by rw [hnull]; exact iff_of_false (by simp) hlength,
        fun _ => .inl ⟨haccepted, hanswer⟩, fun ptr hptr => ?_⟩
      rw [hnull] at hptr
      exact absurd hptr (by simp)
  | some rawPtr =>
      have howned := owned_of_fits haccepted (by rwa [hproduct]) (hanswers _ rawPtr hanswer).2
      have hblock := @allocate_of_block _ _ _ hsize hn halign hshort hmin mem platformMalloc
        rawPtr hanswer howned.header
      refine ⟨by rw [hblock]; exact iff_of_false (by simp) hlength, fun hexhausted => ?_,
        fun ptr hptr => ⟨rawPtr, hanswer, ?_⟩⟩
      · rw [hblock] at hexhausted
        exact absurd hexhausted (by simp)
      · rw [hblock] at hptr ⊢
        obtain rfl := Except.ok.inj hptr
        rw [← hproduct]
        exact obtained_of_owned howned

/-- A request that wraps is not noticed. -/
theorem not_adequate_of_wraps (hmin : 4 ≤ itemAlign.toNat)
    (hwraps : 2 ^ 32 ≤ n.toNat * itemSize.toNat + itemAlign.toNat + 3) :
    ¬ Adequate itemSize itemAlign n (fun _ => 0) lowBlock := by
  intro h
  have haccepted := (accepted_iff hsize hn halign hshort).mpr hmin
  have hproduct := toNat_product hshort
  rw [← hproduct] at hwraps
  have hraw := lowBlock_of_wraps haccepted hwraps
  have hheader := header_lowBlock halign
  have hblock := @allocate_of_block _ _ _ hsize hn halign hshort hmin (fun _ => 0) lowBlock _ hraw
    hheader
  obtain ⟨rawPtr, hanswer, hobtained⟩ := h.obtained _ (congrArg Prod.fst hblock)
  obtain rfl := Option.some.inj (hraw.symm.trans hanswer)
  -- the last byte of the array is behind the block
  have hpos : 0 < n.toNat * itemSize.toNat := Nat.mul_pos hn hsize
  have hlong := not_inside_of_wraps haccepted hwraps hheader
  have hlast := hobtained.inside
    ((alignedAddress itemAlign 4#32).toNat + n.toNat * itemSize.toNat - 1)
    ⟨by simp only; omega, by simp only; omega⟩
  have hend := hlast.2
  rw [hproduct] at hlong
  simp only at hend
  omega

end Short

end Adequate

/-- **What `Allocator` can allocate.**  It is adequate for every behaviour of
`platform_malloc` if and only if the product is not representable, or the padded
request is and the alignment is at least that of a pointer, or neither. -/
theorem adequate_iff (itemSize itemAlign n : Word) (hsize : 1 ≤ itemSize.toNat)
    (halign : isPowerOfTwoSizeT itemAlign = true) (hn : 1 ≤ n.toNat) :
    AlwaysAdequate itemSize itemAlign n ↔
      2 ^ 32 ≤ n.toNat * itemSize.toNat ∨
        (4 ≤ itemAlign.toNat ↔ n.toNat * itemSize.toNat + itemAlign.toNat + 3 < 2 ^ 32) := by
  rcases Nat.lt_or_ge (n.toNat * itemSize.toNat) (2 ^ 32) with hshort | hlong
  · simp only [Nat.not_le.mpr hshort, false_or]
    by_cases hmin : 4 ≤ itemAlign.toNat
    · simp only [hmin, true_iff]
      refine ⟨fun h => ?_, fun hfits mem platformMalloc hanswers =>
        adequate_of_fits hsize hn halign hshort hmin hfits hanswers⟩
      by_contra hwraps
      exact not_adequate_of_wraps hsize hn halign hshort hmin (by omega)
        (h _ lowBlock answers_lowBlock)
    · have hsmall := allocate_of_small_align hsize hn halign hshort hmin
      simp only [hmin, false_iff, Nat.not_lt]
      constructor
      · intro h
        rcases (h (fun _ => 0) lowBlock answers_lowBlock).exhausted (hsmall _ _) with hnull | hwraps
        · exact absurd hnull.1.2.2 hmin
        · exact hwraps
      · intro hwraps mem platformMalloc _
        refine ⟨by rw [hsmall]; exact iff_of_false (by simp) (Nat.not_le.mpr hshort),
          fun _ => .inr hwraps, fun ptr hptr => ?_⟩
        rw [hsmall] at hptr
        exact absurd hptr (by simp)
  · exact ⟨fun _ => .inl hlong, fun _ mem platformMalloc _ =>
      adequate_of_long hsize hlong mem platformMalloc⟩

/-- Three items of eight bytes. -/
theorem adequate_three_items : AlwaysAdequate 8#32 4#32 3#32 :=
  (adequate_iff 8#32 4#32 3#32 (by decide) (by decide) (by decide)).mpr (.inr (by decide))

/-- A single character cannot be allocated. -/
theorem character_exhausts :
    ¬ ∀ (itemSize itemAlign n : Word), 1 ≤ itemSize.toNat →
      isPowerOfTwoSizeT itemAlign = true → itemAlign.toNat ∣ itemSize.toNat → 1 ≤ n.toNat →
      AlwaysAdequate itemSize itemAlign n := by
  intro hall
  have hadequate := hall 1#32 1#32 1#32 (by decide) (by decide) (by decide) (by decide)
    (fun _ => 0) lowBlock answers_lowBlock
  rcases hadequate.exhausted rfl with hnull | hwraps
  · exact absurd hnull.1.2.2 (by decide)
  · exact absurd hwraps (by decide)

end NspireUtils.Ports.AllocBounds
