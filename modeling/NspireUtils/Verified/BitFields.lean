import Mathlib

/-!
# Fields of machine words

A bit field of a word is `BitVec.extractLsb' lo len`; `place k x` is the word
whose only field is `x`, at bit `k`.  A program that assembles a word from
masked and shifted parts is understood by rewriting every part as a `place`:
reading a field of the assembled word then returns the part placed there, and
the parts placed elsewhere vanish.

The side conditions say that two fields do not overlap.  They are closed
inequalities between literals, so the whole computation is one call

`simp (disch := omega) only [extract_or, extract_place_self, extract_place_of_apart, ...]`

## Main results

* `extract_place_self`, `extract_place_of_apart` — reading a placed field.
* `and_high_eq_place` — clearing the low bits keeps exactly the high field.
* `toNat_extract_high_of_dvd` — the high field of an aligned address is the address.
-/

namespace NspireUtils.Verified.BitFields

/-- The word that holds `x` from bit `k` on and zeros elsewhere. -/
def place {n : Nat} (k : Nat) (x : BitVec n) : BitVec 32 := x.setWidth 32 <<< k

theorem getLsbD_place {n : Nat} (k : Nat) (x : BitVec n) (i : Nat) :
    (place k x).getLsbD i = (decide (i < 32) && decide (k ≤ i) && x.getLsbD (i - k)) := by
  simp only [place, BitVec.getLsbD_shiftLeft, BitVec.getLsbD_setWidth]
  by_cases h1 : i < 32 <;> by_cases h2 : k ≤ i
  · have h3 : i - k < 32 := by omega
    simp [h1, h2, h3, Nat.not_lt.mpr h2]
  · simp [h2, Nat.lt_of_not_le h2]
  · simp [h1]
  · simp [h1]

/-- The field just placed is read back. -/
theorem extract_place_self {n : Nat} (k : Nat) (x : BitVec n) (h : k + n ≤ 32) :
    (place k x).extractLsb' k n = x := by
  apply BitVec.eq_of_getLsbD_eq
  intro i hi
  have h1 : k + i < 32 := by omega
  simp only [BitVec.getLsbD_extractLsb', getLsbD_place]
  simp [hi, h1]

/-- A field that does not meet the placed one is zero. -/
theorem extract_place_of_apart {n : Nat} (k : Nat) (x : BitVec n) {lo len : Nat}
    (h : lo + len ≤ k ∨ k + n ≤ lo) : (place k x).extractLsb' lo len = BitVec.ofNat len 0 := by
  apply BitVec.eq_of_getLsbD_eq
  intro i hi
  simp only [BitVec.getLsbD_extractLsb', getLsbD_place, BitVec.getLsbD_zero]
  rcases h with hbelow | habove
  · have h1 : ¬ k ≤ lo + i := by omega
    simp [h1]
  · have h1 : x.getLsbD (lo + i - k) = false := BitVec.getLsbD_of_ge x _ (by omega)
    simp [h1]

/-- Fields distribute over `|||`. -/
theorem extract_or {w : Nat} (x y : BitVec w) (lo len : Nat) :
    (x ||| y).extractLsb' lo len = x.extractLsb' lo len ||| y.extractLsb' lo len :=
  BitVec.extractLsb'_or

/-- Clearing the bits below `k` keeps exactly the field above it. -/
theorem and_high_eq_place (x mask : BitVec 32) (k : Nat)
    (hmask : mask = BitVec.allOnes 32 <<< k) :
    x &&& mask = place k (x.extractLsb' k (32 - k)) := by
  subst hmask
  apply BitVec.eq_of_getLsbD_eq
  intro i hi
  simp only [BitVec.getLsbD_and, BitVec.getLsbD_shiftLeft, BitVec.getLsbD_allOnes,
    getLsbD_place, BitVec.getLsbD_extractLsb']
  by_cases h : k ≤ i
  · have h1 : i - k < 32 - k := by omega
    have h2 : i - k < 32 := by omega
    have h3 : k + (i - k) = i := by omega
    simp [h, hi, h1, h2, h3, Nat.not_lt.mpr h]
  · simp [h, Nat.lt_of_not_le h]

/-- Masking one field keeps exactly that field. -/
theorem and_field_eq_place (x mask : BitVec 32) (k n : Nat)
    (hmask : mask = place k (BitVec.allOnes n)) :
    x &&& mask = place k (x.extractLsb' k n) := by
  subst hmask
  apply BitVec.eq_of_getLsbD_eq
  intro i hi
  simp only [BitVec.getLsbD_and, getLsbD_place, BitVec.getLsbD_extractLsb',
    BitVec.getLsbD_allOnes]
  by_cases h : k ≤ i
  · have h1 : k + (i - k) = i := by omega
    simp [h, hi, h1, Bool.and_comm]
  · simp [h]

/-- The complement of `2 ^ k - 1` is the mask that clears the bits below `k`. -/
theorem not_pred_two_pow {a : BitVec 32} {k : Nat} (ha : a.toNat = 2 ^ k) :
    ~~~(a - 1#32) = BitVec.allOnes 32 <<< k := by
  have hpos : 0 < 2 ^ k := Nat.two_pow_pos k
  have hpred : (a - 1#32).toNat = 2 ^ k - 1 := by
    have hlt := a.isLt
    simp only [BitVec.toNat_sub, BitVec.toNat_ofNat]
    omega
  apply BitVec.eq_of_getLsbD_eq
  intro i hi
  rw [BitVec.getLsbD_not, BitVec.getLsbD_shiftLeft, BitVec.getLsbD_allOnes, BitVec.getLsbD,
    hpred, Nat.testBit_two_pow_sub_one]
  simp only [hi, decide_true, Bool.true_and]
  by_cases h : i < k
  · simp [h]
  · have hlt : i - k < 32 := by omega
    simp [h, hlt]

/-! ## Fields as numbers -/

/-- A field read as a number. -/
theorem toNat_extract (x : BitVec 32) (lo len : Nat) :
    (x.extractLsb' lo len).toNat = x.toNat / 2 ^ lo % 2 ^ len := by
  rw [BitVec.extractLsb'_toNat, Nat.shiftRight_eq_div_pow]

/-- The field above bit `k`, scaled back, is the value rounded down to a
multiple of `2 ^ k`. -/
theorem toNat_extract_high (x : BitVec 32) (k : Nat) (hk : k ≤ 32) :
    (x.extractLsb' k (32 - k)).toNat * 2 ^ k = x.toNat / 2 ^ k * 2 ^ k := by
  have hlt : x.toNat / 2 ^ k < 2 ^ (32 - k) := by
    rw [Nat.div_lt_iff_lt_mul (Nat.two_pow_pos k), ← Nat.pow_add, Nat.sub_add_cancel hk]
    exact x.isLt
  rw [toNat_extract, Nat.mod_eq_of_lt hlt]

/-- A word that is a multiple of `2 ^ k` is its own high field. -/
theorem toNat_extract_high_of_dvd {x : BitVec 32} {k : Nat} (hk : k ≤ 32)
    (hdvd : 2 ^ k ∣ x.toNat) : (x.extractLsb' k (32 - k)).toNat * 2 ^ k = x.toNat := by
  rw [toNat_extract_high x k hk, Nat.div_mul_cancel hdvd]

/-- A placed field as a number. -/
theorem toNat_place {n : Nat} (k : Nat) (x : BitVec n) (h : k + n ≤ 32) :
    (place k x).toNat = x.toNat * 2 ^ k := by
  have hn : x.toNat < 2 ^ n := x.isLt
  have h1 : x.toNat * 2 ^ k < 2 ^ 32 := by
    calc x.toNat * 2 ^ k < 2 ^ n * 2 ^ k := Nat.mul_lt_mul_of_pos_right hn (Nat.two_pow_pos k)
      _ = 2 ^ (n + k) := (Nat.pow_add 2 n k).symm
      _ ≤ 2 ^ 32 := Nat.pow_le_pow_right (by decide) (by omega)
  have h2 : x.toNat < 2 ^ 32 :=
    Nat.lt_of_lt_of_le hn (Nat.pow_le_pow_right (by decide) (by omega))
  rw [place, BitVec.toNat_shiftLeft, BitVec.toNat_setWidth, Nat.mod_eq_of_lt h2,
    Nat.shiftLeft_eq, Nat.mod_eq_of_lt h1]

/-- Clearing the bits below `k` rounds down to a multiple of `2 ^ k`. -/
theorem toNat_and_high (x mask : BitVec 32) (k : Nat) (hk : k ≤ 32)
    (hmask : mask = BitVec.allOnes 32 <<< k) :
    (x &&& mask).toNat = x.toNat / 2 ^ k * 2 ^ k := by
  rw [and_high_eq_place x mask k hmask, toNat_place _ _ (by omega), toNat_extract_high x k hk]

end NspireUtils.Verified.BitFields
