import NspireUtils.Verified.BitFields
import NspireUtils.Verified.ByteMemory

/-!
# Translation-table descriptors

The descriptor helpers of `platform/MMUEditor.hpp`: the constants, the
enumerations with their bit encodings, and the functions that move permission,
cache-policy, domain and type fields in and out of a 32-bit entry.

A helper that proofs compute with is followed by its normal form as a `place`d
field, so that they never look at a mask or a shift again.
-/

namespace NspireUtils.Ports.MMUDescriptors

open NspireUtils.Verified.BitFields
open NspireUtils.Verified.ByteMemory

/-- `TTB_Size`: 16 KB. -/
def ttbSize : Nat := 16384

/-- `TTB_Alignment`: 16 KB. -/
def ttbAlignment : Nat := 16384

/-- `L2Table_Size`: 1 KB. -/
def l2TableSize : Nat := 1024

/-- `L2Table_Alignment`: 1 KB. -/
def l2TableAlignment : Nat := 1024

/-- `MMUL1EntryMappedAddress`. -/
def mmuL1EntryMappedAddress (entry : Word) : Word := entry &&& 0xFFF00000#32

theorem mmuL1EntryMappedAddress_eq (entry : Word) :
    mmuL1EntryMappedAddress entry = place 20 (entry.extractLsb' 20 12) :=
  and_high_eq_place entry _ 20 (by decide)

/-! ## Access permissions -/

/-- `MMUAccessPermission`, bits `[11:10]` of a section entry. -/
inductive MMUAccessPermission where
  | noAccess
  | privilegedOnly
  | userReadOnly
  | fullAccess
  deriving Repr, DecidableEq

namespace MMUAccessPermission

/-- The enumerator's value. -/
def toWord : MMUAccessPermission → Word
  | noAccess => 0b00#32 <<< 10
  | privilegedOnly => 0b01#32 <<< 10
  | userReadOnly => 0b10#32 <<< 10
  | fullAccess => 0b11#32 <<< 10

/-- The two-bit AP field the hardware sees. -/
def code : MMUAccessPermission → BitVec 2
  | noAccess => 0b00#2
  | privilegedOnly => 0b01#2
  | userReadOnly => 0b10#2
  | fullAccess => 0b11#2

/-- `static_cast<MMUAccessPermission>` of a word with nothing outside bits
`[11:10]`. -/
def ofWord (w : Word) : MMUAccessPermission :=
  if w.extractLsb' 10 2 = 0b00#2 then noAccess
  else if w.extractLsb' 10 2 = 0b01#2 then privilegedOnly
  else if w.extractLsb' 10 2 = 0b10#2 then userReadOnly
  else fullAccess

theorem toWord_eq (ap : MMUAccessPermission) : ap.toWord = place 10 ap.code := by
  cases ap <;> rfl

theorem code_ofWord (w : Word) : (ofWord w).code = w.extractLsb' 10 2 := by
  unfold ofWord
  generalize w.extractLsb' 10 2 = c
  revert c
  decide

end MMUAccessPermission

/-- `MMUL2SubpageAccessPermissions`: four subpage permissions, bits `[11:4]`. -/
def mmuL2SubpageAccessPermissions
    (firstSubPage secondSubPage thirdSubPage fourthSubPage : MMUAccessPermission) : Word :=
  (firstSubPage.toWord >>> 6) ||| (secondSubPage.toWord >>> 4) |||
    (thirdSubPage.toWord >>> 2) ||| fourthSubPage.toWord

/-- `MMUL2EntirePageAccessPermissions`. -/
def mmuL2EntirePageAccessPermissions (ap : MMUAccessPermission) : Word :=
  mmuL2SubpageAccessPermissions ap ap ap ap

/-- `MMUAccessPermissionFromSectionEntry`. -/
def mmuAccessPermissionFromSectionEntry (entry : Word) : MMUAccessPermission :=
  .ofWord (entry &&& (0b11#32 <<< 10))

/-- The permission of subpage `i`, given the four of them. -/
def subpage (a0 a1 a2 a3 : MMUAccessPermission) : Nat → MMUAccessPermission
  | 0 => a0
  | 1 => a1
  | 2 => a2
  | _ => a3

theorem mmuL2SubpageAccessPermissions_eq (a0 a1 a2 a3 : MMUAccessPermission) :
    mmuL2SubpageAccessPermissions a0 a1 a2 a3 =
      place 4 a0.code ||| place 6 a1.code ||| place 8 a2.code ||| place 10 a3.code := by
  have h0 : a0.toWord >>> 6 = place 4 a0.code := by cases a0 <;> rfl
  have h1 : a1.toWord >>> 4 = place 6 a1.code := by cases a1 <;> rfl
  have h2 : a2.toWord >>> 2 = place 8 a2.code := by cases a2 <;> rfl
  rw [mmuL2SubpageAccessPermissions, h0, h1, h2, a3.toWord_eq]

theorem code_mmuAccessPermissionFromSectionEntry (entry : Word) :
    (mmuAccessPermissionFromSectionEntry entry).code = entry.extractLsb' 10 2 := by
  rw [mmuAccessPermissionFromSectionEntry, MMUAccessPermission.code_ofWord,
    and_field_eq_place entry _ 10 2 (by decide), extract_place_self _ _ (by omega)]

/-! ## Cache policy, domain and descriptor type -/

/-- `MMUCachePolicy`, bits `[3:2]`. -/
inductive MMUCachePolicy where
  | nonCachedNonBuffered
  | nonCachedWriteBuffered
  | writeThroughCache
  | writeBackCache
  deriving Repr, DecidableEq

namespace MMUCachePolicy

/-- The enumerator's value. -/
def toWord : MMUCachePolicy → Word
  | nonCachedNonBuffered => 0b00#32 <<< 2
  | nonCachedWriteBuffered => 0b01#32 <<< 2
  | writeThroughCache => 0b10#32 <<< 2
  | writeBackCache => 0b11#32 <<< 2

/-- The C and B bits the hardware sees. -/
def code : MMUCachePolicy → BitVec 2
  | nonCachedNonBuffered => 0b00#2
  | nonCachedWriteBuffered => 0b01#2
  | writeThroughCache => 0b10#2
  | writeBackCache => 0b11#2

/-- `static_cast<MMUCachePolicy>` of a word with nothing outside bits
`[3:2]`. -/
def ofWord (w : Word) : MMUCachePolicy :=
  if w.extractLsb' 2 2 = 0b00#2 then nonCachedNonBuffered
  else if w.extractLsb' 2 2 = 0b01#2 then nonCachedWriteBuffered
  else if w.extractLsb' 2 2 = 0b10#2 then writeThroughCache
  else writeBackCache

theorem toWord_eq (cp : MMUCachePolicy) : cp.toWord = place 2 cp.code := by
  cases cp <;> rfl

theorem code_ofWord (w : Word) : (ofWord w).code = w.extractLsb' 2 2 := by
  unfold ofWord
  generalize w.extractLsb' 2 2 = c
  revert c
  decide

end MMUCachePolicy

/-- `MMUCachePolicyFromEntry`. -/
def mmuCachePolicyFromEntry (entry : Word) : MMUCachePolicy :=
  .ofWord (entry &&& (0b11#32 <<< 2))

theorem code_mmuCachePolicyFromEntry (entry : Word) :
    (mmuCachePolicyFromEntry entry).code = entry.extractLsb' 2 2 := by
  rw [mmuCachePolicyFromEntry, MMUCachePolicy.code_ofWord,
    and_field_eq_place entry _ 2 2 (by decide), extract_place_self _ _ (by omega)]

/-- `MMUSelectDomain`: the domain number in bits `[8:5]`. -/
def mmuSelectDomain (domain : Byte) : Word := (domain.setWidth 32 &&& 0xF#32) <<< 5

/-- `MMUDomainFromEntry`. -/
def mmuDomainFromEntry (entry : Word) : Byte := ((entry >>> 5) &&& 0xF#32).setWidth 8

theorem mmuSelectDomain_eq (domain : Byte) :
    mmuSelectDomain domain = place 5 (domain.extractLsb' 0 4) := by
  revert domain
  decide

/-- `MMUDescriptorType`, bits `[1:0]` of a first-level entry. -/
inductive MMUDescriptorType where
  | fault
  | coarsePageTable
  | sectionEntry
  | finePageTable
  deriving Repr, DecidableEq

namespace MMUDescriptorType

/-- The enumerator's value. -/
def toWord : MMUDescriptorType → Word
  | fault => 0b00#32
  | coarsePageTable => 0b01#32
  | sectionEntry => 0b10#32
  | finePageTable => 0b11#32

/-- `static_cast<MMUDescriptorType>` of a word with nothing outside bits
`[1:0]`. -/
def ofWord (w : Word) : MMUDescriptorType :=
  if w.extractLsb' 0 2 = 0b00#2 then fault
  else if w.extractLsb' 0 2 = 0b01#2 then coarsePageTable
  else if w.extractLsb' 0 2 = 0b10#2 then sectionEntry
  else finePageTable

end MMUDescriptorType

/-- `MMUDescriptorTypeFromEntry`. -/
def mmuDescriptorTypeFromEntry (entry : Word) : MMUDescriptorType :=
  .ofWord (entry &&& 0b11#32)

theorem extract_type_mask (entry : Word) :
    (entry &&& 0b11#32).extractLsb' 0 2 = entry.extractLsb' 0 2 := by
  rw [and_field_eq_place entry _ 0 2 (by decide), extract_place_self _ _ (by omega)]

/-- `MMUL2DescriptorType`, bits `[1:0]` of a second-level entry. -/
inductive MMUL2DescriptorType where
  | fault
  | largePage
  | smallPage
  | tinyPage
  deriving Repr, DecidableEq

/-- The enumerator's value. -/
def MMUL2DescriptorType.toWord : MMUL2DescriptorType → Word
  | fault => 0b00#32
  | largePage => 0b01#32
  | smallPage => 0b10#32
  | tinyPage => 0b11#32

end NspireUtils.Ports.MMUDescriptors
