import NspireUtils.Ports.Caches

/-!
# Which lines the range functions reach

`FlushDataCacheRange` and `InvalidateICacheRange` of `platform/Caches.cpp`, and
`SyncICache` of `hook/Hooks.cpp` on top of them, as the coprocessor operations they
issue.

The loops compare a cursor that is a multiple of the line size with the end of the
range.  An end in the last line of the address space is above every such cursor, so the
loop never stops; and where `SyncICache` rounds the end of its range up to the top of
the address space, it becomes zero and nothing is done at all.
-/

namespace NspireUtils.Ports.CacheRanges

open NspireUtils.Verified.BitFields
open NspireUtils.Verified.ByteMemory
open NspireUtils.Verified.WriteBackCache
open NspireUtils.Ports.Caches

/-- An operation of the coprocessor. -/
inductive CacheOp where
  | cleanDataLine (addr : Word)
  | drainWriteBuffer
  | invalidateInstructionLine (addr : Word)
  deriving Repr, DecidableEq

/-- The address of the line an address lies in. -/
def lineStart (addr : Word) : Word := addr &&& ~~~(cacheLineSize - 1#32)

/-- `FlushDataCacheRange`, if it ends. -/
def flushDataCacheRange (start stop : Word) : Option (List CacheOp) :=
  (lineAddresses start stop).map (·.map .cleanDataLine)

/-- `InvalidateICacheRange`, if it ends. -/
def invalidateICacheRange (start stop : Word) : Option (List CacheOp) :=
  (lineAddresses start stop).map (·.map .invalidateInstructionLine)

/-- `SyncICache`, if it ends. -/
def syncICache (address size : Word) : Option (List CacheOp) :=
  let start := lineStart address
  let stop := lineStart (address + size + cacheLineSize - 1#32)
  (flushDataCacheRange start stop).bind fun flushed =>
    (invalidateICacheRange start stop).map fun invalidated =>
      flushed ++ .drainWriteBuffer :: invalidated

/-! ## The loop -/

theorem toNat_lineStart (addr : Word) : (lineStart addr).toNat = addr.toNat / 32 * 32 :=
  toNat_and_high _ _ 5 (by omega) (by decide)

/-- Above the last line no cursor reaches the end. -/
theorem rangeLoop_eq_none {stop : Word} (hstop : 0xFFFFFFE0 < stop.toNat) (n : Nat) (addr : Word)
    (haddr : 32 ∣ addr.toNat) : rangeLoop n addr stop = none := by
  have hbelow : ∀ a : Word, 32 ∣ a.toNat → a < stop := by
    intro a ha
    have hlt := a.isLt
    rw [BitVec.lt_def]
    omega
  induction n generalizing addr with
  | zero => rw [rangeLoop, if_pos (hbelow addr haddr)]
  | succ n ih =>
      have hnext : 32 ∣ (addr + cacheLineSize).toNat := by
        have hsize : cacheLineSize.toNat = 32 := rfl
        rw [BitVec.toNat_add, hsize]
        omega
      rw [rangeLoop, if_pos (hbelow addr haddr), ih _ hnext, Option.map_none]

/-- `2 ^ 27` iterations are enough: if the loop ends at all, it has ended by then. -/
theorem lineAddresses_eq_none_iff (start stop : Word) :
    lineAddresses start stop = none ↔ ∀ n, rangeLoop n (lineStart start) stop = none := by
  refine ⟨fun h n => ?_, fun h => h (2 ^ 27)⟩
  rcases Nat.lt_or_ge 0xFFFFFFE0 stop.toNat with hstop | hstop
  · apply rangeLoop_eq_none hstop n _
    rw [toNat_lineStart]
    exact Nat.dvd_mul_left _ _
  · rw [lineAddresses, rangeLoop_eq (by omega) _ _ (by omega)] at h
    exact absurd h (by simp)

/-- The addresses, below the last line. -/
theorem lineAddresses_of_le {start stop : Word} (hstop : stop.toNat ≤ 0xFFFFFFE0) :
    lineAddresses start stop =
      some ((List.range ((stop.toNat + 31 - start.toNat / 32 * 32) / 32)).map
        fun i => lineStart start + BitVec.ofNat 32 (32 * i)) := by
  have hloop := rangeLoop_eq (show stop.toNat + 31 < 2 ^ 32 by omega) (2 ^ 27) (lineStart start)
    (by omega)
  rwa [toNat_lineStart] at hloop

/-- The `i`th of them. -/
theorem lineOf_cursor {start stop : Word} (hstop : stop.toNat ≤ 0xFFFFFFE0) {i : Nat}
    (hi : i < (stop.toNat + 31 - start.toNat / 32 * 32) / 32) :
    lineOf (lineStart start + BitVec.ofNat 32 (32 * i)).toNat = start.toNat / 32 + i := by
  rw [BitVec.toNat_add, toNat_lineStart, BitVec.toNat_ofNat]
  simp only [lineOf, lineSize]
  omega

/-! ## Ranges -/

/-- Each line of the range once, and no other. -/
def OncePerLine (start stop : Word) (addrs : List Word) : Prop :=
  (addrs.map fun a => lineOf a.toNat).Nodup ∧
    ∀ l, l ∈ (addrs.map fun a => lineOf a.toNat) ↔
      ∃ x, start.toNat ≤ x ∧ x < stop.toNat ∧ lineOf x = l

/-- The two functions end, and if the range is not empty they reach each of its lines
once and no other. -/
structure Covers (start stop : Word) : Prop where
  flush : ∃ addrs, flushDataCacheRange start stop = some (addrs.map .cleanDataLine) ∧
    (start.toNat < stop.toNat → OncePerLine start stop addrs)
  invalidate : ∃ addrs,
    invalidateICacheRange start stop = some (addrs.map .invalidateInstructionLine) ∧
      (start.toNat < stop.toNat → OncePerLine start stop addrs)

theorem oncePerLine {start stop : Word} (hstop : stop.toNat ≤ 0xFFFFFFE0)
    (hlt : start.toNat < stop.toNat) {addrs : List Word}
    (haddrs : lineAddresses start stop = some addrs) : OncePerLine start stop addrs := by
  rw [lineAddresses_of_le hstop] at haddrs
  obtain rfl := Option.some.inj haddrs
  have hlines : ((List.range ((stop.toNat + 31 - start.toNat / 32 * 32) / 32)).map
      fun i => lineStart start + BitVec.ofNat 32 (32 * i)).map (fun a => lineOf a.toNat) =
      (List.range ((stop.toNat + 31 - start.toNat / 32 * 32) / 32)).map
        fun i => start.toNat / 32 + i := by
    rw [List.map_map]
    exact List.map_congr_left fun i hi => lineOf_cursor hstop (List.mem_range.mp hi)
  rw [OncePerLine, hlines]
  refine ⟨(List.nodup_range).map fun i j hij => Nat.add_left_cancel hij, fun l => ?_⟩
  simp only [List.mem_map, List.mem_range, lineOf, lineSize]
  constructor
  · rintro ⟨i, hi, rfl⟩
    -- the last byte of the line or of the range, whichever comes first
    refine ⟨max start.toNat (32 * (start.toNat / 32 + i)), ?_, ?_, ?_⟩ <;> omega
  · rintro ⟨x, hle, hx, rfl⟩
    refine ⟨x / 32 - start.toNat / 32, ?_, ?_⟩ <;> omega

/-- The functions end if the range does below the last line. -/
theorem covers_iff (start stop : Word) : Covers start stop ↔ stop.toNat ≤ 0xFFFFFFE0 := by
  constructor
  · rintro ⟨⟨addrs, haddrs, -⟩, -⟩
    by_contra hstop
    have hnone : lineAddresses start stop = none := by
      apply rangeLoop_eq_none (by omega) _ _
      show 32 ∣ (lineStart start).toNat
      rw [toNat_lineStart]
      exact Nat.dvd_mul_left _ _
    rw [flushDataCacheRange, hnone] at haddrs
    exact absurd haddrs (by simp)
  · intro hstop
    have haddrs := @lineAddresses_of_le start stop hstop
    refine ⟨⟨_, by rw [flushDataCacheRange, haddrs, Option.map_some], fun hlt => ?_⟩,
      ⟨_, by rw [invalidateICacheRange, haddrs, Option.map_some], fun hlt => ?_⟩⟩
    · exact oncePerLine hstop hlt haddrs
    · exact oncePerLine hstop hlt haddrs

/-! ## `SyncICache` -/

/-- `SyncICache` ends, and it cleans and invalidates the line of every byte. -/
def Synced (address size : Word) : Prop :=
  ∃ ops, syncICache address size = some ops ∧
    ∀ x, address.toNat ≤ x → x < address.toNat + size.toNat →
      (∃ a, .cleanDataLine a ∈ ops ∧ lineOf a.toNat = lineOf x) ∧
        ∃ a, .invalidateInstructionLine a ∈ ops ∧ lineOf a.toNat = lineOf x

/-- The rounded end of the range. -/
theorem toNat_syncStop (address size : Word) :
    (lineStart (address + size + cacheLineSize - 1#32)).toNat =
      (address.toNat + size.toNat + 31) % 2 ^ 32 / 32 * 32 := by
  have hline : cacheLineSize.toNat = 32 := rfl
  rw [toNat_lineStart, BitVec.toNat_sub, BitVec.toNat_add, BitVec.toNat_add, hline,
    BitVec.toNat_ofNat]
  omega

/-- What `SyncICache` does, below the last line. -/
theorem syncICache_of_le {address size : Word} (hsize : 1 ≤ size.toNat)
    (hend : address.toNat + size.toNat ≤ 0xFFFFFFE0) :
    ∃ addrs : List Word, syncICache address size = some (addrs.map .cleanDataLine ++
        .drainWriteBuffer :: addrs.map .invalidateInstructionLine) ∧
      ∀ x, address.toNat ≤ x → x < address.toNat + size.toNat →
        ∃ a ∈ addrs, lineOf a.toNat = lineOf x := by
  have hstop := toNat_syncStop address size
  have hstart := toNat_lineStart address
  obtain ⟨addrs, haddrs⟩ : ∃ addrs, lineAddresses (lineStart address)
      (lineStart (address + size + cacheLineSize - 1#32)) = some addrs :=
    ⟨_, lineAddresses_of_le (by omega)⟩
  have hlines := (oncePerLine (by omega) (by omega) haddrs).2
  refine ⟨addrs, ?_, fun x hle hlt => ?_⟩
  · simp only [syncICache, flushDataCacheRange, invalidateICacheRange, haddrs, Option.map_some,
      Option.bind_some]
  · exact List.mem_map.mp ((hlines (lineOf x)).mpr ⟨x, by omega, by omega, rfl⟩)

/-- A range that ends in the last line is rounded to nothing. -/
theorem syncICache_of_gt {address size : Word} (hend : address.toNat + size.toNat ≤ 2 ^ 32)
    (hlast : 0xFFFFFFE0 < address.toNat + size.toNat) :
    syncICache address size = some [.drainWriteBuffer] := by
  have hstop := toNat_syncStop address size
  have haddrs := @lineAddresses_of_le (lineStart address)
    (lineStart (address + size + cacheLineSize - 1#32)) (by omega)
  have hnone : (lineStart (address + size + cacheLineSize - 1#32)).toNat + 31 -
      (lineStart address).toNat / 32 * 32 < 32 := by
    omega
  simp only [syncICache, flushDataCacheRange, invalidateICacheRange, haddrs,
    Nat.div_eq_of_lt hnone, Option.map_some, Option.bind_some]
  rfl

theorem synced_iff {address size : Word} (hsize : 1 ≤ size.toNat)
    (hend : address.toNat + size.toNat ≤ 2 ^ 32) :
    Synced address size ↔ address.toNat + size.toNat ≤ 0xFFFFFFE0 := by
  constructor
  · rintro ⟨ops, hops, hbytes⟩
    by_contra hlast
    rw [syncICache_of_gt hend (by omega)] at hops
    obtain rfl := Option.some.inj hops
    obtain ⟨⟨a, ha, -⟩, -⟩ := hbytes address.toNat (Nat.le_refl _) (by omega)
    exact absurd ha (by simp)
  · intro hle
    obtain ⟨addrs, hops, hlines⟩ := syncICache_of_le hsize hle
    refine ⟨_, hops, fun x hx hlt => ?_⟩
    obtain ⟨a, ha, hline⟩ := hlines x hx hlt
    exact ⟨⟨a, List.mem_append_left _ (List.mem_map_of_mem ha), hline⟩,
      a, List.mem_append_right _ (List.mem_cons_of_mem _ (List.mem_map_of_mem ha)), hline⟩

/-- **Which ranges are covered.**  The loops end and reach the lines of their range
exactly if it does not end in the last line of the address space, and `SyncICache`
reaches the lines of a range under the same condition. -/
theorem ranges_iff (start stop address size : Word) (hsize : 1 ≤ size.toNat)
    (hend : address.toNat + size.toNat ≤ 2 ^ 32) :
    (Covers start stop ↔ stop.toNat ≤ 0xFFFFFFE0) ∧
      (Synced address size ↔ address.toNat + size.toNat ≤ 0xFFFFFFE0) :=
  ⟨covers_iff start stop, synced_iff hsize hend⟩

/-- Nine words over three lines. -/
theorem ranges_nine_words :
    Covers 0x101C#32 0x1040#32 ∧ Synced 0x101C#32 36#32 := by
  obtain ⟨hcovers, hsynced⟩ :=
    ranges_iff 0x101C#32 0x1040#32 0x101C#32 36#32 (by decide) (by decide)
  exact ⟨hcovers.mpr (by decide), hsynced.mpr (by decide)⟩

/-- The last vectors of the high vector page are not reached. -/
theorem top_not_covered :
    ¬ ((∀ start stop : Word, Covers start stop) ∧
      ∀ address size : Word, 1 ≤ size.toNat → address.toNat + size.toNat ≤ 2 ^ 32 →
        Synced address size) := by
  rintro ⟨hcovers, -⟩
  exact absurd ((covers_iff 0xFFFF0000#32 0xFFFFFFF0#32).mp (hcovers _ _)) (by decide)

end NspireUtils.Ports.CacheRanges
