import NspireUtils.Verified.TableWalks
import NspireUtils.Ports.Bus

/-!
# Bus operations on a cached machine

What the operations of `Bus` are on a machine with a write-back cache, a write buffer
and a TLB: block operations store word by word, the range functions of
`platform/Caches.cpp` go from line to line, and `InvalidateTLB` drains the write
buffer after it has invalidated the TLB.

`effects_instrs` connects the two machines: the flat one of `Bus` is what the
processor sees of the other.
-/

namespace NspireUtils.Ports.Caches

open NspireUtils.Verified.BitFields
open NspireUtils.Verified.ByteMemory
open NspireUtils.Verified.WriteBackCache
open NspireUtils.Verified.TableWalks
open NspireUtils.Verified.Runs
open NspireUtils.Ports.Bus

/-! ## The range functions -/

/-- `CacheLineSize`. -/
def cacheLineSize : Word := 32#32

/-- The loop of `FlushDataCacheRange` and `InvalidateICacheRange`: the addresses it
hands to the coprocessor, if it ends within so many iterations. -/
def rangeLoop : Nat → Word → Word → Option (List Word)
  | 0, addr, stop => if addr < stop then none else some []
  | n + 1, addr, stop =>
      if addr < stop then (rangeLoop n (addr + cacheLineSize) stop).map (addr :: ·) else some []

/-- The addresses for a range.  There are `2 ^ 27` lines, so a loop that takes more
iterations never ends. -/
def lineAddresses (start stop : Word) : Option (List Word) :=
  rangeLoop (2 ^ 27) (start &&& ~~~(cacheLineSize - 1#32)) stop

/-- The loop ends below the last line of the address space. -/
theorem rangeLoop_eq {stop : Word} (hstop : stop.toNat + 31 < 2 ^ 32) (n : Nat) (addr : Word)
    (hn : (stop.toNat + 31 - addr.toNat) / 32 ≤ n) :
    rangeLoop n addr stop = some ((List.range ((stop.toNat + 31 - addr.toNat) / 32)).map
      fun i => addr + BitVec.ofNat 32 (32 * i)) := by
  induction n generalizing addr with
  | zero =>
      have hle : ¬ addr < stop := by
        rw [BitVec.lt_def]
        omega
      rw [rangeLoop, if_neg hle, Nat.le_zero.mp hn]
      rfl
  | succ n ih =>
      rw [rangeLoop]
      split_ifs with hlt
      · rw [BitVec.lt_def] at hlt
        have hnext : (addr + cacheLineSize).toNat = addr.toNat + 32 := by
          rw [BitVec.toNat_add]
          exact Nat.mod_eq_of_lt (show addr.toNat + 32 < 2 ^ 32 by omega)
        have hcount : (stop.toNat + 31 - addr.toNat) / 32 =
            (stop.toNat + 31 - (addr + cacheLineSize).toNat) / 32 + 1 := by
          rw [hnext]
          omega
        rw [ih _ (by omega), hcount, List.range_succ_eq_map, List.map_cons, List.map_map,
          Option.map_some, BitVec.add_zero]
        refine congrArg some (congrArg (addr :: ·) (List.map_congr_left fun i _ => ?_))
        have hstep : (32 * (i + 1) : Nat) = 32 + 32 * i := by omega
        rw [Function.comp, Nat.succ_eq_add_one, hstep, BitVec.ofNat_add, ← BitVec.add_assoc]
        rfl
      · rw [BitVec.lt_def] at hlt
        have hzero : (stop.toNat + 31 - addr.toNat) / 32 = 0 := by omega
        rw [hzero]
        rfl

/-- **The lines of a range.**  Below the last line of the address space, each line of
the range is handed to the coprocessor. -/
theorem lineAddresses_eq {start stop : Word} (hstop : stop.toNat + 31 < 2 ^ 32) :
    ∃ addrs, lineAddresses start stop = some addrs ∧
      ∀ x, start.toNat ≤ x → x < stop.toNat → ∃ a ∈ addrs, lineOf a.toNat = lineOf x := by
  have haligned : (start &&& ~~~(cacheLineSize - 1#32)).toNat = start.toNat / 2 ^ 5 * 2 ^ 5 :=
    toNat_and_high _ _ 5 (by omega) (by decide)
  refine ⟨_, rangeLoop_eq hstop _ _ (by omega), fun x hle hlt => ?_⟩
  refine ⟨_, List.mem_map.mpr ⟨(x - start.toNat / 32 * 32) / 32, ?_, rfl⟩, ?_⟩
  · rw [List.mem_range, haligned]
    omega
  · rw [BitVec.toNat_add, haligned, BitVec.toNat_ofNat]
    simp only [lineOf, lineSize]
    omega

/-! ## Operations -/

/-- `memcpy`, word by word. -/
def copyWords (dst src words : Nat) : List Instr :=
  (List.range words).map fun i => .copyWord (dst + 4 * i) (src + 4 * i)

/-- `memset`, word by word. -/
def fillWords (dst : Nat) (value : Byte) (words : Nat) : List Instr :=
  (List.range words).map fun i => .store (dst + 4 * i) (value ++ value ++ value ++ value)

/-- The steps of an operation, if it ends. -/
def instrsOf : BusOp → Option (List Instr)
  | .store a value => some [.store a value]
  | .copy dst src n => some (copyWords dst src (n / 4))
  | .fill dst value n => some (fillWords dst value (n / 4))
  | .setTtbr0 value => some [.setTtbr value]
  | .flushDataCacheRange start stop =>
      (lineAddresses start stop).map fun addrs => addrs.map fun a => .cleanLine (lineOf a.toNat)
  | .drainWriteBuffer => some [.drainWriteBuffer]
  | .invalidateTlb => some [.invalidateTlb, .drainWriteBuffer]
  | .alignedFree _ => some []

/-- The steps of a list of operations. -/
def instrs : List BusOp → Option (List Instr)
  | [] => some []
  | op :: rest => (instrsOf op).bind fun xs => (instrs rest).map (xs ++ ·)

/-- Words are aligned, what is copied is not overwritten by the copy, and ranges end
below the last line of the address space. -/
def Regular : BusOp → Prop
  | .store a _ => 4 ∣ a
  | .copy dst src n => 4 ∣ dst ∧ 4 ∣ n ∧ (Block.mk dst n).Apart ⟨src, n⟩
  | .fill dst _ n => 4 ∣ dst ∧ 4 ∣ n
  | .flushDataCacheRange _ stop => stop.toNat + 31 < 2 ^ 32
  | _ => True

theorem instrsOf_isSome {op : BusOp} (hop : Regular op) : ∃ xs, instrsOf op = some xs := by
  cases op with
  | flushDataCacheRange start stop =>
      obtain ⟨addrs, haddrs, -⟩ := @lineAddresses_eq start stop hop
      exact ⟨_, by rw [instrsOf, haddrs, Option.map_some]⟩
  | store | copy | fill | setTtbr0 | drainWriteBuffer | invalidateTlb | alignedFree =>
      exact ⟨_, rfl⟩

theorem instrs_cons {op : BusOp} {rest : List BusOp} {xs ys : List Instr}
    (hxs : instrsOf op = some xs) (hys : instrs rest = some ys) :
    instrs (op :: rest) = some (xs ++ ys) := by
  rw [instrs, hxs, Option.bind_some, hys, Option.map_some]

theorem instrs_append {ops rest : List BusOp} {xs ys : List Instr} (hxs : instrs ops = some xs)
    (hys : instrs rest = some ys) : instrs (ops ++ rest) = some (xs ++ ys) := by
  induction ops generalizing xs with
  | nil =>
      obtain rfl := Option.some.inj hxs
      exact hys
  | cons op ops ih =>
      rw [instrs, Option.bind_eq_some_iff] at hxs
      obtain ⟨zs, hzs, hxs⟩ := hxs
      rw [Option.map_eq_some_iff] at hxs
      obtain ⟨ws, hws, rfl⟩ := hxs
      rw [List.append_assoc]
      exact instrs_cons hzs (ih hws)

/-- Regular operations end. -/
theorem instrs_isSome {ops : List BusOp} (hops : ∀ op ∈ ops, Regular op) :
    ∃ xs, instrs ops = some xs := by
  induction ops with
  | nil => exact ⟨[], rfl⟩
  | cons op rest ih =>
      obtain ⟨xs, hxs⟩ := instrsOf_isSome (hops op List.mem_cons_self)
      obtain ⟨ys, hys⟩ := ih fun o ho => hops o (List.mem_cons_of_mem _ ho)
      exact ⟨_, instrs_cons hxs hys⟩

/-- The steps of a list of operations are those of its operations. -/
theorem forall_instrs {P : Instr → Prop} {ops : List BusOp}
    (h : ∀ op ∈ ops, ∀ xs, instrsOf op = some xs → ∀ x ∈ xs, P x) {xs : List Instr}
    (hxs : instrs ops = some xs) : ∀ x ∈ xs, P x := by
  induction ops generalizing xs with
  | nil =>
      obtain rfl := Option.some.inj hxs
      exact fun x hx => absurd hx (by simp)
  | cons op rest ih =>
      rw [instrs, Option.bind_eq_some_iff] at hxs
      obtain ⟨zs, hzs, hxs⟩ := hxs
      rw [Option.map_eq_some_iff] at hxs
      obtain ⟨ws, hws, rfl⟩ := hxs
      intro x hx
      rcases List.mem_append.mp hx with hx | hx
      · exact h op List.mem_cons_self zs hzs x hx
      · exact ih (fun o ho => h o (List.mem_cons_of_mem _ ho)) hws x hx

/-! ## What the processor sees -/

theorem effects_append (m : Memory) (xs ys : List Instr) :
    effects m (xs ++ ys) = effects (effects m xs) ys := List.foldl_append

/-- A copy word by word is a copy. -/
theorem effects_copyWords (m : Memory) {dst src words : Nat}
    (h : (Block.mk dst (4 * words)).Apart ⟨src, 4 * words⟩) :
    effects m (copyWords dst src words) = copyBytes m dst src (4 * words) := by
  induction words with
  | zero =>
      funext x
      exact (copyBytes_of_outside m dst src 0 (by omega)).symm
  | succ n ih =>
      have hbefore : (Block.mk dst (4 * n)).Apart ⟨src, 4 * n⟩ := fun a hd hs =>
        h a ⟨hd.1, by have := hd.2; simp only at this ⊢; omega⟩
          ⟨hs.1, by have := hs.2; simp only at this ⊢; omega⟩
      have hread : readWord (copyBytes m dst src (4 * n)) (src + 4 * n) =
          readWord m (src + 4 * n) := by
        refine readWord_congr fun x hle hlt => copyBytes_of_outside m dst src _ ?_
        by_contra hin
        exact h x ⟨by simp only; omega, by simp only; omega⟩
          ⟨by simp only; omega, by simp only; omega⟩
      have hsplit : copyWords dst src (n + 1) =
          copyWords dst src n ++ [.copyWord (dst + 4 * n) (src + 4 * n)] := by
        simp [copyWords, List.range_succ]
      rw [hsplit, effects_append, ih hbefore]
      funext x
      show writeWord _ (dst + 4 * n) (readWord _ (src + 4 * n)) x = _
      rw [hread]
      by_cases hlast : dst + 4 * n ≤ x ∧ x < dst + 4 * n + 4
      · have hsource : src + 4 * n + (x - (dst + 4 * n)) = src + (x - dst) := by omega
        rw [writeWord, if_pos hlast, extract_readWord m _ (by omega), hsource]
        exact (if_pos ⟨by omega, by omega⟩).symm
      · rw [writeWord, if_neg hlast]
        simp only [copyBytes]
        by_cases hx : dst ≤ x ∧ x < dst + 4 * n
        · rw [if_pos hx, if_pos ⟨hx.1, by omega⟩]
        · rw [if_neg hx, if_neg (by omega)]

theorem extract_replicate (value : Byte) {j : Nat} (hj : j < 4) :
    (value ++ value ++ value ++ value : Word).extractLsb' (8 * j) 8 = value := by
  exact extract_readWord (fun _ => value) 0 hj

/-- A fill word by word is a fill. -/
theorem effects_fillWords (m : Memory) (dst : Nat) (value : Byte) (words : Nat) :
    effects m (fillWords dst value words) = fillBytes m dst value (4 * words) := by
  induction words with
  | zero =>
      funext x
      exact (fillBytes_of_outside m dst value 0 (by omega)).symm
  | succ n ih =>
      have hsplit : fillWords dst value (n + 1) =
          fillWords dst value n ++ [.store (dst + 4 * n) (value ++ value ++ value ++ value)] := by
        simp [fillWords, List.range_succ]
      rw [hsplit, effects_append, ih]
      funext x
      show writeWord _ (dst + 4 * n) _ x = _
      by_cases hlast : dst + 4 * n ≤ x ∧ x < dst + 4 * n + 4
      · rw [writeWord, if_pos hlast, extract_replicate value (by omega)]
        exact (if_pos ⟨by omega, by omega⟩).symm
      · rw [writeWord, if_neg hlast]
        simp only [fillBytes]
        by_cases hx : dst ≤ x ∧ x < dst + 4 * n
        · rw [if_pos hx, if_pos ⟨hx.1, by omega⟩]
        · rw [if_neg hx, if_neg (by omega)]

/-- Steps that write nothing. -/
theorem effects_of_silent (m : Memory) {xs : List Instr} (h : ∀ x ∈ xs, ∀ m, x.effect m = m) :
    effects m xs = m := by
  induction xs with
  | nil => rfl
  | cons x rest ih =>
      rw [effects, List.foldl_cons, h x List.mem_cons_self]
      exact ih fun y hy => h y (List.mem_cons_of_mem _ hy)

/-- An operation does to the processor's memory what it does to the flat machine. -/
theorem effects_instrsOf {op : BusOp} (hop : Regular op) {xs : List Instr}
    (hxs : instrsOf op = some xs) (m : Machine) :
    effects m.mem xs = (m.exec op).mem := by
  cases op with
  | store a value =>
      obtain rfl := Option.some.inj hxs
      rfl
  | copy dst src n =>
      obtain rfl := Option.some.inj hxs
      obtain ⟨-, hn, hapart⟩ := hop
      have hwords : 4 * (n / 4) = n := by omega
      rw [effects_copyWords m.mem (by rwa [hwords]), hwords]
      rfl
  | fill dst value n =>
      obtain rfl := Option.some.inj hxs
      have hwords : 4 * (n / 4) = n := by
        have hn := hop.2
        omega
      rw [effects_fillWords, hwords]
      rfl
  | flushDataCacheRange start stop =>
      rw [instrsOf, Option.map_eq_some_iff] at hxs
      obtain ⟨addrs, -, rfl⟩ := hxs
      refine effects_of_silent m.mem fun x hx _ => ?_
      obtain ⟨a, -, rfl⟩ := List.mem_map.mp hx
      rfl
  | setTtbr0 | drainWriteBuffer | invalidateTlb | alignedFree =>
      obtain rfl := Option.some.inj hxs
      rfl

/-- **Refinement.**  The processor sees the flat machine. -/
theorem effects_instrs {ops : List BusOp} (hops : ∀ op ∈ ops, Regular op) {xs : List Instr}
    (hxs : instrs ops = some xs) (m : Machine) :
    effects m.mem xs = (m.execAll ops).mem := by
  induction ops generalizing xs m with
  | nil =>
      obtain rfl := Option.some.inj hxs
      rfl
  | cons op rest ih =>
      rw [instrs, Option.bind_eq_some_iff] at hxs
      obtain ⟨zs, hzs, hxs⟩ := hxs
      rw [Option.map_eq_some_iff] at hxs
      obtain ⟨ws, hws, rfl⟩ := hxs
      rw [effects_append, effects_instrsOf (hops op List.mem_cons_self) hzs,
        ih (fun o ho => hops o (List.mem_cons_of_mem _ ho)) hws]
      rfl

/-! ## What is cleaned -/

theorem aligned_instrsOf {op : BusOp} (hop : Regular op) {xs : List Instr}
    (hxs : instrsOf op = some xs) : ∀ x ∈ xs, x.Aligned := by
  intro x hx
  cases op with
  | store a value =>
      obtain rfl := Option.some.inj hxs
      obtain rfl := List.mem_singleton.mp hx
      exact hop
  | copy dst src n =>
      obtain rfl := Option.some.inj hxs
      obtain ⟨i, -, rfl⟩ := List.mem_map.mp hx
      exact Nat.dvd_add hop.1 ⟨i, rfl⟩
  | fill dst value n =>
      obtain rfl := Option.some.inj hxs
      obtain ⟨i, -, rfl⟩ := List.mem_map.mp hx
      exact Nat.dvd_add hop.1 ⟨i, rfl⟩
  | flushDataCacheRange start stop =>
      rw [instrsOf, Option.map_eq_some_iff] at hxs
      obtain ⟨addrs, -, rfl⟩ := hxs
      obtain ⟨a, -, rfl⟩ := List.mem_map.mp hx
      trivial
  | setTtbr0 value =>
      obtain rfl := Option.some.inj hxs
      obtain rfl := List.mem_singleton.mp hx
      trivial
  | drainWriteBuffer =>
      obtain rfl := Option.some.inj hxs
      obtain rfl := List.mem_singleton.mp hx
      trivial
  | invalidateTlb =>
      obtain rfl := Option.some.inj hxs
      simp only [List.mem_cons, List.not_mem_nil, or_false] at hx
      rcases hx with rfl | rfl <;> trivial
  | alignedFree ptr =>
      obtain rfl := Option.some.inj hxs
      exact absurd hx (by simp)

/-- The operation stores into the line. -/
def StoresTo (op : BusOp) (l : Nat) : Prop :=
  ∃ b, op.footprint = some b ∧ ∃ x, b.Holds x ∧ lineOf x = l

theorem not_dirties {op : BusOp} {l : Nat} (hop : ¬ StoresTo op l) {xs : List Instr}
    (hxs : instrsOf op = some xs) : ∀ x ∈ xs, ¬ x.Dirties l := by
  intro x hx hdirty
  cases op with
  | store a value =>
      obtain rfl := Option.some.inj hxs
      obtain rfl := List.mem_singleton.mp hx
      exact hop ⟨_, rfl, a, ⟨le_refl _, Nat.lt_add_of_pos_right (show 0 < 4 by omega)⟩, hdirty⟩
  | copy dst src n =>
      obtain rfl := Option.some.inj hxs
      obtain ⟨i, hi, rfl⟩ := List.mem_map.mp hx
      rw [List.mem_range] at hi
      exact hop ⟨_, rfl, dst + 4 * i, ⟨Nat.le_add_right _ _, show dst + 4 * i < dst + n by omega⟩,
        hdirty⟩
  | fill dst value n =>
      obtain rfl := Option.some.inj hxs
      obtain ⟨i, hi, rfl⟩ := List.mem_map.mp hx
      rw [List.mem_range] at hi
      exact hop ⟨_, rfl, dst + 4 * i, ⟨Nat.le_add_right _ _, show dst + 4 * i < dst + n by omega⟩,
        hdirty⟩
  | flushDataCacheRange start stop =>
      rw [instrsOf, Option.map_eq_some_iff] at hxs
      obtain ⟨addrs, -, rfl⟩ := hxs
      obtain ⟨a, -, rfl⟩ := List.mem_map.mp hx
      exact hdirty
  | setTtbr0 value =>
      obtain rfl := Option.some.inj hxs
      obtain rfl := List.mem_singleton.mp hx
      exact hdirty
  | drainWriteBuffer =>
      obtain rfl := Option.some.inj hxs
      obtain rfl := List.mem_singleton.mp hx
      exact hdirty
  | invalidateTlb =>
      obtain rfl := Option.some.inj hxs
      simp only [List.mem_cons, List.not_mem_nil, or_false] at hx
      rcases hx with rfl | rfl <;> exact hdirty
  | alignedFree ptr =>
      obtain rfl := Option.some.inj hxs
      exact absurd hx (by simp)

/-- The range meets the line of the address. -/
def Flushes (x : Nat) : BusOp → Prop
  | .flushDataCacheRange start stop =>
      ∃ y, start.toNat ≤ y ∧ y < stop.toNat ∧ lineOf y = lineOf x
  | _ => False

/-- The address is flushed, and no later operation stores into its line. -/
def Flushed (x : Nat) : List BusOp → Prop
  | [] => False
  | op :: rest => Flushed x rest ∨ (Flushes x op ∧ ∀ o ∈ rest, ¬ StoresTo o (lineOf x))

theorem Flushed.append_left {x : Nat} (xs : List BusOp) {ys : List BusOp} (h : Flushed x ys) :
    Flushed x (xs ++ ys) := by
  induction xs with
  | nil => exact h
  | cons op rest ih => exact .inl ih

/-- Lines are flushed as a whole. -/
theorem Flushed.of_line {x y : Nat} {ops : List BusOp} (h : Flushed y ops)
    (hline : lineOf y = lineOf x) : Flushed x ops := by
  induction ops with
  | nil => exact h
  | cons op rest ih =>
      rcases h with hrest | ⟨hflush, hnone⟩
      · exact .inl (ih hrest)
      · rw [hline] at hnone
        refine .inr ⟨?_, hnone⟩
        cases op with
        | flushDataCacheRange start stop =>
            obtain ⟨z, hle, hlt, hz⟩ := hflush
            exact ⟨z, hle, hlt, hz.trans hline⟩
        | store | copy | fill | setTtbr0 | drainWriteBuffer | invalidateTlb | alignedFree =>
            exact hflush

theorem cleaned_append_left {l : Nat} (xs : List Instr) {ys : List Instr} (h : Cleaned l ys) :
    Cleaned l (xs ++ ys) := by
  induction xs with
  | nil => exact h
  | cons x rest ih => exact .inl ih

/-- What is flushed is cleaned. -/
theorem cleaned_instrs {x : Nat} {ops : List BusOp} (hops : ∀ op ∈ ops, Regular op)
    (hflushed : Flushed x ops) {xs : List Instr} (hxs : instrs ops = some xs) :
    Cleaned (lineOf x) xs := by
  induction ops generalizing xs with
  | nil => exact hflushed.elim
  | cons op rest ih =>
      rw [instrs, Option.bind_eq_some_iff] at hxs
      obtain ⟨zs, hzs, hxs⟩ := hxs
      rw [Option.map_eq_some_iff] at hxs
      obtain ⟨ws, hws, rfl⟩ := hxs
      rcases hflushed with hrest | ⟨hflush, hnone⟩
      · exact cleaned_append_left zs (ih (fun o ho => hops o (List.mem_cons_of_mem _ ho)) hrest hws)
      · cases op with
        | flushDataCacheRange start stop =>
            obtain ⟨addrs, haddrs, hlines⟩ := @lineAddresses_eq start stop
              (hops _ List.mem_cons_self)
            obtain ⟨y, hle, hlt, hsame⟩ := hflush
            obtain ⟨a, ha, hline⟩ := hlines y hle hlt
            rw [instrsOf, haddrs, Option.map_some] at hzs
            obtain rfl := Option.some.inj hzs
            obtain ⟨before, after, rfl⟩ := List.append_of_mem ha
            rw [List.map_append, List.map_cons, List.append_assoc, List.cons_append, hline,
              hsame]
            refine cleaned_append_left _ (.inr ⟨rfl, fun j hj => ?_⟩)
            rcases List.mem_append.mp hj with hj | hj
            · obtain ⟨b, -, rfl⟩ := List.mem_map.mp hj
              exact id
            · exact forall_instrs (fun o ho _ hzs => not_dirties (hnone o ho) hzs) hws j hj
        | store | copy | fill | setTtbr0 | drainWriteBuffer | invalidateTlb | alignedFree =>
            exact hflush.elim

/-! ## Table updates -/

/-- Memory holds what the operations wrote, and the TLB agrees with the tables. -/
structure Current (ops : List BusOp) (h h' : Hardware) : Prop where
  memory : ∀ op ∈ ops, ∀ b, op.footprint = some b → ∀ x, b.Holds x →
    h'.cached.mem x = ((Machine.mk h.cached.view h.ttbr).execAll ops).mem x
  tlb : h'.Agrees

/-- Operations that flush what they store, and then invalidate the TLB. -/
structure Update (ops work : List BusOp) : Prop where
  shape : ∃ freed : List Word, ops = work ++ .invalidateTlb :: freed.map .alignedFree
  regular : ∀ op ∈ work, Regular op
  flushed : ∀ op ∈ work, ∀ b, op.footprint = some b → ∀ x, b.Holds x → Flushed x work

/-- The rest of an update stores nothing. -/
theorem execAll_freed (m : Machine) (freed : List Word) :
    m.execAll (.invalidateTlb :: freed.map .alignedFree) = m := by
  induction freed with
  | nil => rfl
  | cons p rest ih => exact ih

theorem instrs_freed (freed : List Word) : instrs (freed.map .alignedFree) = some [] := by
  induction freed with
  | nil => rfl
  | cons p rest ih => rw [List.map_cons, instrs_cons rfl ih, List.append_nil]

/-- **Updates.**  An update ends, and if no walk in its window finds what the write
buffer is about to change, the tables are current when it does. -/
theorem Update.current {ops work : List BusOp} (hupdate : Update ops work) (h : Hardware) :
    ∃ todo, instrs ops = some todo ∧ ∀ events,
      Allowed Config.step Config.Fresh ⟨h, todo⟩ events →
      (run Config.step ⟨h, todo⟩ events).todo = [] →
      Current ops h (run Config.step ⟨h, todo⟩ events).hardware := by
  obtain ⟨⟨freed, rfl⟩, hregular, hflushed⟩ := hupdate
  obtain ⟨xs, hxs⟩ := instrs_isSome hregular
  have htail : instrs (.invalidateTlb :: freed.map .alignedFree) =
      some [.invalidateTlb, .drainWriteBuffer] := by
    have hinvalidate : instrsOf .invalidateTlb = some [.invalidateTlb, .drainWriteBuffer] := rfl
    rw [instrs_cons hinvalidate (instrs_freed freed), List.append_nil]
  refine ⟨_, instrs_append hxs htail, fun events hfresh hdone => ?_⟩
  have hwritten : ∀ x, Flushed x work → Cleaned (lineOf x) xs := fun x hx =>
    cleaned_instrs hregular hx hxs
  have hsettled := @update_run h xs (fun x => Flushed x work)
    (forall_instrs (fun op hop _ hzs => aligned_instrsOf (hregular op hop) hzs) hxs) hwritten
    events hfresh hdone
  refine ⟨fun op hop b hb x hx => ?_, hsettled.2.2⟩
  have hwork : op ∈ work := by
    rcases List.mem_append.mp hop with hop | hop
    · exact hop
    · rcases List.mem_cons.mp hop with rfl | hop
      · exact absurd hb (by simp [BusOp.footprint])
      · obtain ⟨p, -, rfl⟩ := List.mem_map.mp hop
        exact absurd hb (by simp [BusOp.footprint])
  rw [hsettled.mem _ _ (hflushed op hwork b hb x hx), Machine.execAll_append, execAll_freed,
    ← effects_instrs hregular hxs]

end NspireUtils.Ports.Caches
