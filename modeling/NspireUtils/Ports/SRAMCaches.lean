import NspireUtils.Ports.CacheRanges
import NspireUtils.Ports.SRAMWindows
import NspireUtils.Verified.AliasedCopy

/-!
# `SRAM_Accessor` on a cached machine

The data cache of the processor is indexed by virtual address, and the three
addresses of the accessor are aliases of two blocks.  `CachedSystem` is the
accessor's system with such a cache in front of memory: the tables, the object
and the callbacks go their way as in `System`, the copies and the cache
maintenance act on the cache.  Where nothing is cached, a call ends as on `System`
(`flat_execAll`).

The tables stay apart from the memory the cache writes back to.  A buffered
store is modelled as having reached memory, which it has once `DrainWriteBuffer`
returned.
-/

namespace NspireUtils.Ports.SRAMCaches

open NspireUtils.Verified.ByteMemory
open NspireUtils.Verified.ShortDescriptor
open NspireUtils.Verified.Runs
open NspireUtils.Verified.WriteBackCache (lineSize lineOf)
open NspireUtils.Verified.VirtualCache
open NspireUtils.Verified.AliasedCopy (WordCopy Instr)
open NspireUtils.Ports.Caches
open NspireUtils.Ports.CacheRanges
open NspireUtils.Ports.MMUDescriptors
open NspireUtils.Ports.TableEditors
open NspireUtils.Ports.SRAMAccessor
open NspireUtils.Ports.SRAMRelocation
open NspireUtils.Ports.SRAMLifetime
open NspireUtils.Ports.SRAMRestore
open NspireUtils.Ports.SRAMWindows

/-- What the C and B bits of a translation select. -/
def policyOf (t : Translation) : Policy :=
  if t.cache = 0b11#2 then .writeBack else if t.cache = 0b10#2 then .writeThrough else .uncached

/-- The policy at a virtual address. -/
def policyAt (s : System) (va : Word) : Policy :=
  match s.walk va with
  | .mapped t => policyOf t
  | _ => .uncached

/-- The lines `FlushDataCacheRange` cleans. -/
def flushedLines (start stop : Word) : List Nat :=
  ((lineAddresses start stop).getD []).map fun a => lineOf a.toNat

/-- What an operation does to the cache. -/
def cacheInstr (s : System) (op : SRAMOp) : Instr :=
  if s.failure.isSome then .other
  else
    match op with
    | .copyWord dst src =>
        match s.walk src, s.walk dst with
        | .mapped t, .mapped u =>
            .copyWord
              { srcPolicy := policyOf t
                src := src.toNat
                srcPhysical := t.physical.toNat
                dstPolicy := policyOf u
                dst := dst.toNat
                dstPhysical := u.physical.toNat }
        | _, _ => .other
    | .flushDataCacheRange start stop => .cleanLines (flushedLines start stop)
    | _ => .other

/-- What it does to the rest: everything but the bytes that are copied. -/
def execTables (s : System) (op : SRAMOp) : System := { s.exec op with mem := s.mem }

/-- The accessor's system, and memory behind the cache. -/
structure CachedSystem where
  system : System
  cache : Virtual

/-- One operation; a failure skips the rest of the call. -/
def CachedSystem.exec (s : CachedSystem) (op : SRAMOp) : CachedSystem :=
  { system := execTables s.system op
    cache := Verified.AliasedCopy.exec s.cache (cacheInstr s.system op) }

/-- The state of a run: the system and the operations of the running call. -/
structure CachedConfig where
  state : CachedSystem
  todo : List SRAMOp

/-- One step: an operation of the call, or an eviction. -/
def CachedConfig.step (c : CachedConfig) : Verified.AliasedCopy.Event → CachedConfig
  | .program =>
      match c.todo with
      | [] => c
      | op :: rest => { state := c.state.exec op, todo := rest }
  | .evict l => { c with state := { c.state with cache := c.state.cache.evict l } }

/-! ## The call as a program on the cache -/

/-- The instructions of a call.  They depend on the tables alone. -/
def instrs : System → List SRAMOp → List Instr
  | _, [] => []
  | s, op :: rest => cacheInstr s op :: instrs (execTables s op) rest

/-- The tables after a call. -/
def execAllTables (s : System) (ops : List SRAMOp) : System := ops.foldl execTables s

theorem execAllTables_append (s : System) (xs ys : List SRAMOp) :
    execAllTables s (xs ++ ys) = execAllTables (execAllTables s xs) ys :=
  List.foldl_append

theorem instrs_append (xs ys : List SRAMOp) : ∀ s : System,
    instrs s (xs ++ ys) = instrs s xs ++ instrs (execAllTables s xs) ys := by
  induction xs with
  | nil => intro s; rfl
  | cons op rest ih => intro s; exact congrArg (cacheInstr s op :: ·) (ih (execTables s op))

/-- What is left of the tables is the program on the cache. -/
def onCache (c : CachedConfig) : Verified.AliasedCopy.Config :=
  { cache := c.state.cache, todo := instrs c.state.system c.todo }

theorem onCache_step (c : CachedConfig) (e : Verified.AliasedCopy.Event) :
    onCache (c.step e) = (onCache c).step e := by
  obtain ⟨s, todo⟩ := c
  cases e with
  | evict l => rfl
  | program => cases todo <;> rfl

/-- A call acts on the cache as its program. -/
theorem onCache_run (events : List Verified.AliasedCopy.Event) : ∀ c : CachedConfig,
    onCache (run CachedConfig.step c events) =
      run Verified.AliasedCopy.Config.step (onCache c) events := by
  induction events with
  | nil => intro c; rfl
  | cons e rest ih =>
      intro c
      rw [run_cons, ih, onCache_step]
      rfl

/-- They end together. -/
theorem onCache_done (c : CachedConfig) : (onCache c).todo = [] ↔ c.todo = [] := by
  obtain ⟨s, todo⟩ := c
  cases todo <;> simp [onCache, instrs]

/-! ## The policies -/

/-- What a cache policy of the library selects. -/
def selected : MMUCachePolicy → Policy
  | .nonCachedNonBuffered => .uncached
  | .nonCachedWriteBuffered => .uncached
  | .writeThroughCache => .writeThrough
  | .writeBackCache => .writeBack

theorem selected_eq_writeBack (cp : MMUCachePolicy) :
    selected cp = .writeBack ↔ cp = .writeBackCache := by
  cases cp <;> decide

/-- A section has the policy its descriptor was built with. -/
theorem policyAt_section {s : System} {va physicalAddr : Word} {ap : MMUAccessPermission}
    {cp : MMUCachePolicy} {domain : Byte}
    (h : s.l1 (l1IndexOf va) = sectionDescriptor physicalAddr (sectionAttributes ap cp domain)) :
    policyAt s va = selected cp := by
  obtain ⟨htype, -, -, hcache, -⟩ := sectionDescriptor_fields physicalAddr ap cp domain
  rw [policyAt, System.walk, h, walkEntry_section s.mem va htype]
  simp only [policyOf, hcache]
  cases cp <;> rfl

/-! ## The operations -/

section Operations

variable {s : System} (hrunning : s.failure = none)

/-- Only copies and cleaning reach the cache. -/
theorem cacheInstr_other {op : SRAMOp} (hcopy : ∀ dst src, op ≠ .copyWord dst src)
    (hflush : ∀ start stop, op ≠ .flushDataCacheRange start stop) : cacheInstr s op = .other := by
  unfold cacheInstr
  split_ifs
  · rfl
  · cases op with
    | copyWord dst src => exact absurd rfl (hcopy dst src)
    | flushDataCacheRange start stop => exact absurd rfl (hflush start stop)
    | _ => rfl

include hrunning

theorem cacheInstr_copyWord {dst src : Word} {t u : Translation} (ht : s.walk src = .mapped t)
    (hu : s.walk dst = .mapped u) :
    cacheInstr s (.copyWord dst src) =
      .copyWord
        { srcPolicy := policyAt s src
          src := src.toNat
          srcPhysical := t.physical.toNat
          dstPolicy := policyAt s dst
          dst := dst.toNat
          dstPhysical := u.physical.toNat } := by
  simp only [cacheInstr, policyAt, hrunning, ht, hu]
  rfl

theorem execTables_copyWord {dst src : Word} {t u : Translation} (ht : s.walk src = .mapped t)
    (hu : s.walk dst = .mapped u) : execTables s (.copyWord dst src) = s := by
  rw [execTables, exec_copyWord hrunning ht hu]

end Operations

/-- The words of a `memcpy` whose addresses are mapped. -/
theorem instrs_copyOps {s : System} {dst src : Word} {is : List Nat}
    (hmapped : ∀ i ∈ is, execTables s (copyOp dst src i) = s) :
    instrs s (is.map (copyOp dst src)) = is.map (fun i => cacheInstr s (copyOp dst src i)) ∧
      execAllTables s (is.map (copyOp dst src)) = s := by
  induction is with
  | nil => exact ⟨rfl, rfl⟩
  | cons i rest ih =>
      have hfirst := hmapped i List.mem_cons_self
      obtain ⟨hinstrs, htables⟩ := ih fun j hj => hmapped j (List.mem_cons_of_mem _ hj)
      refine ⟨?_, ?_⟩
      · rw [List.map_cons, instrs, hfirst, hinstrs, List.map_cons]
      · rw [List.map_cons, execAllTables, List.foldl_cons, hfirst]
        exact htables

/-- Without copies, a call cleans what it flushes and does nothing else to the cache. -/
theorem instrs_of_nocopy {ops : List SRAMOp} (hnocopy : ∀ dst src, SRAMOp.copyWord dst src ∉ ops) :
    ∀ (s : System) (i : Instr), i ∈ instrs s ops → i = .other ∨ ∃ start stop,
      .flushDataCacheRange start stop ∈ ops ∧ i = .cleanLines (flushedLines start stop) := by
  induction ops with
  | nil => intro s i hi; exact absurd hi List.not_mem_nil
  | cons op rest ih =>
      intro s i hi
      rcases List.mem_cons.mp hi with rfl | hrest
      · unfold cacheInstr
        split_ifs
        · exact .inl rfl
        · cases op with
          | copyWord dst src => exact absurd List.mem_cons_self (hnocopy dst src)
          | flushDataCacheRange start stop => exact .inr ⟨start, stop, List.mem_cons_self, rfl⟩
          | _ => exact .inl rfl
      · have hrestcopy : ∀ dst src, SRAMOp.copyWord dst src ∉ rest := fun dst src hin =>
          hnocopy dst src (List.mem_cons_of_mem _ hin)
        refine (ih hrestcopy _ i hrest).imp_right fun hflush => ?_
        obtain ⟨start, stop, hmem, heq⟩ := hflush
        exact ⟨start, stop, List.mem_cons_of_mem _ hmem, heq⟩

/-- Without copies, the call is what it is on the plain system. -/
theorem execAllTables_of_nocopy {ops : List SRAMOp}
    (hnocopy : ∀ dst src, SRAMOp.copyWord dst src ∉ ops) :
    ∀ s : System, execAllTables s ops = s.execAll ops := by
  induction ops with
  | nil => intro s; rfl
  | cons op rest ih =>
      intro s
      have hmem : (s.execAll [op]).mem = s.mem :=
        execAll_mem (fun dst src hin => hnocopy dst src
          (List.mem_cons.mpr (.inl (List.mem_singleton.mp hin)))) s
      have hfirst : execTables s op = s.exec op := by
        rw [execTables, ← hmem]
        rfl
      rw [execAllTables, List.foldl_cons, hfirst, System.execAll_cons]
      exact ih (fun dst src hin => hnocopy dst src (List.mem_cons_of_mem _ hin)) (s.exec op)

/-- The lines of a block that ends below the last line. -/
theorem mem_flushedLines {start : Word} {size : Nat} (hsize : start.toNat + size ≤ 0xFFFFFFE0)
    (hpos : 0 < size) {l : Nat} :
    l ∈ flushedLines start (start + BitVec.ofNat 32 size) ↔
      ∃ o, o < size ∧ lineOf (start.toNat + o) = l := by
  have hstop : (start + BitVec.ofNat 32 size).toNat = start.toNat + size := by
    rw [BitVec.toNat_add, BitVec.toNat_ofNat]
    omega
  have haddrs := @lineAddresses_of_le start (start + BitVec.ofNat 32 size) (by omega)
  have hlines := (oncePerLine (by omega) (by omega) haddrs).2 l
  rw [flushedLines, haddrs, Option.getD_some, hlines, hstop]
  constructor
  · rintro ⟨x, hle, hlt, rfl⟩
    exact ⟨x - start.toNat, by omega, by rw [Nat.add_sub_cancel' hle]⟩
  · rintro ⟨o, ho, rfl⟩
    exact ⟨start.toNat + o, by omega, by omega, rfl⟩

/-- The lines of the clone, which is aligned. -/
theorem mem_flushedClone {clone : Word} (haligned : 2 ^ 20 ∣ clone.toNat) {l : Nat} :
    l ∈ flushedLines clone (clone + BitVec.ofNat 32 sramSize) ↔
      ∃ o, o < sramSize ∧ lineOf (clone.toNat + o) = l := by
  have hlt := clone.isLt
  refine mem_flushedLines ?_ (by decide)
  unfold sramSize
  omega

/-! ## Without caching -/

/-- The plain system one sees when the cache holds no line. -/
def CachedSystem.flat (c : CachedSystem) : System := { c.system with mem := c.cache.mem }

/-- What is copied is not cached, wherever the tables are read from. -/
def PlainOp (s : System) (op : SRAMOp) : Prop :=
  ∀ dst src, op = .copyWord dst src →
    policyAt s src = .uncached ∧ policyAt s dst = .uncached ∧
      ∀ mem, ({ s with mem } : System).walk src = s.walk src ∧
        ({ s with mem } : System).walk dst = s.walk dst

/-- The same along a call. -/
def PlainOps : System → List SRAMOp → Prop
  | _, [] => True
  | s, op :: rest => PlainOp s op ∧ PlainOps (execTables s op) rest

/-- A word copied uncached. -/
theorem copyWord_uncached (v : Virtual) (src srcPhysical dst dstPhysical : Nat) :
    v.copyWord .uncached src srcPhysical .uncached dst dstPhysical =
      { v with mem := writeWord v.mem dstPhysical (readWord v.mem srcPhysical) } := by
  have hload : v.loadWord .uncached src srcPhysical = readWord v.mem srcPhysical :=
    readWord_shift fun i _ => by rw [Nat.zero_add]; rfl
  have hfill : v.fill .uncached (lineOf src) (lineOf srcPhysical) = v := if_neg (by decide)
  rw [Virtual.copyWord, hfill, hload]
  rfl

/-- Only copies look at memory. -/
theorem perform_mem (s : System) (mem : Memory) {op : SRAMOp}
    (hcopy : ∀ dst src, op ≠ .copyWord dst src) :
    ({ s with mem } : System).perform op = { s.perform op with mem } := by
  cases op with
  | copyWord dst src => exact absurd rfl (hcopy dst src)
  | checkIdentityMapped =>
      simp only [System.perform, System.getEntry]
      split_ifs <;> rfl
  | disableInterrupts | enableInterrupts | mapSectionInDomain | mapSection | map =>
      simp only [System.perform, System.mapSection, System.map]
      split_ifs <;> rfl
  | _ => rfl

theorem exec_mem (s : System) (mem : Memory) {op : SRAMOp}
    (hcopy : ∀ dst src, op ≠ .copyWord dst src) :
    ({ s with mem } : System).exec op = { s.exec op with mem } := by
  by_cases hrunning : s.failure = none
  · rw [System.exec_of_running hrunning, ← perform_mem s mem hcopy]
    exact System.exec_of_running (s := { s with mem }) hrunning op
  · rw [exec_of_failed hrunning]
    exact exec_of_failed (s := { s with mem }) hrunning op

section Failures

variable {s : System} {dst src : Word}

/-- After a failure no instruction is left. -/
theorem cacheInstr_failed (hfailed : s.failure ≠ none) (op : SRAMOp) :
    cacheInstr s op = .other := if_pos (Option.isSome_iff_ne_none.mpr hfailed)

/-- A copy that aborts leaves the cache alone. -/
theorem cacheInstr_abort (h : ¬ ∃ t u, s.walk src = .mapped t ∧ s.walk dst = .mapped u) :
    cacheInstr s (.copyWord dst src) = .other := by
  unfold cacheInstr
  split_ifs
  · rfl
  · simp only
    split
    · next t u ht hu => exact absurd ⟨t, u, ht, hu⟩ h
    · rfl

theorem exec_abort (hrunning : s.failure = none)
    (h : ¬ ∃ t u, s.walk src = .mapped t ∧ s.walk dst = .mapped u) :
    s.exec (.copyWord dst src) = { s with failure := some .dataAbort } := by
  rw [System.exec_of_running hrunning, System.perform]
  split
  · next t u ht hu => exact absurd ⟨t, u, ht, hu⟩ h
  · rfl

end Failures

/-- A copy does on the cache without lines what it does on memory. -/
theorem flat_exec_copyWord {s : System} (v : Virtual) {dst src : Word}
    (h : PlainOp s (.copyWord dst src)) :
    (CachedSystem.exec ⟨s, v⟩ (.copyWord dst src)).flat =
        ({ s with mem := v.mem } : System).exec (.copyWord dst src) ∧
      (CachedSystem.exec ⟨s, v⟩ (.copyWord dst src)).cache.lines = v.lines := by
  obtain ⟨hsrc, hdst, hwalk⟩ := h dst src rfl
  by_cases hrunning : s.failure = none
  · by_cases hmapped : ∃ t u, s.walk src = .mapped t ∧ s.walk dst = .mapped u
    · obtain ⟨t, u, ht, hu⟩ := hmapped
      rw [exec_copyWord (s := { s with mem := v.mem }) hrunning ((hwalk v.mem).1.trans ht)
        ((hwalk v.mem).2.trans hu)]
      simp only [CachedSystem.exec, CachedSystem.flat, cacheInstr_copyWord hrunning ht hu, hsrc,
        hdst, execTables_copyWord hrunning ht hu, Verified.AliasedCopy.exec, copyWord_uncached]
      exact ⟨trivial, trivial⟩
    · have hflat : ¬ ∃ t u, ({ s with mem := v.mem } : System).walk src = .mapped t ∧
          ({ s with mem := v.mem } : System).walk dst = .mapped u := by
        rwa [(hwalk v.mem).1, (hwalk v.mem).2]
      rw [exec_abort (s := { s with mem := v.mem }) hrunning hflat]
      simp only [CachedSystem.exec, CachedSystem.flat, cacheInstr_abort hmapped, execTables,
        exec_abort hrunning hmapped, Verified.AliasedCopy.exec]
      exact ⟨trivial, trivial⟩
  · rw [exec_of_failed (s := { s with mem := v.mem }) hrunning]
    simp only [CachedSystem.exec, CachedSystem.flat, cacheInstr_failed hrunning, execTables,
      exec_of_failed hrunning, Verified.AliasedCopy.exec]
    exact ⟨trivial, trivial⟩

/-- An operation that finds no line and copies uncached does what it does on the plain
system. -/
theorem flat_exec {c : CachedSystem} {op : SRAMOp} (hlines : ∀ l, c.cache.lines l = none)
    (h : PlainOp c.system op) :
    (c.exec op).flat = c.flat.exec op ∧ ∀ l, (c.exec op).cache.lines l = none := by
  obtain ⟨s, v⟩ := c
  by_cases hcopy : ∃ dst src, op = .copyWord dst src
  · obtain ⟨dst, src, rfl⟩ := hcopy
    obtain ⟨hexec, hkept⟩ := flat_exec_copyWord v h
    exact ⟨hexec, fun l => by rw [hkept]; exact hlines l⟩
  · have hnocopy : ∀ dst src, op ≠ .copyWord dst src := fun dst src heq =>
      hcopy ⟨dst, src, heq⟩
    have hcache : Verified.AliasedCopy.exec v (cacheInstr s op) = v := by
      by_cases hflush : ∃ start stop, op = .flushDataCacheRange start stop
      · obtain ⟨start, stop, rfl⟩ := hflush
        unfold cacheInstr
        split_ifs
        · rfl
        · refine v.cleanAll_of_not_dirty fun l _ e he => ?_
          rw [hlines l] at he
          cases he
      · rw [cacheInstr_other hnocopy fun start stop heq => hflush ⟨start, stop, heq⟩]
        rfl
    refine ⟨?_, fun l => ?_⟩
    · unfold CachedSystem.flat CachedSystem.exec execTables
      rw [hcache]
      exact (exec_mem s v.mem hnocopy).symm
    · unfold CachedSystem.exec
      rw [hcache]
      exact hlines l

/-- **Without caching.**  A call that starts with no line and copies uncached ends as on
the plain system. -/
theorem flat_execAll {ops : List SRAMOp} : ∀ {c : CachedSystem},
    (∀ l, c.cache.lines l = none) → PlainOps c.system ops →
      (ops.foldl CachedSystem.exec c).flat = c.flat.execAll ops := by
  induction ops with
  | nil => intro c _ _; rfl
  | cons op rest ih =>
      intro c hlines h
      obtain ⟨hop, hrest⟩ := h
      obtain ⟨hexec, hlinesAfter⟩ := flat_exec hlines hop
      rw [System.execAll_cons, ← hexec]
      exact ih hlinesAfter hrest

end NspireUtils.Ports.SRAMCaches
