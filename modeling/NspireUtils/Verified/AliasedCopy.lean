import NspireUtils.Verified.Runs
import NspireUtils.Verified.VirtualCache

/-!
# Copying a block under one address to a block with another

A block that is read at its physical address is copied, word by word, to a block that
is written through an alias; then the lines of the source are cleaned.  Lines are
evicted at any time.

`copied_iff` says when the copy has reached memory at the end, whatever was evicted
meanwhile: the alias must not be written back, and the lines in the cache at the start
must not be able to spoil the copy.
-/

namespace NspireUtils.Verified.AliasedCopy

open NspireUtils.Verified.ByteMemory
open NspireUtils.Verified.Runs
open NspireUtils.Verified.WriteBackCache (lineSize lineOf)
open NspireUtils.Verified.VirtualCache

/-! ## Programs on the cache -/

/-- Where a word is loaded and where it is stored. -/
structure WordCopy where
  srcPolicy : Policy
  src : Nat
  srcPhysical : Nat
  dstPolicy : Policy
  dst : Nat
  dstPhysical : Nat
  deriving Repr, DecidableEq

inductive Instr where
  | copyWord (w : WordCopy)
  | cleanLines (ls : List Nat)
  | other
  deriving Repr, DecidableEq

def exec (s : Virtual) : Instr → Virtual
  | .copyWord w => s.copyWord w.srcPolicy w.src w.srcPhysical w.dstPolicy w.dst w.dstPhysical
  | .cleanLines ls => s.cleanAll ls
  | .other => s

/-- The instructions of a program one after the other. -/
def execAll (s : Virtual) (is : List Instr) : Virtual := is.foldl exec s

/-- Lines are evicted one after the other. -/
def evictAll (s : Virtual) (ls : List Nat) : Virtual := ls.foldl Virtual.evict s

/-- The cache, and what the program has still to do. -/
structure Config where
  cache : Virtual
  todo : List Instr

inductive Event where
  | program
  | evict (l : Nat)
  deriving Repr, DecidableEq

def Config.step (c : Config) : Event → Config
  | .program =>
      match c.todo with
      | [] => c
      | i :: rest => ⟨exec c.cache i, rest⟩
  | .evict l => ⟨c.cache.evict l, c.todo⟩

theorem run_program (is rest : List Instr) : ∀ s : Virtual,
    run Config.step ⟨s, is ++ rest⟩ (List.replicate is.length .program) =
      ⟨execAll s is, rest⟩ := by
  induction is with
  | nil => intro s; rfl
  | cons i others ih => intro s; exact ih (exec s i)

theorem run_evict (ls : List Nat) (todo : List Instr) : ∀ s : Virtual,
    run Config.step ⟨s, todo⟩ (ls.map .evict) = ⟨evictAll s ls, todo⟩ := by
  induction ls with
  | nil => intro s; rfl
  | cons l rest ih => intro s; exact ih (s.evict l)

/-- Two parts of a program, with evictions before each. -/
theorem run_schedule (s : Virtual) (before between : List Nat) (is rest : List Instr) :
    run Config.step ⟨s, is ++ rest⟩ (before.map .evict ++ (List.replicate is.length .program ++
        (between.map .evict ++ List.replicate rest.length .program))) =
      ⟨execAll (evictAll (execAll (evictAll s before) is) between) rest, []⟩ := by
  have hrest := run_program rest []
  simp only [List.append_nil] at hrest
  rw [run_append, run_evict, run_append, run_program, run_append, run_evict, hrest]

theorem lines_evictAll_of_notMem {ls : List Nat} {k : Nat} (hk : k ∉ ls) :
    ∀ s : Virtual, (evictAll s ls).lines k = s.lines k := by
  induction ls with
  | nil => intro s; rfl
  | cons l rest ih =>
      intro s
      obtain ⟨hne, hrest⟩ := List.ne_and_not_mem_of_not_mem_cons hk
      exact (ih hrest (s.evict l)).trans (s.lines_evict_of_ne hne)

theorem lines_evictAll_of_mem {ls : List Nat} {k : Nat} (hk : k ∈ ls) :
    ∀ s : Virtual, (evictAll s ls).lines k = none := by
  induction ls with
  | nil => exact absurd hk List.not_mem_nil
  | cons l rest ih =>
      intro s
      by_cases hrest : k ∈ rest
      · exact ih hrest (s.evict l)
      · obtain rfl : k = l := (List.mem_cons.mp hk).resolve_right hrest
        exact (lines_evictAll_of_notMem hrest (s.evict k)).trans (s.lines_evict_self k)

/-! ## The copy -/

/-- `words` words from `src`, where virtual and physical addresses are the same, to
`dst`, which is mapped to `dstPhysical`. -/
structure BlockCopy where
  words : Nat
  src : Nat
  srcPolicy : Nat → Policy
  dst : Nat
  dstPhysical : Nat
  dstPolicy : Policy

namespace BlockCopy

def size (c : BlockCopy) : Nat := 4 * c.words

/-- Word `i` of the copy. -/
def word (c : BlockCopy) (i : Nat) : WordCopy :=
  { srcPolicy := c.srcPolicy i
    src := c.src + 4 * i
    srcPhysical := c.src + 4 * i
    dstPolicy := c.dstPolicy
    dst := c.dst + 4 * i
    dstPhysical := c.dstPhysical + 4 * i }

/-- A byte of the source as the copy reads it. -/
def readSrc (c : BlockCopy) (s : Virtual) (o : Nat) : Byte :=
  s.read (c.srcPolicy (o / 4)) (c.src + o) (c.src + o)

/-- The lines of the source. -/
def srcLines (c : BlockCopy) : List Nat :=
  (List.range c.size).map fun o => lineOf (c.src + o)

/-- The blocks consist of lines, and share none. -/
structure Placed (c : BlockCopy) : Prop where
  srcAligned : lineSize ∣ c.src
  dstAligned : lineSize ∣ c.dst
  physicalAligned : lineSize ∣ c.dstPhysical
  sizeAligned : lineSize ∣ c.size
  apart : c.src + c.size ≤ c.dst ∨ c.dst + c.size ≤ c.src
  physicalApart : c.src + c.size ≤ c.dstPhysical ∨ c.dstPhysical + c.size ≤ c.src

/-- Only copies of words of the block. -/
def Copying (c : BlockCopy) (is : List Instr) : Prop :=
  ∀ i ∈ is, i = .other ∨ ∃ j, j < c.words ∧ i = .copyWord (c.word j)

/-- Only lines of the source are cleaned. -/
def Cleaning (c : BlockCopy) (is : List Instr) : Prop :=
  ∀ i ∈ is, i = .other ∨ ∃ ls, i = .cleanLines ls ∧ ∀ l ∈ ls, l ∈ c.srcLines

/-- A program that copies every word and then cleans at most the source. -/
structure Program (c : BlockCopy) (copies rest : List Instr) : Prop where
  copying : c.Copying copies
  all : ∀ j, j < c.words → .copyWord (c.word j) ∈ copies
  cleaning : c.Cleaning rest

/-- Memory holds the content, and no line of the alias is dirty. -/
structure Copied (c : BlockCopy) (content : Nat → Byte) (s : Virtual) : Prop where
  mem : ∀ o, o < c.size → s.mem (c.dstPhysical + o) = content o
  clean : ∀ o e, o < c.size → s.lines (lineOf (c.dst + o)) = some e → e.dirty = false

/-- Dirty lines over one of the two blocks hold the content. -/
def Agrees (c : BlockCopy) (content : Nat → Byte) (e : CacheLine) : Prop :=
  ∀ o, o < c.size →
    (lineOf (c.src + o) = e.physical → e.data ((c.src + o) % lineSize) = content o) ∧
      (lineOf (c.dstPhysical + o) = e.physical →
        e.data ((c.dstPhysical + o) % lineSize) = content o)

/-- The lines in the cache do not spoil a copy of the content. -/
structure Harmless (c : BlockCopy) (content : Nat → Byte) (s : Virtual) : Prop where
  reads : ∀ o, o < c.size → c.readSrc s o = content o
  clean : ∀ o e, o < c.size → s.lines (lineOf (c.dst + o)) = some e → e.dirty = false
  dirty : ∀ k e, s.lines k = some e → e.dirty = true → c.Agrees content e

/-! ## Copying -/

section Copying

variable {c : BlockCopy} (hplaced : c.Placed)

include hplaced in
/-- No line belongs to both blocks. -/
theorem srcLine_ne_dstLine {o o' : Nat} (ho : o < c.size) (ho' : o' < c.size) :
    lineOf (c.src + o) ≠ lineOf (c.dst + o') := by
  obtain ⟨hsrc, hdst, -, hsize, hapart, -⟩ := hplaced
  simp only [lineOf, lineSize] at *
  omega

include hplaced in
/-- Copying a word does not change the source. -/
theorem readSrc_copyWord (s : Virtual) {j o : Nat} (hj : j < c.words) (ho : o < c.size) :
    c.readSrc (exec s (.copyWord (c.word j))) o = c.readSrc s o := by
  have hword : 4 * j < c.size := by
    unfold size
    omega
  have hphysical := hplaced.physicalApart
  unfold size at ho hphysical
  refine s.read_copyWord (fun hline => ⟨hline, rfl⟩) ?_ ?_
  · exact srcLine_ne_dstLine hplaced ho hword
  · show c.src + o < c.dstPhysical + 4 * j ∨ c.dstPhysical + 4 * j + 4 ≤ c.src + o
    omega

/-- Unless it stays in the cache, the word reaches its place. -/
theorem mem_copyWord (hpolicy : c.dstPolicy ≠ .writeBack) (s : Virtual) (j o : Nat) :
    (exec s (.copyWord (c.word j))).mem (c.dstPhysical + o) =
      if o / 4 = j then c.readSrc s o else s.mem (c.dstPhysical + o) := by
  simp only [exec, word]
  rw [s.mem_copyWord hpolicy, writeWord]
  split_ifs with hin hj hj
  · have hoffset : c.dstPhysical + o - (c.dstPhysical + 4 * j) < 4 := by omega
    have haddr : c.src + 4 * j + (c.dstPhysical + o - (c.dstPhysical + 4 * j)) = c.src + o := by
      omega
    rw [s.extract_loadWord _ _ _ hoffset, haddr, readSrc, hj]
  · omega
  · omega
  · rfl

/-- It makes no line dirty. -/
theorem dirty_copyWord (hpolicy : c.dstPolicy ≠ .writeBack) {s : Virtual} {j k : Nat}
    (hj : j < c.words) (hk : ∀ o, o < c.size → k ≠ lineOf (c.dst + o)) {e' : CacheLine}
    (he' : (exec s (.copyWord (c.word j))).lines k = some e') (hdirty : e'.dirty = true) :
    ∃ e, s.lines k = some e ∧ e.dirty = true ∧ e'.physical = e.physical ∧ e'.data = e.data := by
  obtain ⟨e, he, hold, hphysical, hdata⟩ := s.dirty_copyWord hpolicy he' hdirty
  have hword : 4 * j < c.size := by
    unfold size
    omega
  exact ⟨e, he, hold, hphysical, hdata (hk _ hword)⟩

/-! ## Copies that are not disturbed -/

theorem mem_execAll_of_notMem (hpolicy : c.dstPolicy ≠ .writeBack) {is : List Instr}
    (his : Copying c is) {o : Nat} (ho : .copyWord (c.word (o / 4)) ∉ is) :
    ∀ s : Virtual, (execAll s is).mem (c.dstPhysical + o) = s.mem (c.dstPhysical + o) := by
  induction is with
  | nil => intro s; rfl
  | cons i rest ih =>
      intro s
      obtain ⟨hne, hrest⟩ := List.ne_and_not_mem_of_not_mem_cons ho
      refine (ih (fun i hi => his i (List.mem_cons_of_mem _ hi)) hrest (exec s i)).trans ?_
      rcases his i List.mem_cons_self with rfl | ⟨j, hj, rfl⟩
      · rfl
      · rw [mem_copyWord hpolicy, if_neg fun heq => hne (by rw [heq])]

include hplaced in
/-- What was copied is what the source held. -/
theorem mem_execAll (hpolicy : c.dstPolicy ≠ .writeBack) {is : List Instr} (his : Copying c is)
    {o : Nat} (ho : o < c.size) (hmem : .copyWord (c.word (o / 4)) ∈ is) :
    ∀ s : Virtual, (execAll s is).mem (c.dstPhysical + o) = c.readSrc s o := by
  induction is with
  | nil => exact absurd hmem List.not_mem_nil
  | cons i rest ih =>
      intro s
      have hisRest : Copying c rest := fun i hi => his i (List.mem_cons_of_mem _ hi)
      by_cases hrest : .copyWord (c.word (o / 4)) ∈ rest
      · apply (ih hisRest hrest (exec s i)).trans
        rcases his i List.mem_cons_self with rfl | ⟨j, hj, rfl⟩
        · rfl
        · exact readSrc_copyWord hplaced s hj ho
      · obtain rfl := (List.mem_cons.mp hmem).resolve_right hrest
        rw [execAll, List.foldl_cons]
        apply (mem_execAll_of_notMem hpolicy hisRest hrest _).trans
        rw [mem_copyWord hpolicy, if_pos rfl]

/-- No line of the source became dirty, nor one elsewhere. -/
theorem dirty_execAll (hpolicy : c.dstPolicy ≠ .writeBack) {is : List Instr} (his : Copying c is)
    {k : Nat} (hk : ∀ o, o < c.size → k ≠ lineOf (c.dst + o)) {e' : CacheLine}
    (hdirty : e'.dirty = true) :
    ∀ s : Virtual, (execAll s is).lines k = some e' →
      ∃ e, s.lines k = some e ∧ e.dirty = true ∧ e'.physical = e.physical ∧ e'.data = e.data := by
  induction is with
  | nil => intro s he'; exact ⟨e', he', hdirty, rfl, rfl⟩
  | cons i rest ih =>
      intro s he'
      obtain ⟨e₁, he₁, hdirty₁, hphysical₁, hdata₁⟩ :=
        ih (fun i hi => his i (List.mem_cons_of_mem _ hi)) (exec s i) he'
      rcases his i List.mem_cons_self with rfl | ⟨j, hj, rfl⟩
      · exact ⟨e₁, he₁, hdirty₁, hphysical₁, hdata₁⟩
      · obtain ⟨e, he, hold, hphysical, hdata⟩ := dirty_copyWord hpolicy hj hk he₁ hdirty₁
        exact ⟨e, he, hold, hphysical₁.trans hphysical, hdata₁.trans hdata⟩

/-- A dirty line stays dirty. -/
theorem dirty_stays {is : List Instr} (his : Copying c is) {k : Nat} :
    ∀ {s : Virtual} {e : CacheLine}, s.lines k = some e → e.dirty = true →
      ∃ e', (execAll s is).lines k = some e' ∧ e'.dirty = true := by
  induction is with
  | nil => intro s e he hdirty; exact ⟨e, he, hdirty⟩
  | cons i rest ih =>
      intro s e he hdirty
      have hrest : Copying c rest := fun i hi => his i (List.mem_cons_of_mem _ hi)
      rcases his i List.mem_cons_self with rfl | ⟨j, hj, rfl⟩
      · exact ih hrest he hdirty
      · obtain ⟨e₁, he₁, hdirty₁⟩ := s.dirty_persists he hdirty
        exact ih hrest he₁ hdirty₁

/-- A word that is written back leaves its line dirty. -/
theorem dirty_writeBack (hpolicy : c.dstPolicy = .writeBack) {is : List Instr}
    (his : Copying c is) {j : Nat} (hmem : .copyWord (c.word j) ∈ is) (s : Virtual) :
    ∃ e, (execAll s is).lines (lineOf (c.dst + 4 * j)) = some e ∧ e.dirty = true := by
  obtain ⟨before, after, rfl⟩ := List.append_of_mem hmem
  have hafter : Copying c after :=
    fun i hi => his i (List.mem_append_right _ (List.mem_cons_of_mem _ hi))
  rw [execAll, List.foldl_append, List.foldl_cons]
  obtain ⟨e, he, hdirty⟩ : ∃ e, (exec (before.foldl exec s) (.copyWord (c.word j))).lines
      (lineOf (c.dst + 4 * j)) = some e ∧ e.dirty = true := by
    simp only [exec, word, hpolicy]
    exact Virtual.dirty_copyWord_writeBack _
  exact dirty_stays hafter he hdirty

end Copying

/-! ## After the copies -/

section Cleaning

variable {c : BlockCopy} {rest : List Instr}

theorem lines_cleaning (hrest : Cleaning c rest) {k : Nat} (hk : k ∉ c.srcLines) :
    ∀ s : Virtual, (execAll s rest).lines k = s.lines k := by
  induction rest with
  | nil => intro s; rfl
  | cons i others ih =>
      intro s
      refine (ih (fun i hi => hrest i (List.mem_cons_of_mem _ hi)) (exec s i)).trans ?_
      rcases hrest i List.mem_cons_self with rfl | ⟨ls, rfl, hls⟩
      · rfl
      · exact s.lines_cleanAll_of_notMem fun hin => hk (hls k hin)

/-- If no line of the source is dirty, nothing happens any more. -/
theorem execAll_cleaning (hrest : Cleaning c rest) {s : Virtual}
    (hclean : ∀ l ∈ c.srcLines, ∀ e, s.lines l = some e → e.dirty = false) :
    execAll s rest = s := by
  induction rest with
  | nil => rfl
  | cons i others ih =>
      have hothers := ih fun i hi => hrest i (List.mem_cons_of_mem _ hi)
      rw [execAll, List.foldl_cons]
      rcases hrest i List.mem_cons_self with rfl | ⟨ls, rfl, hls⟩
      · exact hothers
      · have hnothing : exec s (.cleanLines ls) = s :=
          s.cleanAll_of_not_dirty fun l hl => hclean l (hls l hl)
        rw [hnothing]
        exact hothers

end Cleaning

/-! ## What can spoil the copy -/

section Spoiled

variable {c : BlockCopy} (hplaced : c.Placed) {copies rest : List Instr}
  (hprogram : c.Program copies rest) {s : Virtual} {content : Nat → Byte}

/-- The lines of the source but one. -/
def srcLinesBut (c : BlockCopy) (k : Nat) : List Nat := c.srcLines.filter (· ≠ k)

theorem mem_srcLinesBut {k l : Nat} : l ∈ c.srcLinesBut k ↔ l ∈ c.srcLines ∧ l ≠ k := by
  simp [srcLinesBut]

theorem mem_srcLines {l : Nat} : l ∈ c.srcLines ↔ ∃ o, o < c.size ∧ lineOf (c.src + o) = l := by
  simp [srcLines]

include hplaced in
theorem srcLines_ne_dstLine {l o : Nat} (hl : l ∈ c.srcLines) (ho : o < c.size) :
    l ≠ lineOf (c.dst + o) := by
  obtain ⟨o', ho', rfl⟩ := mem_srcLines.mp hl
  exact srcLine_ne_dstLine hplaced ho' ho

include hprogram in
theorem dst_written_back (hwords : 0 < c.words)
    (hend : c.Copied content (execAll (execAll s copies) rest)) (hplaced : c.Placed) :
    c.dstPolicy ≠ .writeBack := by
  intro hpolicy
  obtain ⟨e, he, hdirty⟩ := dirty_writeBack hpolicy hprogram.copying (hprogram.all 0 hwords) s
  have hsize : 4 * 0 < c.size := by
    unfold size
    omega
  have hclean := hend.clean (4 * 0) e hsize
  rw [lines_cleaning hprogram.cleaning fun hin =>
    srcLines_ne_dstLine hplaced hin hsize rfl] at hclean
  rw [hclean he] at hdirty
  exact absurd hdirty (by decide)

include hprogram in
/-- A dirty line of the alias is still there at the end. -/
theorem clean_of_copied (hend : c.Copied content (execAll (execAll s copies) rest))
    (hplaced : c.Placed) {o : Nat} {e : CacheLine} (ho : o < c.size)
    (he : s.lines (lineOf (c.dst + o)) = some e) : e.dirty = false := by
  by_contra hdirty
  obtain ⟨e', he', hdirty'⟩ := dirty_stays hprogram.copying he (by simpa using hdirty)
  have hclean := hend.clean o e' ho
  rw [lines_cleaning hprogram.cleaning fun hin => srcLines_ne_dstLine hplaced hin ho rfl] at hclean
  rw [hclean he'] at hdirty'
  exact absurd hdirty' (by decide)

include hplaced hprogram in
/-- After everything but one line was evicted at first, and that line after the copies,
cleaning has no effect. -/
theorem cleaning_lone (hpolicy : c.dstPolicy ≠ .writeBack) (k : Nat) :
    execAll ((execAll (evictAll s (c.srcLinesBut k)) copies).evict k) rest =
      (execAll (evictAll s (c.srcLinesBut k)) copies).evict k := by
  refine execAll_cleaning hprogram.cleaning fun l hl e he => ?_
  by_cases hk : l = k
  · rw [hk, Virtual.lines_evict_self] at he
    exact absurd he (by simp)
  · by_contra hdirty
    rw [Virtual.lines_evict_of_ne _ hk] at he
    obtain ⟨e₀, he₀, -⟩ := dirty_execAll hpolicy hprogram.copying
      (fun o ho => srcLines_ne_dstLine hplaced hl ho) (by simpa using hdirty) _ he
    rw [lines_evictAll_of_mem (mem_srcLinesBut.mpr ⟨hl, hk⟩)] at he₀
    exact absurd he₀ (by simp)

/-- The copy has reached memory in every schedule that evicts some lines at first and
some after the copies. -/
def AlwaysCopied (c : BlockCopy) (content : Nat → Byte) (s : Virtual)
    (copies rest : List Instr) : Prop :=
  ∀ before between,
    c.Copied content (execAll (evictAll (execAll (evictAll s before) copies) between) rest)

include hplaced in
/-- The two blocks begin at the same place in their lines. -/
theorem offset_in_line (o : Nat) :
    (c.dstPhysical + o) % lineSize = (c.src + o) % lineSize := by
  obtain ⟨hsrc, -, hphysical, -, -, -⟩ := hplaced
  simp only [lineSize] at *
  omega

variable (hpolicy : c.dstPolicy ≠ .writeBack) (hall : c.AlwaysCopied content s copies rest)
include hplaced hprogram hpolicy hall

/-- The only line of the source that is left in the cache is what is copied. -/
theorem reads_of_copied (hmem : ∀ o, o < c.size → s.mem (c.src + o) = content o) {o : Nat}
    (ho : o < c.size) : c.readSrc s o = content o := by
  have hend := (hall (c.srcLinesBut (lineOf (c.src + o))) [lineOf (c.src + o)]).mem o ho
  rw [evictAll, List.foldl_cons, List.foldl_nil, cleaning_lone hplaced hprogram hpolicy] at hend
  have hword : o / 4 < c.words := by
    unfold size at ho
    omega
  have hcopied := mem_execAll hplaced hpolicy hprogram.copying ho (hprogram.all _ hword)
    (evictAll s (c.srcLinesBut (lineOf (c.src + o))))
  have hkept : (evictAll s (c.srcLinesBut (lineOf (c.src + o)))).lines (lineOf (c.src + o)) =
      s.lines (lineOf (c.src + o)) :=
    lines_evictAll_of_notMem (fun hin => (mem_srcLinesBut.mp hin).2 rfl) s
  simp only [readSrc, Virtual.read] at hcopied ⊢
  cases hcached : (c.srcPolicy (o / 4)).cached with
  | false => exact hmem o ho
  | true =>
      cases hline : s.lines (lineOf (c.src + o)) with
      | none => exact hmem o ho
      | some e =>
          rw [hline] at hkept
          simp only [hcached, if_true, hkept] at hcopied
          simp only [if_true]
          rcases Virtual.mem_evict _ _ (c.dstPhysical + o) with hsame | ⟨e', he', hdirty, -, hback⟩
          · rw [← hcopied, ← hsame, hend]
          · -- the line itself is written over the copy
            obtain ⟨e₀, he₀, -, -, hdata⟩ := dirty_execAll hpolicy hprogram.copying
              (fun o' ho' => srcLine_ne_dstLine hplaced ho ho') hdirty _ he'
            obtain rfl := Option.some.inj (hkept.symm.trans he₀)
            rw [← offset_in_line hplaced, ← hdata, ← hback, hend]

/-- A dirty line over the target may be evicted after the copies. -/
theorem target_of_copied {k : Nat} {e : CacheLine} (he : s.lines k = some e)
    (hdirty : e.dirty = true) {o : Nat} (ho : o < c.size)
    (hk : ∀ o, o < c.size → k ≠ lineOf (c.dst + o))
    (hline : lineOf (c.dstPhysical + o) = e.physical) :
    e.data ((c.dstPhysical + o) % lineSize) = content o := by
  have hend := (hall (c.srcLinesBut k) [k]).mem o ho
  rw [evictAll, List.foldl_cons, List.foldl_nil, cleaning_lone hplaced hprogram hpolicy] at hend
  have hkept : (evictAll s (c.srcLinesBut k)).lines k = s.lines k :=
    lines_evictAll_of_notMem (fun hin => (mem_srcLinesBut.mp hin).2 rfl) s
  obtain ⟨e', he', hdirty'⟩ := dirty_stays hprogram.copying (hkept.trans he) hdirty
  obtain ⟨e₀, he₀, -, hphysical, hdata⟩ :=
    dirty_execAll hpolicy hprogram.copying hk hdirty' _ he'
  obtain rfl := Option.some.inj ((hkept.trans he).symm.trans he₀)
  rw [Virtual.mem_evict_of_dirty _ he' hdirty' (hline.trans hphysical.symm), hdata] at hend
  exact hend

/-- A dirty line over the source may be evicted before the copies. -/
theorem source_of_copied {k : Nat} {e : CacheLine} (he : s.lines k = some e)
    (hdirty : e.dirty = true) {o : Nat} (ho : o < c.size)
    (hline : lineOf (c.src + o) = e.physical) :
    e.data ((c.src + o) % lineSize) = content o := by
  have hend := (hall (c.srcLinesBut k ++ [k]) []).mem o ho
  have hword : o / 4 < c.words := by
    unfold size at ho
    omega
  have hgone : ∀ l, l ∈ c.srcLines → (evictAll s (c.srcLinesBut k ++ [k])).lines l = none := by
    intro l hl
    refine lines_evictAll_of_mem ?_ s
    by_cases hlk : l = k
    · exact List.mem_append_right _ (List.mem_singleton.mpr hlk)
    · exact List.mem_append_left _ (mem_srcLinesBut.mpr ⟨hl, hlk⟩)
  have hcopied := mem_execAll hplaced hpolicy hprogram.copying ho (hprogram.all _ hword)
    (evictAll s (c.srcLinesBut k ++ [k]))
  have hread : c.readSrc (evictAll s (c.srcLinesBut k ++ [k])) o =
      (evictAll s (c.srcLinesBut k ++ [k])).mem (c.src + o) := by
    rw [readSrc, Virtual.read, hgone _ (mem_srcLines.mpr ⟨o, ho, rfl⟩), ite_self]
  have hback : (evictAll s (c.srcLinesBut k ++ [k])).mem (c.src + o) =
      e.data ((c.src + o) % lineSize) := by
    rw [evictAll, List.foldl_append]
    refine Virtual.mem_evict_of_dirty _ ?_ hdirty hline
    exact (lines_evictAll_of_notMem (fun hin => (mem_srcLinesBut.mp hin).2 rfl) s).trans he
  rw [evictAll, List.foldl_nil, execAll_cleaning hprogram.cleaning, hcopied, hread, hback] at hend
  · exact hend
  · intro l hl e' he'
    by_contra hdirty'
    obtain ⟨e₀, he₀, -⟩ := dirty_execAll hpolicy hprogram.copying
      (fun o ho => srcLines_ne_dstLine hplaced hl ho) (by simpa using hdirty') _ he'
    rw [hgone l hl] at he₀
    exact absurd he₀ (by simp)

end Spoiled

/-! ## Copies that are disturbed -/

section Disturbed

variable {c : BlockCopy} {content : Nat → Byte}

/-- Source and cache hold the content. -/
structure Holding (c : BlockCopy) (content : Nat → Byte) (s : Virtual) : Prop extends
    Harmless c content s where
  source : ∀ o, o < c.size → s.mem (c.src + o) = content o

/-- Writing lines back keeps the content where it is. -/
theorem holding_retires {s s' : Virtual} (h : c.Holding content s) (hretires : Retires s s') :
    c.Holding content s' ∧ ∀ o, o < c.size → s.mem (c.dstPhysical + o) = content o →
      s'.mem (c.dstPhysical + o) = content o := by
  have hsource : ∀ o, o < c.size → s'.mem (c.src + o) = content o := by
    intro o ho
    rcases hretires.mem (c.src + o) with heq | ⟨k, e, he, hdirty, hline, heq⟩
    · rw [heq, h.source o ho]
    · rw [heq, (h.dirty k e he hdirty o ho).1 hline]
  refine ⟨⟨⟨fun o ho => ?_, fun o e' ho he' => ?_, fun k e' he' hdirty => ?_⟩, hsource⟩,
    fun o ho hcopied => ?_⟩
  · have hreads := h.reads o ho
    simp only [readSrc, Virtual.read] at hreads ⊢
    cases hcached : (c.srcPolicy (o / 4)).cached with
    | false => exact hsource o ho
    | true =>
        simp only [hcached, if_true] at hreads ⊢
        cases hline : s'.lines (lineOf (c.src + o)) with
        | none => exact hsource o ho
        | some e' =>
            obtain ⟨e, he, -, hdata, -⟩ := hretires.lines _ e' hline
            rw [he] at hreads
            simp only [hdata, hreads]
  · obtain ⟨e, he, -, himp⟩ := hretires.clean_line he'
    exact himp (h.clean o e ho he)
  · obtain ⟨e, he, hphysical, hdata, himp⟩ := hretires.lines k e' he'
    have hagrees := h.dirty k e he (himp hdirty)
    rwa [Agrees, ← hphysical, ← hdata] at hagrees
  · rcases hretires.mem (c.dstPhysical + o) with heq | ⟨k, e, he, hdirty, hline, heq⟩
    · rw [heq, hcopied]
    · rw [heq, (h.dirty k e he hdirty o ho).2 hline]

/-- So does copying a word. -/
theorem holding_copyWord (hplaced : c.Placed) (hpolicy : c.dstPolicy ≠ .writeBack) {s : Virtual}
    (h : c.Holding content s) {j : Nat} (hj : j < c.words) :
    c.Holding content (exec s (.copyWord (c.word j))) := by
  have hword : 4 * j < c.size := by
    unfold size
    omega
  refine ⟨⟨fun o ho => ?_, fun o e' ho he' => ?_, fun k e' he' hdirty => ?_⟩, fun o ho => ?_⟩
  · rw [readSrc_copyWord hplaced s hj ho, h.reads o ho]
  · by_contra hdirty
    obtain ⟨e, he, hold, -, -⟩ := s.dirty_copyWord hpolicy he' (by simpa using hdirty)
    rw [h.clean o e ho he] at hold
    exact absurd hold (by decide)
  · obtain ⟨e, he, hold, hphysical, hdata⟩ := s.dirty_copyWord hpolicy he' hdirty
    have hk : k ≠ lineOf (c.dst + 4 * j) := by
      rintro rfl
      rw [h.clean _ e hword he] at hold
      exact absurd hold (by decide)
    have hagrees := h.dirty k e he hold
    rwa [Agrees, ← hphysical, ← hdata hk] at hagrees
  · have hphysical := hplaced.physicalApart
    unfold size at ho hphysical
    simp only [exec, word]
    rw [s.mem_copyWord hpolicy, writeWord_of_outside _ _ _ (by omega)]
    exact h.source o ho

/-- The copy at some point: words that are not to come are in memory. -/
structure Ongoing (c : BlockCopy) (content : Nat → Byte) (cfg : Config) : Prop where
  holding : c.Holding content cfg.cache
  copied : ∀ o, o < c.size → .copyWord (c.word (o / 4)) ∉ cfg.todo →
    cfg.cache.mem (c.dstPhysical + o) = content o
  inBlock : ∀ w, .copyWord w ∈ cfg.todo → ∃ j, j < c.words ∧ w = c.word j

theorem ongoing_step (hplaced : c.Placed) (hpolicy : c.dstPolicy ≠ .writeBack) (cfg : Config)
    (e : Event) (h : c.Ongoing content cfg) : c.Ongoing content (cfg.step e) := by
  obtain ⟨s, todo⟩ := cfg
  obtain ⟨hholding, hcopied, hinBlock⟩ := h
  cases e with
  | evict l =>
      obtain ⟨hholding', hmem⟩ := holding_retires hholding (s.retires_evict l)
      exact ⟨hholding', fun o ho hin => hmem o ho (hcopied o ho hin), hinBlock⟩
  | program =>
      cases todo with
      | nil => exact ⟨hholding, hcopied, hinBlock⟩
      | cons i rest =>
          have hinRest : ∀ w, .copyWord w ∈ rest → ∃ j, j < c.words ∧ w = c.word j :=
            fun w hw => hinBlock w (List.mem_cons_of_mem _ hw)
          cases i with
          | other =>
              exact ⟨hholding, fun o ho hin => hcopied o ho fun hmem =>
                hin ((List.mem_cons.mp hmem).resolve_left (by simp)), hinRest⟩
          | cleanLines ls =>
              obtain ⟨hholding', hmem⟩ := holding_retires hholding (s.retires_cleanAll ls)
              exact ⟨hholding', fun o ho hin => hmem o ho (hcopied o ho fun hmem =>
                hin ((List.mem_cons.mp hmem).resolve_left (by simp))), hinRest⟩
          | copyWord w =>
              obtain ⟨j, hj, rfl⟩ := hinBlock w List.mem_cons_self
              refine ⟨holding_copyWord hplaced hpolicy hholding hj, fun o ho hin => ?_, hinRest⟩
              show (exec s (.copyWord (c.word j))).mem (c.dstPhysical + o) = content o
              rw [mem_copyWord hpolicy]
              split_ifs with hoj
              · exact hholding.reads o ho
              · refine hcopied o ho fun hmem => hin ((List.mem_cons.mp hmem).resolve_left ?_)
                simp only [Instr.copyWord.injEq, word, WordCopy.mk.injEq]
                omega

end Disturbed

/-! ## Both directions -/

/-- **When the copy reaches memory.**  Whatever is evicted while it is copied, at the end
memory holds what the source held in memory, and no line of the alias is dirty, if and
only if the alias is not written back and the lines in the cache at the start are
harmless. -/
theorem copied_iff {c : BlockCopy} (hplaced : c.Placed) (hwords : 0 < c.words)
    {copies rest : List Instr} (hprogram : c.Program copies rest) (s : Virtual)
    (content : Nat → Byte) (hsource : ∀ o, o < c.size → s.mem (c.src + o) = content o) :
    (∀ events, (run Config.step ⟨s, copies ++ rest⟩ events).todo = [] →
        c.Copied content (run Config.step ⟨s, copies ++ rest⟩ events).cache) ↔
      c.dstPolicy ≠ .writeBack ∧ c.Harmless content s := by
  constructor
  · intro h
    have hall : c.AlwaysCopied content s copies rest := by
      intro before between
      have hend := h (before.map .evict ++ (List.replicate copies.length .program ++
        (between.map .evict ++ List.replicate rest.length .program)))
      rw [run_schedule] at hend
      exact hend rfl
    have hpolicy := dst_written_back hprogram hwords (hall [] []) hplaced
    have hclean : ∀ o e, o < c.size → s.lines (lineOf (c.dst + o)) = some e → e.dirty = false :=
      fun o e ho he => clean_of_copied hprogram (hall [] []) hplaced ho he
    refine ⟨hpolicy, fun o ho => ?_, hclean, fun k e he hdirty o ho => ⟨?_, ?_⟩⟩
    · exact reads_of_copied hplaced hprogram hpolicy hall hsource ho
    · exact source_of_copied hplaced hprogram hpolicy hall he hdirty ho
    · refine target_of_copied hplaced hprogram hpolicy hall he hdirty ho fun o' ho' hk => ?_
      rw [hclean o' e ho' (hk ▸ he)] at hdirty
      exact absurd hdirty (by decide)
  · rintro ⟨hpolicy, hharmless⟩ events hdone
    have hstart : c.Ongoing content ⟨s, copies ++ rest⟩ := by
      refine ⟨⟨hharmless, hsource⟩, fun o ho hin => ?_, fun w hw => ?_⟩
      · refine absurd (List.mem_append_left _ (hprogram.all (o / 4) ?_)) hin
        unfold size at ho
        omega
      · rcases List.mem_append.mp hw with hcopy | hclean
        · rcases hprogram.copying _ hcopy with heq | ⟨j, hj, heq⟩
          · exact absurd heq (by simp)
          · exact ⟨j, hj, Instr.copyWord.inj heq⟩
        · rcases hprogram.cleaning _ hclean with heq | ⟨ls, heq, -⟩
          · exact absurd heq (by simp)
          · exact absurd heq (by simp)
    have hrun := run_invariant Config.step (fun _ _ => True)
      (fun cfg e _ h => ongoing_step hplaced hpolicy cfg e h) events ⟨s, copies ++ rest⟩
      ((allowed_const Config.step (fun _ => True) events _).mpr fun _ _ => trivial) hstart
    refine ⟨fun o ho => hrun.copied o ho ?_, hrun.holding.clean⟩
    rw [hdone]
    exact List.not_mem_nil

end BlockCopy

end NspireUtils.Verified.AliasedCopy
