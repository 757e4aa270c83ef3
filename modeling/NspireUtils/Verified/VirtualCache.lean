import NspireUtils.Verified.WriteBackCache

/-!
# A virtually indexed cache

A write-back cache whose lines are found by virtual address.  A line remembers the
physical line it was filled from, and goes back there when it is cleaned or evicted,
whatever the address is mapped to by then.  Two addresses of one physical line have a
line each.

`Retires` is what cleaning and evicting have in common: dirty lines are written back,
and no line becomes dirty or changes.
-/

namespace NspireUtils.Verified.VirtualCache

open NspireUtils.Verified.ByteMemory
open NspireUtils.Verified.WriteBackCache (lineSize lineOf)

/-- A cached line: the physical line it belongs to, and its bytes. -/
structure CacheLine where
  physical : Nat
  dirty : Bool
  data : Nat → Byte

/-- A word stored into a line. -/
def CacheLine.store (e : CacheLine) (va : Nat) (value : Word) : CacheLine :=
  { e with data := writeWord e.data (va % lineSize) value }

/-- What a store does that hits or misses. -/
inductive Policy where
  | uncached
  | writeThrough
  | writeBack
  deriving Repr, DecidableEq

/-- Accesses look into the cache. -/
def Policy.cached : Policy → Bool
  | uncached => false
  | _ => true

/-- Memory, and the lines by their virtual numbers. -/
structure Virtual where
  mem : Memory
  lines : Nat → Option CacheLine

/-- Memory with a line in it. -/
def writeLine (m : Memory) (e : CacheLine) : Memory :=
  fun x => if lineOf x = e.physical then e.data (x % lineSize) else m x

namespace Virtual

/-- A byte as it is read. -/
def read (s : Virtual) (p : Policy) (va pa : Nat) : Byte :=
  match if p.cached then s.lines (lineOf va) else none with
  | some e => e.data (va % lineSize)
  | none => s.mem pa

/-- The line of an address, filled if it is not there. -/
def lineFor (s : Virtual) (l physical : Nat) : CacheLine :=
  (s.lines l).getD ⟨physical, false, fun o => s.mem (lineSize * physical + o)⟩

/-- The cache after a read. -/
def fill (s : Virtual) (p : Policy) (l physical : Nat) : Virtual :=
  if p.cached then { s with lines := Function.update s.lines l (some (s.lineFor l physical)) }
  else s

/-- A word as it is read. -/
def loadWord (s : Virtual) (p : Policy) (va pa : Nat) : Word :=
  readWord (fun i => s.read p (va + i) (pa + i)) 0

/-- A store of a word.  Through a write-back mapping it stays in the line. -/
def storeWord (s : Virtual) (p : Policy) (va pa : Nat) (value : Word) : Virtual :=
  match p with
  | .uncached => { s with mem := writeWord s.mem pa value }
  | .writeThrough =>
      { mem := writeWord s.mem pa value
        lines := Function.update s.lines (lineOf va)
          ((s.lines (lineOf va)).map (CacheLine.store · va value)) }
  | .writeBack =>
      { s with
        lines := Function.update s.lines (lineOf va) (some
          { CacheLine.store (s.lineFor (lineOf va) (lineOf pa)) va value with dirty := true }) }

/-- A word copied: loaded through one mapping, stored through another. -/
def copyWord (s : Virtual) (p : Policy) (src srcPhysical : Nat) (q : Policy)
    (dst dstPhysical : Nat) : Virtual :=
  (s.fill p (lineOf src) (lineOf srcPhysical)).storeWord q dst dstPhysical
    (s.loadWord p src srcPhysical)

/-- Write a line back, if it is dirty. -/
def clean (s : Virtual) (l : Nat) : Virtual :=
  match s.lines l with
  | some e =>
      if e.dirty then
        { mem := writeLine s.mem e
          lines := Function.update s.lines l (some { e with dirty := false }) }
      else s
  | none => s

/-- Write some lines back. -/
def cleanAll (s : Virtual) (ls : List Nat) : Virtual := ls.foldl clean s

/-- Remove a line. -/
def evict (s : Virtual) (l : Nat) : Virtual :=
  { s.clean l with lines := Function.update (s.clean l).lines l none }

end Virtual

/-! ## Writing lines back -/

/-- Dirty lines may have been written back; no line changed or became dirty. -/
structure Retires (s s' : Virtual) : Prop where
  mem : ∀ x, s'.mem x = s.mem x ∨ ∃ k e, s.lines k = some e ∧ e.dirty = true ∧
    lineOf x = e.physical ∧ s'.mem x = e.data (x % lineSize)
  lines : ∀ k e', s'.lines k = some e' → ∃ e, s.lines k = some e ∧ e'.physical = e.physical ∧
    e'.data = e.data ∧ (e'.dirty = true → e.dirty = true)

theorem Retires.refl (s : Virtual) : Retires s s :=
  ⟨fun _ => .inl rfl, fun _ e he => ⟨e, he, rfl, rfl, id⟩⟩

theorem Retires.trans {s s' s'' : Virtual} (h : Retires s s') (h' : Retires s' s'') :
    Retires s s'' := by
  refine ⟨fun x => ?_, fun k e'' he'' => ?_⟩
  · rcases h'.mem x with heq | ⟨k, e', he', hdirty, hline, heq⟩
    · rw [heq]
      exact h.mem x
    · obtain ⟨e, he, hphysical, hdata, himp⟩ := h.lines k e' he'
      exact .inr ⟨k, e, he, himp hdirty, hline.trans hphysical, by rw [heq, hdata]⟩
  · obtain ⟨e', he', hphysical', hdata', himp'⟩ := h'.lines k e'' he''
    obtain ⟨e, he, hphysical, hdata, himp⟩ := h.lines k e' he'
    exact ⟨e, he, hphysical'.trans hphysical, hdata'.trans hdata, fun hd => himp (himp' hd)⟩

/-- What was clean is clean. -/
theorem Retires.clean_line {s s' : Virtual} (h : Retires s s') {k : Nat} {e' : CacheLine}
    (he' : s'.lines k = some e') :
    ∃ e, s.lines k = some e ∧ e'.physical = e.physical ∧ (e.dirty = false → e'.dirty = false) := by
  obtain ⟨e, he, hphysical, -, himp⟩ := h.lines k e' he'
  refine ⟨e, he, hphysical, fun hclean => ?_⟩
  by_contra hdirty
  rw [himp (by simpa using hdirty)] at hclean
  exact absurd hclean (by decide)

namespace Virtual

variable (s : Virtual)

theorem clean_of_dirty {l : Nat} {e : CacheLine} (he : s.lines l = some e)
    (hdirty : e.dirty = true) :
    s.clean l = { mem := writeLine s.mem e
                  lines := Function.update s.lines l (some { e with dirty := false }) } := by
  simp only [clean, he, hdirty, if_true]

/-- There is nothing to write back. -/
theorem clean_of_not_dirty {l : Nat} (h : ∀ e, s.lines l = some e → e.dirty = false) :
    s.clean l = s := by
  unfold clean
  split
  · next e he => rw [h e he, if_neg (by decide)]
  · rfl

theorem retires_clean (l : Nat) : Retires s (s.clean l) := by
  by_cases h : ∀ e, s.lines l = some e → e.dirty = false
  · rw [s.clean_of_not_dirty h]
    exact .refl s
  · push Not at h
    obtain ⟨e, he, hdirty⟩ := h
    have hdirty : e.dirty = true := by simpa using hdirty
    rw [s.clean_of_dirty he hdirty]
    refine ⟨fun x => ?_, fun k e' he' => ?_⟩
    · by_cases hx : lineOf x = e.physical
      · exact .inr ⟨l, e, he, hdirty, hx, if_pos hx⟩
      · exact .inl (if_neg hx)
    · by_cases hk : k = l
      · subst hk
        simp only [Function.update_self, Option.some.injEq] at he'
        subst he'
        exact ⟨e, he, rfl, rfl, fun hd => absurd hd (by simp)⟩
      · simp only [Function.update_of_ne hk] at he'
        exact ⟨e', he', rfl, rfl, id⟩

theorem retires_cleanAll (ls : List Nat) : Retires s (s.cleanAll ls) := by
  induction ls generalizing s with
  | nil => exact .refl s
  | cons l rest ih => exact (s.retires_clean l).trans (ih (s.clean l))

theorem retires_evict (l : Nat) : Retires s (s.evict l) := by
  have hclean := s.retires_clean l
  refine ⟨hclean.mem, fun k e' he' => ?_⟩
  by_cases hk : k = l
  · subst hk
    simp [evict] at he'
  · simp only [evict, Function.update_of_ne hk] at he'
    exact hclean.lines k e' he'

/-- An evicted line is gone. -/
theorem lines_evict_self (l : Nat) : (s.evict l).lines l = none := Function.update_self ..

/-- Other lines stay. -/
theorem lines_clean_of_ne {l k : Nat} (hk : k ≠ l) : (s.clean l).lines k = s.lines k := by
  unfold clean
  split
  · split_ifs
    · exact Function.update_of_ne hk ..
    · rfl
  · rfl

theorem lines_evict_of_ne {l k : Nat} (hk : k ≠ l) : (s.evict l).lines k = s.lines k :=
  (Function.update_of_ne hk ..).trans (s.lines_clean_of_ne hk)

theorem lines_cleanAll_of_notMem {ls : List Nat} {k : Nat} (hk : k ∉ ls) :
    (s.cleanAll ls).lines k = s.lines k := by
  induction ls generalizing s with
  | nil => rfl
  | cons l rest ih =>
      obtain ⟨hne, hrest⟩ := List.ne_and_not_mem_of_not_mem_cons hk
      exact (ih (s.clean l) hrest).trans (s.lines_clean_of_ne hne)

/-- Without a dirty line among them, nothing is written back. -/
theorem cleanAll_of_not_dirty {ls : List Nat}
    (h : ∀ l ∈ ls, ∀ e, s.lines l = some e → e.dirty = false) : s.cleanAll ls = s := by
  induction ls with
  | nil => rfl
  | cons l rest ih =>
      rw [cleanAll, List.foldl_cons, s.clean_of_not_dirty (h l List.mem_cons_self)]
      exact ih fun l hl => h l (List.mem_cons_of_mem _ hl)

/-- A dirty line is written where it was filled from. -/
theorem mem_evict_of_dirty {l : Nat} {e : CacheLine} (he : s.lines l = some e)
    (hdirty : e.dirty = true) {x : Nat} (hx : lineOf x = e.physical) :
    (s.evict l).mem x = e.data (x % lineSize) := by
  simp only [evict, s.clean_of_dirty he hdirty]
  exact if_pos hx

/-- An eviction writes its line back or leaves memory alone. -/
theorem mem_evict (l x : Nat) :
    (s.evict l).mem x = s.mem x ∨ ∃ e, s.lines l = some e ∧ e.dirty = true ∧
      lineOf x = e.physical ∧ (s.evict l).mem x = e.data (x % lineSize) := by
  by_cases h : ∀ e, s.lines l = some e → e.dirty = false
  · left
    rw [evict, s.clean_of_not_dirty h]
  · push Not at h
    obtain ⟨e, he, hdirty⟩ := h
    have hdirty : e.dirty = true := by simpa using hdirty
    by_cases hx : lineOf x = e.physical
    · exact .inr ⟨e, he, hdirty, hx, s.mem_evict_of_dirty he hdirty hx⟩
    · left
      simp only [evict, s.clean_of_dirty he hdirty]
      exact if_neg hx

/-! ## Copying words -/

/-- Filling a line does not change what is read, if the line is where it is filled
from. -/
theorem read_fill {p q : Policy} {l physical va pa : Nat}
    (h : lineOf va = l → lineOf pa = physical ∧ pa % lineSize = va % lineSize) :
    (s.fill q l physical).read p va pa = s.read p va pa := by
  cases hq : q.cached with
  | false => simp only [fill, hq, if_neg Bool.false_ne_true]
  | true =>
      simp only [fill, hq, if_true, read]
      cases hp : p.cached with
      | false => rfl
      | true =>
          simp only [if_true]
          by_cases hl : lineOf va = l
          · obtain ⟨hline, hoffset⟩ := h hl
            rw [hl, Function.update_self, lineFor]
            cases hentry : s.lines l with
            | some e => rfl
            | none =>
                simp only [Option.getD_none]
                congr 1
                simp only [lineOf, lineSize] at hline hoffset ⊢
                omega
          · rw [Function.update_of_ne hl]

/-- A store through one line does not change what is read through another, elsewhere in
memory. -/
theorem read_storeWord {p q : Policy} {va pa dst dstPhysical : Nat} (value : Word)
    (hline : lineOf va ≠ lineOf dst) (hpa : pa < dstPhysical ∨ dstPhysical + 4 ≤ pa) :
    (s.storeWord q dst dstPhysical value).read p va pa = s.read p va pa := by
  have hmem := writeWord_of_outside s.mem dstPhysical value hpa
  cases q with
  | uncached => simp only [storeWord, read, hmem]
  | writeThrough => simp only [storeWord, read, hmem, Function.update_of_ne hline]
  | writeBack => simp only [storeWord, read, Function.update_of_ne hline]

/-- Where a copy leaves what is read alone. -/
theorem read_copyWord {p q r : Policy} {va pa src srcPhysical dst dstPhysical : Nat}
    (hsrc : lineOf va = lineOf src →
      lineOf pa = lineOf srcPhysical ∧ pa % lineSize = va % lineSize)
    (hline : lineOf va ≠ lineOf dst) (hpa : pa < dstPhysical ∨ dstPhysical + 4 ≤ pa) :
    (s.copyWord q src srcPhysical r dst dstPhysical).read p va pa = s.read p va pa := by
  rw [copyWord, read_storeWord _ _ hline hpa, s.read_fill hsrc]

@[simp] theorem mem_fill (p : Policy) (l physical : Nat) : (s.fill p l physical).mem = s.mem := by
  unfold fill
  split_ifs <;> rfl

/-- Unless it is written back, a copy reaches memory. -/
theorem mem_copyWord {p q : Policy} {src srcPhysical dst dstPhysical : Nat}
    (hq : q ≠ .writeBack) :
    (s.copyWord p src srcPhysical q dst dstPhysical).mem =
      writeWord s.mem dstPhysical (s.loadWord p src srcPhysical) := by
  cases q with
  | uncached => simp only [copyWord, storeWord, mem_fill]
  | writeThrough => simp only [copyWord, storeWord, mem_fill]
  | writeBack => exact absurd rfl hq

/-- A byte of a word that was loaded. -/
theorem extract_loadWord (p : Policy) (va pa : Nat) {j : Nat} (hj : j < 4) :
    (s.loadWord p va pa).extractLsb' (8 * j) 8 = s.read p (va + j) (pa + j) := by
  rw [loadWord, extract_readWord _ 0 hj, Nat.zero_add]

/-- A line after a read is an old line, or a clean one. -/
theorem lines_fill {p : Policy} {l physical k : Nat} {e' : CacheLine}
    (he' : (s.fill p l physical).lines k = some e') :
    s.lines k = some e' ∨
      (k = l ∧ s.lines k = none ∧ e'.dirty = false ∧ e'.physical = physical) := by
  unfold fill at he'
  split_ifs at he'
  · by_cases hk : k = l
    · subst hk
      simp only [Function.update_self, Option.some.injEq, lineFor] at he'
      cases hentry : s.lines k with
      | some e =>
          rw [hentry] at he'
          exact .inl (congrArg some he')
      | none =>
          rw [hentry] at he'
          subst he'
          exact .inr ⟨rfl, rfl, rfl, rfl⟩
    · simp only [Function.update_of_ne hk] at he'
      exact .inl he'
  · exact .inl he'

/-- A line that is there stays through a read. -/
theorem lines_fill_of_some {p : Policy} {l physical k : Nat} {e : CacheLine}
    (he : s.lines k = some e) : (s.fill p l physical).lines k = some e := by
  unfold fill
  split_ifs
  · by_cases hk : k = l
    · subst hk
      simp only [Function.update_self, lineFor, he, Option.getD_some]
    · simpa only [Function.update_of_ne hk] using he
  · exact he

section Copy

variable {p q : Policy} {src srcPhysical dst dstPhysical k : Nat}

/-- Unless it is written back, a copy makes no line dirty. -/
theorem dirty_copyWord (hq : q ≠ .writeBack) {e' : CacheLine}
    (he' : (s.copyWord p src srcPhysical q dst dstPhysical).lines k = some e')
    (hdirty : e'.dirty = true) :
    ∃ e, s.lines k = some e ∧ e.dirty = true ∧ e'.physical = e.physical ∧
      (k ≠ lineOf dst → e'.data = e.data) := by
  have hold : ∀ e, (s.fill p (lineOf src) (lineOf srcPhysical)).lines k = some e →
      e.dirty = true → s.lines k = some e := by
    intro e he hd
    rcases s.lines_fill he with hsome | ⟨-, -, hclean, -⟩
    · exact hsome
    · rw [hclean] at hd
      exact absurd hd (by decide)
  cases q with
  | uncached => exact ⟨e', hold e' he' hdirty, hdirty, rfl, fun _ => rfl⟩
  | writeThrough =>
      by_cases hk : k = lineOf dst
      · subst hk
        simp only [copyWord, storeWord, Function.update_self, Option.map_eq_some_iff] at he'
        obtain ⟨e, he, rfl⟩ := he'
        exact ⟨e, hold e he hdirty, hdirty, rfl, fun hne => absurd rfl hne⟩
      · simp only [copyWord, storeWord, Function.update_of_ne hk] at he'
        exact ⟨e', hold e' he' hdirty, hdirty, rfl, fun _ => rfl⟩
  | writeBack => exact absurd rfl hq

/-- Dirty lines stay dirty. -/
theorem dirty_persists {e : CacheLine} (he : s.lines k = some e) (hdirty : e.dirty = true) :
    ∃ e', (s.copyWord p src srcPhysical q dst dstPhysical).lines k = some e' ∧
      e'.dirty = true := by
  have hfill : (s.fill p (lineOf src) (lineOf srcPhysical)).lines k = some e :=
    s.lines_fill_of_some he
  cases q with
  | uncached => exact ⟨e, hfill, hdirty⟩
  | writeThrough =>
      by_cases hk : k = lineOf dst
      · subst hk
        simp only [copyWord, storeWord, Function.update_self, hfill, Option.map_some]
        exact ⟨_, rfl, hdirty⟩
      · simp only [copyWord, storeWord, Function.update_of_ne hk]
        exact ⟨e, hfill, hdirty⟩
  | writeBack =>
      by_cases hk : k = lineOf dst
      · subst hk
        simp only [copyWord, storeWord, Function.update_self]
        exact ⟨_, rfl, rfl⟩
      · simp only [copyWord, storeWord, Function.update_of_ne hk]
        exact ⟨e, hfill, hdirty⟩

/-- Through a write-back mapping, the word stays in a dirty line. -/
theorem dirty_copyWord_writeBack :
    ∃ e, (s.copyWord p src srcPhysical .writeBack dst dstPhysical).lines (lineOf dst) = some e ∧
      e.dirty = true := by
  simp only [copyWord, storeWord, Function.update_self]
  exact ⟨_, rfl, rfl⟩

end Copy

/-! ## What becomes of a line -/

/-- A line after a store is an old line, or the one that is stored to: filled, or where
it was. -/
theorem lines_storeWord {p : Policy} {va pa k : Nat} {value : Word} {e' : CacheLine}
    (he' : (s.storeWord p va pa value).lines k = some e') :
    s.lines k = some e' ∨ k = lineOf va ∧ (s.lines k = none ∧ e'.physical = lineOf pa ∨
      ∃ e, s.lines k = some e ∧ e'.physical = e.physical) := by
  by_cases hk : k = lineOf va
  · subst hk
    refine .inr ⟨rfl, ?_⟩
    cases p with
    | uncached => exact .inr ⟨e', he', rfl⟩
    | writeThrough =>
        simp only [storeWord, Function.update_self, Option.map_eq_some_iff] at he'
        obtain ⟨e, he, rfl⟩ := he'
        exact .inr ⟨e, he, rfl⟩
    | writeBack =>
        simp only [storeWord, Function.update_self, Option.some.injEq, lineFor] at he'
        subst he'
        cases hline : s.lines (lineOf va) with
        | none => exact .inl ⟨rfl, rfl⟩
        | some e => exact .inr ⟨e, rfl, rfl⟩
  · left
    cases p with
    | uncached => exact he'
    | writeThrough | writeBack => simpa only [storeWord, Function.update_of_ne hk] using he'

theorem lines_storeWord_of_ne {p : Policy} {va k : Nat} (pa : Nat) (value : Word)
    (hk : k ≠ lineOf va) : (s.storeWord p va pa value).lines k = s.lines k := by
  cases p with
  | uncached => rfl
  | writeThrough | writeBack => exact Function.update_of_ne hk ..

/-- Only an eviction removes a line. -/
theorem present_fill {p : Policy} {l physical k : Nat} (hk : s.lines k ≠ none) :
    (s.fill p l physical).lines k ≠ none := by
  obtain ⟨e, he⟩ := Option.ne_none_iff_exists'.mp hk
  rw [s.lines_fill_of_some he]
  simp

theorem present_storeWord {p : Policy} {va k : Nat} (pa : Nat) (value : Word)
    (hk : s.lines k ≠ none) : (s.storeWord p va pa value).lines k ≠ none := by
  by_cases hva : k = lineOf va
  · subst hva
    cases p with
    | uncached => exact hk
    | writeThrough => simpa [storeWord] using hk
    | writeBack => simp [storeWord]
  · rwa [s.lines_storeWord_of_ne pa value hva]

theorem present_clean {l k : Nat} (hk : s.lines k ≠ none) : (s.clean l).lines k ≠ none := by
  by_cases hl : k = l
  · subst hl
    unfold clean
    split
    · split_ifs <;> simp_all
    · exact hk
  · rwa [s.lines_clean_of_ne hl]

theorem present_cleanAll {ls : List Nat} {k : Nat} (hk : s.lines k ≠ none) :
    (s.cleanAll ls).lines k ≠ none := by
  induction ls generalizing s with
  | nil => exact hk
  | cons l rest ih => exact ih (s.clean l) (s.present_clean hk)

/-- A word stored to a line that was not there is in memory when the line is evicted,
whatever the policy. -/
theorem mem_evict_storeWord {p : Policy} {va pa : Nat} (value : Word)
    (hnone : s.lines (lineOf va) = none) (hoffset : pa % lineSize = va % lineSize) :
    ((s.storeWord p va pa value).evict (lineOf va)).mem pa = value.extractLsb' 0 8 := by
  have hword : ∀ (m : Memory) (a : Nat), writeWord m a value a = value.extractLsb' 0 8 := by
    intro m a
    simp [writeWord]
  cases p with
  | uncached =>
      rw [evict, clean_of_not_dirty _ fun e he => absurd he (by simp [storeWord, hnone])]
      exact hword s.mem pa
  | writeThrough =>
      rw [evict, clean_of_not_dirty _ fun e he => absurd he (by simp [storeWord, hnone])]
      exact hword s.mem pa
  | writeBack =>
      have hline : (s.storeWord .writeBack va pa value).lines (lineOf va) =
          some { CacheLine.store (s.lineFor (lineOf va) (lineOf pa)) va value with
            dirty := true } :=
        Function.update_self ..
      rw [mem_evict_of_dirty _ hline rfl]
      · simp only [CacheLine.store, hoffset]
        exact hword _ _
      · simp only [CacheLine.store, lineFor, hnone, Option.getD_none]

end Virtual

end NspireUtils.Verified.VirtualCache
