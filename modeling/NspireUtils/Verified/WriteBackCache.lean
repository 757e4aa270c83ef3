import NspireUtils.Verified.ByteMemory

/-!
# A write-back cache and a write buffer

Memory behind a write-back data cache and a FIFO write buffer.  A store to a cached
line stays in the line, a store to another line goes to the buffer; cleaning a line
moves it to the buffer, and draining moves the buffer to memory.

`Cached.view` is the memory the processor sees, and it does not know the difference:
`view_store`, `view_clean`, `view_drain`.  `Cached.settled` is the memory once the
buffer is empty; the two are the same in a line that is not dirty.
-/

namespace NspireUtils.Verified.WriteBackCache

open NspireUtils.Verified.ByteMemory

/-- The bytes of a line. -/
def lineSize : Nat := 32

/-- The number of the line of an address. -/
def lineOf (a : Nat) : Nat := a / lineSize

/-- The addresses of a line. -/
def lineBlock (l : Nat) : Block := ⟨lineSize * l, lineSize⟩

theorem holds_lineBlock {l a : Nat} : (lineBlock l).Holds a ↔ lineOf a = l := by
  simp only [Block.Holds, lineBlock, lineOf, lineSize]
  omega

/-- An aligned word lies in one line. -/
theorem lineOf_word {a x : Nat} (ha : 4 ∣ a) (hle : a ≤ x) (hlt : x < a + 4) :
    lineOf x = lineOf a := by
  simp only [lineOf, lineSize]
  omega

inductive Line where
  | absent
  | clean
  | dirty
  deriving Repr, DecidableEq

/-- Memory, the write buffer with the oldest write first, which lines are cached, and
the bytes of the dirty ones.  A clean line holds what is behind it. -/
structure Cached where
  mem : Memory
  buffer : List (Block × Memory)
  line : Nat → Line
  data : Memory

/-- A write of a block. -/
def put (m : Memory) (w : Block × Memory) : Memory := fun x => if w.1.Holds x then w.2 x else m x

namespace Cached

/-- Memory once the buffer is empty. -/
def settled (s : Cached) : Memory := s.buffer.foldl put s.mem

/-- Memory as the processor sees it. -/
def view (s : Cached) : Memory :=
  fun x => if s.line (lineOf x) = .dirty then s.data x else s.settled x

/-- A store of a word. -/
def store (s : Cached) (a : Nat) (value : Word) : Cached :=
  if s.line (lineOf a) = .absent then
    { s with buffer := s.buffer ++ [(⟨a, 4⟩, writeWord s.settled a value)] }
  else
    { s with
      line := Function.update s.line (lineOf a) .dirty
      data := writeWord s.view a value }

/-- A dirty line goes to the buffer. -/
def clean (s : Cached) (l : Nat) : Cached :=
  if s.line l = .dirty then
    { s with
      buffer := s.buffer ++ [(lineBlock l, s.data)]
      line := Function.update s.line l .clean }
  else s

/-- The buffer goes to memory. -/
def drain (s : Cached) : Cached := { s with mem := s.settled, buffer := [] }

/-- A line is written back and leaves the cache. -/
def evict (s : Cached) (l : Nat) : Cached :=
  { s.clean l with line := Function.update (s.clean l).line l .absent }

/-- A line comes into the cache. -/
def fill (s : Cached) (l : Nat) : Cached :=
  if s.line l = .absent then { s with line := Function.update s.line l .clean } else s

/-- The oldest write of the buffer goes to memory. -/
def retire (s : Cached) : Cached :=
  match s.buffer with
  | [] => s
  | w :: rest => { s with mem := put s.mem w, buffer := rest }

variable (s : Cached)

/-- What is not dirty is behind the cache. -/
theorem view_of_not_dirty {x : Nat} (h : s.line (lineOf x) ≠ .dirty) : s.view x = s.settled x :=
  if_neg h

theorem settled_push (w : Block × Memory) :
    ({ s with buffer := s.buffer ++ [w] } : Cached).settled = put s.settled w := by
  simp only [settled, List.foldl_append, List.foldl_cons, List.foldl_nil]

@[simp] theorem settled_drain : s.drain.settled = s.settled := rfl

@[simp] theorem mem_drain : s.drain.mem = s.settled := rfl

@[simp] theorem line_drain : s.drain.line = s.line := rfl

/-! ## The processor's view -/

@[simp] theorem view_drain : s.drain.view = s.view := rfl

/-- **A store** writes a word of the processor's memory. -/
theorem view_store {a : Nat} (ha : 4 ∣ a) (value : Word) :
    (s.store a value).view = writeWord s.view a value := by
  funext x
  unfold store
  split_ifs with hline
  · have hpush := s.settled_push (⟨a, 4⟩, writeWord s.settled a value)
    simp only [view, hpush]
    by_cases hx : a ≤ x ∧ x < a + 4
    · have hsame : s.line (lineOf x) ≠ .dirty := by
        rw [lineOf_word ha hx.1 hx.2, hline]
        decide
      have hholds : (Block.mk a 4).Holds x := hx
      rw [if_neg hsame, put, if_pos hholds]
      simp only [writeWord, if_pos hx]
    · have hout : ¬ (Block.mk a 4).Holds x := hx
      rw [writeWord_of_outside _ _ _ (by omega)]
      simp only [put, if_neg hout, view]
  · by_cases hx : lineOf x = lineOf a
    · simp only [view, hx, Function.update_self, if_true]
    · have hout : x < a ∨ a + 4 ≤ x := by
        by_contra hin
        exact hx (lineOf_word ha (by omega) (by omega))
      rw [writeWord_of_outside _ _ _ hout]
      simp only [view, Function.update_of_ne hx]
      split_ifs with hdirty
      · rw [writeWord_of_outside _ _ _ hout]
        exact if_pos hdirty
      · rfl

/-- **Cleaning** a line does not change what the processor sees. -/
theorem view_clean (l : Nat) : (s.clean l).view = s.view := by
  funext x
  unfold clean
  split_ifs with hline
  · have hpush := s.settled_push (lineBlock l, s.data)
    by_cases hx : lineOf x = l
    · have hholds : (lineBlock l).Holds x := holds_lineBlock.mpr hx
      simp only [view, hx, Function.update_self, hline, if_true]
      rw [if_neg (by decide)]
      exact (congrFun hpush x).trans (if_pos hholds)
    · have hout : ¬ (lineBlock l).Holds x := fun h => hx (holds_lineBlock.mp h)
      simp only [view, Function.update_of_ne hx]
      split_ifs with hdirty
      · rfl
      · exact (congrFun hpush x).trans (if_neg hout)
  · rfl

/-- A line that was cleaned is not dirty. -/
theorem line_clean_self (l : Nat) : (s.clean l).line l ≠ .dirty := by
  unfold clean
  split_ifs with hline
  · simp only [Function.update_self]
    decide
  · exact hline

/-- A line that is not dirty may come or go. -/
theorem view_update_line {l : Nat} {c : Line} (hold : s.line l ≠ .dirty) (hnew : c ≠ .dirty) :
    ({ s with line := Function.update s.line l c } : Cached).view = s.view := by
  funext x
  by_cases hx : lineOf x = l
  · simp only [view, hx, Function.update_self, if_neg hold, if_neg hnew]
    rfl
  · simp only [view, Function.update_of_ne hx]
    rfl

@[simp] theorem view_evict (l : Nat) : (s.evict l).view = s.view := by
  rw [evict, (s.clean l).view_update_line (s.line_clean_self l) (by decide), view_clean]

@[simp] theorem view_fill (l : Nat) : (s.fill l).view = s.view := by
  unfold fill
  split_ifs with hline
  · exact s.view_update_line (by simp [hline]) (by decide)
  · rfl

theorem settled_retire : s.retire.settled = s.settled := by
  obtain ⟨mem, buffer, line, data⟩ := s
  cases buffer <;> rfl

@[simp] theorem line_retire : s.retire.line = s.line := by
  obtain ⟨mem, buffer, line, data⟩ := s
  cases buffer <;> rfl

@[simp] theorem view_retire : s.retire.view = s.view := by
  funext x
  have hdata : s.retire.data = s.data := by
    obtain ⟨mem, buffer, line, data⟩ := s
    cases buffer <;> rfl
  simp only [view, line_retire, hdata, settled_retire]

/-! ## What has reached memory -/

/-- Memory holds the byte, and no write in the buffer changes it. -/
def Written (x : Nat) : Prop :=
  s.mem x = s.view x ∧ ∀ w ∈ s.buffer, w.1.Holds x → w.2 x = s.view x

variable {s} {x : Nat}

/-- So draining does not change it either. -/
theorem Written.settled (h : s.Written x) : s.settled x = s.view x := by
  obtain ⟨hmem, hbuffer⟩ := h
  have hfold : ∀ (ws : List (Block × Memory)) (m : Memory), m x = s.view x →
      (∀ w ∈ ws, w.1.Holds x → w.2 x = s.view x) → (ws.foldl put m) x = s.view x := by
    intro ws
    induction ws with
    | nil => exact fun m hm _ => hm
    | cons w rest ih =>
        intro m hm hws
        refine ih (put m w) ?_ fun v hv => hws v (List.mem_cons_of_mem _ hv)
        by_cases hx : w.1.Holds x
        · exact (if_pos hx).trans (hws w List.mem_cons_self hx)
        · exact (if_neg hx).trans hm
  exact hfold s.buffer s.mem hmem hbuffer

theorem Written.clean (h : s.Written x) (l : Nat) : (s.clean l).Written x := by
  rw [Written, view_clean]
  unfold Cached.clean
  split_ifs with hline
  · refine ⟨h.1, fun w hw hx => ?_⟩
    rcases List.mem_append.mp hw with hw | hw
    · exact h.2 w hw hx
    · obtain rfl := List.mem_singleton.mp hw
      have hdirty : s.line (lineOf x) = .dirty := by rw [holds_lineBlock.mp hx, hline]
      exact (if_pos hdirty).symm
  · exact h

theorem Written.evict (h : s.Written x) (l : Nat) : (s.evict l).Written x := by
  have hclean := h.clean l
  rw [Written, view_clean] at hclean
  rw [Written, view_evict]
  exact hclean

theorem Written.fill (h : s.Written x) (l : Nat) : (s.fill l).Written x := by
  rw [Written, view_fill]
  unfold Cached.fill
  split_ifs
  · exact h
  · exact h

theorem Written.retire (h : s.Written x) : s.retire.Written x := by
  rw [Written, view_retire]
  unfold Cached.retire
  cases hbuffer : s.buffer with
  | nil => exact h
  | cons w rest =>
      have hpending : ∀ v ∈ w :: rest, v.1.Holds x → v.2 x = s.view x := hbuffer ▸ h.2
      refine ⟨?_, fun v hv => hpending v (List.mem_cons_of_mem _ hv)⟩
      by_cases hx : w.1.Holds x
      · exact (if_pos hx).trans (hpending w List.mem_cons_self hx)
      · exact (if_neg hx).trans h.1

theorem Written.drain (h : s.Written x) : s.drain.Written x :=
  ⟨h.settled, fun _ hw => absurd hw (by simp [Cached.drain])⟩

/-- What is not dirty is written by a drain. -/
theorem written_drain (h : s.line (lineOf x) ≠ .dirty) : s.drain.Written x := by
  refine ⟨?_, fun _ hw => absurd hw (by simp [Cached.drain])⟩
  rw [view_drain, view_of_not_dirty s h]
  rfl

variable (s)

/-! ## Which lines are dirty -/

/-- Cleaning makes no line dirty. -/
theorem line_clean {l k : Nat} (h : s.line k ≠ .dirty) : (s.clean l).line k ≠ .dirty := by
  by_cases hk : k = l
  · rw [hk]
    exact s.line_clean_self l
  · unfold clean
    split_ifs with hline
    · simpa only [Function.update_of_ne hk] using h
    · exact h

/-- A store makes no other line dirty. -/
theorem line_store {a k : Nat} (value : Word) (hk : k ≠ lineOf a) (h : s.line k ≠ .dirty) :
    (s.store a value).line k ≠ .dirty := by
  unfold store
  split_ifs with hline
  · exact h
  · simpa only [Function.update_of_ne hk] using h

theorem line_evict {l k : Nat} (h : s.line k ≠ .dirty) : (s.evict l).line k ≠ .dirty := by
  by_cases hk : k = l
  · simp [evict, hk]
  · simpa only [evict, Function.update_of_ne hk] using s.line_clean h

theorem line_fill {l k : Nat} (h : s.line k ≠ .dirty) : (s.fill l).line k ≠ .dirty := by
  unfold fill
  split_ifs
  · by_cases hk : k = l
    · simp [hk]
    · simpa only [Function.update_of_ne hk] using h
  · exact h

end Cached

end NspireUtils.Verified.WriteBackCache
