import NspireUtils.Verified.ShortDescriptor

/-!
# Bus operations

What the library does to the machine, one operation after the other: stores,
the two C library block operations, writes of the translation table base
register, cache and TLB maintenance calls, and the release of heap blocks.  A
function of the library denotes the list of operations it performs, in program
order; `Machine.execAll` runs such a list.

The machine here is flat: memory is coherent, so cache and TLB maintenance have
no effect on it.  They stay in the lists because their order against the stores
is part of what the code does.  The tables are reached at their physical
addresses, which is the identity mapping the source asks for.

`BusOp.footprint` names the block an operation writes.  `execAll_of_outside` is
the frame rule: what no operation of a list writes, the list leaves alone.
-/

namespace NspireUtils.Ports.Bus

open NspireUtils.Verified.ByteMemory
open NspireUtils.Verified.ShortDescriptor

/-- One operation of the library on the machine. -/
inductive BusOp where
  | store (address : Nat) (value : Word)
  | copy (dst src bytes : Nat)
  | fill (dst : Nat) (value : Byte) (bytes : Nat)
  | setTtbr0 (value : Word)
  | flushDataCacheRange (start stop : Word)
  | drainWriteBuffer
  | invalidateTlb
  | alignedFree (ptr : Word)
  deriving Repr, DecidableEq

/-- The block an operation writes, if it writes memory. -/
def BusOp.footprint : BusOp → Option Block
  | .store a _ => some ⟨a, 4⟩
  | .copy dst _ n => some ⟨dst, n⟩
  | .fill dst _ n => some ⟨dst, n⟩
  | _ => none

/-- The state the translation depends on. -/
structure Machine where
  mem : Memory
  ttbr0 : Word

namespace Machine

/-- Execute one operation on the flat machine. -/
def exec (m : Machine) : BusOp → Machine
  | .store a v => { m with mem := writeWord m.mem a v }
  | .copy dst src n => { m with mem := copyBytes m.mem dst src n }
  | .fill dst v n => { m with mem := fillBytes m.mem dst v n }
  | .setTtbr0 v => { m with ttbr0 := v }
  | _ => m

/-- Execute a list of operations in order. -/
def execAll (m : Machine) (ops : List BusOp) : Machine := ops.foldl exec m

@[simp] theorem execAll_nil (m : Machine) : m.execAll [] = m := rfl

@[simp] theorem execAll_cons (m : Machine) (op : BusOp) (ops : List BusOp) :
    m.execAll (op :: ops) = (m.exec op).execAll ops := rfl

@[simp] theorem exec_store (m : Machine) (a : Nat) (v : Word) :
    m.exec (.store a v) = { m with mem := writeWord m.mem a v } := rfl

@[simp] theorem exec_setTtbr0 (m : Machine) (v : Word) :
    m.exec (.setTtbr0 v) = { m with ttbr0 := v } := rfl

@[simp] theorem exec_flushDataCacheRange (m : Machine) (start stop : Word) :
    m.exec (.flushDataCacheRange start stop) = m := rfl

@[simp] theorem exec_invalidateTlb (m : Machine) : m.exec .invalidateTlb = m := rfl

@[simp] theorem exec_alignedFree (m : Machine) (ptr : Word) : m.exec (.alignedFree ptr) = m := rfl

theorem execAll_append (m : Machine) (xs ys : List BusOp) :
    m.execAll (xs ++ ys) = (m.execAll xs).execAll ys :=
  List.foldl_append

/-- The walk the hardware does in this state. -/
def walk (m : Machine) (va : Word) : Walk := Verified.ShortDescriptor.walk m.mem m.ttbr0 va

end Machine

/-! ## Frames -/

/-- The operations of the list never write address `a`. -/
def Spares (ops : List BusOp) (a : Nat) : Prop :=
  ∀ op ∈ ops, ∀ b, op.footprint = some b → ¬ b.Holds a

theorem spares_append {xs ys : List BusOp} {a : Nat} :
    Spares (xs ++ ys) a ↔ Spares xs a ∧ Spares ys a := by
  constructor
  · exact fun h => ⟨fun op hop => h op (by simp [hop]), fun op hop => h op (by simp [hop])⟩
  · rintro ⟨hx, hy⟩ op hop
    rcases List.mem_append.mp hop with h | h
    · exact hx op h
    · exact hy op h

/-- A list of operations none of which writes memory. -/
theorem spares_of_silent {ops : List BusOp} (h : ∀ op ∈ ops, op.footprint = none) (a : Nat) :
    Spares ops a := by
  intro op hop b hb
  rw [h op hop] at hb
  exact absurd hb (by simp)

theorem exec_of_outside (m : Machine) (op : BusOp) {a : Nat}
    (h : ∀ b, op.footprint = some b → ¬ b.Holds a) : (m.exec op).mem a = m.mem a := by
  cases op with
  | store x v =>
      have hout := h ⟨x, 4⟩ rfl
      simp only [Block.Holds] at hout
      exact writeWord_of_outside m.mem x v (by omega)
  | copy dst src n =>
      have hout := h ⟨dst, n⟩ rfl
      simp only [Block.Holds] at hout
      exact copyBytes_of_outside m.mem dst src n (by omega)
  | fill dst v n =>
      have hout := h ⟨dst, n⟩ rfl
      simp only [Block.Holds] at hout
      exact fillBytes_of_outside m.mem dst v n (by omega)
  | setTtbr0 | flushDataCacheRange | drainWriteBuffer | invalidateTlb | alignedFree => rfl

/-- **Frame rule.**  A list of operations leaves alone what it does not write. -/
theorem execAll_of_outside (ops : List BusOp) :
    ∀ (m : Machine) {a : Nat}, Spares ops a → (m.execAll ops).mem a = m.mem a := by
  induction ops with
  | nil => intro m a _; rfl
  | cons op rest ih =>
      intro m a h
      rw [Machine.execAll_cons, ih (m.exec op) (fun o ho => h o (by simp [ho]))]
      exact exec_of_outside m op (h op (by simp))

/-- Every block written by the list lies inside `b`. -/
def Within (ops : List BusOp) (b : Block) : Prop :=
  ∀ op ∈ ops, ∀ c, op.footprint = some c → ∀ a, c.Holds a → b.Holds a

theorem Within.spares {ops : List BusOp} {b : Block} (h : Within ops b) {a : Nat}
    (ha : ¬ b.Holds a) : Spares ops a :=
  fun op hop c hc hold => ha (h op hop c hc a hold)

theorem Within.append {xs ys : List BusOp} {b : Block} (hx : Within xs b)
    (hy : Within ys b) : Within (xs ++ ys) b := by
  intro op hop
  rcases List.mem_append.mp hop with h | h
  · exact hx op h
  · exact hy op h

theorem Within.nil (b : Block) : Within [] b := by
  intro op hop
  simp at hop

theorem Within.cons {op : BusOp} {ops : List BusOp} {b : Block}
    (hop : ∀ c, op.footprint = some c → ∀ a, c.Holds a → b.Holds a)
    (hops : Within ops b) : Within (op :: ops) b := by
  intro o ho
  rcases List.mem_cons.mp ho with rfl | h
  · exact hop
  · exact hops o h

/-! ## Filling a table word by word -/

/-- Store `f 0, …, f (n - 1)` at consecutive words from `base` on. -/
def storeTable (base n : Nat) (f : Nat → Word) : List BusOp :=
  (List.range n).map fun i => .store (base + 4 * i) (f i)

theorem storeTable_succ (base n : Nat) (f : Nat → Word) :
    storeTable base (n + 1) f = storeTable base n f ++ [.store (base + 4 * n) (f n)] := by
  simp [storeTable, List.range_succ]

theorem storeTable_within (base n : Nat) (f : Nat → Word) {b : Block}
    (hlo : b.start ≤ base) (hhi : base + 4 * n ≤ b.start + b.size) :
    Within (storeTable base n f) b := by
  intro op hop c hc a ha
  simp only [storeTable, List.mem_map, List.mem_range] at hop
  obtain ⟨i, hi, rfl⟩ := hop
  simp only [BusOp.footprint, Option.some.injEq] at hc
  subst hc
  simp only [Block.Holds] at ha ⊢
  omega

@[simp] theorem storeTable_ttbr0 (m : Machine) (base n : Nat) (f : Nat → Word) :
    (m.execAll (storeTable base n f)).ttbr0 = m.ttbr0 := by
  induction n with
  | zero => rfl
  | succ n ih =>
      rw [storeTable_succ, Machine.execAll_append]
      exact ih

/-- Entry `j` of a freshly stored table is the value stored there. -/
theorem tableEntry_storeTable (m : Machine) (base n : Nat) (f : Nat → Word) {j : Nat}
    (hj : j < n) : tableEntry (m.execAll (storeTable base n f)).mem base j = f j := by
  induction n with
  | zero => omega
  | succ n ih =>
      rw [storeTable_succ, Machine.execAll_append, tableEntry]
      show readWord (writeWord _ (base + 4 * n) (f n)) (base + 4 * j) = f j
      rcases Nat.lt_succ_iff_lt_or_eq.mp hj with h | rfl
      · rw [readWord_writeWord_of_apart _ _ _ (by omega)]
        exact ih h
      · rw [readWord_writeWord_self]

/-- An entry below or above the stored ones keeps its value. -/
theorem tableEntry_storeTable_of_apart (m : Machine) (base n : Nat) (f : Nat → Word)
    {base' j : Nat} (h : base' + 4 * j + 4 ≤ base ∨ base + 4 * n ≤ base' + 4 * j) :
    tableEntry (m.execAll (storeTable base n f)).mem base' j = tableEntry m.mem base' j := by
  refine readWord_congr fun a h1 h2 => ?_
  have hwithin := storeTable_within base n f (b := ⟨base, 4 * n⟩) (Nat.le_refl _) (Nat.le_refl _)
  refine execAll_of_outside _ m (hwithin.spares ?_)
  simp only [Block.Holds]
  omega

end NspireUtils.Ports.Bus
