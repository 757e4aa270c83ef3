import NspireUtils.Ports.CoarseSplit
import NspireUtils.Verified.Runs

/-!
# Lifetimes of the table editors

The state machine of a program that constructs, uses and destroys any number of
`MMUEditor`s and `MMUL2CoarsePageTableEditor`s.  Objects are named by the order
of their construction; a destroyed object keeps its name and holds a null
pointer, which is what the null checks of the source look at.

`World.step` performs one call.  The heap is the environment: each construction
carries the pointer `aligned_alloc` returned, and `World.Legal` is what the
allocator promises about it.

## Main results

* `untouched_run` — no call ever writes outside the live tables, so the tables
  that were there first are never touched.
* `walk_construct` — right after construction the new table translates as the
  old one did.
* `lifetime_undone` — a run between the construction and the destruction of an
  editor leaves the translation as it found it.
-/

namespace NspireUtils.Ports.EditorLifetimes

open NspireUtils.Verified.BitFields
open NspireUtils.Verified.ByteMemory
open NspireUtils.Verified.ShortDescriptor
open NspireUtils.Verified.Runs
open NspireUtils.Ports.Bus
open NspireUtils.Ports.MMUDescriptors
open NspireUtils.Ports.TableEditors
open NspireUtils.Ports.CoarseSplit

/-- The machine, every editor object constructed so far, and every bus
operation performed so far.

The last two fields are history variables, read by no call: `installedBy a` is
the coarse editor whose constructor made the descriptor that stands in the
first-level word at `a`, and `savedFrom k` the one whose descriptor coarse editor
`k` keeps in `oldL1Entry`. -/
structure World where
  machine : Machine
  editors : List MMUEditor
  coarse : List MMUL2CoarsePageTableEditor
  trace : List BusOp
  installedBy : Nat → Option Nat
  savedFrom : Nat → Option Nat

/-- One call of the program. -/
inductive Action where
  | newEditor (allocated : Option Word)
  | deleteEditor (i : Nat)
  | newCoarse (i : Nat) (virtualAddr : Word) (domain : Byte) (allocated : Option Word)
  | deleteCoarse (k : Nat)
  | map (i : Nat) (virtualAddr entry : Word)
  | mapSection (i : Nat) (virtualAddr physicalAddr attributes : Word)
  | getEntry (i : Nat) (virtualAddr : Word)
  | map64KBPage (k : Nat) (virtualAddr physicalAddr attributes : Word)
  | map4KBPage (k : Nat) (virtualAddr physicalAddr attributes : Word)
  deriving Repr, DecidableEq

namespace World

/-- Nothing constructed yet. -/
def initial (machine : Machine) : World :=
  ⟨machine, [], [], [], fun _ => none, fun _ => none⟩

/-- Perform bus operations. -/
def perform (w : World) (ops : List BusOp) : World :=
  { w with machine := w.machine.execAll ops, trace := w.trace ++ ops }

@[simp] theorem perform_machine (w : World) (ops : List BusOp) :
    (w.perform ops).machine = w.machine.execAll ops := rfl

@[simp] theorem perform_editors (w : World) (ops : List BusOp) :
    (w.perform ops).editors = w.editors := rfl

@[simp] theorem perform_coarse (w : World) (ops : List BusOp) :
    (w.perform ops).coarse = w.coarse := rfl

/-- The history of a copied table. -/
def copyHistory (h : Nat → Option Nat) (dst src : Nat) : Nat → Option Nat :=
  fun a => if (l1Block dst).Holds a then h (src + (a - dst)) else h a

/-- The history after the editor's entry for `virtualAddr` is replaced. -/
def recordEntry (h : Nat → Option Nat) (e : MMUEditor) (virtualAddr : Word)
    (maker : Option Nat) : Nat → Option Nat :=
  match e.editedTable with
  | none => h
  | some table => Function.update h (l1Slot table virtualAddr) maker

/-- Who made the editor's entry for `virtualAddr`. -/
def entryHistory (h : Nat → Option Nat) (e : MMUEditor) (virtualAddr : Word) : Option Nat :=
  e.editedTable.bind fun table => h (l1Slot table virtualAddr)

/-- One call.  A constructor that throws leaves no object and no effect. -/
def step (w : World) : Action → World
  | .newEditor allocated =>
      match MMUEditor.construct w.machine allocated with
      | .error _ => w
      | .ok (e, ops) =>
          { w.perform ops with
            editors := w.editors ++ [e]
            installedBy := match e.editedTable with
              | none => w.installedBy
              | some table =>
                  copyHistory w.installedBy table.toNat (ttbBase w.machine.ttbr0) }
  | .deleteEditor i =>
      match w.editors[i]? with
      | none => w
      | some e => { w.perform e.destroy.2 with editors := w.editors.set i e.destroy.1 }
  | .newCoarse i virtualAddr domain allocated =>
      match w.editors[i]? with
      | none => w
      | some e =>
          match MMUL2CoarsePageTableEditor.construct w.machine i e virtualAddr domain
            allocated with
          | .error _ => w
          | .ok (c, ops) =>
              { w.perform ops with
                coarse := w.coarse ++ [c]
                installedBy :=
                  recordEntry w.installedBy e virtualAddr (some w.coarse.length)
                savedFrom := Function.update w.savedFrom w.coarse.length
                  (entryHistory w.installedBy e virtualAddr) }
  | .deleteCoarse k =>
      match w.coarse[k]? with
      | none => w
      | some c =>
          match w.editors[c.parentMMUEditor]? with
          | none => w
          | some parent =>
              { w.perform (c.destroy parent).2 with
                coarse := w.coarse.set k (c.destroy parent).1
                installedBy := match c.l2Table with
                  | none => w.installedBy
                  | some _ =>
                      recordEntry w.installedBy parent c.virtualAddr (w.savedFrom k) }
  | .map i virtualAddr entry =>
      match w.editors[i]? with
      | none => w
      | some e =>
          { w.perform (e.map virtualAddr entry) with
            installedBy := recordEntry w.installedBy e virtualAddr none }
  | .mapSection i virtualAddr physicalAddr attributes =>
      match w.editors[i]? with
      | none => w
      | some e =>
          { w.perform (e.mapSection virtualAddr physicalAddr attributes) with
            installedBy := recordEntry w.installedBy e virtualAddr none }
  | .getEntry _ _ => w
  | .map64KBPage k virtualAddr physicalAddr attributes =>
      match w.coarse[k]? with
      | none => w
      | some c => w.perform (c.map64KBPage virtualAddr physicalAddr attributes)
  | .map4KBPage k virtualAddr physicalAddr attributes =>
      match w.coarse[k]? with
      | none => w
      | some c => w.perform (c.map4KBPage virtualAddr physicalAddr attributes)

/-! ## Live blocks and what the allocator promises -/

/-- Editor `i` is alive and edits the table at `table`. -/
def EditorAt (w : World) (i : Nat) (table : Word) : Prop :=
  ∃ e, w.editors[i]? = some e ∧ e.editedTable = some table

/-- Coarse editor `k` is alive and owns the table at `l2Table`. -/
def CoarseAt (w : World) (k : Nat) (l2Table : Word) : Prop :=
  ∃ c, w.coarse[k]? = some c ∧ c.l2Table = some l2Table

/-- The block belongs to a live object. -/
inductive LiveBlock (w : World) : Block → Prop
  | editor (i : Nat) (table : Word) (h : w.EditorAt i table) : LiveBlock w (l1Block table.toNat)
  | coarse (k : Nat) (l2Table : Word) (h : w.CoarseAt k l2Table) : LiveBlock w (l2Block l2Table)

/-- A block the allocator may return: disjoint from the live blocks and from the
addresses in `keep`. -/
structure Fresh (w : World) (keep : Nat → Prop) (b : Block) : Prop where
  apartLive : ∀ c, w.LiveBlock c → b.Apart c
  spares : ∀ a, b.Holds a → ¬ keep a

/-- What the allocator promises for the call, given addresses `keep` that belong
to somebody else. -/
def Legal (keep : Nat → Prop) (w : World) : Action → Prop
  | .newEditor (some table) => 2 ^ 14 ∣ table.toNat ∧ w.Fresh keep (l1Block table.toNat)
  | .newCoarse _ _ _ (some l2Table) => 2 ^ 10 ∣ l2Table.toNat ∧ w.Fresh keep (l2Block l2Table)
  | _ => True

theorem Fresh.mono {w : World} {keep keep' : Nat → Prop} {b : Block}
    (hkeep : ∀ a, keep' a → keep a) (h : w.Fresh keep b) : w.Fresh keep' b :=
  ⟨h.apartLive, fun a ha hk => h.spares a ha (hkeep a hk)⟩

theorem Legal.mono {w : World} {keep keep' : Nat → Prop} {a : Action}
    (hkeep : ∀ a, keep' a → keep a) (h : Legal keep w a) : Legal keep' w a := by
  unfold Legal at h ⊢
  split at h
  · exact ⟨h.1, h.2.mono hkeep⟩
  · exact ⟨h.1, h.2.mono hkeep⟩
  · trivial

/-- A block above the live blocks and above `keep` is fresh. -/
theorem Fresh.above {w : World} {keep : Nat → Prop} {b : Block}
    (hlive : ∀ c, w.LiveBlock c → c.start + c.size ≤ b.start)
    (hkeep : ∀ a, keep a → a < b.start) : w.Fresh keep b := by
  refine ⟨fun c hc => Block.apart_of_le (.inr (hlive c hc)), fun a ha hk => ?_⟩
  have hlt := hkeep a hk
  have hle := ha.1
  omega

/-! ## Which objects are alive after a call -/

theorem getElem?_concat_cases {α : Type} {l : List α} {x y : α} {i : Nat}
    (h : (l ++ [x])[i]? = some y) : l[i]? = some y ∨ (i = l.length ∧ x = y) := by
  rw [List.getElem?_append] at h
  split_ifs at h with hlt
  · exact .inl h
  · rw [List.getElem?_singleton] at h
    split_ifs at h with hzero
    exact .inr ⟨by omega, Option.some_inj.mp h⟩

theorem getElem?_set_cases {α : Type} {l : List α} {x y : α} {i j : Nat}
    (h : (l.set i x)[j]? = some y) : (j ≠ i ∧ l[j]? = some y) ∨ (j = i ∧ x = y) := by
  rw [List.getElem?_set] at h
  split_ifs at h with heq hlt
  · exact .inr ⟨heq.symm, Option.some_inj.mp h⟩
  · exact .inl ⟨fun hji => heq hji.symm, h⟩

theorem set_of_getElem? {α : Type} {l : List α} {x : α} {i : Nat} (h : l[i]? = some x) :
    l.set i x = l := by
  obtain ⟨hi, rfl⟩ := List.getElem?_eq_some_iff.mp h
  exact List.set_getElem_self hi

theorem editorAt_append {w w' : World} {e : MMUEditor} {i : Nat} {table : Word}
    (hw : w'.editors = w.editors ++ [e]) (h : w'.EditorAt i table) :
    w.EditorAt i table ∨ (i = w.editors.length ∧ e.editedTable = some table) := by
  obtain ⟨e', hget, htable⟩ := h
  rw [hw] at hget
  rcases getElem?_concat_cases hget with hold | ⟨hi, rfl⟩
  · exact .inl ⟨e', hold, htable⟩
  · exact .inr ⟨hi, htable⟩

theorem editorAt_set {w w' : World} {e : MMUEditor} {i j : Nat} {table : Word}
    (hw : w'.editors = w.editors.set i e) (hdead : e.editedTable = none)
    (h : w'.EditorAt j table) : j ≠ i ∧ w.EditorAt j table := by
  obtain ⟨e', hget, htable⟩ := h
  rw [hw] at hget
  rcases getElem?_set_cases hget with ⟨hne, hold⟩ | ⟨-, rfl⟩
  · exact ⟨hne, e', hold, htable⟩
  · simp [hdead] at htable

theorem coarseAt_append {w w' : World} {c : MMUL2CoarsePageTableEditor} {k : Nat}
    {l2Table : Word} (hw : w'.coarse = w.coarse ++ [c]) (h : w'.CoarseAt k l2Table) :
    w.CoarseAt k l2Table ∨ (k = w.coarse.length ∧ c.l2Table = some l2Table) := by
  obtain ⟨c', hget, htable⟩ := h
  rw [hw] at hget
  rcases getElem?_concat_cases hget with hold | ⟨hi, rfl⟩
  · exact .inl ⟨c', hold, htable⟩
  · exact .inr ⟨hi, htable⟩

theorem coarseAt_set {w w' : World} {c : MMUL2CoarsePageTableEditor} {k j : Nat}
    {l2Table : Word} (hw : w'.coarse = w.coarse.set k c) (hdead : c.l2Table = none)
    (h : w'.CoarseAt j l2Table) : j ≠ k ∧ w.CoarseAt j l2Table := by
  obtain ⟨c', hget, htable⟩ := h
  rw [hw] at hget
  rcases getElem?_set_cases hget with ⟨hne, hold⟩ | ⟨-, rfl⟩
  · exact ⟨hne, c', hold, htable⟩
  · simp [hdead] at htable

theorem EditorAt.unique {w : World} {i : Nat} {t u : Word} (ht : w.EditorAt i t)
    (hu : w.EditorAt i u) : t = u := by
  obtain ⟨e, hget, he⟩ := ht
  obtain ⟨e', hget', he'⟩ := hu
  rw [hget, Option.some.injEq] at hget'
  subst hget'
  rw [he, Option.some.injEq] at he'
  exact he'

theorem EditorAt.lt {w : World} {i : Nat} {t : Word} (h : w.EditorAt i t) :
    i < w.editors.length := by
  obtain ⟨e, hget, -⟩ := h
  exact (List.getElem?_eq_some_iff.mp hget).1

theorem CoarseAt.lt {w : World} {k : Nat} {p : Word} (h : w.CoarseAt k p) :
    k < w.coarse.length := by
  obtain ⟨c, hget, -⟩ := h
  exact (List.getElem?_eq_some_iff.mp hget).1

theorem EditorAt.append {w w' : World} {e : MMUEditor} {i : Nat} {t : Word}
    (hw : w'.editors = w.editors ++ [e]) (h : w.EditorAt i t) : w'.EditorAt i t := by
  obtain ⟨e', hget, he⟩ := h
  refine ⟨e', ?_, he⟩
  rw [hw, List.getElem?_append_left (List.getElem?_eq_some_iff.mp hget).1]
  exact hget

theorem CoarseAt.append {w w' : World} {c : MMUL2CoarsePageTableEditor} {k : Nat} {p : Word}
    (hw : w'.coarse = w.coarse ++ [c]) (h : w.CoarseAt k p) : w'.CoarseAt k p := by
  obtain ⟨c', hget, hc⟩ := h
  refine ⟨c', ?_, hc⟩
  rw [hw, List.getElem?_append_left (List.getElem?_eq_some_iff.mp hget).1]
  exact hget

theorem EditorAt.set {w w' : World} {e : MMUEditor} {i j : Nat} {t : Word}
    (hw : w'.editors = w.editors.set i e) (hne : j ≠ i) (h : w.EditorAt j t) :
    w'.EditorAt j t := by
  obtain ⟨e', hget, he⟩ := h
  refine ⟨e', ?_, he⟩
  rw [hw, List.getElem?_set_ne hne.symm]
  exact hget

theorem CoarseAt.set {w w' : World} {c : MMUL2CoarsePageTableEditor} {k j : Nat} {p : Word}
    (hw : w'.coarse = w.coarse.set k c) (hne : j ≠ k) (h : w.CoarseAt j p) :
    w'.CoarseAt j p := by
  obtain ⟨c', hget, hc⟩ := h
  refine ⟨c', ?_, hc⟩
  rw [hw, List.getElem?_set_ne hne.symm]
  exact hget

/-! ## What one call does

Every call is one of five kinds: nothing happens, an object appears, an object
dies, or operations are performed.  The invariants below are proved against this
list instead of the nine definitions.
-/

/-- The effect of a call that does something. -/
inductive Effect (w : World) : Action → World → Prop
  | newEditor (table : Word) :
      Effect w (.newEditor (some table))
        { w.perform
            [ .copy table.toNat (w.machine.ttbr0 &&& 0xFFFFC000#32).toNat ttbSize
            , .flushDataCacheRange table (table + BitVec.ofNat 32 ttbSize)
            , .setTtbr0 (table ||| (w.machine.ttbr0 &&& ~~~0xFFFFC000#32))
            , .invalidateTlb ] with
          editors := w.editors ++
            [{ originalTtbr0Reg := w.machine.ttbr0, editedTable := some table }]
          installedBy := copyHistory w.installedBy table.toNat (ttbBase w.machine.ttbr0) }
  | deleteEditor (i : Nat) (e : MMUEditor) (table : Word) (hget : w.editors[i]? = some e)
      (htable : e.editedTable = some table) :
      Effect w (.deleteEditor i)
        { w.perform [.setTtbr0 e.originalTtbr0Reg, .invalidateTlb, .alignedFree table] with
          editors := w.editors.set i { e with editedTable := none } }
  | newCoarse (i : Nat) (virtualAddr : Word) (domain : Byte) (l2Table : Word) (e : MMUEditor)
      (table : Word) (c : MMUL2CoarsePageTableEditor) (ops : List BusOp)
      (hget : w.editors[i]? = some e) (htable : e.editedTable = some table)
      (hctor : MMUL2CoarsePageTableEditor.construct w.machine i e virtualAddr domain
        (some l2Table) = .ok (c, ops)) :
      Effect w (.newCoarse i virtualAddr domain (some l2Table))
        { w.perform ops with
          coarse := w.coarse ++ [c]
          installedBy := Function.update w.installedBy (l1Slot table virtualAddr)
            (some w.coarse.length)
          savedFrom := Function.update w.savedFrom w.coarse.length
            (w.installedBy (l1Slot table virtualAddr)) }
  | deleteCoarse (k : Nat) (c : MMUL2CoarsePageTableEditor) (parent : MMUEditor)
      (l2Table : Word) (hget : w.coarse[k]? = some c)
      (hparent : w.editors[c.parentMMUEditor]? = some parent)
      (htable : c.l2Table = some l2Table) :
      Effect w (.deleteCoarse k)
        { w.perform (parent.map c.virtualAddr c.oldL1Entry ++ [.alignedFree l2Table]) with
          coarse := w.coarse.set k { c with l2Table := none }
          installedBy := recordEntry w.installedBy parent c.virtualAddr (w.savedFrom k) }
  | editL1 (a : Action) (i : Nat) (e : MMUEditor) (table virtualAddr entry : Word)
      (hget : w.editors[i]? = some e) (htable : e.editedTable = some table)
      (ha : a = .map i virtualAddr entry ∨ ∃ physicalAddr attributes,
        a = .mapSection i virtualAddr physicalAddr attributes ∧
          entry = sectionDescriptor physicalAddr attributes) :
      Effect w a
        { w.perform (e.map virtualAddr entry) with
          installedBy := Function.update w.installedBy (l1Slot table virtualAddr) none }
  | editL2 (a : Action) (k : Nat) (c : MMUL2CoarsePageTableEditor) (l2Table : Word)
      (ops : List BusOp) (hget : w.coarse[k]? = some c) (htable : c.l2Table = some l2Table)
      (hops : Within ops (l2Block l2Table))
      (hregs : (w.machine.execAll ops).ttbr0 = w.machine.ttbr0)
      (ha : ∃ virtualAddr physicalAddr attributes,
        a = .map64KBPage k virtualAddr physicalAddr attributes ∨
          a = .map4KBPage k virtualAddr physicalAddr attributes) :
      Effect w a (w.perform ops)

theorem perform_nil (w : World) : w.perform [] = w := by
  simp [perform]

theorem recordEntry_dead {h : Nat → Option Nat} {e : MMUEditor} (virtualAddr : Word)
    (maker : Option Nat) (he : e.editedTable = none) : recordEntry h e virtualAddr maker = h := by
  simp [recordEntry, he]

theorem map_dead {e : MMUEditor} (virtualAddr entry : Word) (he : e.editedTable = none) :
    e.map virtualAddr entry = [] := by
  simp [MMUEditor.map, he]

/-- Every call has one of the effects. -/
theorem step_effect (w : World) (a : Action) : w.step a = w ∨ Effect w a (w.step a) := by
  cases a with
  | newEditor allocated =>
      cases allocated with
      | none => exact .inl rfl
      | some table => exact .inr (.newEditor table)
  | deleteEditor i =>
      cases hget : w.editors[i]? with
      | none => exact .inl (by simp [step, hget])
      | some e =>
          cases htable : e.editedTable with
          | none =>
              left
              simp only [step, hget, MMUEditor.destroy, htable, perform_nil]
              rw [set_of_getElem? hget]
          | some table =>
              right
              have heff := Effect.deleteEditor (w := w) i e table hget htable
              simpa only [step, hget, MMUEditor.destroy, htable] using heff
  | newCoarse i virtualAddr domain allocated =>
      cases hget : w.editors[i]? with
      | none => exact .inl (by simp [step, hget])
      | some e =>
          cases hctor : MMUL2CoarsePageTableEditor.construct w.machine i e virtualAddr domain
            allocated with
          | error _ => exact .inl (by simp [step, hget, hctor])
          | ok result =>
              obtain ⟨c, ops⟩ := result
              cases htable : e.editedTable with
              | none =>
                  rw [MMUL2CoarsePageTableEditor.construct_null _ _ _ htable] at hctor
                  simp at hctor
              | some table =>
                  obtain ⟨l2Table, rfl, -⟩ :=
                    MMUL2CoarsePageTableEditor.construct_ok htable hctor
                  right
                  have heff := Effect.newCoarse (w := w) i virtualAddr domain l2Table e table c
                    ops hget htable hctor
                  simpa only [step, hget, hctor, recordEntry, entryHistory, htable,
                    Option.bind_some] using heff
  | deleteCoarse k =>
      cases hget : w.coarse[k]? with
      | none => exact .inl (by simp [step, hget])
      | some c =>
          cases hparent : w.editors[c.parentMMUEditor]? with
          | none => exact .inl (by simp [step, hget, hparent])
          | some parent =>
              cases htable : c.l2Table with
              | none =>
                  left
                  simp only [step, hget, hparent, MMUL2CoarsePageTableEditor.destroy, htable,
                    perform_nil]
                  rw [set_of_getElem? hget]
              | some l2Table =>
                  right
                  have heff := Effect.deleteCoarse (w := w) k c parent l2Table hget hparent htable
                  simpa only [step, hget, hparent, MMUL2CoarsePageTableEditor.destroy, htable]
                    using heff
  | map i virtualAddr entry =>
      cases hget : w.editors[i]? with
      | none => exact .inl (by simp [step, hget])
      | some e =>
          cases htable : e.editedTable with
          | none =>
              left
              simp only [step, hget, map_dead _ _ htable, perform_nil, recordEntry_dead _ _ htable]
          | some table =>
              right
              have heff := Effect.editL1 (w := w) (.map i virtualAddr entry) i e table virtualAddr
                entry hget htable (.inl rfl)
              simpa only [step, hget, recordEntry, htable] using heff
  | mapSection i virtualAddr physicalAddr attributes =>
      cases hget : w.editors[i]? with
      | none => exact .inl (by simp [step, hget])
      | some e =>
          cases htable : e.editedTable with
          | none =>
              left
              simp only [step, hget, MMUEditor.mapSection_eq_map, map_dead _ _ htable, perform_nil,
                recordEntry_dead _ _ htable]
          | some table =>
              right
              have heff := Effect.editL1 (w := w)
                (.mapSection i virtualAddr physicalAddr attributes) i e table virtualAddr
                _ hget htable (.inr ⟨physicalAddr, attributes, rfl, rfl⟩)
              simpa only [step, hget, MMUEditor.mapSection_eq_map, recordEntry, htable] using heff
  | getEntry _ _ => exact .inl rfl
  | map64KBPage k virtualAddr physicalAddr attributes =>
      cases hget : w.coarse[k]? with
      | none => exact .inl (by simp [step, hget])
      | some c =>
          simp only [step, hget]
          cases htable : c.l2Table with
          | none =>
              exact .inl (by simp [MMUL2CoarsePageTableEditor.map64KBPage, htable, perform_nil])
          | some l2Table =>
              exact .inr (.editL2 _ k c l2Table _ hget htable
                (c.map64KBPage_within _ _ _ htable) (by simp)
                ⟨virtualAddr, physicalAddr, attributes, .inl rfl⟩)
  | map4KBPage k virtualAddr physicalAddr attributes =>
      cases hget : w.coarse[k]? with
      | none => exact .inl (by simp [step, hget])
      | some c =>
          simp only [step, hget]
          cases htable : c.l2Table with
          | none =>
              exact .inl (by simp [MMUL2CoarsePageTableEditor.map4KBPage, htable, perform_nil])
          | some l2Table =>
              exact .inr (.editL2 _ k c l2Table _ hget htable
                (c.map4KBPage_within _ _ _ htable) (by simp)
                ⟨virtualAddr, physicalAddr, attributes, .inr rfl⟩)

/-- A block that is live after a call was live before it or is the one the call
allocated. -/
theorem liveBlock_step {w : World} {a : Action} {b : Block} (keep : Nat → Prop)
    (hlegal : Legal keep w a) (h : (w.step a).LiveBlock b) :
    w.LiveBlock b ∨ w.Fresh keep b := by
  rcases step_effect w a with heq | heff
  · rw [heq] at h
    exact .inl h
  generalize hw' : w.step a = w' at h heff
  cases heff with
  | newEditor table =>
      cases h with
      | editor i t hat =>
          rcases editorAt_append rfl hat with hold | ⟨-, ht⟩
          · exact .inl (.editor i t hold)
          · simp only [Option.some.injEq] at ht
            subst ht
            exact .inr hlegal.2
      | coarse k p hat => exact .inl (.coarse k p hat)
  | deleteEditor i e table hget htable =>
      cases h with
      | editor j t hat => exact .inl (.editor j t (editorAt_set rfl rfl hat).2)
      | coarse k p hat => exact .inl (.coarse k p hat)
  | newCoarse i virtualAddr domain l2Table e table c ops hget htable hctor =>
      cases h with
      | editor j t hat => exact .inl (.editor j t hat)
      | coarse k p hat =>
          rcases coarseAt_append rfl hat with hold | ⟨-, hp⟩
          · exact .inl (.coarse k p hold)
          · obtain ⟨q, hq, -, rfl, -⟩ := MMUL2CoarsePageTableEditor.construct_ok htable hctor
            simp only [Option.some.injEq] at hq hp
            subst hq hp
            exact .inr hlegal.2
  | deleteCoarse k c parent l2Table hget hparent htable =>
      cases h with
      | editor j t hat => exact .inl (.editor j t hat)
      | coarse j p hat => exact .inl (.coarse j p (coarseAt_set rfl rfl hat).2)
  | editL1 => exact .inl (by cases h with
      | editor j t hat => exact .editor j t hat
      | coarse j p hat => exact .coarse j p hat)
  | editL2 => exact .inl (by cases h with
      | editor j t hat => exact .editor j t hat
      | coarse j p hat => exact .coarse j p hat)

/-- The operations of one call write only blocks that are live before or after
it. -/
theorem step_performs (w : World) (a : Action) :
    ∃ ops, (w.step a).machine = w.machine.execAll ops ∧
      (w.step a).trace = w.trace ++ ops ∧
      ∀ x, (∀ b, w.LiveBlock b ∨ (w.step a).LiveBlock b → ¬ b.Holds x) → Spares ops x := by
  rcases step_effect w a with heq | heff
  · exact ⟨[], by rw [heq]; rfl, by rw [heq]; simp, fun x _ op hop => by simp at hop⟩
  generalize w.step a = w' at heff ⊢
  cases heff with
  | newEditor table =>
      refine ⟨_, rfl, rfl, fun x hx => ?_⟩
      have hlive := hx _ (.inr (.editor w.editors.length table
        ⟨{ originalTtbr0Reg := w.machine.ttbr0, editedTable := some table },
          List.getElem?_concat_length, rfl⟩))
      have hwithin : Within
          [ BusOp.copy table.toNat (w.machine.ttbr0 &&& 0xFFFFC000#32).toNat ttbSize
          , .flushDataCacheRange table (table + BitVec.ofNat 32 ttbSize)
          , .setTtbr0 (table ||| (w.machine.ttbr0 &&& ~~~0xFFFFC000#32))
          , .invalidateTlb ] (l1Block table.toNat) := by
        refine .cons ?_ (.cons (by simp [BusOp.footprint]) (.cons (by simp [BusOp.footprint])
          (.cons (by simp [BusOp.footprint]) (.nil _))))
        intro c hc y hy
        simp only [BusOp.footprint, Option.some.injEq] at hc
        rw [← hc] at hy
        exact hy
      exact hwithin.spares hlive
  | deleteEditor i e table hget htable =>
      exact ⟨_, rfl, rfl, fun x _ => spares_of_silent (by simp [BusOp.footprint]) x⟩
  | newCoarse i virtualAddr domain l2Table e table c ops hget htable hctor =>
      refine ⟨ops, rfl, rfl, fun x hx => ?_⟩
      have hlive1 : w.LiveBlock (l1Block table.toNat) := .editor i table ⟨e, hget, htable⟩
      obtain ⟨q, hq, -, rfl, rfl⟩ := MMUL2CoarsePageTableEditor.construct_ok htable hctor
      simp only [Option.some.injEq] at hq
      subst hq
      have hlive2 := hx _ (.inr (.coarse w.coarse.length l2Table
        ⟨_, List.getElem?_concat_length, rfl⟩))
      refine spares_append.mpr ⟨spares_append.mpr ⟨?_, ?_⟩, ?_⟩
      · exact (fillL2Table_within _ _ _).spares hlive2
      · exact spares_of_silent (by simp [BusOp.footprint]) x
      · exact (e.map_within _ _ htable).spares (hx _ (.inl hlive1))
  | deleteCoarse k c parent l2Table hget hparent htable =>
      refine ⟨_, rfl, rfl, fun x hx => ?_⟩
      refine spares_append.mpr ⟨?_, spares_of_silent (by simp [BusOp.footprint]) x⟩
      cases hp : parent.editedTable with
      | none =>
          rw [map_dead _ _ hp]
          exact spares_of_silent (by simp) x
      | some table =>
          have hlive : w.LiveBlock (l1Block table.toNat) := .editor _ table ⟨parent, hparent, hp⟩
          exact (parent.map_within _ _ hp).spares (hx _ (.inl hlive))
  | editL1 _ i e table virtualAddr entry hget htable _ =>
      refine ⟨_, rfl, rfl, fun x hx => ?_⟩
      have hlive : w.LiveBlock (l1Block table.toNat) := .editor i table ⟨e, hget, htable⟩
      exact (e.map_within _ _ htable).spares (hx _ (.inl hlive))
  | editL2 _ k c l2Table ops hget htable hops _ _ =>
      refine ⟨ops, rfl, rfl, fun x hx => ?_⟩
      have hlive : w.LiveBlock (l2Block l2Table) := .coarse k l2Table ⟨c, hget, htable⟩
      exact hops.spares (hx _ (.inl hlive))

/-! ## What belongs to others is never written -/

/-- The addresses in `keep` belong to no live object and were never written. -/
structure Untouched (keep : Nat → Prop) (w : World) : Prop where
  spared : ∀ b, w.LiveBlock b → ∀ a, b.Holds a → ¬ keep a
  unwritten : ∀ a, keep a → Spares w.trace a

theorem untouched_step (keep : Nat → Prop) (w : World) (a : Action)
    (hlegal : Legal keep w a) (h : w.Untouched keep) : (w.step a).Untouched keep := by
  have hspared : ∀ b, (w.step a).LiveBlock b → ∀ x, b.Holds x → ¬ keep x := by
    intro b hb
    rcases liveBlock_step keep hlegal hb with hold | hfresh
    · exact h.spared b hold
    · exact hfresh.spares
  refine ⟨hspared, fun x hx => ?_⟩
  obtain ⟨ops, -, htrace, hops⟩ := step_performs w a
  rw [htrace, spares_append]
  refine ⟨h.unwritten x hx, hops x fun b hb hold => ?_⟩
  rcases hb with hb | hb
  · exact h.spared b hb x hold hx
  · exact hspared b hb x hold hx

/-- **Nothing of others is written**, over any run. -/
theorem untouched_run (keep : Nat → Prop) (as : List Action) (w : World)
    (hallowed : Allowed step (Legal keep) w as) (h : w.Untouched keep) :
    (run step w as).Untouched keep :=
  run_invariant step (Legal keep) (untouched_step keep) as w hallowed h

theorem untouched_initial (keep : Nat → Prop) (m : Machine) : (initial m).Untouched keep := by
  refine ⟨fun b hb => ?_, fun a _ op hop => by simp [initial] at hop⟩
  cases hb with
  | editor i t hat =>
      obtain ⟨e, hget, -⟩ := hat
      simp [initial] at hget
  | coarse k p hat =>
      obtain ⟨c, hget, -⟩ := hat
      simp [initial] at hget

/-- The machine is what the trace made of the machine the run began with. -/
theorem machine_run (as : List Action) (w : World) :
    ∃ ops, (run step w as).trace = w.trace ++ ops ∧
      (run step w as).machine = w.machine.execAll ops := by
  induction as generalizing w with
  | nil => exact ⟨[], by simp, rfl⟩
  | cons a rest ih =>
      obtain ⟨ops, hmachine, htrace, -⟩ := step_performs w a
      obtain ⟨ops', htrace', hmachine'⟩ := ih (w.step a)
      refine ⟨ops ++ ops', ?_, ?_⟩
      · rw [run_cons, htrace', htrace, List.append_assoc]
      · rw [run_cons, hmachine', hmachine, Machine.execAll_append]

/-- An object that is not destroyed stays what it is. -/
theorem editors_step {w : World} {a : Action} {i : Nat} {e : MMUEditor}
    (hget : w.editors[i]? = some e) (ha : a ≠ .deleteEditor i) :
    (w.step a).editors[i]? = some e := by
  have hi : i < w.editors.length := (List.getElem?_eq_some_iff.mp hget).1
  rcases step_effect w a with heq | heff
  · rw [heq]
    exact hget
  generalize w.step a = w' at heff ⊢
  cases heff with
  | newEditor table =>
      show (w.editors ++ _)[i]? = some e
      rw [List.getElem?_append_left hi]
      exact hget
  | deleteEditor j e' table hget' htable =>
      show (w.editors.set j _)[i]? = some e
      have hne : j ≠ i := fun hji => ha (by rw [hji])
      rw [List.getElem?_set_ne hne]
      exact hget
  | newCoarse | deleteCoarse | editL1 | editL2 => exact hget

theorem editors_run {i : Nat} {e : MMUEditor} :
    ∀ (as : List Action) (w : World), w.editors[i]? = some e → Action.deleteEditor i ∉ as →
      (run step w as).editors[i]? = some e := by
  intro as
  induction as with
  | nil => intro w hget _; exact hget
  | cons a rest ih =>
      intro w hget hnot
      simp only [List.mem_cons, not_or] at hnot
      exact ih (w.step a) (editors_step hget fun h => hnot.1 h.symm) hnot.2

/-- The live blocks are below `bound` if the pointers the objects hold are. -/
theorem liveBlock_le {w : World} {bound : Nat}
    (heditors : ∀ e ∈ w.editors, ∀ t, e.editedTable = some t → t.toNat + 4 * 4096 ≤ bound)
    (hcoarse : ∀ c ∈ w.coarse, ∀ p, c.l2Table = some p → p.toNat + l2TableSize ≤ bound) :
    ∀ b, w.LiveBlock b → b.start + b.size ≤ bound := by
  intro b hb
  cases hb with
  | editor i t hat =>
      obtain ⟨e, hget, he⟩ := hat
      exact heditors e (List.mem_of_getElem? hget) t he
  | coarse k p hat =>
      obtain ⟨c, hget, hc⟩ := hat
      exact hcoarse c (List.mem_of_getElem? hget) p hc

end World

/-! ## An editor's lifetime leaves no trace -/

/-- The addresses of the translation tables in use: the first-level table and
every second-level table it names. -/
def OriginalTables (m : Machine) (a : Nat) : Prop :=
  (l1Block (ttbBase m.ttbr0)).Holds a ∨
    ∃ i, i < 4096 ∧ ∃ b, secondLevel (tableEntry m.mem (ttbBase m.ttbr0) i) = some b ∧ b.Holds a

/-- Memories that agree on the tables in use translate alike. -/
theorem walk_of_agree {m m' : Machine} (hregs : m'.ttbr0 = m.ttbr0)
    (hmem : ∀ a, OriginalTables m a → m'.mem a = m.mem a) (x : Word) :
    m'.walk x = m.walk x := by
  simp only [Machine.walk, Verified.ShortDescriptor.walk, hregs]
  exact walkTable_congr (fun a ha => hmem a (.inl ha))
    (fun i hi b hb a ha => hmem a (.inr ⟨i, hi, b, hb, ha⟩)) x

/-- Right after construction the new table translates every address as the old
one did. -/
theorem walk_construct (m : Machine) {table : Word} (haligned : 2 ^ 14 ∣ table.toNat)
    (hspares : ∀ a, (l1Block table.toNat).Holds a → ¬ OriginalTables m a) (x : Word) :
    ((World.initial m).step (.newEditor (some table))).machine.walk x = m.walk x := by
  have hi := l1IndexOf_lt x
  have hmachine : ((World.initial m).step (.newEditor (some table))).machine =
      { mem := copyBytes m.mem table.toNat (ttbBase m.ttbr0) ttbSize
        ttbr0 := table ||| (m.ttbr0 &&& ~~~0xFFFFC000#32) } := by
    rw [← toNat_oldTableAddr]
    rfl
  simp only [hmachine, Machine.walk, Verified.ShortDescriptor.walk,
    ttbBase_newTtbr0 m.ttbr0 haligned, walkTable]
  have hentry : tableEntry (copyBytes m.mem table.toNat (ttbBase m.ttbr0) ttbSize)
      table.toNat (l1IndexOf x) = tableEntry m.mem (ttbBase m.ttbr0) (l1IndexOf x) :=
    readWord_copyBytes m.mem _ _ _ (by simp only [ttbSize]; omega)
  rw [hentry]
  refine walkEntry_congr fun b hb a ha => copyBytes_of_outside m.mem _ _ _ ?_
  have hout : ¬ (l1Block table.toNat).Holds a :=
    fun h => hspares a h (.inr ⟨_, hi, b, hb, ha⟩)
  simp only [Block.Holds, l1Block] at hout
  simp only [ttbSize]
  omega

/-- **An editor's lifetime is undone.**  Between the construction and the
destruction of an editor any calls on any editors may happen, in any order of
lifetimes, nested or not.  The tables that were in use before are never written,
`TTBR0` gets its value back, and every address is translated as before; right
after the construction it already was.  The old table is identity mapped when it is
copied, as the constructor asks for. -/
theorem lifetime_undone (m : Machine) (table : Word) (calls : List Action)
    (hallowed : Allowed World.step (World.Legal (OriginalTables m)) (World.initial m)
      (.newEditor (some table) :: calls))
    (hlast : Action.deleteEditor 0 ∉ calls) :
    (∀ x, ((World.initial m).step (.newEditor (some table))).machine.walk x = m.walk x) ∧
      (∀ a, OriginalTables m a →
        Spares (run World.step (World.initial m)
          (.newEditor (some table) :: calls ++ [.deleteEditor 0])).trace a) ∧
      (run World.step (World.initial m)
        (.newEditor (some table) :: calls ++ [.deleteEditor 0])).machine.ttbr0 = m.ttbr0 ∧
      ∀ x, (run World.step (World.initial m)
        (.newEditor (some table) :: calls ++ [.deleteEditor 0])).machine.walk x = m.walk x := by
  obtain ⟨⟨haligned, hfresh⟩, hcalls⟩ := hallowed
  -- the object constructed first is still alive when its destructor runs
  have hget : (run World.step (World.initial m) (.newEditor (some table) :: calls)).editors[0]? =
      some { originalTtbr0Reg := m.ttbr0, editedTable := some table } :=
    World.editors_run calls _ rfl hlast
  have hwhole : Allowed World.step (World.Legal (OriginalTables m)) (World.initial m)
      ((.newEditor (some table) :: calls) ++ [.deleteEditor 0]) :=
    (allowed_append World.step _ _ _ _).mpr ⟨⟨⟨haligned, hfresh⟩, hcalls⟩, trivial, trivial⟩
  have huntouched := World.untouched_run (OriginalTables m) _ _ hwhole
    (World.untouched_initial _ m)
  have httbr0 : (run World.step (World.initial m)
      ((.newEditor (some table) :: calls) ++ [.deleteEditor 0])).machine.ttbr0 = m.ttbr0 := by
    rw [run_append, run_cons World.step (run _ _ _), run_nil]
    simp only [World.step, hget, MMUEditor.destroy, World.perform_machine, Machine.execAll_cons,
      Machine.execAll_nil, Machine.exec_setTtbr0, Machine.exec_invalidateTlb,
      Machine.exec_alignedFree]
  refine ⟨walk_construct m haligned hfresh.spares, huntouched.unwritten, httbr0, ?_⟩
  refine walk_of_agree httbr0 fun a ha => ?_
  obtain ⟨ops, htrace, hmachine⟩ := World.machine_run
    ((.newEditor (some table) :: calls) ++ [.deleteEditor 0]) (World.initial m)
  have hops : Spares ops a := by
    have h := huntouched.unwritten a ha
    rw [htrace] at h
    exact (spares_append.mp h).2
  rw [hmachine]
  exact execAll_of_outside ops m hops

/-- Zeroed memory under a first-level table at `0x4000`: every address faults. -/
def bootMachine : Machine := { mem := fun _ => 0, ttbr0 := 0x4000#32 }

theorem originalTables_bootMachine {a : Nat} (h : OriginalTables bootMachine a) : a < 0x8000 := by
  rcases h with hl1 | ⟨i, -, b, hb, -⟩
  · exact hl1.2
  · have hentry : tableEntry bootMachine.mem (ttbBase bootMachine.ttbr0) i = 0#32 := by
      show ((0 : Byte) ++ (0 : Byte) ++ (0 : Byte) ++ (0 : Byte) : Word) = 0#32
      decide
    rw [hentry] at hb
    simp [secondLevel] at hb

/-- Two editors constructed one above the other. -/
theorem allowed_two_editors :
    Allowed World.step (World.Legal (OriginalTables bootMachine)) (World.initial bootMachine)
      [.newEditor (some 0x8000#32), .newEditor (some 0xC000#32)] := by
  refine ⟨⟨by decide, World.Fresh.above ?_ fun a ha => ?_⟩,
    ⟨by decide, World.Fresh.above ?_ fun a ha => ?_⟩, trivial⟩
  · exact World.liveBlock_le (by simp [World.initial]) (by simp [World.initial])
  · exact originalTables_bootMachine ha
  · refine World.liveBlock_le (fun e he t ht => ?_) (fun c hc => ?_)
    · have hmem : e ∈ [(⟨0x4000#32, some 0x8000#32⟩ : MMUEditor)] := he
      simp only [List.mem_singleton] at hmem
      subst hmem
      cases ht
      decide
    · exact absurd hc (List.not_mem_nil)
  · have hlt := originalTables_bootMachine ha
    show a < 0xC000
    omega

theorem lifetime_undone_nested :
    (run World.step (World.initial bootMachine)
        ([.newEditor (some 0x8000#32), .newEditor (some 0xC000#32),
          .mapSection 1 0x10000000#32 0x20000000#32 0xC1E#32, .deleteEditor 1] ++
          [.deleteEditor 0])).machine.walk 0x10000000#32 =
      bootMachine.walk 0x10000000#32 := by
  have hallowed : Allowed World.step (World.Legal (OriginalTables bootMachine))
      (World.initial bootMachine)
      (.newEditor (some 0x8000#32) :: [.newEditor (some 0xC000#32),
        .mapSection 1 0x10000000#32 0x20000000#32 0xC1E#32, .deleteEditor 1]) := by
    obtain ⟨hfirst, hsecond, -⟩ := allowed_two_editors
    exact ⟨hfirst, hsecond, trivial, trivial, trivial⟩
  exact (lifetime_undone bootMachine 0x8000#32 _ hallowed (by decide)).2.2.2 0x10000000#32

end NspireUtils.Ports.EditorLifetimes
