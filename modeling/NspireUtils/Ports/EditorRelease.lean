import NspireUtils.Ports.EditorLifetimes

/-!
# What the MMU points at while editors come and go

Every destructor puts back what its constructor displaced and frees its own
table.  Whether that leaves the hardware pointing at freed memory depends on how
the lifetimes interleave.  `NoDangling` is the safety property: `TTBR0` holds the
boot table or the table of a live editor, and every descriptor that a coarse
editor's constructor made and that stands in the active table points to the
table of a live coarse editor.

It fails in general: two editors released in the order of their construction
leave `TTBR0` on a freed table (`released_first_in_first_out`).  It holds in
every run in which nothing is released while a live object still refers to it
(`noDangling_run`), which is the condition `ReleasedLast` on each destructor
call.  The induction is carried by `Ordered`.
-/

namespace NspireUtils.Ports.EditorRelease

open NspireUtils.Verified.BitFields
open NspireUtils.Verified.ByteMemory
open NspireUtils.Verified.ShortDescriptor
open NspireUtils.Verified.Runs
open NspireUtils.Ports.Bus
open NspireUtils.Ports.MMUDescriptors
open NspireUtils.Ports.TableEditors
open NspireUtils.Ports.CoarseSplit
open NspireUtils.Ports.EditorLifetimes

/-- The entry is a coarse descriptor of the table that coarse editor `k`, alive,
owns. -/
def PointsTo (w : World) (k : Nat) (entry : Word) : Prop :=
  ∃ l2Table, w.CoarseAt k l2Table ∧ entry.extractLsb' 0 2 = 0b01#2 ∧
    coarseBase entry = l2Table.toNat

/-- The address is that of the boot table or of the table of an editor that is
alive and satisfies `p`. -/
def BootOrLive (boot : Word) (w : World) (p : Nat → Prop) (address : Nat) : Prop :=
  address = ttbBase boot ∨ ∃ j table, p j ∧ w.EditorAt j table ∧ address = table.toNat

/-- The MMU points at no freed table. -/
structure NoDangling (boot : Word) (w : World) : Prop where
  active : BootOrLive boot w (fun _ => True) (ttbBase w.machine.ttbr0)
  entries : ∀ i, i < 4096 → ∀ k,
    w.installedBy (ttbBase w.machine.ttbr0 + 4 * i) = some k →
      PointsTo w k (tableEntry w.machine.mem (ttbBase w.machine.ttbr0) i)

/-- A destructor call that releases nothing another live object refers to.  An
editor's table must not be the one a live editor will return to.  A coarse
editor's descriptor must stand in no live table outside its own entry, and must
not be the entry another live coarse editor will put back. -/
def ReleasedLast (w : World) : Action → Prop
  | .deleteEditor i =>
      ∀ table, w.EditorAt i table → ∀ j e, j ≠ i → w.editors[j]? = some e →
        e.editedTable.isSome → ttbBase e.originalTtbr0Reg ≠ table.toNat
  | .deleteCoarse k =>
      ∀ c, w.coarse[k]? = some c → c.l2Table.isSome →
        (∀ j table i, w.EditorAt j table → i < 4096 →
          w.installedBy (table.toNat + 4 * i) = some k →
            j = c.parentMMUEditor ∧ i = l1IndexOf c.virtualAddr) ∧
        (∀ k' c' table, k' ≠ k → w.coarse[k']? = some c' → c'.l2Table.isSome →
          w.EditorAt c'.parentMMUEditor table → w.savedFrom k' ≠ some k)
  | _ => True

/-! ## Where the live tables lie -/

/-- The live tables are aligned and disjoint from each other, from the live
second-level tables and from the boot table. -/
structure Placed (boot : Word) (w : World) : Prop where
  aligned : ∀ i table, w.EditorAt i table → 2 ^ 14 ∣ table.toNat
  editorsApart : ∀ i j t u, i ≠ j → w.EditorAt i t → w.EditorAt j u →
    (l1Block t.toNat).Apart (l1Block u.toNat)
  coarseApart : ∀ i k t p, w.EditorAt i t → w.CoarseAt k p →
    (l1Block t.toNat).Apart (l2Block p)
  bootApart : ∀ i t, w.EditorAt i t → (l1Block t.toNat).Apart (l1Block (ttbBase boot))

theorem Placed.mono {boot : Word} {w w' : World} (h : Placed boot w)
    (heditors : ∀ i t, w'.EditorAt i t → w.EditorAt i t)
    (hcoarse : ∀ k p, w'.CoarseAt k p → w.CoarseAt k p) : Placed boot w' :=
  { aligned := fun i t ht => h.aligned i t (heditors i t ht)
    editorsApart := fun i j t u hij ht hu =>
      h.editorsApart i j t u hij (heditors i t ht) (heditors j u hu)
    coarseApart := fun i k t p ht hp => h.coarseApart i k t p (heditors i t ht) (hcoarse k p hp)
    bootApart := fun i t ht => h.bootApart i t (heditors i t ht) }

/-- The allocator keeps the tables apart. -/
theorem placed_step {boot : Word} {w : World} {a : Action}
    (hlegal : World.Legal (l1Block (ttbBase boot)).Holds w a) (h : Placed boot w) :
    Placed boot (w.step a) := by
  rcases World.step_effect w a with heq | heff
  · rw [heq]
    exact h
  generalize w.step a = w' at heff ⊢
  cases heff with
  | newEditor table =>
      obtain ⟨haligned, hfresh⟩ := hlegal
      refine
        { aligned := fun i t ht => ?_
          editorsApart := fun i j t u hij ht hu => ?_
          coarseApart := fun i k t p ht hp => ?_
          bootApart := fun i t ht => ?_ }
      · rcases World.editorAt_append rfl ht with hold | ⟨-, hnew⟩
        · exact h.aligned i t hold
        · cases hnew
          exact haligned
      · rcases World.editorAt_append rfl ht with hti | ⟨hi, hnew⟩ <;>
          rcases World.editorAt_append rfl hu with huj | ⟨hj, hnew'⟩
        · exact h.editorsApart i j t u hij hti huj
        · cases hnew'
          exact (hfresh.apartLive _ (.editor i t hti)).symm
        · cases hnew
          exact hfresh.apartLive _ (.editor j u huj)
        · exact absurd (hi.trans hj.symm) hij
      · rcases World.editorAt_append rfl ht with hold | ⟨-, hnew⟩
        · exact h.coarseApart i k t p hold hp
        · cases hnew
          exact hfresh.apartLive _ (.coarse k p hp)
      · rcases World.editorAt_append rfl ht with hold | ⟨-, hnew⟩
        · exact h.bootApart i t hold
        · cases hnew
          exact hfresh.spares
  | newCoarse i virtualAddr domain l2Table e table c ops hget htable hctor =>
      obtain ⟨-, hfresh⟩ := hlegal
      refine
        { aligned := h.aligned
          editorsApart := h.editorsApart
          coarseApart := fun i k t p ht hp => ?_
          bootApart := h.bootApart }
      rcases World.coarseAt_append rfl hp with hold | ⟨-, hnew⟩
      · exact h.coarseApart i k t p ht hold
      · obtain ⟨q, hq, -, rfl, -⟩ := MMUL2CoarsePageTableEditor.construct_ok htable hctor
        cases hq
        cases hnew
        exact (hfresh.apartLive _ (.editor i t ht)).symm
  | deleteEditor i e table hget htable =>
      exact h.mono (fun _ _ ht => (World.editorAt_set rfl rfl ht).2) (fun _ _ hp => hp)
  | deleteCoarse k c parent l2Table hget hparent htable =>
      exact h.mono (fun _ _ ht => ht) (fun _ _ hp => (World.coarseAt_set rfl rfl hp).2)
  | editL1 | editL2 => exact h.mono (fun _ _ ht => ht) (fun _ _ hp => hp)

/-! ## The invariant -/

/-- What holds between the calls of a run that releases in order. -/
structure Ordered (boot : Word) (w : World) : Prop where
  placed : Placed boot w
  parents : ∀ (k : Nat) (c : MMUL2CoarsePageTableEditor), w.coarse[k]? = some c →
    c.parentMMUEditor < w.editors.length
  bootHistory : ∀ a, (l1Block (ttbBase boot)).Holds a → w.installedBy a = none
  active : BootOrLive boot w (fun _ => True) (ttbBase w.machine.ttbr0)
  saved : ∀ (i : Nat) (e : MMUEditor), w.editors[i]? = some e → e.editedTable.isSome →
    BootOrLive boot w (· < i) (ttbBase e.originalTtbr0Reg)
  entries : ∀ i t n k, w.EditorAt i t → n < 4096 →
    w.installedBy (t.toNat + 4 * n) = some k →
      PointsTo w k (tableEntry w.machine.mem t.toNat n)
  savedEntries : ∀ (k : Nat) (c : MMUL2CoarsePageTableEditor) (t : Word) (k' : Nat),
    w.coarse[k]? = some c → c.l2Table.isSome → w.EditorAt c.parentMMUEditor t →
      w.savedFrom k = some k' → k' < k ∧ PointsTo w k' c.oldL1Entry

theorem noDangling_of_ordered {boot : Word} {w : World} (h : Ordered boot w) :
    NoDangling boot w := by
  refine ⟨h.active, fun n hn k hk => ?_⟩
  rcases h.active with hboot | ⟨j, table, -, hat, heq⟩
  · rw [hboot] at hk
    rw [h.bootHistory _ (l1Block_holds_entry _ hn)] at hk
    simp at hk
  · rw [heq] at hk ⊢
    exact h.entries j table n k hat hn hk

theorem ordered_initial (m : Machine) : Ordered m.ttbr0 (World.initial m) := by
  have hno : ∀ i t, ¬ (World.initial m).EditorAt i t := by
    rintro i t ⟨e, hget, -⟩
    simp [World.initial] at hget
  refine
    { placed :=
        { aligned := fun i t h => absurd h (hno i t)
          editorsApart := fun i j t u _ h => absurd h (hno i t)
          coarseApart := fun i k t p h => absurd h (hno i t)
          bootApart := fun i t h => absurd h (hno i t) }
      parents := fun k c h => by simp [World.initial] at h
      bootHistory := fun _ _ => rfl
      active := .inl rfl
      saved := fun i e h => by simp [World.initial] at h
      entries := fun i t n k h => absurd h (hno i t)
      savedEntries := fun k c t k' h => by simp [World.initial] at h }

/-! ## One entry of one live table is replaced -/

theorem PointsTo.mono {w w' : World} {k : Nat} {entry : Word} (h : PointsTo w k entry)
    (hcoarse : ∀ p, w.CoarseAt k p → w'.CoarseAt k p) : PointsTo w' k entry := by
  obtain ⟨p, hat, htype, hbase⟩ := h
  exact ⟨p, hcoarse p hat, htype, hbase⟩

theorem PointsTo.lt {w : World} {k : Nat} {entry : Word} (h : PointsTo w k entry) :
    k < w.coarse.length := by
  obtain ⟨p, hat, -, -⟩ := h
  exact hat.lt

theorem BootOrLive.mono {boot : Word} {w w' : World} {p q : Nat → Prop} {address : Nat}
    (h : BootOrLive boot w p address)
    (hat : ∀ j t, p j → address = t.toNat → w.EditorAt j t → q j ∧ w'.EditorAt j t) :
    BootOrLive boot w' q address := by
  rcases h with hboot | ⟨j, t, hj, hlive, heq⟩
  · exact .inl hboot
  · obtain ⟨hq, hlive'⟩ := hat j t hj heq hlive
    exact .inr ⟨j, t, hq, hlive', heq⟩

section Entries

variable {boot : Word} {w : World} (h : Ordered boot w)
include h

/-- Two entries of live tables are the same word only if they are the same entry
of the same editor. -/
theorem slot_eq_iff {i j n m : Nat} {t u : Word} (hi : w.EditorAt i t) (hj : w.EditorAt j u)
    (hn : n < 4096) (hm : m < 4096) :
    u.toNat + 4 * m = t.toNat + 4 * n ↔ j = i ∧ m = n := by
  constructor
  · intro heq
    by_cases hij : j = i
    · subst hij
      rw [hi.unique hj] at heq
      exact ⟨rfl, by omega⟩
    · have hapart := h.placed.editorsApart j i u t hij hj hi
      exact absurd (heq ▸ l1Block_holds_entry _ hn) (hapart _ (l1Block_holds_entry _ hm))
  · rintro ⟨rfl, rfl⟩
    rw [hi.unique hj]

/-- Writing one entry of a live table, seen from all live tables. -/
theorem tableEntry_writeWord {i j n m : Nat} {t u : Word} (mem : Memory) (v : Word)
    (hi : w.EditorAt i t) (hj : w.EditorAt j u) (hn : n < 4096) (hm : m < 4096) :
    tableEntry (writeWord mem (t.toNat + 4 * n) v) u.toNat m =
      if j = i ∧ m = n then v else tableEntry mem u.toNat m := by
  split_ifs with heq
  · rw [tableEntry, (slot_eq_iff h hi hj hn hm).mpr heq, readWord_writeWord_self]
  · apply readWord_writeWord_of_apart _ _ _
    by_cases hij : j = i
    · subst hij
      rw [hi.unique hj]
      have hne : m ≠ n := fun hmn => heq ⟨rfl, hmn⟩
      omega
    · have hpos := (h.placed.editorsApart j i u t hij hj hi).before_or_after
        (l1Block_size_pos _) (l1Block_size_pos _)
      simp only [l1Block] at hpos
      omega

/-- If a call replaces one entry of a live table, the entries of all live tables
are what they were, but for that one. -/
theorem entries_of_replace {w' : World} {i n : Nat} {t : Word} {v : Word} {maker : Option Nat}
    (hi : w.EditorAt i t) (hn : n < 4096)
    (hmem : ∀ j u, w.EditorAt j u → ∀ m, m < 4096 → tableEntry w'.machine.mem u.toNat m =
      if j = i ∧ m = n then v else tableEntry w.machine.mem u.toNat m)
    (hhist : w'.installedBy = Function.update w.installedBy (t.toNat + 4 * n) maker)
    (hnew : ∀ k, maker = some k → PointsTo w' k v)
    (hold : ∀ j u m k, w.EditorAt j u → m < 4096 → ¬ (j = i ∧ m = n) →
      w.installedBy (u.toNat + 4 * m) = some k → ∀ p, w.CoarseAt k p → w'.CoarseAt k p)
    {j m k : Nat} {u : Word} (hj : w.EditorAt j u) (hm : m < 4096)
    (hk : w'.installedBy (u.toNat + 4 * m) = some k) :
    PointsTo w' k (tableEntry w'.machine.mem u.toNat m) := by
  rw [hmem j u hj m hm]
  rw [hhist, Function.update_apply] at hk
  simp only [slot_eq_iff h hi hj hn hm] at hk
  split_ifs at hk ⊢ with heq
  · exact hnew k hk
  · exact (h.entries j u m k hj hm hk).mono (hold j u m k hj hm heq hk)

/-- The boot table's history is empty, whatever entry of a live table changes. -/
theorem bootHistory_update {i n : Nat} {t : Word} (maker : Option Nat) (hi : w.EditorAt i t)
    (hn : n < 4096) (a : Nat) (ha : (l1Block (ttbBase boot)).Holds a) :
    Function.update w.installedBy (t.toNat + 4 * n) maker a = none := by
  rw [Function.update_apply, if_neg]
  · exact h.bootHistory a ha
  · rintro rfl
    exact h.placed.bootApart i t hi _ (l1Block_holds_entry _ hn) ha

end Entries

/-! ## One call -/

section Steps

variable {boot : Word} {w w' : World} (h : Ordered boot w)
include h

theorem ordered_newEditor {table : Word}
    (heditors : w'.editors =
      w.editors ++ [{ originalTtbr0Reg := w.machine.ttbr0, editedTable := some table }])
    (hcoarse : w'.coarse = w.coarse)
    (hmem : w'.machine.mem =
      copyBytes w.machine.mem table.toNat (ttbBase w.machine.ttbr0) ttbSize)
    (hregs : ttbBase w'.machine.ttbr0 = table.toNat)
    (hinstalled : w'.installedBy =
      World.copyHistory w.installedBy table.toNat (ttbBase w.machine.ttbr0))
    (hsaved : w'.savedFrom = w.savedFrom) (hplaced : Placed boot w') : Ordered boot w' := by
  have hnew : w'.EditorAt w.editors.length table := by
    refine ⟨{ originalTtbr0Reg := w.machine.ttbr0, editedTable := some table }, ?_, rfl⟩
    rw [heditors, List.getElem?_concat_length]
  have hpoint : ∀ {k entry}, PointsTo w k entry → PointsTo w' k entry := by
    refine fun h => h.mono ?_
    rintro p ⟨c, hget, hc⟩
    exact ⟨c, by rw [hcoarse, hget], hc⟩
  refine
    { placed := hplaced
      parents := fun k c hc => ?_
      bootHistory := fun a ha => ?_
      active := .inr ⟨_, table, trivial, hnew, hregs⟩
      saved := fun i e he hlive => ?_
      entries := fun i t n k hat hn hk => ?_
      savedEntries := fun k c t k' hc hlive hat hk => ?_ }
  · rw [hcoarse] at hc
    have hlt := h.parents k c hc
    rw [heditors, List.length_append, List.length_singleton]
    omega
  · have hout : ¬ (l1Block table.toNat).Holds a :=
      fun hin => hplaced.bootApart _ _ hnew a hin ha
    simp only [hinstalled, World.copyHistory, if_neg hout]
    exact h.bootHistory a ha
  · rw [heditors] at he
    rcases World.getElem?_concat_cases he with hget | ⟨rfl, rfl⟩
    · exact (h.saved i e hget hlive).mono fun j t hj _ hat => ⟨hj, hat.append heditors⟩
    · exact h.active.mono fun j t _ _ hat => ⟨hat.lt, hat.append heditors⟩
  · rcases World.editorAt_append heditors hat with hat' | ⟨rfl, htable⟩
    · -- an older table: the copy does not reach it
      have hlt := hat'.lt
      have hapart := hplaced.editorsApart i _ t table (by omega) hat hnew
      have hout := hapart _ (l1Block_holds_entry _ hn)
      simp only [hinstalled, World.copyHistory, if_neg hout] at hk
      have hsame : tableEntry w'.machine.mem t.toNat n = tableEntry w.machine.mem t.toNat n := by
        refine tableEntry_congr hn fun a ha => ?_
        have hmiss := hapart a ha
        simp only [Block.Holds, l1Block] at hmiss
        rw [hmem]
        exact copyBytes_of_outside _ _ _ _ (by simp only [ttbSize]; omega)
      rw [hsame]
      exact hpoint (h.entries i t n k hat' hn hk)
    · -- the new table: a copy of the active one
      cases htable
      have hin := l1Block_holds_entry table.toNat hn
      simp only [hinstalled, World.copyHistory, if_pos hin, Nat.add_sub_cancel_left] at hk
      have hcopy : tableEntry w'.machine.mem table.toNat n =
          tableEntry w.machine.mem (ttbBase w.machine.ttbr0) n := by
        rw [hmem]
        exact readWord_copyBytes _ _ _ _ (by simp only [ttbSize]; omega)
      rw [hcopy]
      exact hpoint ((noDangling_of_ordered h).entries n hn k hk)
  · rw [hcoarse] at hc
    rw [hsaved] at hk
    rcases World.editorAt_append heditors hat with hat' | ⟨hparent, -⟩
    · obtain ⟨hlt, hentry⟩ := h.savedEntries k c t k' hc hlive hat' hk
      exact ⟨hlt, hpoint hentry⟩
    · have hlt := h.parents k c hc
      omega

theorem ordered_deleteEditor {i : Nat} {e : MMUEditor} {table : Word}
    (hget : w.editors[i]? = some e) (htable : e.editedTable = some table)
    (hfree : ∀ j e', j ≠ i → w.editors[j]? = some e' → e'.editedTable.isSome →
      ttbBase e'.originalTtbr0Reg ≠ table.toNat) :
    Ordered boot
      { w.perform [.setTtbr0 e.originalTtbr0Reg, .invalidateTlb, .alignedFree table] with
        editors := w.editors.set i { e with editedTable := none } } := by
  refine
    { placed := h.placed.mono (fun _ _ ht => (World.editorAt_set rfl rfl ht).2) (fun _ _ hp => hp)
      parents := fun k c hc => ?_
      bootHistory := h.bootHistory
      active := ?_
      saved := fun j e' he' hlive => ?_
      entries := fun j t n k hat hn hk =>
        h.entries j t n k (World.editorAt_set rfl rfl hat).2 hn hk
      savedEntries := fun k c t k' hc hlive hat hk =>
        h.savedEntries k c t k' hc hlive (World.editorAt_set rfl rfl hat).2 hk }
  · rw [List.length_set]
    exact h.parents k c hc
  · refine (h.saved i e hget (by simp [htable])).mono fun j t hj _ hat => ⟨trivial, ?_⟩
    exact hat.set rfl (by omega)
  · rcases World.getElem?_set_cases he' with ⟨hne, hold⟩ | ⟨-, rfl⟩
    · refine (h.saved j e' hold hlive).mono fun j' t hj' haddr hat => ⟨hj', ?_⟩
      refine hat.set rfl fun heq => ?_
      subst heq
      rw [hat.unique ⟨e, hget, htable⟩] at haddr
      exact hfree j e' hne hold hlive haddr
    · simp at hlive

theorem ordered_newCoarse {i : Nat} {virtualAddr table l2Table : Word} {domain : Byte}
    {e : MMUEditor} {c : MMUL2CoarsePageTableEditor} {ops : List BusOp}
    (hget : w.editors[i]? = some e) (htable : e.editedTable = some table)
    (hctor : MMUL2CoarsePageTableEditor.construct w.machine i e virtualAddr domain
      (some l2Table) = .ok (c, ops))
    (haligned : 2 ^ 10 ∣ l2Table.toNat)
    (heditors : w'.editors = w.editors) (hcoarse : w'.coarse = w.coarse ++ [c])
    (hmachine : w'.machine = w.machine.execAll ops)
    (hinstalled : w'.installedBy =
      Function.update w.installedBy (l1Slot table virtualAddr) (some w.coarse.length))
    (hsaved : w'.savedFrom = Function.update w.savedFrom w.coarse.length
      (w.installedBy (l1Slot table virtualAddr)))
    (hplaced : Placed boot w') : Ordered boot w' := by
  have hidx := l1IndexOf_lt virtualAddr
  have hat : w.EditorAt i table := ⟨e, hget, htable⟩
  obtain ⟨q, hq, -, hregs, -, hrest⟩ := construct_mem htable hctor
  obtain ⟨q', hq', -, hc, -⟩ := MMUL2CoarsePageTableEditor.construct_ok htable hctor
  cases hq
  cases hq'
  have hnew : w'.CoarseAt w.coarse.length l2Table :=
    ⟨c, by rw [hcoarse, List.getElem?_concat_length], by rw [hc]⟩
  have hold : ∀ {j t}, w'.EditorAt j t → w.EditorAt j t := by
    rintro j t ⟨e', hget', he'⟩
    exact ⟨e', by rw [← heditors, hget'], he'⟩
  have hpoint : ∀ {k entry}, PointsTo w k entry → PointsTo w' k entry :=
    fun h => h.mono fun p hp => hp.append hcoarse
  have hlive : ∀ {p address}, BootOrLive boot w p address → BootOrLive boot w' p address := by
    refine fun h => h.mono fun j t hj _ ht => ⟨hj, ?_⟩
    obtain ⟨e', hget', he'⟩ := ht
    exact ⟨e', by rw [heditors, hget'], he'⟩
  refine
    { placed := hplaced
      parents := fun k c' hc' => ?_
      bootHistory := fun a ha => ?_
      active := ?_
      saved := fun j e' he' halive => ?_
      entries := fun j u n k hj hn hk => ?_
      savedEntries := fun k c' t k' hc' halive ht hk => ?_ }
  · rw [hcoarse] at hc'
    rw [heditors]
    rcases World.getElem?_concat_cases hc' with hold' | ⟨-, rfl⟩
    · exact h.parents k c' hold'
    · rw [hc]
      exact hat.lt
  · rw [hinstalled, l1Slot_eq]
    exact bootHistory_update h _ hat hidx a ha
  · rw [hmachine, hregs]
    exact hlive h.active
  · rw [heditors] at he'
    exact hlive (h.saved j e' he' halive)
  · refine entries_of_replace h (v := coarseL1Entry l2Table domain) hat hidx ?_
      (by rw [hinstalled, l1Slot_eq]) ?_ ?_ (hold hj) hn hk
    · intro j' u' hj' m hm
      have hj'' : w'.EditorAt j' u' := by
        obtain ⟨e', hget', he'⟩ := hj'
        exact ⟨e', by rw [heditors, hget'], he'⟩
      rw [← tableEntry_writeWord h w.machine.mem _ hat hj' hidx hm, hmachine]
      exact tableEntry_congr hm fun a ha =>
        hrest a (hplaced.coarseApart j' _ u' l2Table hj'' hnew a ha)
    · rintro k' hk'
      cases hk'
      exact ⟨l2Table, hnew, coarseL1Entry_type _ _, coarseBase_coarseL1Entry _ haligned⟩
    · exact fun _ _ _ _ _ _ _ _ p hp => hp.append hcoarse
  · rw [hcoarse] at hc'
    rw [hsaved] at hk
    rcases World.getElem?_concat_cases hc' with hold' | ⟨rfl, rfl⟩
    · have hlt := (List.getElem?_eq_some_iff.mp hold').1
      rw [Function.update_of_ne (by omega)] at hk
      obtain ⟨hk', hentry⟩ := h.savedEntries k c' t k' hold' halive (hold ht) hk
      exact ⟨hk', hpoint hentry⟩
    · rw [Function.update_self, l1Slot_eq] at hk
      subst hc
      have hentry := h.entries i table _ k' hat hidx hk
      exact ⟨hentry.lt, hpoint hentry⟩

theorem ordered_deleteCoarse {k : Nat} {c : MMUL2CoarsePageTableEditor} {parent : MMUEditor}
    {l2Table : Word} (hget : w.coarse[k]? = some c)
    (hparent : w.editors[c.parentMMUEditor]? = some parent) (htable : c.l2Table = some l2Table)
    (hlast : ReleasedLast w (.deleteCoarse k)) :
    Ordered boot
      { w.perform (parent.map c.virtualAddr c.oldL1Entry ++ [.alignedFree l2Table]) with
        coarse := w.coarse.set k { c with l2Table := none }
        installedBy := World.recordEntry w.installedBy parent c.virtualAddr
          (w.savedFrom k) } := by
  obtain ⟨hunlinked, hunsaved⟩ := hlast c hget (by simp [htable])
  have hidx := l1IndexOf_lt c.virtualAddr
  refine
    { placed := h.placed.mono (fun _ _ ht => ht) (fun _ _ hp => (World.coarseAt_set rfl rfl hp).2)
      parents := fun j c' hc' => ?_
      bootHistory := fun a ha => ?_
      active := ?_
      saved := h.saved
      entries := fun j u n k' hj hn hk' => ?_
      savedEntries := fun j c' t k' hc' hlive ht hk' => ?_ }
  · rcases World.getElem?_set_cases hc' with ⟨-, hold⟩ | ⟨-, rfl⟩
    · exact h.parents j c' hold
    · exact h.parents k c hget
  · cases hp : parent.editedTable with
    | none =>
        rw [World.recordEntry_dead _ _ hp]
        exact h.bootHistory a ha
    | some table =>
        simp only [World.recordEntry, hp, l1Slot_eq]
        exact bootHistory_update h _ ⟨parent, hparent, hp⟩ hidx a ha
  · have hregs : (w.machine.execAll
        (parent.map c.virtualAddr c.oldL1Entry ++ [.alignedFree l2Table])).ttbr0 =
          w.machine.ttbr0 := by
      simp [Machine.execAll_append]
    show BootOrLive boot _ _ (ttbBase (w.machine.execAll _).ttbr0)
    rw [hregs]
    exact h.active
  · cases hp : parent.editedTable with
    | none =>
        -- the parent is gone: nothing is written, and the entry stands in no live table
        rw [World.recordEntry_dead _ _ hp] at hk'
        have hne : k' ≠ k := by
          rintro rfl
          obtain ⟨rfl, -⟩ := hunlinked j u n hj hn hk'
          obtain ⟨e, he, hlive⟩ := hj
          simp only [World.perform_editors, hparent, Option.some.injEq] at he
          rw [← he, hp] at hlive
          simp at hlive
        rw [World.map_dead _ _ hp]
        exact (h.entries j u n k' hj hn hk').mono fun p hlive => hlive.set rfl hne
    | some table =>
        have hat : w.EditorAt c.parentMMUEditor table := ⟨parent, hparent, hp⟩
        refine entries_of_replace h (v := c.oldL1Entry) hat hidx ?_
          (by simp only [World.recordEntry, hp, l1Slot_eq]; rfl) ?_ ?_ hj hn hk'
        · intro j' u' hj' m hm
          rw [← tableEntry_writeWord h w.machine.mem _ hat hj' hidx hm]
          simp only [World.perform_machine, Machine.execAll_append, Machine.execAll_cons,
            Machine.execAll_nil, Machine.exec_alignedFree]
          rw [parent.map_mem _ _ _ hp]
        · intro k'' hk''
          obtain ⟨hlt, hpoint⟩ := h.savedEntries k c table k'' hget (by simp [htable]) hat hk''
          exact hpoint.mono fun p hlive => hlive.set rfl (by omega)
        · intro j' u' m k'' hj' hm hother hk'' p hlive
          apply hlive.set rfl
          rintro rfl
          exact hother (hunlinked j' u' m hj' hm hk'')
  · rcases World.getElem?_set_cases hc' with ⟨hne, hold⟩ | ⟨-, rfl⟩
    · obtain ⟨hlt, hpoint⟩ := h.savedEntries j c' t k' hold hlive ht hk'
      refine ⟨hlt, hpoint.mono fun p hp => hp.set rfl ?_⟩
      rintro rfl
      exact hunsaved j c' t hne hold hlive ht hk'
    · simp at hlive

theorem ordered_editL1 {i : Nat} {e : MMUEditor} {table : Word} (virtualAddr entry : Word)
    (hget : w.editors[i]? = some e) (htable : e.editedTable = some table) :
    Ordered boot
      { w.perform (e.map virtualAddr entry) with
        installedBy := Function.update w.installedBy (l1Slot table virtualAddr) none } := by
  have hidx := l1IndexOf_lt virtualAddr
  have hat : w.EditorAt i table := ⟨e, hget, htable⟩
  refine
    { placed := h.placed.mono (fun _ _ ht => ht) (fun _ _ hp => hp)
      parents := h.parents
      bootHistory := fun a ha => ?_
      active := ?_
      saved := h.saved
      entries := fun j u n k hj hn hk => ?_
      savedEntries := h.savedEntries }
  · rw [l1Slot_eq]
    exact bootHistory_update h none hat hidx a ha
  · show BootOrLive boot _ _ (ttbBase (w.machine.execAll _).ttbr0)
    rw [MMUEditor.map_ttbr0]
    exact h.active
  · refine entries_of_replace h (v := entry) hat hidx ?_ (by rw [l1Slot_eq]) (by simp) ?_ hj hn hk
    · intro j' u' hj' m hm
      rw [← tableEntry_writeWord h w.machine.mem _ hat hj' hidx hm, World.perform_machine,
        e.map_mem _ _ _ htable]
    · exact fun _ _ _ _ _ _ _ _ p hp => hp

theorem ordered_editL2 {k : Nat} {c : MMUL2CoarsePageTableEditor} {l2Table : Word}
    {ops : List BusOp} (hget : w.coarse[k]? = some c) (htable : c.l2Table = some l2Table)
    (hops : Within ops (l2Block l2Table))
    (hregs : (w.machine.execAll ops).ttbr0 = w.machine.ttbr0) :
    Ordered boot (w.perform ops) := by
  refine
    { placed := h.placed.mono (fun _ _ ht => ht) (fun _ _ hp => hp)
      parents := h.parents
      bootHistory := h.bootHistory
      active := ?_
      saved := h.saved
      entries := fun j u n k' hj hn hk => ?_
      savedEntries := h.savedEntries }
  · show BootOrLive boot _ _ (ttbBase (w.machine.execAll _).ttbr0)
    rw [hregs]
    exact h.active
  · have hsame : tableEntry (w.machine.execAll ops).mem u.toNat n =
        tableEntry w.machine.mem u.toNat n := by
      refine tableEntry_congr hn fun a ha => execAll_of_outside ops w.machine ?_
      exact hops.spares (h.placed.coarseApart j k u l2Table hj ⟨c, hget, htable⟩ a ha)
    rw [World.perform_machine, hsame]
    exact h.entries j u n k' hj hn hk

end Steps

/-- One call keeps the invariant. -/
theorem ordered_step {boot : Word} {w : World} {a : Action}
    (hlegal : World.Legal (l1Block (ttbBase boot)).Holds w a) (hlast : ReleasedLast w a)
    (h : Ordered boot w) : Ordered boot (w.step a) := by
  have hplaced := placed_step hlegal h.placed
  rcases World.step_effect w a with heq | heff
  · rw [heq]
    exact h
  generalize w.step a = w' at hplaced heff ⊢
  cases heff with
  | newEditor table =>
      refine ordered_newEditor h rfl rfl ?_ (ttbBase_newTtbr0 w.machine.ttbr0 hlegal.1) rfl rfl
        hplaced
      rw [← toNat_oldTableAddr]
      rfl
  | deleteEditor i e table hget htable =>
      exact ordered_deleteEditor h hget htable (hlast table ⟨e, hget, htable⟩)
  | newCoarse i virtualAddr domain l2Table e table c ops hget htable hctor =>
      exact ordered_newCoarse h hget htable hctor hlegal.1 rfl rfl rfl rfl rfl hplaced
  | deleteCoarse k c parent l2Table hget hparent htable =>
      exact ordered_deleteCoarse h hget hparent htable hlast
  | editL1 _ i e table virtualAddr entry hget htable _ =>
      exact ordered_editL1 h virtualAddr entry hget htable
  | editL2 _ k c l2Table ops hget htable hops hregs _ =>
      exact ordered_editL2 h hget htable hops hregs

/-- **Nothing dangles.**  From any machine, after any calls in which each
destructor runs when no live object refers to what it frees, `TTBR0` and the
installed coarse descriptors of the active table point at live memory.  Tables are
identity mapped when they are copied. -/
theorem noDangling_run (m : Machine) (calls : List Action)
    (hallowed : Allowed World.step
      (fun w a => World.Legal (l1Block (ttbBase m.ttbr0)).Holds w a ∧ ReleasedLast w a)
      (World.initial m) calls) :
    NoDangling m.ttbr0 (run World.step (World.initial m) calls) :=
  noDangling_of_ordered
    (run_invariant World.step _ (fun _ _ hok => ordered_step hok.1 hok.2) calls _ hallowed
      (ordered_initial m))

/-- Two editors, one above the other, and a coarse editor on the second. -/
def nested : List Action :=
  [.newEditor (some 0x8000#32), .newEditor (some 0xC000#32),
    .newCoarse 1 0x10000000#32 0 (some 0x10000#32)]

theorem editors_nested : (run World.step (World.initial bootMachine) nested).editors =
    [⟨0x4000#32, some 0x8000#32⟩, ⟨0x8000#32, some 0xC000#32⟩] := rfl

/-- Its descriptor stands in its own entry only. -/
theorem installedBy_nested {a : Nat}
    (h : (run World.step (World.initial bootMachine) nested).installedBy a = some 0) :
    a = l1Slot 0xC000#32 0x10000000#32 := by
  have hno : ∀ x, (run World.step (World.initial bootMachine)
      [.newEditor (some 0x8000#32), .newEditor (some 0xC000#32)]).installedBy x = none := by
    intro x
    simp [run, World.step, MMUEditor.construct, World.copyHistory, World.initial]
  have hget : (run World.step (World.initial bootMachine)
      [.newEditor (some 0x8000#32), .newEditor (some 0xC000#32)]).editors[1]? =
      some ⟨0x8000#32, some 0xC000#32⟩ := rfl
  rw [show nested = [.newEditor (some 0x8000#32), .newEditor (some 0xC000#32)] ++
    [.newCoarse 1 0x10000000#32 0 (some 0x10000#32)] from rfl, run_append] at h
  generalize run World.step (World.initial bootMachine)
    [.newEditor (some 0x8000#32), .newEditor (some 0xC000#32)] = w at h hno hget
  by_contra hne
  have hkept : (w.step (.newCoarse 1 0x10000000#32 0 (some 0x10000#32))).installedBy a = none := by
    simp only [World.step, hget]
    split
    · exact hno a
    · exact (Function.update_of_ne hne _ _).trans (hno a)
  exact absurd (h.symm.trans hkept) (by decide)

theorem editorAt_nested {j : Nat} {table : Word}
    (h : (run World.step (World.initial bootMachine) nested).EditorAt j table) :
    j = 0 ∧ table = 0x8000#32 ∨ j = 1 ∧ table = 0xC000#32 := by
  obtain ⟨e, hget, htable⟩ := h
  rw [editors_nested] at hget
  match j, hget with
  | 0, hget =>
      cases hget
      exact .inl ⟨rfl, (Option.some.inj htable).symm⟩
  | 1, hget =>
      cases hget
      exact .inr ⟨rfl, (Option.some.inj htable).symm⟩

/-- The coarse editor goes first, then the editor it was constructed on. -/
theorem noDangling_run_nested :
    NoDangling bootMachine.ttbr0 (run World.step (World.initial bootMachine)
      (nested ++ [.deleteCoarse 0, .deleteEditor 1])) := by
  obtain ⟨hfirst, hsecond, -⟩ := allowed_two_editors
  refine noDangling_run bootMachine _ ⟨⟨hfirst.mono fun _ ha => .inl ha, trivial⟩,
    ⟨hsecond.mono fun _ ha => .inl ha, trivial⟩, ⟨⟨by decide, World.Fresh.above ?_ fun a ha => ?_⟩,
      trivial⟩, ⟨trivial, ?_⟩, ⟨trivial, ?_⟩, trivial⟩
  · refine World.liveBlock_le (fun e he t ht => ?_) fun c hc => absurd hc (List.not_mem_nil)
    have hmem : e ∈ [(⟨0x4000#32, some 0x8000#32⟩ : MMUEditor), ⟨0x8000#32, some 0xC000#32⟩] := he
    simp only [List.mem_cons, List.not_mem_nil, or_false] at hmem
    rcases hmem with rfl | rfl <;> cases ht <;> decide
  · have hlt : a < 0x4000 + 4 * 4096 := ha.2
    show a < 0x10000
    omega
  · -- the coarse editor
    rintro c hc -
    have hlist : [(⟨1, 0#32, 0x10000000#32, some 0x10000#32⟩ : MMUL2CoarsePageTableEditor)][0]? =
      some c := hc
    cases hlist
    refine ⟨fun j table i hat hi hinstalled => ?_, fun k' c' table hne hget => ?_⟩
    · have hslot := installedBy_nested hinstalled
      have hone : l1Slot 0xC000#32 0x10000000#32 = 0xC000 + 4 * 0x100 := by decide
      have hindex : l1IndexOf 0x10000000#32 = 0x100 := by decide
      rcases editorAt_nested hat with ⟨rfl, rfl⟩ | ⟨rfl, rfl⟩
      · have hfirst : (0x8000#32 : BitVec 32).toNat = 0x8000 := rfl
        omega
      · have hsecond : (0xC000#32 : BitVec 32).toNat = 0xC000 := rfl
        refine ⟨rfl, ?_⟩
        show i = l1IndexOf 0x10000000#32
        omega
    · have hlist : [(⟨1, 0#32, 0x10000000#32, some 0x10000#32⟩ :
        MMUL2CoarsePageTableEditor)][k']? = some c' := hget
      have hlt := (List.getElem?_eq_some_iff.mp hlist).1
      simp only [List.length_singleton] at hlt
      omega
  · -- the only other editor returns to the boot table
    rintro table ⟨e', hget', he'⟩ j e hne hget -
    have hlist : [(⟨0x4000#32, some 0x8000#32⟩ : MMUEditor), ⟨0x8000#32, some 0xC000#32⟩][j]? =
      some e := hget
    have hj : j = 0 := by
      have hlt := (List.getElem?_eq_some_iff.mp hlist).1
      simp only [List.length_cons, List.length_nil] at hlt
      omega
    subst hj
    cases hget'
    cases he'
    cases hlist
    decide

/-- Released in the order of their construction, two editors leave `TTBR0` on
the freed table of the first: `~MMUEditor` of the second reinstalls it. -/
theorem released_first_in_first_out :
    ¬ ∀ (m : Machine) (calls : List Action),
      Allowed World.step (World.Legal (OriginalTables m)) (World.initial m) calls →
        NoDangling m.ttbr0 (run World.step (World.initial m) calls) := by
  intro h
  obtain ⟨hfirst, hsecond, -⟩ := allowed_two_editors
  have hrun := h bootMachine [.newEditor (some 0x8000#32), .newEditor (some 0xC000#32),
    .deleteEditor 0, .deleteEditor 1] ⟨hfirst, hsecond, trivial, trivial, trivial⟩
  rcases hrun.active with hboot | ⟨j, table, -, ⟨e, hget, he⟩, -⟩
  · exact absurd hboot (by decide)
  · -- no editor is alive
    have hdead : e ∈ [(⟨0x4000#32, none⟩ : MMUEditor), ⟨0x8000#32, none⟩] :=
      List.mem_of_getElem? hget
    simp only [List.mem_cons, List.not_mem_nil, or_false] at hdead
    rcases hdead with rfl | rfl <;> simp at he

end NspireUtils.Ports.EditorRelease
