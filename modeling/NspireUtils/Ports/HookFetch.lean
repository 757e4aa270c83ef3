import NspireUtils.Ports.CacheRanges
import NspireUtils.Ports.Hooks
import NspireUtils.Verified.SplitCaches

/-!
# Patched code is fetched

The functions of `hook/Hooks.cpp` with their calls of `SyncICache`, on a processor with
separate caches.  They store everything first and then synchronise one range after the
other; `code_fetched` is the theorem that this is enough, wherever target and context
lie and whatever the caches hold.
-/

namespace NspireUtils.Ports.HookFetch

open NspireUtils.Verified.ByteMemory
open NspireUtils.Verified.Runs
open NspireUtils.Verified.WordStores
open NspireUtils.Verified.WriteBackCache
open NspireUtils.Verified.SplitCaches
open NspireUtils.Ports.CacheRanges
open NspireUtils.Ports.Hooks

/-- A call of one of the three functions. -/
inductive Call where
  | hook (c : Context)
  | unhook (targetFunction : Word) (savedInstructions : Nat)

/-- A coprocessor operation on this processor. -/
def instrOf : CacheOp → Instr
  | .cleanDataLine addr => .cleanLine (lineOf addr.toNat)
  | .drainWriteBuffer => .drainWriteBuffer
  | .invalidateInstructionLine addr => .invalidateLine (lineOf addr.toNat)

/-- Calls of `SyncICache`, if they end. -/
def syncAll : List (Word × Word) → Option (List CacheOp)
  | [] => some []
  | (address, size) :: rest =>
      (syncICache address size).bind fun ops => (syncAll rest).map (ops ++ ·)

namespace Call

/-- Its stores. -/
def stores : Call → List Store
  | hook c => c.hook
  | unhook targetFunction savedInstructions => unhookFunctionARM targetFunction savedInstructions

/-- The ranges it synchronises. -/
def ranges : Call → List (Word × Word)
  | hook c =>
      [ (c.targetFunction, 8#32)
      , (BitVec.ofNat 32 c.hookStub, BitVec.ofNat 32 (4 * c.kind.stubLength))
      , (BitVec.ofNat 32 c.trampoline, BitVec.ofNat 32 (4 * 4)) ]
  | unhook targetFunction _ => [(targetFunction, 8#32)]

/-- The whole call, if it ends. -/
def program (call : Call) : Option (List Instr) :=
  (syncAll call.ranges).map fun ops => call.stores.map .store ++ ops.map instrOf

/-- Where it writes code: trampoline, stub and target. -/
def code : Call → List Nat
  | hook c => codeAddresses c
  | unhook targetFunction _ => addresses targetFunction.toNat 2

/-- What it writes there. -/
def words (m : Memory) : Call → List Word
  | hook c => codeWords c m
  | unhook targetFunction savedInstructions =>
      (resolve m (unhookFunctionARM targetFunction savedInstructions)).map Prod.snd

/-- Target and context are aligned and below the last line of the address space. -/
def Placed : Call → Prop
  | hook c =>
      4 ∣ c.targetFunction.toNat ∧ 4 ∣ c.address.toNat ∧
        c.targetFunction.toNat + 8 ≤ 0xFFFFFFE0 ∧ c.address.toNat + c.kind.size ≤ 0xFFFFFFE0
  | unhook targetFunction _ =>
      4 ∣ targetFunction.toNat ∧ targetFunction.toNat + 8 ≤ 0xFFFFFFE0

end Call

/-! ## The synchronised ranges -/

/-- The byte lies in one of the ranges. -/
def Within (ranges : List (Word × Word)) (x : Nat) : Prop :=
  ∃ r ∈ ranges, r.1.toNat ≤ x ∧ x < r.1.toNat + r.2.toNat

theorem silent_instrOf (op : CacheOp) : (instrOf op).Silent := by
  cases op <;> trivial

/-- One call cleans, drains and invalidates, in this order, for every byte. -/
theorem syncICache_sublist {address size : Word} (hsize : 1 ≤ size.toNat)
    (hend : address.toNat + size.toNat ≤ 0xFFFFFFE0) :
    ∃ ops, syncICache address size = some ops ∧
      ∀ x, address.toNat ≤ x → x < address.toNat + size.toNat →
        [.cleanLine (lineOf x), .drainWriteBuffer, .invalidateLine (lineOf x)].Sublist
          (ops.map instrOf) := by
  obtain ⟨addrs, hops, hlines⟩ := syncICache_of_le hsize hend
  refine ⟨_, hops, fun x hle hlt => ?_⟩
  obtain ⟨a, ha, hline⟩ := hlines x hle hlt
  have hclean : Instr.cleanLine (lineOf a.toNat) ∈ addrs.map (instrOf ∘ .cleanDataLine) :=
    List.mem_map.mpr ⟨a, ha, rfl⟩
  have hinvalidate : Instr.invalidateLine (lineOf a.toNat) ∈
      addrs.map (instrOf ∘ .invalidateInstructionLine) := List.mem_map.mpr ⟨a, ha, rfl⟩
  rw [List.map_append, List.map_cons, List.map_map, List.map_map, ← hline]
  exact (List.singleton_sublist.mpr hclean).append
    ((List.singleton_sublist.mpr hinvalidate).cons_cons Instr.drainWriteBuffer)

/-- So do several, for every byte of theirs. -/
theorem syncAll_sublist {ranges : List (Word × Word)}
    (h : ∀ r ∈ ranges, 1 ≤ r.2.toNat ∧ r.1.toNat + r.2.toNat ≤ 0xFFFFFFE0) :
    ∃ ops, syncAll ranges = some ops ∧ ∀ x, Within ranges x →
      [.cleanLine (lineOf x), .drainWriteBuffer, .invalidateLine (lineOf x)].Sublist
        (ops.map instrOf) := by
  induction ranges with
  | nil => exact ⟨[], rfl, fun x hx => absurd hx (by simp [Within])⟩
  | cons r rest ih =>
      obtain ⟨address, size⟩ := r
      obtain ⟨hsize, hend⟩ := h _ List.mem_cons_self
      obtain ⟨first, hfirst, hbytes⟩ := syncICache_sublist hsize hend
      obtain ⟨others, hothers, hrest⟩ := ih fun r hr => h r (List.mem_cons_of_mem _ hr)
      refine ⟨first ++ others, by rw [syncAll, hfirst, Option.bind_some, hothers]; rfl,
        fun x hx => ?_⟩
      rw [List.map_append]
      obtain ⟨r, hr, hle, hlt⟩ := hx
      rcases List.mem_cons.mp hr with rfl | hr
      · exact (hbytes x hle hlt).trans (List.sublist_append_left _ _)
      · exact (hrest x ⟨r, hr, hle, hlt⟩).trans (List.sublist_append_right _ _)

/-! ## The calls -/

theorem toNat_ofNat_of_lt {n : Nat} (h : n < 2 ^ 32) : (BitVec.ofNat 32 n).toNat = n := by
  rw [BitVec.toNat_ofNat, Nat.mod_eq_of_lt h]

theorem stubLength_bounds (kind : HookKind) : 1 ≤ kind.stubLength ∧ kind.stubLength ≤ 13 := by
  cases kind <;> decide

/-- Where the stub and the trampoline lie, in a context that ends below the last line. -/
theorem context_layout {c : Context} (h : c.address.toNat + c.kind.size ≤ 0xFFFFFFE0) :
    c.hookStub = c.address.toNat + 20 ∧
      c.trampoline = c.address.toNat + 20 + 4 * c.kind.stubLength ∧
      1 ≤ c.kind.stubLength ∧ c.address.toNat + 36 + 4 * c.kind.stubLength ≤ 0xFFFFFFE0 := by
  have hsize : c.kind.size = 36 + 4 * c.kind.stubLength := by
    simp only [HookKind.size]
    omega
  exact ⟨rfl, rfl, (stubLength_bounds c.kind).1, by omega⟩

/-- The ranges are not empty and end below the last line. -/
theorem ranges_below {call : Call} (hplaced : call.Placed) :
    ∀ r ∈ call.ranges, 1 ≤ r.2.toNat ∧ r.1.toNat + r.2.toNat ≤ 0xFFFFFFE0 := by
  cases call with
  | unhook targetFunction savedInstructions =>
      intro r hr
      obtain rfl := List.mem_singleton.mp hr
      exact ⟨by simp, hplaced.2⟩
  | hook c =>
      obtain ⟨-, -, htarget, hcontext⟩ := hplaced
      obtain ⟨hstub, htrampoline, hone, hend⟩ := context_layout hcontext
      intro r hr
      simp only [Call.ranges, List.mem_cons, List.not_mem_nil, or_false] at hr
      rcases hr with rfl | rfl | rfl
      · exact ⟨by simp, htarget⟩
      · simp only [toNat_ofNat_of_lt (show c.hookStub < 2 ^ 32 by omega),
          toNat_ofNat_of_lt (show 4 * c.kind.stubLength < 2 ^ 32 by omega)]
        omega
      · simp only [toNat_ofNat_of_lt (show c.trampoline < 2 ^ 32 by omega),
          toNat_ofNat_of_lt (show 4 * 4 < 2 ^ 32 by omega)]
        omega

/-- The code lies in the ranges. -/
theorem within_ranges {call : Call} (hplaced : call.Placed) {a x : Nat} (ha : a ∈ call.code)
    (hle : a ≤ x) (hlt : x < a + 4) : Within call.ranges x := by
  cases call with
  | unhook targetFunction savedInstructions =>
      have hbounds := mem_addresses ha
      have hsize : (8#32 : Word).toNat = 8 := rfl
      exact ⟨_, List.mem_singleton_self _, by simp only; omega, by simp only [hsize]; omega⟩
  | hook c =>
      obtain ⟨-, -, -, hcontext⟩ := hplaced
      obtain ⟨hstub, htrampoline, -, hend⟩ := context_layout hcontext
      have height : (8#32 : Word).toNat = 8 := rfl
      simp only [Call.code, codeAddresses, List.mem_append] at ha
      rcases ha with ha | ha | ha
      · have hbounds := mem_addresses ha
        refine ⟨_, List.mem_cons_of_mem _ (List.mem_cons_of_mem _ List.mem_cons_self), ?_⟩
        simp only [toNat_ofNat_of_lt (show c.trampoline < 2 ^ 32 by omega),
          toNat_ofNat_of_lt (show 4 * 4 < 2 ^ 32 by omega)]
        omega
      · have hbounds := mem_addresses ha
        refine ⟨_, List.mem_cons_of_mem _ List.mem_cons_self, ?_⟩
        simp only [toNat_ofNat_of_lt (show c.hookStub < 2 ^ 32 by omega),
          toNat_ofNat_of_lt (show 4 * c.kind.stubLength < 2 ^ 32 by omega)]
        omega
      · have hbounds := mem_addresses ha
        exact ⟨_, List.mem_cons_self, by simp only; omega, by simp only [height]; omega⟩

/-- The destinations of a list of stores do not depend on memory. -/
theorem resolve_fst (m : Memory) (ss : List Store) :
    (resolve m ss).map Prod.fst = ss.map Store.dst := by
  induction ss generalizing m with
  | nil => rfl
  | cons s rest ih => simp only [resolve, List.map_cons, ih]

/-- Every store is aligned. -/
theorem stores_aligned {call : Call} (hplaced : call.Placed) : ∀ st ∈ call.stores, 4 ∣ st.dst := by
  have hwords : ∀ {a n x : Nat}, 4 ∣ a → x ∈ addresses a n → 4 ∣ x := by
    intro a n x ha hx
    induction n generalizing a with
    | zero => exact absurd hx (by simp [addresses])
    | succ n ih =>
        rcases List.mem_cons.mp hx with rfl | hrest
        · exact ha
        · exact ih (by omega) hrest
  cases call with
  | unhook targetFunction savedInstructions =>
      obtain ⟨haligned, -⟩ := hplaced
      intro st hst
      simp only [Call.stores, unhookFunctionARM, List.mem_cons, List.not_mem_nil, or_false] at hst
      rcases hst with rfl | rfl
      · exact haligned
      · show 4 ∣ targetFunction.toNat + 4
        omega
  | hook c =>
      obtain ⟨htarget, hcontext, -, -⟩ := hplaced
      intro st hst
      have hdst : st.dst ∈ (resolve (fun _ => 0) c.hook).map Prod.fst := by
        rw [resolve_fst]
        exact List.mem_map_of_mem hst
      rw [resolve_hook, List.map_fst_zip (by
        simp only [List.length_append, length_codeWords]
        exact Nat.le_refl _)] at hdst
      simp only [codeAddresses, List.mem_append] at hdst
      rcases hdst with h | h | h | h
      · exact hwords (by simp only [Context.savedInstructions]; omega) h
      · exact hwords (by simp only [Context.trampoline]; omega) h
      · exact hwords (by simp only [Context.hookStub]; omega) h
      · exact hwords htarget h

/-- The processor sees the words that are written. -/
theorem readAll_code (call : Call) (m : Memory) :
    readAll (execAll m call.stores) call.code = call.words m := by
  cases call with
  | hook c =>
      have h := hooked c m
      simp only [Call.stores, Call.code, Call.words, codeAddresses, codeWords, readAll_append]
      exact congrArg₂ (· ++ ·) h.trampoline (congrArg₂ (· ++ ·) h.stub h.target)
  | unhook targetFunction savedInstructions =>
      have hdst : (resolve m (unhookFunctionARM targetFunction savedInstructions)).map Prod.fst =
          addresses targetFunction.toNat 2 := resolve_fst m _
      have hlen : (addresses targetFunction.toNat 2).length =
          ((resolve m (unhookFunctionARM targetFunction savedInstructions)).map
            Prod.snd).length := by
        simp only [List.length_map, length_resolve, length_addresses]
        rfl
      have hwritten := readAll_written hlen (pairwise_addresses _ _) m
      rw [← hdst, ← List.unzip_fst, ← List.unzip_snd, List.zip_unzip, List.unzip_fst, hdst,
        ← execAll_eq] at hwritten
      rw [Call.words, ← List.unzip_snd]
      exact hwritten

/-- **Patched code is what is fetched.**  A call of one of the three functions ends, and
when it does, every word of code it wrote is fetched as it was written, from every
state of caches and buffer and whatever lines come and go meanwhile. -/
theorem code_fetched (call : Call) (hplaced : call.Placed) (s : Split) :
    ∃ todo, call.program = some todo ∧ ∀ events,
      (run Config.step ⟨s, todo⟩ events).todo = [] →
      readAll (run Config.step ⟨s, todo⟩ events).split.fetch call.code =
        call.words s.data.view := by
  obtain ⟨ops, hops, hsync⟩ := syncAll_sublist (ranges_below hplaced)
  have hsilent : ∀ i ∈ ops.map instrOf, i.Silent := by
    intro i hi
    obtain ⟨op, -, rfl⟩ := List.mem_map.mp hi
    exact silent_instrOf op
  refine ⟨call.stores.map .store ++ ops.map instrOf, by rw [Call.program, hops, Option.map_some],
    fun events hdone => ?_⟩
  rw [← readAll_code call s.data.view]
  refine readAll_congr fun a ha => readWord_congr fun x hle hlt => ?_
  have hx := hsync x (within_ranges hplaced ha hle hlt)
  exact fetch_run s (stores_aligned hplaced) hsilent hx events hdone

/-- Old code everywhere in the instruction cache, and every data line dirty. -/
def staleSplit : Split where
  data := ⟨fun _ => 0, [], fun _ => .dirty, fun _ => 0xFF#8⟩
  code _ := some fun _ => 0xEE#8

/-- A target and a stub that each lie in two lines. -/
def straddlingContext : Context := contextAbove .exit 0x1014#32 0x0FFC#32 (by decide) (by decide)

theorem code_fetched_straddling :
    ∃ todo, (Call.hook straddlingContext).program = some todo ∧ ∀ events,
      (run Config.step ⟨staleSplit, todo⟩ events).todo = [] →
      readAll (run Config.step ⟨staleSplit, todo⟩ events).split.fetch
        (Call.hook straddlingContext).code =
          (Call.hook straddlingContext).words staleSplit.data.view := by
  have hplaced : (Call.hook straddlingContext).Placed :=
    ⟨by decide, by decide, by decide, by decide⟩
  exact code_fetched (.hook straddlingContext) hplaced staleSplit

end NspireUtils.Ports.HookFetch
