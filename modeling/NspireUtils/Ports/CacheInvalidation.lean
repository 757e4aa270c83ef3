import NspireUtils.Ports.HookFetch
import NspireUtils.Verified.WholeInvalidation

/-!
# `InvalidateBothCaches`

The function of `platform/Caches.cpp` that drops both caches at once, and the sequence in
which it is used: a range is flushed, the write buffer drained and both caches
invalidated.  The sequence makes what was stored in the range visible to every fetch, but
the data cache loses its dirty lines everywhere else.  `published_iff` says when that
makes a difference.
-/

namespace NspireUtils.Ports.CacheInvalidation

open NspireUtils.Verified.ByteMemory
open NspireUtils.Verified.Runs
open NspireUtils.Verified.WordStores
open NspireUtils.Verified.WriteBackCache
open NspireUtils.Verified.SplitCaches (Split)
open NspireUtils.Verified.WholeInvalidation
open NspireUtils.Ports.Caches
open NspireUtils.Ports.CacheRanges
open NspireUtils.Ports.HookFetch (instrOf)

/-- `FlushDataCacheRange(start, stop); DrainWriteBuffer(); InvalidateBothCaches();`, if
it ends. -/
def publish (start stop : Word) : Option (List Op) :=
  (flushDataCacheRange start stop).map fun flushed =>
    flushed.map (.instr ∘ instrOf) ++ [.instr .drainWriteBuffer, .invalidateBoth]

/-- A byte of the range lies in the line of the address. -/
def Flushed (start stop : Word) (x : Nat) : Prop :=
  ∃ y, start.toNat ≤ y ∧ y < stop.toNat ∧ lineOf y = lineOf x

/-- Every run of the stores and the operations leaves the processor's memory as the
stores made it, and fetches see it too. -/
def KeptBy (s : Split) (stores : List Store) (ops : List Op) : Prop :=
  ∀ events, (run Config.step ⟨s, stores.map (.instr ∘ .store) ++ ops⟩ events).todo = [] →
    ∀ x, (run Config.step ⟨s, stores.map (.instr ∘ .store) ++ ops⟩ events).split.data.view x =
        execAll s.data.view stores x ∧
      (run Config.step ⟨s, stores.map (.instr ∘ .store) ++ ops⟩ events).split.fetch x =
        execAll s.data.view stores x

/-- **What the sequence keeps.**  After stores into a range that ends below the last line,
the sequence ends, and everything is kept and fetched as it was stored, whatever lines
come and go, if and only if memory and buffer held what the processor saw outside the
lines of the range. -/
theorem published_iff (s : Split) {stores : List Store} {start stop : Word}
    (hlt : start.toNat < stop.toNat) (hstop : stop.toNat ≤ 0xFFFFFFE0)
    (hstores : ∀ st ∈ stores, 4 ∣ st.dst ∧ start.toNat ≤ st.dst ∧ st.dst < stop.toNat) :
    ∃ ops, publish start stop = some ops ∧
      (KeptBy s stores ops ↔ ∀ x, ¬ Flushed start stop x → s.data.settled x = s.data.view x) := by
  obtain ⟨⟨addrs, hflush, honce⟩, -⟩ := (covers_iff start stop).mpr hstop
  have hlines : ∀ x, lineOf x ∈ addrs.map (fun a => lineOf a.toNat) ↔ Flushed start stop x :=
    fun x => (honce hlt).2 (lineOf x)
  refine ⟨_, by rw [publish, hflush, Option.map_some], ?_⟩
  have hprogram : stores.map (.instr ∘ .store) ++
      ((addrs.map .cleanDataLine).map (.instr ∘ instrOf) ++
        [.instr .drainWriteBuffer, .invalidateBoth]) =
      program stores (addrs.map fun a => lineOf a.toNat) := by
    simp [program, instrOf, Function.comp_def]
  have hkept : KeptBy s stores ((addrs.map .cleanDataLine).map (.instr ∘ instrOf) ++
      [.instr .drainWriteBuffer, .invalidateBoth]) ↔
      Kept s stores (addrs.map fun a => lineOf a.toNat) := by
    rw [KeptBy, hprogram]
    exact Iff.rfl
  have hinside : ∀ st ∈ stores, lineOf st.dst ∈ addrs.map fun a => lineOf a.toNat := by
    intro st hst
    obtain ⟨-, hle, hend⟩ := hstores st hst
    exact (hlines st.dst).mpr ⟨st.dst, hle, hend, rfl⟩
  rw [hkept, kept_iff (fun st hst => (hstores st hst).1) hinside]
  simp only [hlines]
  exact Iff.rfl

/-- A vector and the address it jumps to, in a page at the top, with a cache that holds a
dirty line elsewhere: that line is lost. -/
theorem published_iff_vectors :
    ∃ ops, publish 0xFFFF0000#32 0xFFFF1000#32 = some ops ∧
      (KeptBy HookFetch.staleSplit [.put 0xFFFF0118 0x1000#32, .put 0xFFFF0018 0xE59FF0F8#32] ops ↔
        ∀ x, ¬ Flushed 0xFFFF0000#32 0xFFFF1000#32 x →
          HookFetch.staleSplit.data.settled x = HookFetch.staleSplit.data.view x) :=
  published_iff HookFetch.staleSplit (by decide) (by decide) (by decide)

end NspireUtils.Ports.CacheInvalidation
