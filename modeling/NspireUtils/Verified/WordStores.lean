import NspireUtils.Verified.ByteMemory

/-!
# Programs of word stores

A straight-line program that only stores words: constants, and words it reads
elsewhere.  Run from a given memory it is a list of `(address, value)` pairs
(`resolve`), and what the memory holds when it is interrupted after `k` stores is
what the first `k` pairs put there and what was there before at the others
(`readAll_putAll_take`).

A sequence that turns into another one element by element is never seen in
between exactly if at most one element changes (`unseen_iff`).
-/

namespace NspireUtils.Verified.WordStores

open NspireUtils.Verified.ByteMemory

/-! ## Runs of words -/

/-- The addresses of `n` consecutive words. -/
def addresses (a : Nat) : Nat → List Nat
  | 0 => []
  | n + 1 => a :: addresses (a + 4) n

/-- The words at the addresses. -/
def readAll (m : Memory) (as : List Nat) : List Word := as.map (readWord m)

/-- `n` consecutive words. -/
def readWords (m : Memory) (a n : Nat) : List Word := readAll m (addresses a n)

/-- Two words share no byte. -/
def WordsApart (a b : Nat) : Prop := a + 4 ≤ b ∨ b + 4 ≤ a

@[simp] theorem length_addresses (a n : Nat) : (addresses a n).length = n := by
  induction n generalizing a with
  | zero => rfl
  | succ n ih => simp [addresses, ih]

theorem mem_addresses {a n x : Nat} (h : x ∈ addresses a n) : a ≤ x ∧ x + 4 ≤ a + 4 * n := by
  induction n generalizing a with
  | zero => simp [addresses] at h
  | succ n ih =>
      rcases List.mem_cons.mp h with rfl | hrest
      · omega
      · have hbounds := ih hrest
        omega

theorem pairwise_addresses (a n : Nat) : (addresses a n).Pairwise WordsApart := by
  induction n generalizing a with
  | zero => exact .nil
  | succ n ih => exact .cons (fun x hx => .inl (mem_addresses hx).1) (ih (a + 4))

theorem readAll_append (m : Memory) (as bs : List Nat) :
    readAll m (as ++ bs) = readAll m as ++ readAll m bs := List.map_append

@[simp] theorem length_readAll (m : Memory) (as : List Nat) : (readAll m as).length = as.length :=
  List.length_map _

@[simp] theorem length_readWords (m : Memory) (a n : Nat) : (readWords m a n).length = n := by
  simp [readWords]

theorem readAll_congr {m m' : Memory} {as : List Nat}
    (h : ∀ a ∈ as, readWord m' a = readWord m a) : readAll m' as = readAll m as :=
  List.map_congr_left h

/-- Consecutive words depend only on their bytes. -/
theorem readWords_congr {m m' : Memory} {a n : Nat}
    (h : ∀ x, a ≤ x → x < a + 4 * n → m' x = m x) : readWords m' a n = readWords m a n := by
  refine readAll_congr fun b hb => readWord_congr fun x hle hlt => ?_
  have hbounds := mem_addresses hb
  exact h x (by omega) (by omega)

/-- One of consecutive words. -/
theorem getElem?_readWords (m : Memory) (a : Nat) {n i : Nat} (hi : i < n) :
    (readWords m a n)[i]? = some (readWord m (a + 4 * i)) := by
  induction n generalizing a i with
  | zero => omega
  | succ n ih =>
      cases i with
      | zero => rfl
      | succ i =>
          have hnext : a + 4 * (i + 1) = a + 4 + 4 * i := by omega
          rw [hnext]
          exact ih (a + 4) (by omega)

/-- A word of a known sequence. -/
theorem word_of_readWords {m : Memory} {a n : Nat} {ws : List Word} (h : readWords m a n = ws)
    (i : Nat) {w : Word} (hw : ws[i]? = some w) : readWord m (a + 4 * i) = w := by
  have hi : i < n := by
    have hlen := (List.getElem?_eq_some_iff.mp hw).1
    rwa [← h, length_readWords] at hlen
  rw [← h, getElem?_readWords m a hi] at hw
  exact Option.some.inj hw

/-! ## Stores -/

/-- A store of a constant or of the word at another address. -/
inductive Store where
  | put (dst : Nat) (value : Word)
  | copy (dst src : Nat)
  deriving Repr, DecidableEq

namespace Store

def dst : Store → Nat
  | put dst _ => dst
  | copy dst _ => dst

/-- The word that is stored. -/
def value (m : Memory) : Store → Word
  | put _ value => value
  | copy _ src => readWord m src

def exec (m : Memory) (s : Store) : Memory := writeWord m s.dst (s.value m)

end Store

/-- The stores one after the other. -/
def execAll (m : Memory) (stores : List Store) : Memory := stores.foldl Store.exec m

/-- Constants at consecutive addresses. -/
def putWords (dst : Nat) : List Word → List Store
  | [] => []
  | w :: ws => .put dst w :: putWords (dst + 4) ws

@[simp] theorem execAll_nil (m : Memory) : execAll m [] = m := rfl

@[simp] theorem execAll_cons (m : Memory) (s : Store) (rest : List Store) :
    execAll m (s :: rest) = execAll (s.exec m) rest := rfl

/-! ## Resolved stores -/

/-- The addresses and values that the stores come to. -/
def resolve : Memory → List Store → List (Nat × Word)
  | _, [] => []
  | m, s :: rest => (s.dst, s.value m) :: resolve (s.exec m) rest

/-- The writes one after the other. -/
def putAll (m : Memory) (ps : List (Nat × Word)) : Memory :=
  ps.foldl (fun m p => writeWord m p.1 p.2) m

@[simp] theorem putAll_nil (m : Memory) : putAll m [] = m := rfl

@[simp] theorem putAll_cons (m : Memory) (p : Nat × Word) (rest : List (Nat × Word)) :
    putAll m (p :: rest) = putAll (writeWord m p.1 p.2) rest := rfl

/-- An interrupted program has made its first writes. -/
theorem execAll_take (m : Memory) (ss : List Store) (k : Nat) :
    execAll m (ss.take k) = putAll m ((resolve m ss).take k) := by
  induction ss generalizing m k with
  | nil => simp [resolve]
  | cons s rest ih =>
      cases k with
      | zero => rfl
      | succ k => exact ih (s.exec m) k

@[simp] theorem length_resolve (m : Memory) (ss : List Store) :
    (resolve m ss).length = ss.length := by
  induction ss generalizing m with
  | nil => rfl
  | cons s rest ih => simp [resolve, ih]

theorem execAll_eq (m : Memory) (ss : List Store) : execAll m ss = putAll m (resolve m ss) := by
  have h := execAll_take m ss ss.length
  rwa [List.take_length, List.take_of_length_le (by simp)] at h

theorem resolve_append (m : Memory) (ss ts : List Store) :
    resolve m (ss ++ ts) = resolve m ss ++ resolve (execAll m ss) ts := by
  induction ss generalizing m with
  | nil => rfl
  | cons s rest ih => simp [resolve, ih]

/-- Constants are what they are. -/
theorem resolve_putWords (m : Memory) (dst : Nat) (ws : List Word) :
    resolve m (putWords dst ws) = (addresses dst ws.length).zip ws := by
  induction ws generalizing m dst with
  | nil => rfl
  | cons w ws ih => simp [putWords, resolve, Store.dst, Store.value, addresses, ih]

/-- Bytes that no write reaches are left alone. -/
theorem putAll_of_outside (m : Memory) (ps : List (Nat × Word)) {x : Nat}
    (h : ∀ p ∈ ps, x < p.1 ∨ p.1 + 4 ≤ x) : putAll m ps x = m x := by
  induction ps generalizing m with
  | nil => rfl
  | cons p rest ih =>
      rw [putAll_cons, ih _ fun q hq => h q (List.mem_cons_of_mem _ hq)]
      exact writeWord_of_outside m p.1 p.2 (h p List.mem_cons_self)

theorem readWord_putAll_of_apart (m : Memory) (ps : List (Nat × Word)) {a : Nat}
    (h : ∀ p ∈ ps, WordsApart a p.1) : readWord (putAll m ps) a = readWord m a := by
  refine readWord_congr fun x hle hlt => putAll_of_outside m ps fun p hp => ?_
  rcases h p hp with habove | hbelow
  · exact .inl (by omega)
  · exact .inr (by omega)

/-- **Interruption.**  After `k` writes to words that share no byte, the first `k`
words are new and the others old. -/
theorem readAll_putAll_take (ps : List (Nat × Word)) (m : Memory) (k : Nat)
    (hapart : (ps.map Prod.fst).Pairwise WordsApart) :
    readAll (putAll m (ps.take k)) (ps.map Prod.fst) =
      (ps.map Prod.snd).take k ++ (readAll m (ps.map Prod.fst)).drop k := by
  induction ps generalizing m k with
  | nil => simp [readAll]
  | cons p rest ih =>
      obtain ⟨hhead, htail⟩ := List.pairwise_cons.mp hapart
      cases k with
      | zero => simp
      | succ k =>
          have hfirst : readWord (putAll (writeWord m p.1 p.2) (rest.take k)) p.1 = p.2 := by
            rw [readWord_putAll_of_apart _ _ fun q hq => hhead q.1
              (List.mem_map_of_mem (List.mem_of_mem_take hq))]
            exact readWord_writeWord_self m p.1 p.2
          have hrest : readAll (writeWord m p.1 p.2) (rest.map Prod.fst) =
              readAll m (rest.map Prod.fst) :=
            readAll_congr fun a ha => readWord_writeWord_of_apart m p.1 p.2 (hhead a ha).symm
          have hih := ih (writeWord m p.1 p.2) k htail
          rw [hrest] at hih
          simp only [List.map_cons, List.take_succ_cons, putAll_cons, readAll, List.drop_succ_cons,
            List.cons_append] at hih ⊢
          rw [hfirst, hih]

/-! ## Sequences that change element by element -/

section Unseen

variable {α : Type*}

/-- At most one element differs. -/
def AtMostOneChange (old new : List α) : Prop :=
  ∀ i j : Nat, i < j → old[i]? = new[i]? ∨ old[j]? = new[j]?

/-- The first `k` elements are new, the others old. -/
def halfway (old new : List α) (k : Nat) : List α := new.take k ++ old.drop k

theorem length_halfway {old new : List α} (hlen : old.length = new.length) (k : Nat) :
    (halfway old new k).length = old.length := by
  simp only [halfway, List.length_append, List.length_take, List.length_drop]
  omega

theorem getElem?_halfway {old new : List α} (hlen : old.length = new.length) (k i : Nat) :
    (halfway old new k)[i]? = if i < k then new[i]? else old[i]? := by
  rw [halfway]
  by_cases hk : k ≤ new.length
  · rw [List.getElem?_append, List.length_take, Nat.min_eq_left hk, List.getElem?_take,
      List.getElem?_drop]
    by_cases hi : i < k
    · rw [if_pos hi, if_pos hi, if_pos hi]
    · rw [if_neg hi, if_neg hi, Nat.add_sub_of_le (by omega)]
  · rw [List.take_of_length_le (by omega), List.drop_eq_nil_of_le (by omega), List.append_nil]
    by_cases hi : i < k
    · rw [if_pos hi]
    · rw [if_neg hi, List.getElem?_eq_none (by omega), List.getElem?_eq_none (by omega)]

/-- **Unseen changes.**  No intermediate sequence differs from both ends exactly if
at most one element changes. -/
theorem unseen_iff {old new : List α} (hlen : old.length = new.length) :
    (∀ k, halfway old new k = old ∨ halfway old new k = new) ↔ AtMostOneChange old new := by
  constructor
  · intro h i j hij
    rcases h (i + 1) with hold | hnew
    · left
      have hget := getElem?_halfway hlen (i + 1) i
      rw [if_pos (by omega), hold] at hget
      exact hget
    · right
      have hget := getElem?_halfway hlen (i + 1) j
      rw [if_neg (by omega), hnew] at hget
      exact hget.symm
  · intro h k
    by_cases hfirst : ∀ i, i < k → old[i]? = new[i]?
    · left
      refine List.ext_getElem? fun i => ?_
      rw [getElem?_halfway hlen]
      split_ifs with hi
      · exact (hfirst i hi).symm
      · rfl
    · right
      push Not at hfirst
      obtain ⟨i, hi, hne⟩ := hfirst
      refine List.ext_getElem? fun j => ?_
      rw [getElem?_halfway hlen]
      split_ifs with hj
      · rfl
      · exact (h i j (by omega)).resolve_left hne

/-- Two sequences, one after the other. -/
theorem halfway_append {old new old' new' : List α} (hlen : old.length = new.length) (k : Nat) :
    halfway (old ++ old') (new ++ new') k =
      halfway old new k ++ halfway old' new' (k - new.length) := by
  rw [halfway, List.take_append, List.drop_append, hlen]
  by_cases hk : k ≤ new.length
  · have hzero : k - new.length = 0 := by omega
    simp [halfway, hzero]
  · have hnil : old.drop k = [] := List.drop_eq_nil_of_le (by omega)
    simp [halfway, hnil, List.take_of_length_le (show new.length ≤ k by omega)]

theorem halfway_all {old new : List α} (hlen : old.length = new.length) {k : Nat}
    (hk : new.length ≤ k) : halfway old new k = new := by
  rw [halfway, List.take_of_length_le hk, List.drop_eq_nil_of_le (by omega), List.append_nil]

@[simp] theorem halfway_zero (old new : List α) : halfway old new 0 = old := by simp [halfway]

end Unseen

/-! ## Interrupted writes -/

/-- After `k` of the writes, the words are halfway. -/
theorem readAll_interrupted {as : List Nat} {ws : List Word} (hlen : as.length = ws.length)
    (hapart : as.Pairwise WordsApart) (m : Memory) (k : Nat) :
    readAll (putAll m ((as.zip ws).take k)) as = halfway (readAll m as) ws k := by
  have hfst : (as.zip ws).map Prod.fst = as := List.map_fst_zip (by omega)
  have hsnd : (as.zip ws).map Prod.snd = ws := List.map_snd_zip (by omega)
  have h := readAll_putAll_take (as.zip ws) m k (by rwa [hfst])
  rwa [hfst, hsnd] at h

/-- After all of them, they are new. -/
theorem readAll_written {as : List Nat} {ws : List Word} (hlen : as.length = ws.length)
    (hapart : as.Pairwise WordsApart) (m : Memory) : readAll (putAll m (as.zip ws)) as = ws := by
  have h := readAll_interrupted hlen hapart m ws.length
  rwa [List.take_of_length_le (by simp [hlen]), halfway_all (by simp [hlen]) (Nat.le_refl _)] at h

/-- Writes inside a block leave the bytes outside it alone. -/
theorem putAll_take_of_outside {as : List Nat} {ws : List Word} (m : Memory) (k : Nat) {x : Nat}
    (h : ∀ a ∈ as, x < a ∨ a + 4 ≤ x) : putAll m ((as.zip ws).take k) x = m x :=
  putAll_of_outside m _ fun _ hp => h _ (List.of_mem_zip (List.mem_of_mem_take hp)).1

end NspireUtils.Verified.WordStores
