/-
# The books of the cache

Many callers share one cache, and its lock is held for one access at a time: for one look-up with or
without a computation, or for one size of a warm-up, while the calls of coset operations are counted
without it. So what concurrent calls make of a cache is a sequence of accesses that interleaves those of
the calls (`Interleaving`), and which accesses a call makes depends on its arguments alone
(`Call.run_accesses`).

One access adds one exact entry under a new key, or none, and moves the counters to match
(`entries_access`, `length_access`, `lookups_access`). By induction the books of the cache are right after
every such sequence (`cache_consistent`).
-/

import Mathlib.Algebra.BigOperators.Group.List.Basic
import ProofMiner.Proofs.Domain.Interpolation

namespace ProofMiner

open Goldilocks

/-! ### Interleavings -/

/-- `run` takes the lists `ls` apart from their fronts, in any order. -/
inductive Interleaving {α : Type} : List (List α) → List α → Prop where
  | done {ls : List (List α)} (h : ∀ l ∈ ls, l = []) : Interleaving ls []
  | step {ls : List (List α)} {rest run : List α} {a : α} (i : ℕ) (h : ls[i]? = some (a :: rest))
    (hrun : Interleaving (ls.set i rest) run) : Interleaving ls (a :: run)

/-- An interleaving has the items of the lists. -/
theorem Interleaving.perm {α : Type} {ls : List (List α)} {run : List α}
    (h : Interleaving ls run) : run.Perm ls.flatten := by
  induction h with
  | done h => rw [List.flatten_eq_nil_iff.2 h]
  | @step ls rest run a i h hrun ih =>
    obtain ⟨hi, hget⟩ := List.getElem?_eq_some_iff.1 h
    have hset (l : List α) : (ls.set i l).flatten =
        (ls.take i).flatten ++ (l ++ (ls.drop (i + 1)).flatten) := by
      rw [List.set_eq_take_append_cons_drop, if_pos hi, List.flatten_append, List.flatten_cons]
    have hself : ls.set i (a :: rest) = ls := by rw [← hget, List.set_getElem_self]
    have hflatten := hset (a :: rest)
    rw [hself] at hflatten
    rw [hset] at ih
    rw [hflatten]
    exact (ih.cons a).trans List.perm_middle.symm

namespace Cache

/-! ### Accesses -/

/-- Which coset operation is counted. -/
inductive Counter where
  | shift
  | intercosate
  | coseword
  deriving DecidableEq

/-- What is done to the cache while its lock is held, or to one of the counters of calls. -/
inductive Access where
  | record (counter : Counter)
  | get (size : ℕ) (offset : Goldilocks)
  | look (size : ℕ) (offset : Goldilocks)
  | peek (size : ℕ) (offset : Goldilocks)
  /-- A warm-up sees to the size `2 ^ k`. -/
  | warm (k : ℕ) (offset : Goldilocks)

/-- The cache after an access. -/
def access (c : Cache) : Access → Cache
  | .record .shift => { c with shiftCalls := c.shiftCalls + 1 }
  | .record .intercosate => { c with intercosateCalls := c.intercosateCalls + 1 }
  | .record .coseword => { c with cosewordCalls := c.cosewordCalls + 1 }
  | .get size offset => (c.getOrCompute size offset).2
  | .look size offset => (c.lookup size offset).2
  | .peek _ _ => c
  | .warm k offset => (warmUpSizes offset [k] 0 c).2

/-- The cache after a sequence of accesses. -/
def afterAll (c : Cache) (run : List Access) : Cache := run.foldl access c

namespace Access

/-- The sizes are such that there is a domain. -/
def Fits : Access → Prop
  | record _ => True
  | get size _ | look size _ | peek size _ => size ≤ 2 ^ 32
  | warm k _ => k ≤ 32

/-- The look-ups that are counted: all but those for a size that is not a power of two, which is
refused. -/
def lookups : Access → ℕ
  | look _ _ => 1
  | get size _ => if isPowerOfTwo size then 1 else 0
  | _ => 0

/-- The misses that end in a computation. -/
def computed (c : Cache) : Access → ℕ
  | get size offset => (c.access (get size offset)).misses - c.misses
  | _ => 0

/-- The domains that a warm-up itself counts as added. -/
def added (c : Cache) : Access → ℕ
  | warm k offset => (warmUpSizes offset [k] 0 c).1.toOption.getD 0
  | _ => 0

end Access

section Access

variable {c : Cache} {a : Access}

/-- A domain of a power-of-two size is looked up, and computed if there is none. -/
theorem getOrCompute_cases (c : Cache) {size : ℕ} (hsize : size ≤ 2 ^ 32) (offset : Goldilocks) :
    (isPowerOfTwo size = false ∧ c.getOrCompute size offset = (.error (.domainSize size), c)) ∨
    (isPowerOfTwo size = true ∧ ∃ d, c.find? size offset = some d ∧
      c.getOrCompute size offset = (.ok d, { c with hits := c.hits + 1 })) ∨
    (∃ k ≤ 32, size = 2 ^ k ∧ c.find? size offset = none ∧
      c.getOrCompute size offset = (.ok (Domain.ofExponent k offset), { c with
        entries := Domain.ofExponent k offset :: c.entries, misses := c.misses + 1 })) := by
  unfold getOrCompute
  cases hpow : isPowerOfTwo size with
  | false => exact .inl ⟨rfl, rfl⟩
  | true =>
    right
    cases hfound : c.find? size offset with
    | some d => exact .inl ⟨rfl, d, rfl, rfl⟩
    | none =>
      obtain ⟨k, hk, rfl⟩ := exists_exponent_le (isPowerOfTwo_iff.1 hpow) hsize
      refine .inr ⟨k, hk, rfl, rfl, ?_⟩
      rw [Domain.compute_two_pow hk]
      rfl

/-- A warm-up adds the domain of one size if there is none. -/
theorem warmUpSizes_cons (c : Cache) {k : ℕ} (hk : k ≤ 32) (offset : Goldilocks) (ks : List ℕ)
    (added : ℕ) : warmUpSizes offset (k :: ks) added c =
      if c.contains (2 ^ k) offset then warmUpSizes offset ks added c
      else warmUpSizes offset ks (added + 1)
        { c with entries := Domain.ofExponent k offset :: c.entries } := by
  rw [warmUpSizes, Nat.one_shiftLeft, Domain.compute_two_pow hk]

/-- **One access adds the domain of a new key**, or nothing. -/
theorem entries_access (ha : a.Fits) : (c.access a).entries = c.entries ∨
    ∃ k ≤ 32, ∃ offset, c.find? (2 ^ k) offset = none ∧
      (c.access a).entries = Domain.ofExponent k offset :: c.entries := by
  cases a with
  | record counter => cases counter <;> exact .inl rfl
  | peek => exact .inl rfl
  | look size offset =>
    left
    rw [access, lookup]
    split <;> rfl
  | get size offset =>
    rw [access]
    obtain ⟨-, heq⟩ | ⟨-, d, -, heq⟩ | ⟨k, hk, rfl, hnone, heq⟩ := c.getOrCompute_cases ha offset
    · exact .inl (by rw [heq])
    · exact .inl (by rw [heq])
    · exact .inr ⟨k, hk, offset, hnone, by rw [heq]⟩
  | warm k offset =>
    rw [access, warmUpSizes_cons c ha]
    split
    · exact .inl rfl
    next hnone => exact .inr ⟨k, ha, offset, by simpa [contains] using hnone, rfl⟩

/-- Each entry more was computed after a miss, or added by a warm-up. -/
theorem length_access (ha : a.Fits) :
    (c.access a).entries.length = c.entries.length + (a.computed c + a.added c) := by
  cases a with
  | record counter => cases counter <;> rfl
  | peek => rfl
  | look size offset =>
    rw [access, lookup]
    split <;> rfl
  | get size offset =>
    simp only [Access.computed, Access.added, access]
    obtain ⟨-, heq⟩ | ⟨-, d, -, heq⟩ | ⟨k, hk, rfl, hnone, heq⟩ := c.getOrCompute_cases ha offset <;>
    rw [heq] <;> simp
  | warm k offset =>
    simp only [Access.computed, Access.added, access, warmUpSizes_cons c ha]
    split <;> simp [warmUpSizes, Except.toOption]

/-- Each look-up is a hit or a miss. -/
theorem lookups_access (ha : a.Fits) :
    (c.access a).hits + (c.access a).misses = c.hits + c.misses + a.lookups := by
  cases a with
  | record counter => cases counter <;> rfl
  | peek => rfl
  | look size offset =>
    rw [access, lookup, Access.lookups]
    split <;> simp only <;> omega
  | get size offset =>
    rw [access, Access.lookups]
    obtain ⟨hpow, heq⟩ | ⟨hpow, d, -, heq⟩ | ⟨k, hk, rfl, hnone, heq⟩ :=
      c.getOrCompute_cases ha offset <;> rw [heq]
    · rw [hpow]
      rfl
    · rw [hpow]
      exact Nat.add_right_comm _ _ _
    · rw [isPowerOfTwo_two_pow]
      rfl
  | warm k offset =>
    rw [access, warmUpSizes_cons c ha]
    split <;> rfl

end Access

/-! ### Calls -/

/-- A call that consults the cache. Offsets that come from outside are any words. -/
inductive Call where
  | getOrCompute (size : ℕ) (offset : UInt64)
  | lookup (size : ℕ) (offset : UInt64)
  | contains (size : ℕ) (offset : UInt64)
  | warmUp (low high : ℕ) (offset : UInt64)
  | shift (mode : CacheMode) (p : Array Goldilocks) (offset : Goldilocks)
  | coseword (t : Tuning) (mode : CacheMode) (coeffs : Array Goldilocks) (offset : Goldilocks)
    (order : ℕ)
  | intercosate (t : Tuning) (mode : CacheMode) (values : Array Goldilocks) (offset : Goldilocks)
    (order : ℕ)

namespace Call

/-- What a call that nobody disturbs makes of the cache, and whether it fails. -/
def run (c : Cache) : Call → Except Fault Unit × Cache
  | getOrCompute size offset =>
    let (result, c) := c.getOrCompute size (ofWord offset)
    (result.map fun _ => (), c)
  | lookup size offset => (.ok (), (c.lookup size (ofWord offset)).2)
  | contains _ _ => (.ok (), c)
  | warmUp low high offset =>
    let (result, c) := c.warmUp low high offset
    (result.map fun _ => (), c)
  | shift mode p offset =>
    let (result, c) := ProofMiner.shift mode p offset c
    (result.map fun _ => (), c)
  | coseword t mode coeffs offset order =>
    let (result, c) := ProofMiner.coseword t mode coeffs offset order c
    (result.map fun _ => (), c)
  | intercosate t mode values offset order =>
    let (result, c) := ProofMiner.intercosate t mode values offset order c
    (result.map fun _ => (), c)

/-- The sizes are at most `2 ^ 32`. -/
def Fits : Call → Prop
  | getOrCompute size _ | lookup size _ | contains size _ => size ≤ 2 ^ 32
  | warmUp _ _ _ => True
  | shift _ p _ => p.size ≤ 2 ^ 32
  | coseword _ _ _ _ order | intercosate _ _ _ _ order => order ≤ 2 ^ 32

/-- It never adds a domain. -/
def isReader : Call → Bool
  | lookup _ _ | contains _ _ | shift .lookupOnly _ _ | coseword _ .lookupOnly _ _ _
  | intercosate _ .lookupOnly _ _ _ => true
  | _ => false

/-- The access of a coset operation to the tables of a power-of-two size. -/
def tablesAccess (mode : CacheMode) (size : ℕ) (offset : Goldilocks) : List Access :=
  if isPowerOfTwo size then
    match mode with
    | .populate => [.get size offset]
    | .lookupOnly => [.look size offset]
  else []

/-- The accesses of a call, in order. -/
def accesses : Call → List Access
  | getOrCompute size offset => if isPowerOfTwo size then [.get size (ofWord offset)] else []
  | lookup size offset => [.look size (ofWord offset)]
  | contains size offset => [.peek size (ofWord offset)]
  | warmUp low high offset =>
    if low ≤ high ∧ high ≤ twoAdicity then
      ((List.range (high + 1)).filter (low ≤ ·)).map (.warm · (ofWord offset))
    else []
  | shift mode p offset => .record .shift :: tablesAccess mode p.size offset
  | coseword _ mode coeffs offset order =>
    .record .coseword :: if coeffs.size ≤ order then tablesAccess mode order offset else []
  | intercosate _ mode values offset order =>
    .record .intercosate ::
      if values.size = order ∧ offset ≠ 0 then tablesAccess mode order offset else []

end Call

/-- Accesses are made one after the other. -/
theorem afterAll_append (c : Cache) (run later : List Access) :
    c.afterAll (run ++ later) = (c.afterAll run).afterAll later := List.foldl_append

/-- Asking for tables makes one access if the size is a power of two, else none. -/
theorem tables_snd (c : Cache) (mode : CacheMode) (size : ℕ) (offset : Goldilocks) :
    (c.tables mode size offset).2 = c.afterAll (Call.tablesAccess mode size offset) := by
  unfold tables Call.tablesAccess
  cases isPowerOfTwo size with
  | false => rfl
  | true => cases mode <;> rfl

/-- A warm-up of sizes up to `2 ^ 32` does not fail. -/
theorem warmUpSizes_eq (offset : Goldilocks) {ks : List ℕ} (hks : ∀ k ∈ ks, k ≤ 32) (added : ℕ)
    (c : Cache) : (∃ n, (warmUpSizes offset ks added c).1 = .ok n) ∧
      (warmUpSizes offset ks added c).2 = c.afterAll (ks.map (.warm · offset)) := by
  induction ks generalizing added c with
  | nil => exact ⟨⟨added, rfl⟩, rfl⟩
  | cons k ks ih =>
    obtain ⟨hk, hks⟩ := List.forall_mem_cons.1 hks
    have hwarm : c.afterAll ((k :: ks).map (.warm · offset)) =
        (c.access (.warm k offset)).afterAll (ks.map (.warm · offset)) := rfl
    rw [hwarm, access, warmUpSizes_cons c hk, warmUpSizes_cons c hk]
    split
    · exact ih hks added c
    · exact ih hks (added + 1) _

/-- Warming up accesses one size after the other, from the lowest on. -/
theorem warmUp_eq (c : Cache) {low high : ℕ} (hlow : low ≤ high) (hhigh : high ≤ twoAdicity)
    (offset : UInt64) : (∃ lines, (c.warmUp low high offset).1 = .ok lines) ∧
      (c.warmUp low high offset).2 = c.afterAll
        (((List.range (high + 1)).filter (low ≤ ·)).map (.warm · (ofWord offset))) := by
  have hks : ∀ k ∈ (List.range (high + 1)).filter (low ≤ ·), k ≤ 32 := by
    intro k hk
    have hlt := List.mem_range.1 (List.mem_filter.1 hk).1
    exact (Nat.le_of_lt_succ hlt).trans hhigh
  obtain ⟨⟨n, hn⟩, hafter⟩ := warmUpSizes_eq (ofWord offset) hks 0 c
  unfold warmUp
  rw [if_neg (not_lt.2 hlow), if_neg (not_lt.2 hhigh)]
  dsimp only
  split
  next h =>
    rw [h] at hafter
    exact ⟨⟨_, rfl⟩, hafter⟩
  next h =>
    rw [h] at hn
    cases hn

/-- A range of sizes that is empty, or goes too far, makes a warm-up leave the cache alone. -/
theorem warmUp_outside (c : Cache) {low high : ℕ} (hrange : ¬ (low ≤ high ∧ high ≤ twoAdicity))
    (offset : UInt64) : (c.warmUp low high offset).2 = c := by
  unfold warmUp
  split
  · rfl
  · rw [if_pos (by omega)]

/-- A coset operation with tables of a size that has none. -/
theorem Call.tablesAccess_eq_nil {mode : CacheMode} {size : ℕ} {offset : Goldilocks}
    (h : isPowerOfTwo size = false) : tablesAccess mode size offset = [] := by
  unfold tablesAccess
  rw [h]
  rfl

/-- A shift is recorded, and then asks for its tables. -/
theorem shift_snd (c : Cache) (mode : CacheMode) (p : Array Goldilocks) (offset : Goldilocks) :
    (ProofMiner.shift mode p offset c).2 =
      (c.access (.record .shift)).afterAll (Call.tablesAccess mode p.size offset) := by
  rw [← tables_snd]
  unfold ProofMiner.shift
  dsimp only [access]
  split <;> rename_i h <;> rw [h]

/-- An evaluation is recorded, and asks for its tables unless the polynomial is too long. -/
theorem coseword_snd (c : Cache) (t : Tuning) (mode : CacheMode) (coeffs : Array Goldilocks)
    (offset : Goldilocks) (order : ℕ) : (ProofMiner.coseword t mode coeffs offset order c).2 =
      (c.access (.record .coseword)).afterAll
        (if coeffs.size ≤ order then Call.tablesAccess mode order offset else []) := by
  unfold ProofMiner.coseword
  dsimp only
  cases hpow : isPowerOfTwo order with
  | false =>
    rw [Call.tablesAccess_eq_nil hpow, ite_self]
    rfl
  | true =>
    rw [Bool.not_true, if_neg Bool.false_ne_true]
    by_cases hfit : coeffs.size ≤ order
    · rw [if_pos hfit, if_neg (not_lt.2 hfit), ← tables_snd]
      dsimp only [access]
      split <;> rename_i h <;> rw [h]
    · rw [if_neg hfit, if_pos (not_le.1 hfit)]
      rfl

/-- An interpolation is recorded, and asks for its tables unless the length or the offset is refused. -/
theorem intercosate_snd (c : Cache) (t : Tuning) (mode : CacheMode) (values : Array Goldilocks)
    (offset : Goldilocks) (order : ℕ) :
    (ProofMiner.intercosate t mode values offset order c).2 =
      (c.access (.record .intercosate)).afterAll
        (if values.size = order ∧ offset ≠ 0 then Call.tablesAccess mode order offset else []) := by
  unfold ProofMiner.intercosate
  dsimp only
  cases hpow : isPowerOfTwo order with
  | false =>
    rw [Call.tablesAccess_eq_nil hpow, ite_self]
    rfl
  | true =>
    rw [Bool.not_true, if_neg Bool.false_ne_true]
    by_cases hsize : values.size = order
    · by_cases hoffset : offset = 0
      · rw [if_neg (not_not.2 hsize), if_pos hoffset, if_neg fun h => h.2 hoffset]
        rfl
      · rw [if_neg (not_not.2 hsize), if_neg hoffset, if_pos ⟨hsize, hoffset⟩, ← tables_snd]
        dsimp only [access]
        split <;> rename_i h <;> rw [h]
    · rw [if_pos hsize, if_neg fun h => hsize h.1]
      rfl

/-- **A call is its accesses**, when nobody comes in between. -/
theorem Call.run_accesses (c : Cache) (call : Call) : (call.run c).2 = c.afterAll call.accesses := by
  cases call with
  | getOrCompute size offset =>
    dsimp only [run, accesses]
    cases hpow : isPowerOfTwo size with
    | true => rfl
    | false =>
      rw [Cache.getOrCompute, hpow]
      rfl
  | lookup size offset => rfl
  | contains size offset => rfl
  | warmUp low high offset =>
    dsimp only [run, accesses]
    by_cases hrange : low ≤ high ∧ high ≤ twoAdicity
    · rw [if_pos hrange]
      exact (c.warmUp_eq hrange.1 hrange.2 offset).2
    · rw [if_neg hrange, c.warmUp_outside hrange offset]
      rfl
  | shift mode p offset => exact shift_snd c mode p offset
  | coseword t mode coeffs offset order => exact coseword_snd c t mode coeffs offset order
  | intercosate t mode values offset order => exact intercosate_snd c t mode values offset order

/-! What calls of one kind do not do, whatever comes in between their accesses. -/

/-- A call within the range makes accesses within the range. -/
theorem Call.fits_accesses {call : Call} (hfits : call.Fits) : ∀ a ∈ call.accesses, a.Fits := by
  have htables (mode : CacheMode) (size : ℕ) (hsize : size ≤ 2 ^ 32) (offset : Goldilocks) :
      ∀ a ∈ tablesAccess mode size offset, a.Fits := by
    intro a ha
    unfold tablesAccess at ha
    split at ha
    · cases mode <;> obtain rfl := List.mem_singleton.1 ha <;> exact hsize
    · cases ha
  intro a ha
  cases call with
  | getOrCompute size offset =>
    obtain rfl : a = .get size (ofWord offset) := by
      rw [accesses] at ha
      split at ha
      · exact List.mem_singleton.1 ha
      · cases ha
    exact hfits
  | lookup | contains =>
    obtain rfl := List.mem_singleton.1 ha
    exact hfits
  | warmUp low high offset =>
    rw [accesses] at ha
    split at ha
    next hrange =>
      obtain ⟨k, hk, rfl⟩ := List.mem_map.1 ha
      have hlt := List.mem_range.1 (List.mem_filter.1 hk).1
      exact (Nat.le_of_lt_succ hlt).trans hrange.2
    next => cases ha
  | shift mode p offset =>
    obtain rfl | ha := List.mem_cons.1 ha
    · trivial
    · exact htables mode p.size hfits offset a ha
  | coseword t mode coeffs offset order | intercosate t mode values offset order =>
    obtain rfl | ha := List.mem_cons.1 ha
    · trivial
    · split at ha
      · exact htables mode order hfits offset a ha
      · cases ha

/-- The size of the tables that a coset operation of a fitting size accesses. -/
theorem Call.exists_of_tablesAccess {mode : CacheMode} {size : ℕ} {offset : Goldilocks}
    (hsize : size ≤ 2 ^ 32) {a : Access} (ha : a ∈ tablesAccess mode size offset) :
    ∃ k ≤ 32, size = 2 ^ k := by
  unfold tablesAccess at ha
  split at ha
  next hpow => exact exists_exponent_le (isPowerOfTwo_iff.1 hpow) hsize
  next => cases ha

/-- A call that fails has no access but the one that counts it. -/
theorem Call.eq_record_of_error {c : Cache} (hc : c.Sound) {call : Call} (hfits : call.Fits)
    {e : Fault} (he : (call.run c).1 = .error e) :
    ∀ a ∈ call.accesses, ∃ counter, a = .record counter := by
  -- Where a call has another access, it succeeds.
  have hfails {α : Type} {result : Except Fault α} {x : α} (hok : result = .ok x) :
      ¬ (result.map fun _ => ()) = .error e := by
    rw [hok]
    nofun
  intro a ha
  cases call with
  | getOrCompute size offset =>
    exfalso
    dsimp only [run, accesses] at he ha
    obtain ⟨hpow, -⟩ | ⟨-, d, -, heq⟩ | ⟨k, -, -, -, heq⟩ :=
      c.getOrCompute_cases hfits (ofWord offset)
    · rw [hpow] at ha
      cases ha
    · exact hfails (congrArg Prod.fst heq) he
    · exact hfails (congrArg Prod.fst heq) he
  | lookup | contains => cases he
  | warmUp low high offset =>
    rw [accesses] at ha
    split at ha
    next hrange =>
      obtain ⟨lines, hlines⟩ := (c.warmUp_eq hrange.1 hrange.2 offset).1
      exact absurd he (hfails hlines)
    next => cases ha
  | shift mode p offset => exact absurd he (hfails (shift_eq hc mode offset fun _ => hfits))
  | coseword t mode coeffs offset order =>
    obtain rfl | ha := List.mem_cons.1 ha
    · exact ⟨_, rfl⟩
    · split at ha
      next hlong =>
        obtain ⟨k, hk, rfl⟩ := exists_of_tablesAccess hfits ha
        have horder : 2 ^ k < 2 ^ 64 := hfits.trans_lt (by decide)
        exact absurd he (hfails ((coseword_eq hc t mode coeffs offset horder).trans
          (cosetValues_two_pow hk hlong offset)))
      next => cases ha
  | intercosate t mode values offset order =>
    obtain rfl | ha := List.mem_cons.1 ha
    · exact ⟨_, rfl⟩
    · split at ha
      next hvalues =>
        obtain ⟨k, hk, rfl⟩ := exists_of_tablesAccess hfits ha
        have horder : 2 ^ k < 2 ^ 64 := hfits.trans_lt (by decide)
        exact absurd he (hfails ((intercosate_eq hc t mode values offset horder).trans
          (cosetCoefficients_two_pow hk hvalues.1 hvalues.2)))
      next => cases ha

/-- An access that never adds a domain. -/
def Access.isReader : Access → Bool
  | record _ | look _ _ | peek _ _ => true
  | get _ _ | warm _ _ => false

/-- An access that only reads leaves the entries alone. -/
theorem entries_of_isReader {a : Access} (h : a.isReader = true) (c : Cache) :
    (c.access a).entries = c.entries := by
  cases a with
  | record counter => cases counter <;> rfl
  | peek => rfl
  | look size offset =>
    rw [access, lookup]
    split <;> rfl
  | get | warm => cases h

/-- A call that only reads makes no other accesses. -/
theorem Call.isReader_accesses {call : Call} (h : call.isReader = true) :
    ∀ a ∈ call.accesses, a.isReader = true := by
  have htables (size : ℕ) (offset : Goldilocks) :
      ∀ a ∈ tablesAccess .lookupOnly size offset, a.isReader = true := by
    intro a ha
    unfold tablesAccess at ha
    split at ha
    · obtain rfl := List.mem_singleton.1 ha
      rfl
    · cases ha
  intro a ha
  cases call with
  | getOrCompute | warmUp => cases h
  | lookup | contains =>
    obtain rfl := List.mem_singleton.1 ha
    rfl
  | shift mode p offset =>
    cases mode with
    | populate => cases h
    | lookupOnly =>
      obtain rfl | ha := List.mem_cons.1 ha
      · rfl
      · exact htables _ _ a ha
  | coseword t mode | intercosate t mode =>
    cases mode with
    | populate => cases h
    | lookupOnly =>
      obtain rfl | ha := List.mem_cons.1 ha
      · rfl
      · split at ha
        · exact htables _ _ a ha
        · cases ha

/-! ### Exact entries -/

end Cache

/-- The first `n` powers of `r` and nothing else. -/
def HoldsPowers (table : Array Goldilocks) (r : Goldilocks) (n : ℕ) : Prop :=
  table.size = n ∧ ∀ i < n, table.getD i 0 = r ^ i

/-- The table of powers holds the powers. -/
theorem holdsPowers_powers (r : Goldilocks) (n : ℕ) : HoldsPowers (r.powers n) r n := by
  rw [powers_eq]
  exact ⟨Array.size_ofFn, fun i hi => getD_ofFn _ hi⟩

/-- A domain holds what belongs to its size and its offset. -/
structure Domain.Exact (d : Domain) : Prop where
  size : ∃ k ≤ 32, d.size = 2 ^ k
  computed : Domain.compute d.size d.offset = .ok d
  powers : HoldsPowers d.powers d.offset d.size
  inversePowers : d.offset ≠ 0 → HoldsPowers d.inversePowers d.offset⁻¹ d.size
  noInversePowers : d.offset = 0 → d.inversePowers = #[]
  root : orderedRoot d.size = .ok d.root
  inverseRoot : d.root * d.inverseRoot = 1
  sizeInverse : (d.size : Goldilocks) * d.sizeInverse = 1
  twiddles : HoldsPowers d.twiddles d.root (d.size / 2)
  inverseTwiddles : HoldsPowers d.inverseTwiddles d.inverseRoot (d.size / 2)

/-- The tables of a power of two are exact. -/
theorem Domain.exact_ofExponent {k : ℕ} (hk : k ≤ 32) (offset : Goldilocks) :
    (ofExponent k offset).Exact where
  size := ⟨k, hk, rfl⟩
  computed := compute_two_pow hk offset
  powers := holdsPowers_powers offset _
  inversePowers hoffset := by
    have htable : (ofExponent k offset).inversePowers = offset⁻¹.powers (2 ^ k) := if_neg hoffset
    rw [htable]
    exact holdsPowers_powers _ _
  noInversePowers hoffset := if_pos hoffset
  root := orderedRoot_two_pow hk
  inverseRoot := mul_inv_self (towerRoot_ne_zero k)
  sizeInverse := mul_inv_self (two_pow_ne_zero k)
  twiddles := holdsPowers_powers _ _
  inverseTwiddles := holdsPowers_powers _ _

namespace Cache

/-! ### Sequences of accesses -/

/-- The sum of what is counted at each access of a sequence. -/
def sumAlong (count : Cache → Access → ℕ) : Cache → List Access → ℕ
  | _, [] => 0
  | c, a :: run => count c a + sumAlong count (c.access a) run

/-- The last access is counted in the cache that those before it have left. -/
theorem sumAlong_concat (count : Cache → Access → ℕ) (c : Cache) (run : List Access) (a : Access) :
    sumAlong count c (run ++ [a]) = sumAlong count c run + count (c.afterAll run) a := by
  induction run generalizing c with
  | nil => exact Nat.add_comm _ _
  | cons b run ih =>
    rw [List.cons_append, sumAlong, sumAlong, ih, Nat.add_assoc]
    rfl

/-- How often a coset operation was called. -/
def callsOf (c : Cache) : Counter → ℕ
  | .shift => c.shiftCalls
  | .intercosate => c.intercosateCalls
  | .coseword => c.cosewordCalls

/-- The access adds one to this counter. -/
def Access.isRecord (counter : Counter) : Access → Bool
  | record other => other = counter
  | _ => false

/-- An access adds one to a counter if it records it, else nothing. -/
theorem callsOf_access (c : Cache) (a : Access) (counter : Counter) :
    (c.access a).callsOf counter = c.callsOf counter + (a.isRecord counter).toNat := by
  cases a with
  | record other => cases other <;> cases counter <;> rfl
  | peek => rfl
  | look size offset =>
    rw [access, lookup]
    split <;> cases counter <;> rfl
  | get size offset =>
    rw [access, getOrCompute]
    repeat' split
    all_goals cases counter <;> rfl
  | warm k offset =>
    rw [access, warmUpSizes]
    repeat' split
    all_goals cases counter <;> rfl

/-- The size and the offset that name an entry. -/
def key (d : Domain) : ℕ × Goldilocks := (d.size, d.offset)

/-- What is not found has a key that no entry has. -/
theorem key_not_mem_of_find? {c : Cache} {d : Domain} (h : c.find? d.size d.offset = none) :
    key d ∉ c.entries.map key := by
  intro hmem
  obtain ⟨e, he, hkey⟩ := List.mem_map.1 hmem
  obtain ⟨hsize, hoffset⟩ := Prod.mk.inj hkey
  have hother := List.find?_eq_none.1 h e he
  simp [hsize, hoffset] at hother

/-- What the entries and the counters of a cache have to do with the accesses so far. -/
structure Books (c : Cache) (run : List Access) : Prop where
  exact : ∀ d ∈ c.entries, d.Exact
  /-- There is one entry for each key. -/
  keys : (c.entries.map key).Nodup
  /-- Every entry was computed after a miss, or added by a warm-up. -/
  entries : c.entries.length = sumAlong Access.computed {} run + sumAlong Access.added {} run
  lookups : c.hits + c.misses = (run.map Access.lookups).sum
  calls : ∀ counter, c.callsOf counter = run.countP (Access.isRecord counter)

/-- The books of an empty cache are in order. -/
theorem books_empty : Books {} [] where
  exact _ hd := absurd hd List.not_mem_nil
  keys := List.nodup_nil
  entries := rfl
  lookups := rfl
  calls counter := by cases counter <;> rfl

/-- **An access keeps the books.** -/
theorem Books.access {run : List Access} (h : Books (({} : Cache).afterAll run) run) {a : Access}
    (ha : a.Fits) : Books (({} : Cache).afterAll (run ++ [a])) (run ++ [a]) := by
  rw [afterAll_append]
  have hentries := entries_access (c := ({} : Cache).afterAll run) ha
  constructor
  · obtain hsame | ⟨k, hk, offset, -, hcons⟩ := hentries
    · exact fun d hd => h.exact d (hsame ▸ hd)
    · refine fun d hd => ?_
      obtain rfl | hd := List.mem_cons.1 (hcons ▸ hd)
      · exact Domain.exact_ofExponent hk offset
      · exact h.exact d hd
  · obtain hsame | ⟨k, hk, offset, hnone, hcons⟩ := hentries
    · exact hsame ▸ h.keys
    · refine hcons ▸ List.nodup_cons.2 ⟨?_, h.keys⟩
      exact key_not_mem_of_find? (d := Domain.ofExponent k offset) hnone
  · have hlength := length_access (c := ({} : Cache).afterAll run) ha
    rw [sumAlong_concat, sumAlong_concat]
    exact hlength.trans (by rw [h.entries]; omega)
  · rw [List.map_append, List.sum_append, List.map_singleton, List.sum_singleton, ← h.lookups]
    exact lookups_access ha
  · intro counter
    rw [List.countP_append, ← h.calls, List.countP_singleton]
    refine (callsOf_access _ a counter).trans ?_
    cases a.isRecord counter <;> rfl

/-- **The books stay in order**, by induction on the accesses from the last one. -/
theorem books_afterAll {run : List Access} (hfits : ∀ a ∈ run, a.Fits) :
    Books (({} : Cache).afterAll run) run := by
  induction run using List.reverseRecOn with
  | nil => exact books_empty
  | append_singleton run a ih =>
    obtain ⟨hrun, ha⟩ := List.forall_mem_append.1 hfits
    exact (ih hrun).access (ha a List.mem_cons_self)

/-- Entries stay as they are. -/
theorem entries_suffix (c : Cache) {run : List Access} (hfits : ∀ a ∈ run, a.Fits) :
    c.entries <:+ (c.afterAll run).entries := by
  induction run generalizing c with
  | nil => exact List.suffix_rfl
  | cons a run ih =>
    obtain ⟨ha, hrun⟩ := List.forall_mem_cons.1 hfits
    refine List.IsSuffix.trans ?_ (ih (c.access a) hrun)
    obtain hsame | ⟨k, -, offset, -, hcons⟩ := entries_access (c := c) ha
    · rw [hsame]
    · rw [hcons]
      exact List.suffix_cons _ _

/-- Entries that are exact are sound. -/
theorem Books.sound {c : Cache} {run : List Access} (h : Books c run) : c.Sound := by
  intro d hd
  obtain ⟨k, hk, -, heq⟩ := Domain.eq_ofExponent_of_compute (h.exact d hd).computed
  exact ⟨k, hk, heq⟩

/-- An entry is found under its key, and only there. -/
theorem Books.find?_eq_some {c : Cache} {run : List Access} (h : Books c run) {d : Domain}
    {size : ℕ} {offset : Goldilocks} :
    c.find? size offset = some d ↔ d ∈ c.entries ∧ d.size = size ∧ d.offset = offset := by
  constructor
  · intro hfound
    have hkey := List.find?_some hfound
    rw [Bool.and_eq_true, beq_iff_eq, beq_iff_eq] at hkey
    exact ⟨List.mem_of_find?_eq_some hfound, hkey⟩
  · rintro ⟨hd, rfl, rfl⟩
    obtain ⟨e, he⟩ : ∃ e, c.find? d.size d.offset = some e :=
      Option.isSome_iff_exists.1 (List.find?_isSome.2 ⟨d, hd, by simp⟩)
    have hkey := List.find?_some he
    rw [Bool.and_eq_true, beq_iff_eq, beq_iff_eq] at hkey
    rw [he, List.inj_on_of_nodup_map h.keys (List.mem_of_find?_eq_some he) hd
      (Prod.ext hkey.1 hkey.2)]

/-! ### The calls of a run -/

namespace Call

/-- The look-ups of a call: of `lookup` itself, and of every request for the tables of a power-of-two
size. -/
def lookups : Call → ℕ
  | lookup _ _ => 1
  | getOrCompute size _ => (isPowerOfTwo size).toNat
  | contains _ _ | warmUp _ _ _ => 0
  | shift _ p _ => (isPowerOfTwo p.size).toNat
  | coseword _ _ coeffs _ order => if coeffs.size ≤ order then (isPowerOfTwo order).toNat else 0
  | intercosate _ _ values offset order =>
    if values.size = order ∧ offset ≠ 0 then (isPowerOfTwo order).toNat else 0

/-- The counter of its sort of call. -/
def counter? : Call → Option Counter
  | shift _ _ _ => some .shift
  | coseword _ _ _ _ _ => some .coseword
  | intercosate _ _ _ _ _ => some .intercosate
  | _ => none

/-- Tables are looked up once if the size is a power of two, in every mode. -/
theorem sum_lookups_tablesAccess (mode : CacheMode) (size : ℕ) (offset : Goldilocks) :
    ((tablesAccess mode size offset).map Access.lookups).sum = (isPowerOfTwo size).toNat := by
  unfold tablesAccess
  cases hpow : isPowerOfTwo size with
  | false => rfl
  | true => cases mode <;> simp [Access.lookups, hpow]

/-- The lookups of a call are those of its accesses. -/
theorem sum_lookups_accesses (call : Call) :
    (call.accesses.map Access.lookups).sum = call.lookups := by
  cases call with
  | getOrCompute size offset =>
    dsimp only [accesses, lookups]
    cases hpow : isPowerOfTwo size <;> simp [Access.lookups, hpow]
  | lookup | contains => rfl
  | warmUp low high offset =>
    dsimp only [accesses, lookups]
    split
    · rw [List.map_map, List.sum_eq_zero]
      intro n hn
      obtain ⟨k, -, rfl⟩ := List.mem_map.1 hn
      rfl
    · rfl
  | shift mode p offset =>
    exact (Nat.zero_add _).trans (sum_lookups_tablesAccess mode p.size offset)
  | coseword t mode coeffs offset order | intercosate t mode values offset order =>
    refine (Nat.zero_add _).trans ?_
    dsimp only [lookups]
    split
    · exact sum_lookups_tablesAccess mode order offset
    · rfl

/-- Asking for tables records nothing. -/
theorem countP_tablesAccess (mode : CacheMode) (size : ℕ) (offset : Goldilocks)
    (counter : Counter) :
    (tablesAccess mode size offset).countP (Access.isRecord counter) = 0 := by
  unfold tablesAccess
  split
  · cases mode <;> rfl
  · rfl

/-- A call records its own counter once, and no other. -/
theorem countP_accesses (call : Call) (counter : Counter) :
    call.accesses.countP (Access.isRecord counter) =
      (decide (call.counter? = some counter)).toNat := by
  have hrecord (other : Counter) {rest : List Access}
      (hrest : rest.countP (Access.isRecord counter) = 0) :
      (Access.record other :: rest).countP (Access.isRecord counter) =
        (decide (some other = some counter)).toNat := by
    rw [List.countP_cons, hrest, Access.isRecord]
    cases other <;> cases counter <;> rfl
  cases call with
  | getOrCompute size offset =>
    rw [accesses]
    split <;> rfl
  | lookup | contains => rfl
  | warmUp low high offset =>
    rw [accesses]
    split
    · refine List.countP_eq_zero.2 fun a ha => ?_
      obtain ⟨k, -, rfl⟩ := List.mem_map.1 ha
      exact Bool.false_ne_true
    · rfl
  | shift mode p offset => exact hrecord .shift (countP_tablesAccess mode p.size offset counter)
  | coseword t mode coeffs offset order | intercosate t mode values offset order =>
    refine hrecord _ ?_
    split
    · exact countP_tablesAccess mode order offset counter
    · rfl

/-- The lookups of several calls add up. -/
theorem sum_lookups_flatten (calls : List Call) :
    ((calls.map accesses).flatten.map Access.lookups).sum = (calls.map lookups).sum := by
  induction calls with
  | nil => rfl
  | cons call calls ih =>
    rw [List.map_cons, List.flatten_cons, List.map_append, List.sum_append, ih,
      sum_lookups_accesses, List.map_cons, List.sum_cons]

/-- A counter counts the calls that it belongs to. -/
theorem countP_flatten (calls : List Call) (counter : Counter) :
    (calls.map accesses).flatten.countP (Access.isRecord counter) =
      calls.countP fun call => call.counter? = some counter := by
  induction calls with
  | nil => rfl
  | cons call calls ih =>
    rw [List.map_cons, List.flatten_cons, List.countP_append, ih, countP_accesses,
      List.countP_cons, Nat.add_comm]
    cases decide (call.counter? = some counter) <;> rfl

end Call

/-- What holds of a cache after any sequence of accesses, beyond its books. -/
structure Consistent (c : Cache) (run : List Access) : Prop extends Books c run where
  /-- Words for one field element name one entry. -/
  found : ∀ (size : ℕ) (offset : UInt64) (d : Domain), c.find? size (ofWord offset) = some d ↔
    d ∈ c.entries ∧ d.size = size ∧ d.offset.toNat = offset.toNat % modulus.toNat
  /-- A call that nobody disturbs is its accesses. -/
  sequential : ∀ call : Call, (call.run c).2 = c.afterAll call.accesses
  /-- A call that fails has changed nothing but the counter of its calls, whoever came in between. -/
  failing : ∀ call : Call, call.Fits → ∀ e, (call.run c).1 = .error e →
    ∀ a ∈ call.accesses, ∀ c' : Cache, (c'.access a).entries = c'.entries ∧
      (c'.access a).hits = c'.hits ∧ (c'.access a).misses = c'.misses
  /-- Readers add nothing, whoever comes in between. -/
  readers : ∀ call : Call, call.isReader = true → ∀ a ∈ call.accesses, ∀ c' : Cache,
    (c'.access a).entries = c'.entries

/-- Books in order account for every interleaving of calls. -/
theorem Books.consistent {c : Cache} {run : List Access} (h : Books c run) : Consistent c run where
  toBooks := h
  found size offset d := by
    rw [h.find?_eq_some, ← toNat_ofWord, toNat_injective.eq_iff]
  sequential := Call.run_accesses c
  failing call hfits e he a ha c' := by
    obtain ⟨counter, rfl⟩ := Call.eq_record_of_error h.sound hfits he a ha
    cases counter <;> exact ⟨rfl, rfl, rfl⟩
  readers call hreader a ha := entries_of_isReader (Call.isReader_accesses hreader a ha)

/-- **The books of the cache are right**, at every moment of concurrent calls whose sizes are at most
`2 ^ 32`. Entries that are there at some moment are there for good, and at the end the counters agree
with the calls. -/
theorem cache_consistent {calls : List Call} (hfits : ∀ call ∈ calls, call.Fits)
    {run : List Access} (hrun : Interleaving (calls.map Call.accesses) run) :
    (∀ before later, run = before ++ later → Consistent (({} : Cache).afterAll before) before ∧
      (({} : Cache).afterAll before).entries <:+ (({} : Cache).afterAll run).entries) ∧
    (({} : Cache).afterAll run).hits + (({} : Cache).afterAll run).misses =
      (calls.map Call.lookups).sum ∧
    ∀ counter, (({} : Cache).afterAll run).callsOf counter =
      calls.countP fun call => call.counter? = some counter := by
  have hperm := hrun.perm
  have haccesses : ∀ a ∈ run, a.Fits := by
    intro a ha
    obtain ⟨l, hl, ha⟩ := List.mem_flatten.1 (hperm.mem_iff.1 ha)
    obtain ⟨call, hcall, rfl⟩ := List.mem_map.1 hl
    exact Call.fits_accesses (hfits call hcall) a ha
  have hbooks := books_afterAll haccesses
  refine ⟨?_, ?_, fun counter => ?_⟩
  · rintro before later rfl
    obtain ⟨hbefore, hlater⟩ := List.forall_mem_append.1 haccesses
    rw [afterAll_append]
    exact ⟨(books_afterAll hbefore).consistent, entries_suffix _ hlater⟩
  · rw [hbooks.lookups, (hperm.map Access.lookups).sum_eq, Call.sum_lookups_flatten]
  · rw [hbooks.calls, hperm.countP_eq, Call.countP_flatten]

/-- A warm-up, a request at an offset that names the same field element, a look-up, and a coset operation
of an order that is refused. -/
def racing : List Call := [
  .warmUp 1 2 7, .getOrCompute 2 18446744069414584328, .lookup 4 7,
  .coseword {} .populate #[] (ofWord 7) 3]

/-- The request is first to get the lock, and the look-up comes between the sizes of the warm-up. -/
def race : List Access := [
  .get 2 (ofWord 18446744069414584328), .warm 1 (ofWord 7), .look 4 (ofWord 7), .record .coseword,
  .warm 2 (ofWord 7)]

theorem cache_consistent_race : (∀ call ∈ racing, call.Fits) ∧
    Interleaving (racing.map Call.accesses) race ∧ Consistent (({} : Cache).afterAll race) race ∧
    (({} : Cache).afterAll race).counters = [0, 2, 0, 0, 1, 2] := by
  have hfits : ∀ call ∈ racing, call.Fits := by
    simp [racing, Call.Fits]
  have hrace : Interleaving (racing.map Call.accesses) race :=
    .step 1 rfl (.step 0 rfl (.step 2 rfl (.step 3 rfl (.step 0 rfl (.done (by decide))))))
  have hbooks := (cache_consistent hfits hrace).1 race [] (List.append_nil _).symm
  exact ⟨hfits, hrace, hbooks.1, by decide +kernel⟩

end Cache
end ProofMiner
