/-
# The cache never holds a wrong table

The computation of a domain succeeds for the sizes `2^k` with `k ≤ 32` and gives the tables of that
size (`Domain.compute_two_pow`); for any other size it fails. A cache is sound if each of its
entries is such a domain. Every request keeps a cache sound (`Cache.Sound.after`), whatever its
arguments and also where it fails, so every reachable cache is sound (`Cache.Reachable.sound`), and
a coset operation gets from it the exact tables, or none, or the failure of a size that is too large
(`Cache.Sound.tables_two_pow`).
-/

import ProofMiner.Domain.Coset
import ProofMiner.Proofs.Transform.Inversion

namespace ProofMiner

open Goldilocks

namespace Domain

/-- The tables of size `2 ^ k`. -/
def ofExponent (k : ℕ) (offset : Goldilocks) : Domain where
  size := 2 ^ k
  offset := offset
  powers := offset.powers (2 ^ k)
  inversePowers := if offset = 0 then #[] else offset⁻¹.powers (2 ^ k)
  root := towerRoot k
  inverseRoot := (towerRoot k)⁻¹
  sizeInverse := ((2 ^ k : ℕ) : Goldilocks)⁻¹
  twiddles := twiddleTable (towerRoot k) (2 ^ k)
  inverseTwiddles := twiddleTable (towerRoot k)⁻¹ (2 ^ k)

/-- Tables exist up to the order of the largest root. -/
theorem compute_two_pow {k : ℕ} (hk : k ≤ 32) (offset : Goldilocks) :
    compute (2 ^ k) offset = .ok (ofExponent k offset) := by
  rw [compute, isPowerOfTwo_two_pow, orderedRoot_two_pow hk, ofNat_two_pow hk]
  simp only [bind, Except.bind, pure, Except.pure, inverse_of_ne_zero (towerRoot_ne_zero k),
    inverse_of_ne_zero (two_pow_ne_zero k)]
  rfl

/-- Beyond that order there is no root to compute them from. -/
theorem compute_of_lt {k : ℕ} (hk : 32 < k) (offset : Goldilocks) :
    compute (2 ^ k) offset = .error (.orderTooLarge (2 ^ k)) := by
  rw [compute, isPowerOfTwo_two_pow, orderedRoot_of_lt hk]
  rfl

/-- **A computed domain holds the tables of its size.** -/
theorem eq_ofExponent_of_compute {size : ℕ} {offset : Goldilocks} {d : Domain}
    (h : compute size offset = .ok d) : ∃ k ≤ 32, size = 2 ^ k ∧ d = ofExponent k offset := by
  by_cases hpow : isPowerOfTwo size = true
  · obtain ⟨k, rfl⟩ := isPowerOfTwo_iff.1 hpow
    rcases Nat.lt_or_ge 32 k with hk | hk
    · rw [compute_of_lt hk] at h
      cases h
    · rw [compute_two_pow hk] at h
      cases h
      exact ⟨k, hk, rfl, rfl⟩
  · rw [Bool.not_eq_true] at hpow
    rw [compute, hpow] at h
    cases h

end Domain

namespace Cache

/-! ### Sound caches -/

/-- Every entry holds the tables of its size and offset. -/
def Sound (c : Cache) : Prop :=
  ∀ d ∈ c.entries, ∃ k ≤ 32, d = Domain.ofExponent k d.offset

/-- An empty cache holds nothing wrong. -/
theorem sound_empty : ({} : Cache).Sound := fun _ hd => absurd hd List.not_mem_nil

/-- Other sizes than powers of two have no tables. -/
theorem tables_of_not_isPowerOfTwo (c : Cache) (mode : CacheMode) {size : ℕ}
    (h : isPowerOfTwo size = false) (offset : Goldilocks) :
    c.tables mode size offset = (.ok none, c) := by
  unfold tables
  rw [h]
  rfl

namespace Sound

variable {c c' : Cache}

/-- The counters do not matter. -/
theorem of_entries_eq (hc : c.Sound) (h : c'.entries = c.entries) : c'.Sound := by
  intro d hd
  rw [h] at hd
  exact hc d hd

/-- A computed domain may be added. -/
theorem of_entries_cons (hc : c.Sound) {size : ℕ} {offset : Goldilocks} {d : Domain}
    (hd : Domain.compute size offset = .ok d) (h : c'.entries = d :: c.entries) : c'.Sound := by
  obtain ⟨k, hk, -, rfl⟩ := Domain.eq_ofExponent_of_compute hd
  intro e he
  rw [h, List.mem_cons] at he
  rcases he with rfl | he
  · exact ⟨k, hk, rfl⟩
  · exact hc e he

/-- What is found is what was asked for. -/
theorem eq_ofExponent_of_find? (hc : c.Sound) {size : ℕ} {offset : Goldilocks} {d : Domain}
    (h : c.find? size offset = some d) :
    ∃ k ≤ 32, size = 2 ^ k ∧ d = Domain.ofExponent k offset := by
  have hmem := List.mem_of_find?_eq_some h
  have hkey := List.find?_some h
  rw [Bool.and_eq_true, beq_iff_eq, beq_iff_eq] at hkey
  obtain ⟨rfl, rfl⟩ := hkey
  obtain ⟨k, hk, hd⟩ := hc d hmem
  exact ⟨k, hk, congrArg Domain.size hd, hd⟩

/-- A lookup changes nothing but the counters. -/
theorem lookup (hc : c.Sound) (size : ℕ) (offset : Goldilocks) :
    (c.lookup size offset).2.Sound := by
  unfold Cache.lookup
  split <;> exact hc.of_entries_eq rfl

/-- What is added is computed, so that it is right. -/
theorem getOrCompute (hc : c.Sound) (size : ℕ) (offset : Goldilocks) :
    (c.getOrCompute size offset).2.Sound := by
  unfold Cache.getOrCompute
  split
  · exact hc
  · split
    · exact hc.of_entries_eq rfl
    · split
      · rename_i hd
        exact hc.of_entries_cons hd rfl
      · exact hc.of_entries_eq rfl

/-- By induction on the sizes still to come. -/
theorem warmUpSizes (offset : Goldilocks) (ks : List ℕ) :
    ∀ {c : Cache}, c.Sound → ∀ added, (Cache.warmUpSizes offset ks added c).2.Sound := by
  induction ks with
  | nil => exact fun hc _ => hc
  | cons k ks ih =>
    intro c hc added
    rw [Cache.warmUpSizes]
    split
    · exact ih hc added
    · split
      · rename_i hd
        exact ih (hc.of_entries_cons hd rfl) (added + 1)
      · exact hc

/-- Warming up adds what is computed for each size. -/
theorem warmUp (hc : c.Sound) (low high : ℕ) (offset : UInt64) :
    (c.warmUp low high offset).2.Sound := by
  have hsizes := warmUpSizes (ofWord offset) ((List.range (high + 1)).filter (low ≤ ·)) hc 0
  unfold Cache.warmUp
  split
  · exact hc
  · split
    · exact hc
    · dsimp only
      split
      · rename_i h
        rwa [h] at hsizes
      · rename_i h
        rwa [h] at hsizes

/-- In every mode what is added is computed. -/
theorem tables (hc : c.Sound) (mode : CacheMode) (size : ℕ) (offset : Goldilocks) :
    (c.tables mode size offset).2.Sound := by
  unfold Cache.tables
  split
  · exact hc
  · cases mode with
    | populate => exact hc.getOrCompute size offset
    | lookupOnly => exact hc.lookup size offset

/-- **What a coset operation gets from a sound cache.** Both modes give the exact tables if they
give any. -/
theorem tables_two_pow (hc : c.Sound) (mode : CacheMode) (k : ℕ) (offset : Goldilocks) :
    (c.tables mode (2 ^ k) offset).1 = .ok none ∨
      (k ≤ 32 ∧ (c.tables mode (2 ^ k) offset).1 = .ok (some (Domain.ofExponent k offset))) ∨
      (32 < k ∧ (c.tables mode (2 ^ k) offset).1 = .error (.orderTooLarge (2 ^ k))) := by
  have hfound : ∀ d, c.find? (2 ^ k) offset = some d → k ≤ 32 ∧ d = Domain.ofExponent k offset := by
    intro d hd
    obtain ⟨j, hj, hsize, rfl⟩ := hc.eq_ofExponent_of_find? hd
    obtain rfl := Nat.pow_right_injective le_rfl hsize
    exact ⟨hj, rfl⟩
  cases mode with
  | lookupOnly =>
    rw [Cache.tables, isPowerOfTwo_two_pow, Cache.lookup]
    cases h : c.find? (2 ^ k) offset with
    | none => exact .inl rfl
    | some d =>
      obtain ⟨hk, rfl⟩ := hfound d h
      exact .inr (.inl ⟨hk, rfl⟩)
  | populate =>
    rw [Cache.tables, isPowerOfTwo_two_pow, Cache.getOrCompute, isPowerOfTwo_two_pow]
    cases h : c.find? (2 ^ k) offset with
    | some d =>
      obtain ⟨hk, rfl⟩ := hfound d h
      exact .inr (.inl ⟨hk, rfl⟩)
    | none =>
      rcases Nat.lt_or_ge 32 k with hk | hk
      · rw [Domain.compute_of_lt hk]
        exact .inr (.inr ⟨hk, rfl⟩)
      · rw [Domain.compute_two_pow hk]
        exact .inr (.inl ⟨hk, rfl⟩)

theorem shift (hc : c.Sound) (mode : CacheMode) (p : Array Goldilocks) (offset : Goldilocks) :
    (shift mode p offset c).2.Sound := by
  have hcounted : ({ c with shiftCalls := c.shiftCalls + 1 } : Cache).Sound := hc.of_entries_eq rfl
  have htables := hcounted.tables mode p.size offset
  unfold ProofMiner.shift
  dsimp only
  split <;> rename_i h <;> rwa [h] at htables

theorem coseword (hc : c.Sound) (t : Tuning) (mode : CacheMode) (coeffs : Array Goldilocks)
    (offset : Goldilocks) (order : ℕ) : (coseword t mode coeffs offset order c).2.Sound := by
  have hcounted : ({ c with cosewordCalls := c.cosewordCalls + 1 } : Cache).Sound :=
    hc.of_entries_eq rfl
  have htables := hcounted.tables mode order offset
  unfold ProofMiner.coseword
  dsimp only
  split
  · exact hcounted
  · split
    · exact hcounted
    · split <;> rename_i h <;> rwa [h] at htables

theorem intercosate (hc : c.Sound) (t : Tuning) (mode : CacheMode) (values : Array Goldilocks)
    (offset : Goldilocks) (order : ℕ) : (intercosate t mode values offset order c).2.Sound := by
  have hcounted : ({ c with intercosateCalls := c.intercosateCalls + 1 } : Cache).Sound :=
    hc.of_entries_eq rfl
  have htables := hcounted.tables mode order offset
  unfold ProofMiner.intercosate
  dsimp only
  split
  · exact hcounted
  · split
    · exact hcounted
    · split
      · exact hcounted
      · split <;> rename_i h <;> rwa [h] at htables

end Sound

/-! ### Reachable caches -/

/-- The requests that a cache serves, directly or for a coset operation of any owner. A record only
counts calls. -/
inductive Request where
  | record (shifts intercosates cosewords : ℕ)
  | getOrCompute (size : ℕ) (offset : Goldilocks)
  | lookup (size : ℕ) (offset : Goldilocks)
  | warmUp (low high : ℕ) (offset : UInt64)
  | shift (mode : CacheMode) (p : Array Goldilocks) (offset : Goldilocks)
  | coseword (t : Tuning) (mode : CacheMode) (coeffs : Array Goldilocks) (offset : Goldilocks)
    (order : ℕ)
  | intercosate (t : Tuning) (mode : CacheMode) (values : Array Goldilocks) (offset : Goldilocks)
    (order : ℕ)

/-- The cache after a request. -/
def after (c : Cache) : Request → Cache
  | .record shifts intercosates cosewords =>
    { c with
      shiftCalls := c.shiftCalls + shifts
      intercosateCalls := c.intercosateCalls + intercosates
      cosewordCalls := c.cosewordCalls + cosewords }
  | .getOrCompute size offset => (c.getOrCompute size offset).2
  | .lookup size offset => (c.lookup size offset).2
  | .warmUp low high offset => (c.warmUp low high offset).2
  | .shift mode p offset => (ProofMiner.shift mode p offset c).2
  | .coseword t mode coeffs offset order => (ProofMiner.coseword t mode coeffs offset order c).2
  | .intercosate t mode values offset order =>
    (ProofMiner.intercosate t mode values offset order c).2

/-- The caches that requests make of the empty one, in any number and order. -/
inductive Reachable : Cache → Prop where
  | empty : Reachable {}
  | after {c : Cache} (hc : Reachable c) (r : Request) : Reachable (c.after r)

/-- **No request puts a wrong table into a sound cache.** -/
theorem Sound.after {c : Cache} (hc : c.Sound) (r : Request) : (c.after r).Sound := by
  cases r with
  | record shifts intercosates cosewords => exact hc.of_entries_eq rfl
  | getOrCompute size offset => exact hc.getOrCompute size offset
  | lookup size offset => exact hc.lookup size offset
  | warmUp low high offset => exact hc.warmUp low high offset
  | shift mode p offset => exact hc.shift mode p offset
  | coseword t mode coeffs offset order => exact hc.coseword t mode coeffs offset order
  | intercosate t mode values offset order => exact hc.intercosate t mode values offset order

/-- **Reachable caches are sound.** -/
theorem Reachable.sound {c : Cache} (hc : c.Reachable) : c.Sound := by
  induction hc with
  | empty => exact sound_empty
  | after _ r ih => exact ih.after r

end Cache
end ProofMiner
