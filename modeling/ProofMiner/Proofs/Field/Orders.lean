/-
# The orders for which there is a root

An exponent is searched by a counter that goes up as long as one shifted by it is below the order
(`exponentSearch`). Shifts are by the low six bits of the count, so above `2^63` no count ever stops
the search. Up to there it stops within 64 rounds, and what it finds is `log2Exact?`; at a power of
two that is the exponent.

Both functions that search for an exponent ask first whether there is one. What a search would do
elsewhere, even if it did not end there, is therefore of no consequence to them
(`orderedRootBy_eq`, `transformLog2By_eq`).

With the tower of roots this decides every order: there is a root for `2^k` with `k ≤ 32` and for
no other one (`ordered_roots_exact`).
-/

import ProofMiner.Proofs.Field.Roots
import ProofMiner.Proofs.Transform.Reversal

namespace ProofMiner

/-! ### The search for an exponent -/

/-- The count at which the search for the exponent of `n` stops, beginning with `k`, if it does so
within the given rounds. -/
def exponentSearch (n : UInt64) : (rounds : ℕ) → (k : UInt32) → Option UInt32
  | 0, _ => none
  | rounds + 1, k =>
    if 1 <<< k.toUInt64 < n then exponentSearch n rounds (k + 1) else some k

section Search

variable {n : UInt64}

/-- A word is shifted by the low six bits of a count. -/
theorem toNat_one_shiftLeft (k : UInt32) :
    ((1 : UInt64) <<< k.toUInt64).toNat = 2 ^ (k.toNat % 64) := by
  have hlt : k.toNat % 64 < 64 := Nat.mod_lt _ (by omega)
  rw [UInt64.toNat_shiftLeft, UInt32.toNat_toUInt64, UInt64.toNat_one, Nat.one_shiftLeft]
  exact Nat.mod_eq_of_lt (Nat.pow_lt_pow_right (by omega) hlt)

/-- **Above `2^63` the search does not end**, wherever it begins. -/
theorem exponentSearch_of_lt (hn : 2 ^ 63 < n.toNat) (rounds : ℕ) (k : UInt32) :
    exponentSearch n rounds k = none := by
  induction rounds generalizing k with
  | zero => rfl
  | succ rounds ih =>
    have hle : 2 ^ (k.toNat % 64) ≤ 2 ^ 63 := Nat.pow_le_pow_right (by omega) (by omega)
    have hgo : (1 : UInt64) <<< k.toUInt64 < n := by
      rw [UInt64.lt_iff_toNat_lt, toNat_one_shiftLeft]
      omega
    rw [exponentSearch, if_pos hgo, ih]

/-- Counts below the width of a word are tried one after the other. -/
theorem exponentSearch_ofNat {j rounds : ℕ} (h : j + rounds ≤ 64) :
    exponentSearch n rounds (.ofNat j) =
      ((List.range' j rounds).find? fun k => n.toNat ≤ 1 <<< k).map UInt32.ofNat := by
  induction rounds generalizing j with
  | zero => rfl
  | succ rounds ih =>
    have hj : (UInt32.ofNat j).toNat = j := UInt32.toNat_ofNat_of_lt' (by
      show j < 4294967296
      omega)
    have hstop : (1 : UInt64) <<< (UInt32.ofNat j).toUInt64 < n ↔ ¬ n.toNat ≤ 1 <<< j := by
      rw [UInt64.lt_iff_toNat_lt, toNat_one_shiftLeft, hj, Nat.one_shiftLeft,
        Nat.mod_eq_of_lt (by omega), Nat.not_le]
    rw [exponentSearch, List.range'_succ, List.find?_cons]
    by_cases hle : n.toNat ≤ 1 <<< j
    · rw [if_neg fun hgo => hstop.1 hgo hle, decide_eq_true hle]
      rfl
    · rw [if_pos (hstop.2 hle), decide_eq_false hle, ← ih (by omega), UInt32.ofNat_add]
      rfl

/-- A search that has ended is not changed by more rounds. -/
theorem exponentSearch_add {rounds : ℕ} {k count : UInt32}
    (h : exponentSearch n rounds k = some count) (more : ℕ) :
    exponentSearch n (rounds + more) k = some count := by
  induction rounds generalizing k with
  | zero => cases h
  | succ rounds ih =>
    rw [Nat.succ_add, exponentSearch]
    rw [exponentSearch] at h
    split at h
    · next hgo => rw [if_pos hgo, ih h]
    · next hstop => rw [if_neg hstop, h]

/-- An exponent is found unless the shifted word would have to exceed 64 bits. -/
theorem log2Exact?_isSome_iff : (log2Exact? n.toNat).isSome ↔ n.toNat ≤ 2 ^ 63 := by
  rw [log2Exact?, List.find?_isSome]
  constructor
  · rintro ⟨k, hk, hle⟩
    have hpow : 2 ^ k ≤ 2 ^ 63 := Nat.pow_le_pow_right (by omega) (by
      rw [List.mem_range] at hk
      omega)
    rw [decide_eq_true_iff, Nat.one_shiftLeft] at hle
    omega
  · intro hle
    exact ⟨63, by decide, by simpa using hle⟩

/-- **The search finds what `log2Exact?` says**, and 64 rounds are enough for it. -/
theorem exponentSearch_eq_log2Exact? (n : UInt64) {rounds : ℕ} (h : 64 ≤ rounds) :
    exponentSearch n rounds 0 = (log2Exact? n.toNat).map UInt32.ofNat := by
  obtain ⟨more, rfl⟩ := Nat.exists_eq_add_of_le h
  have h64 : exponentSearch n 64 0 = (log2Exact? n.toNat).map UInt32.ofNat := by
    rw [log2Exact?, List.range_eq_range']
    exact exponentSearch_ofNat (show 0 + 64 ≤ 64 by omega)
  cases hlog : log2Exact? n.toNat with
  | some k =>
    rw [hlog] at h64
    exact exponentSearch_add h64 more
  | none =>
    have hlt : ¬ n.toNat ≤ 2 ^ 63 := by
      rw [← log2Exact?_isSome_iff, hlog]
      exact Bool.false_ne_true
    exact exponentSearch_of_lt (not_le.1 hlt) _ _

/-- The loop ends for these numbers and for no others, whatever budget it has. -/
theorem exponentSearch_ends_iff :
    (∃ rounds count, exponentSearch n rounds 0 = some count) ↔ n.toNat ≤ 2 ^ 63 := by
  constructor
  · rintro ⟨rounds, count, h⟩
    by_contra hlt
    rw [exponentSearch_of_lt (by omega)] at h
    cases h
  · intro hle
    obtain ⟨k, hk⟩ := Option.isSome_iff_exists.1 (log2Exact?_isSome_iff.2 hle)
    refine ⟨64, .ofNat k, ?_⟩
    rw [exponentSearch_eq_log2Exact? n le_rfl, hk]
    rfl

/-- At a power of two it ends with the exponent, after as many rounds as that says and one more. -/
theorem exponentSearch_two_pow {k : ℕ} (hk : k < 64) :
    exponentSearch (.ofNat (2 ^ k)) (k + 1) 0 = some (.ofNat k) := by
  have hword : (UInt64.ofNat (2 ^ k)).toNat = 2 ^ k :=
    UInt64.toNat_ofNat_of_lt' (Nat.pow_lt_pow_right (by omega) hk)
  have hfind : ((List.range' 0 (k + 1)).find? fun j => 2 ^ k ≤ 1 <<< j) = some k := by
    rw [List.find?_range'_eq_some]
    refine ⟨by simp [Nat.one_shiftLeft], by simp, fun j _ hj => ?_⟩
    rw [Nat.one_shiftLeft]
    simpa using Nat.pow_lt_pow_right (show 1 < 2 by omega) hj
  show exponentSearch _ _ (.ofNat 0) = _
  rw [exponentSearch_ofNat (by omega), hword, hfind]
  rfl

end Search

/-! ### Who searches -/

/-- The root of an order, with the search for its exponent left open. There is no result where the
search has none. -/
def Goldilocks.orderedRootBy (search : UInt64 → Option UInt32) (order : UInt64) :
    Option (Except Fault Goldilocks) :=
  if !isPowerOfTwo order.toNat then some (.error (.noSubgroup order.toNat))
  else (search order).map fun k =>
    if twoAdicity < k.toNat then .error (.orderTooLarge order.toNat) else rootOfUnity k.toNat

/-- The logarithm of a transform length in the same way. -/
def transformLog2By (search : UInt64 → Option UInt32) (length : UInt64) : Option (Except Fault ℕ) :=
  if !isPowerOfTwo length.toNat then some (.error (.transformLength length.toNat))
  else (search length).map fun k => .ok k.toNat

/-- A search is of use if it finds the exponents of powers of two; nothing is asked of it elsewhere. -/
def FindsExponents (search : UInt64 → Option UInt32) : Prop :=
  ∀ k < 64, search (.ofNat (2 ^ k)) = some (.ofNat k)

/-- The search that ends at all is one of use. -/
theorem findsExponents_exponentSearch : FindsExponents (exponentSearch · 64 0) := by
  intro k hk
  have hmore := exponentSearch_add (exponentSearch_two_pow hk) (63 - k)
  rwa [show k + 1 + (63 - k) = 64 by omega] at hmore

section Callers

variable {search : UInt64 → Option UInt32}

/-- A search that finds exponents finds the one of this power of two. -/
theorem FindsExponents.eq_of_toNat (h : FindsExponents search) {n : UInt64} {k : ℕ}
    (hn : n.toNat = 2 ^ k) : k < 64 ∧ search n = some (.ofNat k) ∧ (UInt32.ofNat k).toNat = k := by
  have hk : k < 64 := (Nat.pow_lt_pow_iff_right (show 1 < 2 by omega)).1 (hn ▸ n.toNat_lt)
  refine ⟨hk, ?_, UInt32.toNat_ofNat_of_lt' (by show k < 4294967296; omega)⟩
  rw [← h k hk, ← hn, UInt64.ofNat_toNat]

/-- **A root is found by any search that finds exponents of powers of two.** -/
theorem orderedRootBy_eq (h : FindsExponents search) (order : UInt64) :
    Goldilocks.orderedRootBy search order = some (Goldilocks.orderedRoot order.toNat) := by
  by_cases hpow : order.toNat.isPowerOfTwo
  · obtain ⟨k, hk⟩ := hpow
    obtain ⟨hlt, hsearch, hcount⟩ := h.eq_of_toNat hk
    rw [Goldilocks.orderedRootBy, Goldilocks.orderedRoot, hsearch, hk, isPowerOfTwo_two_pow,
      log2Exact?_two_pow hlt, Option.map_some, hcount]
    rfl
  · rw [Goldilocks.orderedRoot_of_not_isPowerOfTwo hpow, Goldilocks.orderedRootBy,
      isPowerOfTwo_eq_false hpow]
    rfl

/-- **So is the logarithm of a length.** -/
theorem transformLog2By_eq (h : FindsExponents search) (length : UInt64) :
    transformLog2By search length = some (transformLog2 length.toNat) := by
  by_cases hpow : length.toNat.isPowerOfTwo
  · obtain ⟨k, hk⟩ := hpow
    obtain ⟨hlt, hsearch, hcount⟩ := h.eq_of_toNat hk
    rw [transformLog2By, hsearch, hk, transformLog2_two_pow hlt, isPowerOfTwo_two_pow,
      Option.map_some, hcount]
    rfl
  · rw [transformLog2_of_not_isPowerOfTwo hpow, transformLog2By, isPowerOfTwo_eq_false hpow]
    rfl

end Callers

namespace Goldilocks

/-! ### The orders -/

/-- There is a root for the powers of two up to `2 ^ 32`, and for nothing else. -/
theorem exists_orderedRoot_iff {order : ℕ} :
    (∃ w, orderedRoot order = .ok w) ↔ ∃ k ≤ 32, order = 2 ^ k := by
  constructor
  · rintro ⟨w, hw⟩
    by_cases hpow : order.isPowerOfTwo
    · obtain ⟨k, rfl⟩ := hpow
      refine ⟨k, ?_, rfl⟩
      by_contra hk
      cases hw.symm.trans (orderedRoot_of_lt (show 32 < k by omega))
    · cases hw.symm.trans (orderedRoot_of_not_isPowerOfTwo hpow)
  · rintro ⟨k, hk, rfl⟩
    exact ⟨_, orderedRoot_two_pow hk⟩

/-- Whatever is wrong with an order, the refusal is of one kind. -/
theorem orderedRoot_refuses_iff {order : ℕ} :
    (∃ fault, orderedRoot order = .error fault ∧ fault.kind = .noSuchRoot) ↔
      ¬ ∃ k ≤ 32, order = 2 ^ k := by
  constructor
  · rintro ⟨fault, hfault, -⟩ ⟨k, hk, rfl⟩
    cases hfault.symm.trans (orderedRoot_two_pow hk)
  · intro h
    by_cases hpow : order.isPowerOfTwo
    · obtain ⟨k, rfl⟩ := hpow
      have hk : 32 < k := by
        by_contra hle
        exact h ⟨k, by omega, rfl⟩
      exact ⟨_, orderedRoot_of_lt hk, rfl⟩
    · exact ⟨_, orderedRoot_of_not_isPowerOfTwo hpow, rfl⟩

/-- **Every order is decided.** There is a root for `2^k` with `k ≤ 32` and for no other order; it
has exactly that order, and the roots form a tower. The search for an exponent does not end above
`2^63`. But nothing other than a power of two is ever searched for, neither as an order nor as the
length of a transform, and there the search ends with the exponent. -/
theorem ordered_roots_exact :
    (∀ order : UInt64, (∃ w, orderedRoot order.toNat = .ok w) ↔ ∃ k ≤ 32, order.toNat = 2 ^ k) ∧
    (∀ order : UInt64, (∃ fault, orderedRoot order.toNat = .error fault ∧
      fault.kind = .noSuchRoot) ↔ ¬ ∃ k ≤ 32, order.toNat = 2 ^ k) ∧
    (∀ k ≤ 32, ∃ w, orderedRoot (2 ^ k) = .ok w ∧ orderOf w = 2 ^ k ∧ w ^ 2 ^ k = 1 ∧
      (0 < k → w ^ 2 ^ (k - 1) = -1)) ∧
    (∀ j k, j ≤ k → k ≤ 32 → ∃ w v, orderedRoot (2 ^ k) = .ok w ∧
      orderedRoot (2 ^ (k - j)) = .ok v ∧ w ^ 2 ^ j = v) ∧
    (∀ n : UInt64, (∃ rounds count, exponentSearch n rounds 0 = some count) ↔
      n.toNat ≤ 2 ^ 63) ∧
    (∀ k < 64, exponentSearch (.ofNat (2 ^ k)) (k + 1) 0 = some (.ofNat k)) ∧
    (∀ n : UInt64, exponentSearch n 64 0 = (log2Exact? n.toNat).map UInt32.ofNat) ∧
    (∀ search, FindsExponents search →
      (∀ order, orderedRootBy search order = some (orderedRoot order.toNat)) ∧
      (∀ length, transformLog2By search length = some (transformLog2 length.toNat))) := by
  refine ⟨fun order => exists_orderedRoot_iff, fun order => orderedRoot_refuses_iff,
    fun k hk => ?_, fun j k hj hk => ?_, fun n => exponentSearch_ends_iff,
    fun k hk => exponentSearch_two_pow hk, fun n => exponentSearch_eq_log2Exact? n le_rfl,
    fun search h => ⟨orderedRootBy_eq h, transformLog2By_eq h⟩⟩
  · have hprimitive := isPrimitiveRoot_towerRoot hk
    refine ⟨towerRoot k, orderedRoot_two_pow hk, hprimitive.eq_orderOf.symm, hprimitive.pow_eq_one,
      fun hpos => ?_⟩
    obtain ⟨j, rfl⟩ := Nat.exists_eq_add_of_lt hpos
    rw [Nat.zero_add, Nat.add_sub_cancel]
    exact towerRoot_pow_half (by omega)
  · exact ⟨_, _, orderedRoot_two_pow hk, orderedRoot_two_pow (by omega), towerRoot_pow hj hk⟩

/-- The top of the tower, one level below it, and an order above `2^63` that no search would find. -/
theorem ordered_roots_exact_top :
    (∃ w, orderedRoot (2 ^ 32) = .ok w ∧ orderOf w = 2 ^ 32 ∧ w ^ 2 ^ 32 = 1 ∧
      (0 < 32 → w ^ 2 ^ (32 - 1) = -1)) ∧
    (∃ w v, orderedRoot (2 ^ 32) = .ok w ∧ orderedRoot (2 ^ (32 - 1)) = .ok v ∧ w ^ 2 ^ 1 = v) ∧
    FindsExponents (exponentSearch · 64 0) ∧
    exponentSearch 0xFFFFFFFF00000000 64 0 = none ∧
    orderedRootBy (exponentSearch · 64 0) 0xFFFFFFFF00000000 =
      some (.error (.noSubgroup 0xFFFFFFFF00000000)) := by
  obtain ⟨-, -, hroot, htower, -, -, -, hsearch⟩ := ordered_roots_exact
  refine ⟨hroot 32 le_rfl, htower 1 32 (by decide) le_rfl, findsExponents_exponentSearch, by decide, ?_⟩
  rw [(hsearch _ findsExponents_exponentSearch).1]
  exact congrArg some (orderedRoot_of_not_isPowerOfTwo fun hpow =>
    absurd (isPowerOfTwo_iff.2 hpow) (by decide))

end Goldilocks
end ProofMiner
