/-
# Evaluation and interpolation on a coset

Scaling entry `i` by `offset^i` turns the values of a polynomial at `offset * x` into values at `x`
(`valueAt_scaled`), so a transform of the scaled coefficients evaluates on the coset `offset * ⟨w⟩`.
The power tables of a domain and the running product of the direct path scale alike, and so on a
sound cache each coset operation equals a function of its arguments alone: `scaled`, `cosetValues`
and `cosetCoefficients`, failures included.

The main result is that evaluation and interpolation are inverse to each other on every coset, in
every state of the cache (`coset_evaluation_interpolation`).
-/

import ProofMiner.Proofs.Domain.Soundness
import ProofMiner.Proofs.Transform.Convolution

namespace ProofMiner

open Finset Goldilocks

/-! ### Scaling -/

/-- The coefficients of `p (offset * X)`. -/
def scaled (p : Array Goldilocks) (offset : Goldilocks) : Array Goldilocks :=
  Array.ofFn fun i : Fin p.size => p.getD i 0 * offset ^ i.val

@[simp] theorem size_scaled (p : Array Goldilocks) (offset : Goldilocks) :
    (scaled p offset).size = p.size := by
  rw [scaled, Array.size_ofFn]

/-- The coefficient at `i` is multiplied by the power `i` of the offset. -/
theorem getD_scaled (p : Array Goldilocks) (offset : Goldilocks) (i : ℕ) :
    (scaled p offset).getD i 0 = p.getD i 0 * offset ^ i := by
  rcases Nat.lt_or_ge i p.size with hi | hi
  · exact getD_ofFn _ hi
  · rw [Polynomial.getD_of_size_le (by rwa [size_scaled]), Polynomial.getD_of_size_le hi, zero_mul]

/-- **Scaling moves the points.** -/
theorem valueAt_scaled (p : Array Goldilocks) (offset x : Goldilocks) :
    Polynomial.valueAt (scaled p offset) x = Polynomial.valueAt p (offset * x) := by
  rw [Polynomial.valueAt, Polynomial.valueAt, size_scaled]
  exact sum_congr rfl fun i _ => by rw [getD_scaled, mul_pow, mul_assoc]

/-- An offset of one changes nothing. -/
theorem scaled_one (p : Array Goldilocks) : scaled p 1 = p := by
  refine eq_of_getD (size_scaled p 1) fun i _ => ?_
  rw [getD_scaled, one_pow, mul_one]

/-- Inverse offsets undo each other. -/
theorem scaled_scaled (p : Array Goldilocks) {a b : Goldilocks} (h : a * b = 1) :
    scaled (scaled p a) b = p := by
  refine eq_of_getD (by simp) fun i _ => ?_
  rw [getD_scaled, getD_scaled, mul_assoc, ← mul_pow, h, one_pow, mul_one]

/-- The running product. -/
theorem timesPowers_eq (p : Array Goldilocks) (r : Goldilocks) : timesPowers p r = scaled p r := by
  have hinv : p.foldl (fun (b : Array Goldilocks × Goldilocks) a => (b.1.push (a * b.2), b.2 * r))
      (#[], 1) = (Array.ofFn fun i : Fin p.size => p.getD i 0 * r ^ i.val, r ^ p.size) := by
    refine Array.foldl_induction (fun n (b : Array Goldilocks × Goldilocks) =>
      b = (Array.ofFn fun i : Fin n => p.getD i 0 * r ^ i.val, r ^ n)) (by simp) ?_
    rintro i _ rfl
    have hentry : p.getD i.val 0 = p[i] := by
      rw [Array.getD_eq_getD_getElem?, Array.getElem?_eq_getElem i.isLt, Option.getD_some]
      rfl
    rw [Array.ofFn_succ, pow_succ, ← hentry]
    rfl
  exact congrArg Prod.fst hinv

/-- The table of the powers. -/
theorem timesTable_powers {p : Array Goldilocks} {n : ℕ} (h : p.size ≤ n) (r : Goldilocks) :
    timesTable p (r.powers n) = scaled p r := by
  have hsize : (timesTable p (r.powers n)).size = p.size := by rw [timesTable, Array.size_mapIdx]
  refine eq_of_getD (by rw [hsize, size_scaled]) fun i hi => ?_
  rw [hsize] at hi
  rw [getD_scaled, powers_eq, timesTable, Array.getD_eq_getD_getElem?, Array.getElem?_mapIdx,
    getD_ofFn _ (hi.trans_le h), Array.getElem?_eq_getElem hi, Array.getD_eq_getD_getElem?,
    Array.getElem?_eq_getElem hi]
  rfl

/-- Padding before or after scaling is the same. -/
theorem resized_scaled {p : Array Goldilocks} (n : ℕ) (r : Goldilocks) :
    resized (scaled p r) n = scaled (resized p n) r := by
  refine eq_of_getD (by simp) fun i hi => ?_
  rw [size_resized] at hi
  rw [getD_resized _ hi, getD_scaled, getD_scaled, getD_resized _ hi]

/-- It makes no difference whether a polynomial is padded before or after it is scaled. -/
theorem scaled_append_zeros {p : Array Goldilocks} {n : ℕ} (h : p.size ≤ n) (r : Goldilocks) :
    scaled p r ++ Array.replicate (n - p.size) 0 = scaled (resized p n) r := by
  have hpad := append_zeros ((size_scaled p r).trans_le h)
  rwa [size_scaled, resized_scaled] at hpad

/-! ### The operations as functions of their arguments -/

/-- The values on the coset, or why there are none. -/
def cosetValues (coeffs : Array Goldilocks) (offset : Goldilocks) (order : ℕ) :
    Except Fault (Array Goldilocks) := do
  if !isPowerOfTwo order then throw (.cosewordOrder order)
  if order < coeffs.size then throw (.cosewordLength coeffs.size order)
  return dft (← orderedRoot order) (scaled (resized coeffs order) offset)

/-- The coefficients for values on the coset, or why there are none. -/
def cosetCoefficients (values : Array Goldilocks) (offset : Goldilocks) (order : ℕ) :
    Except Fault (Array Goldilocks) := do
  if !isPowerOfTwo order then throw (.intercosateOrder order)
  if values.size ≠ order then throw (.intercosateLength order values.size)
  if offset = 0 then throw .zeroOffset
  return scaled (idft (← orderedRoot order) values) offset⁻¹

/-- The order is looked at before anything else. -/
theorem cosetValues_of_not_isPowerOfTwo {order : ℕ} (h : ¬ order.isPowerOfTwo)
    (coeffs : Array Goldilocks) (offset : Goldilocks) :
    cosetValues coeffs offset order = .error (.cosewordOrder order) := by
  rw [cosetValues, isPowerOfTwo_eq_false h]
  rfl

/-- A polynomial with more coefficients than there are points is refused. -/
theorem cosetValues_of_size_gt {order : ℕ} (h : order.isPowerOfTwo) {coeffs : Array Goldilocks}
    (hlong : order < coeffs.size) (offset : Goldilocks) :
    cosetValues coeffs offset order = .error (.cosewordLength coeffs.size order) := by
  rw [cosetValues, isPowerOfTwo_iff.2 h, if_pos hlong]
  rfl

/-- An interpolation looks at the order first. -/
theorem cosetCoefficients_of_not_isPowerOfTwo {order : ℕ} (h : ¬ order.isPowerOfTwo)
    (values : Array Goldilocks) (offset : Goldilocks) :
    cosetCoefficients values offset order = .error (.intercosateOrder order) := by
  rw [cosetCoefficients, isPowerOfTwo_eq_false h]
  rfl

/-- There have to be as many values as points. -/
theorem cosetCoefficients_of_size_ne {order : ℕ} (h : order.isPowerOfTwo)
    {values : Array Goldilocks} (hsize : values.size ≠ order) (offset : Goldilocks) :
    cosetCoefficients values offset order = .error (.intercosateLength order values.size) := by
  rw [cosetCoefficients, isPowerOfTwo_iff.2 h, if_pos hsize]
  rfl

/-- The offset has to be invertible, which is looked at last. -/
theorem cosetCoefficients_zero {order : ℕ} (h : order.isPowerOfTwo) {values : Array Goldilocks}
    (hsize : values.size = order) : cosetCoefficients values 0 order = .error .zeroOffset := by
  rw [cosetCoefficients, isPowerOfTwo_iff.2 h, if_neg (not_not.2 hsize), if_pos rfl]
  rfl

/-- An evaluation on a coset is a transform of the scaled polynomial. -/
theorem cosetValues_two_pow {k : ℕ} (hk : k ≤ 32) {coeffs : Array Goldilocks}
    (hsize : coeffs.size ≤ 2 ^ k) (offset : Goldilocks) :
    cosetValues coeffs offset (2 ^ k) =
      .ok (dft (towerRoot k) (scaled (resized coeffs (2 ^ k)) offset)) := by
  rw [cosetValues, isPowerOfTwo_two_pow, if_neg (not_lt.2 hsize), orderedRoot_two_pow hk]
  rfl

/-- There is no root of such an order. -/
theorem cosetValues_of_lt {k : ℕ} (hk : 32 < k) {coeffs : Array Goldilocks}
    (hsize : coeffs.size ≤ 2 ^ k) (offset : Goldilocks) :
    cosetValues coeffs offset (2 ^ k) = .error (.orderTooLarge (2 ^ k)) := by
  rw [cosetValues, isPowerOfTwo_two_pow, if_neg (not_lt.2 hsize), orderedRoot_of_lt hk]
  rfl

/-- An interpolation on a coset is an inverse transform, scaled back. -/
theorem cosetCoefficients_two_pow {k : ℕ} (hk : k ≤ 32) {values : Array Goldilocks}
    (hsize : values.size = 2 ^ k) {offset : Goldilocks} (hoffset : offset ≠ 0) :
    cosetCoefficients values offset (2 ^ k) =
      .ok (scaled (idft (towerRoot k) values) offset⁻¹) := by
  rw [cosetCoefficients, isPowerOfTwo_two_pow, if_neg (not_not.2 hsize), if_neg hoffset,
    orderedRoot_two_pow hk]
  rfl

/-- There is no root of such an order. -/
theorem cosetCoefficients_of_lt {k : ℕ} (hk : 32 < k) {values : Array Goldilocks}
    (hsize : values.size = 2 ^ k) {offset : Goldilocks} (hoffset : offset ≠ 0) :
    cosetCoefficients values offset (2 ^ k) = .error (.orderTooLarge (2 ^ k)) := by
  rw [cosetCoefficients, isPowerOfTwo_two_pow, if_neg (not_not.2 hsize), if_neg hoffset,
    orderedRoot_of_lt hk]
  rfl

/-! ### The direct path and the path with tables -/

section Paths

variable {k : ℕ} {x : Array Goldilocks}

/-- Without tables: the evaluation is the transform of the scaled and padded polynomial. -/
theorem forward_padded (t : Tuning) (hk : k < 64) (hsize : x.size ≤ 2 ^ k) (offset : Goldilocks) :
    forward t (timesPowers x offset ++ Array.replicate (2 ^ k - x.size) 0) =
      cosetValues x offset (2 ^ k) := by
  have hpadded : (scaled (resized x (2 ^ k)) offset).size = 2 ^ k := by simp
  rw [timesPowers_eq, scaled_append_zeros hsize]
  rcases Nat.lt_or_ge 32 k with hlt | hle
  · rw [forward_of_lt t hlt hk hpadded, cosetValues_of_lt hlt hsize]
  · rw [forward_eq t hle hpadded, cosetValues_two_pow hle hsize]

/-- With tables it is the same evaluation. -/
theorem transformWithTwiddles_padded (t : Tuning) (hk : k ≤ 32) (hsize : x.size ≤ 2 ^ k)
    (offset : Goldilocks) :
    transformWithTwiddles t (timesTable x (offset.powers (2 ^ k)) ++
      Array.replicate (2 ^ k - x.size) 0) (twiddleTable (towerRoot k) (2 ^ k)) =
      cosetValues x offset (2 ^ k) := by
  have hpadded : (scaled (resized x (2 ^ k)) offset).size = 2 ^ k := by simp
  rw [timesTable_powers hsize, scaled_append_zeros hsize,
    transformWithTwiddles_eq t (by omega) hpadded, transform_towerRoot t hk hpadded,
    cosetValues_two_pow hk hsize]

/-- Without tables: the interpolation is the inverse transform, scaled back. -/
theorem inverse_scaled (t : Tuning) (hk : k < 64) (hsize : x.size = 2 ^ k) {offset : Goldilocks}
    (hoffset : offset ≠ 0) :
    ((inverse t x).map fun coeffs => timesPowers coeffs offset⁻¹) =
      cosetCoefficients x offset (2 ^ k) := by
  rcases Nat.lt_or_ge 32 k with hlt | hle
  · rw [inverse_of_lt t hlt hk hsize, cosetCoefficients_of_lt hlt hsize hoffset]
    rfl
  · rw [inverse_eq t hle hsize, cosetCoefficients_two_pow hle hsize hoffset]
    exact congrArg Except.ok (timesPowers_eq _ _)

/-- With tables it is the same interpolation. -/
theorem transformWithTwiddles_scaled (t : Tuning) (hk : k ≤ 32) (hsize : x.size = 2 ^ k)
    {offset : Goldilocks} (hoffset : offset ≠ 0) :
    ((transformWithTwiddles t x (twiddleTable (towerRoot k)⁻¹ (2 ^ k))).map fun sums =>
      timesTable (sums.map (· * ((2 ^ k : ℕ) : Goldilocks)⁻¹)) (offset⁻¹.powers (2 ^ k))) =
      cosetCoefficients x offset (2 ^ k) := by
  have hle : (idft (towerRoot k) x).size ≤ 2 ^ k := by rw [size_idft, hsize]
  rw [transformWithTwiddles_eq t (by omega) hsize, transform_inv_towerRoot t hk hsize,
    cosetCoefficients_two_pow hk hsize hoffset, ← timesTable_powers hle, idft, hsize]
  rfl

end Paths

/-! ### The operations on a sound cache -/

variable {c : Cache}

/-- **A shift scales**, with or without a table. -/
theorem shift_eq (hc : c.Sound) (mode : CacheMode) {p : Array Goldilocks} (offset : Goldilocks)
    (hp : isPowerOfTwo p.size = true → p.size ≤ 2 ^ 32) :
    (shift mode p offset c).1 = .ok (scaled p offset) := by
  have hcounted : ({ c with shiftCalls := c.shiftCalls + 1 } : Cache).Sound := hc.of_entries_eq rfl
  unfold shift
  dsimp only
  by_cases hpow : isPowerOfTwo p.size = true
  · obtain ⟨k, hle, hk⟩ := exists_exponent_le (isPowerOfTwo_iff.1 hpow) (hp hpow)
    have htables := hcounted.tables_two_pow mode k offset
    rw [← hk] at htables
    rcases hrun : Cache.tables _ mode p.size offset with ⟨out, c'⟩
    rw [hrun] at htables
    rcases htables with rfl | ⟨-, rfl⟩ | ⟨hlt, -⟩
    · exact congrArg Except.ok (timesPowers_eq p offset)
    · exact congrArg Except.ok (timesTable_powers hk.le offset)
    · omega
  · rw [Bool.not_eq_true] at hpow
    rw [Cache.tables_of_not_isPowerOfTwo _ mode hpow]
    exact congrArg Except.ok (timesPowers_eq p offset)

/-- **Evaluation on a coset** does not depend on the cache, the mode or the tuning. -/
theorem coseword_eq (hc : c.Sound) (t : Tuning) (mode : CacheMode) (coeffs : Array Goldilocks)
    (offset : Goldilocks) {order : ℕ} (horder : order < 2 ^ 64) :
    (coseword t mode coeffs offset order c).1 = cosetValues coeffs offset order := by
  have hcounted : ({ c with cosewordCalls := c.cosewordCalls + 1 } : Cache).Sound :=
    hc.of_entries_eq rfl
  unfold coseword
  dsimp only
  by_cases hpow : isPowerOfTwo order = true
  · obtain ⟨k, rfl⟩ := isPowerOfTwo_iff.1 hpow
    have hk : k < 64 := (Nat.pow_lt_pow_iff_right one_lt_two).1 horder
    by_cases hlong : 2 ^ k < coeffs.size
    · rw [cosetValues, hpow, if_pos hlong, if_pos hlong]
      rfl
    · have hfit := not_lt.1 hlong
      have htables := hcounted.tables_two_pow mode k offset
      rcases hrun : Cache.tables _ mode (2 ^ k) offset with ⟨out, c'⟩
      rw [hrun] at htables
      rw [hpow, if_neg hlong]
      rcases htables with rfl | ⟨hle, rfl⟩ | ⟨hlt, rfl⟩
      · exact forward_padded t hk hfit offset
      · exact transformWithTwiddles_padded t hle hfit offset
      · exact (cosetValues_of_lt hlt hfit offset).symm
  · rw [Bool.not_eq_true] at hpow
    rw [cosetValues, hpow]
    rfl

/-- **Interpolation on a coset** does not depend on the cache, the mode or the tuning. -/
theorem intercosate_eq (hc : c.Sound) (t : Tuning) (mode : CacheMode) (values : Array Goldilocks)
    (offset : Goldilocks) {order : ℕ} (horder : order < 2 ^ 64) :
    (intercosate t mode values offset order c).1 = cosetCoefficients values offset order := by
  have hcounted : ({ c with intercosateCalls := c.intercosateCalls + 1 } : Cache).Sound :=
    hc.of_entries_eq rfl
  unfold intercosate
  dsimp only
  by_cases hpow : isPowerOfTwo order = true
  · obtain ⟨k, rfl⟩ := isPowerOfTwo_iff.1 hpow
    have hk : k < 64 := (Nat.pow_lt_pow_iff_right one_lt_two).1 horder
    by_cases hsize : values.size = 2 ^ k
    · rw [hpow, if_neg (not_not.2 hsize)]
      by_cases hoffset : offset = 0
      · rw [cosetCoefficients, hpow, if_neg (not_not.2 hsize), if_pos hoffset, if_pos hoffset]
        rfl
      · have htables := hcounted.tables_two_pow mode k offset
        rcases hrun : Cache.tables _ mode (2 ^ k) offset with ⟨out, c'⟩
        rw [hrun] at htables
        rw [if_neg hoffset]
        rcases htables with rfl | ⟨hle, rfl⟩ | ⟨hlt, rfl⟩
        · exact inverse_scaled t hk hsize hoffset
        · rw [← transformWithTwiddles_scaled t hle hsize hoffset]
          dsimp only [Domain.ofExponent]
          rw [if_neg hoffset]
          rfl
        · exact (cosetCoefficients_of_lt hlt hsize hoffset).symm
    · rw [cosetCoefficients, hpow, if_pos hsize, if_pos hsize]
      rfl
  · rw [Bool.not_eq_true] at hpow
    rw [cosetCoefficients, hpow]
    rfl

/-! ### Evaluation and interpolation -/

/-- The values on the coset in order. -/
theorem getD_dft_scaled {k : ℕ} {coeffs : Array Goldilocks} (hsize : coeffs.size ≤ 2 ^ k)
    (offset w : Goldilocks) {i : ℕ} (hi : i < 2 ^ k) :
    (dft w (scaled (resized coeffs (2 ^ k)) offset)).getD i 0 =
      Polynomial.valueAt coeffs (offset * w ^ i) := by
  rw [getD_dft_eq_valueAt _ _ (by simpa using hi), valueAt_scaled, valueAt_resized hsize]

/-- Coefficients of the length of the coset are known by their values on it. -/
theorem eq_scaled_idft {k : ℕ} (hk : k ≤ 32) {offset : Goldilocks} (hoffset : offset ≠ 0)
    {p values : Array Goldilocks} (hp : p.size = 2 ^ k) (hvalues : values.size = 2 ^ k)
    (h : ∀ i < 2 ^ k, Polynomial.valueAt p (offset * towerRoot k ^ i) = values.getD i 0) :
    p = scaled (idft (towerRoot k) values) offset⁻¹ := by
  have hsize : (scaled p offset).size = 2 ^ k := (size_scaled _ _).trans hp
  have htransform : dft (towerRoot k) (scaled p offset) = values := by
    refine eq_of_getD (by rw [size_dft, hsize, hvalues]) fun i hi => ?_
    rw [size_dft] at hi
    rw [getD_dft_eq_valueAt _ _ hi, valueAt_scaled, h i (by rwa [hsize] at hi)]
  rw [← htransform, idft_dft_towerRoot hk hsize, scaled_scaled p (mul_inv_cancel₀ hoffset)]

/-- **Evaluation and interpolation on a coset are inverse to each other.** Evaluation gives the
values at `offset * w ^ i` in order, for every offset; interpolation at an offset other than zero
gives the only coefficients of the full length with the given values; and each undoes the other, up
to the padding. The two caches may have served any requests, so they may also be the cache before
and after the first operation, and modes and tunings may differ. -/
theorem coset_evaluation_interpolation {c c' : Cache} (hc : c.Reachable) (hc' : c'.Reachable)
    (t t' : Tuning) (mode mode' : CacheMode) {k : ℕ} (hk : k ≤ 32) (offset : Goldilocks) :
    ∃ w, orderedRoot (2 ^ k) = .ok w ∧
      (∀ coeffs : Array Goldilocks, coeffs.size ≤ 2 ^ k → ∃ values,
        (coseword t mode coeffs offset (2 ^ k) c).1 = .ok values ∧ values.size = 2 ^ k ∧
        (∀ i < 2 ^ k, values.getD i 0 = Polynomial.valueAt coeffs (offset * w ^ i)) ∧
        (offset ≠ 0 → (intercosate t' mode' values offset (2 ^ k) c').1 =
          .ok (coeffs ++ Array.replicate (2 ^ k - coeffs.size) 0))) ∧
      (offset ≠ 0 → ∀ values : Array Goldilocks, values.size = 2 ^ k → ∃ coeffs,
        (intercosate t' mode' values offset (2 ^ k) c').1 = .ok coeffs ∧ coeffs.size = 2 ^ k ∧
        (∀ i < 2 ^ k, Polynomial.valueAt coeffs (offset * w ^ i) = values.getD i 0) ∧
        (∀ other : Array Goldilocks, other.size = 2 ^ k →
          (∀ i < 2 ^ k, Polynomial.valueAt other (offset * w ^ i) = values.getD i 0) →
          other = coeffs) ∧
        (coseword t mode coeffs offset (2 ^ k) c).1 = .ok values) := by
  have horder : 2 ^ k < 2 ^ 64 := Nat.pow_lt_pow_right one_lt_two (by omega)
  refine ⟨towerRoot k, orderedRoot_two_pow hk, fun coeffs hsize => ?_,
    fun hoffset values hsize => ?_⟩
  · have hscaled : (scaled (resized coeffs (2 ^ k)) offset).size = 2 ^ k := by simp
    have hdft : (dft (towerRoot k) (scaled (resized coeffs (2 ^ k)) offset)).size = 2 ^ k := by simp
    refine ⟨_, (coseword_eq hc.sound t mode coeffs offset horder).trans
      (cosetValues_two_pow hk hsize offset), hdft,
      fun i hi => getD_dft_scaled hsize offset _ hi, fun hoffset => ?_⟩
    rw [intercosate_eq hc'.sound t' mode' _ offset horder,
      cosetCoefficients_two_pow hk hdft hoffset, idft_dft_towerRoot hk hscaled,
      scaled_scaled _ (mul_inv_cancel₀ hoffset), append_zeros hsize]
  · have hidft : (scaled (idft (towerRoot k) values) offset⁻¹).size = 2 ^ k := by
      rw [size_scaled, size_idft, hsize]
    -- The padding of the second evaluation is empty.
    have hback : dft (towerRoot k) (scaled
        (resized (scaled (idft (towerRoot k) values) offset⁻¹) (2 ^ k)) offset) = values := by
      rw [← hidft, resized_self, scaled_scaled _ (inv_mul_cancel₀ hoffset),
        dft_idft_towerRoot hk hsize]
    refine ⟨_, (intercosate_eq hc'.sound t' mode' values offset horder).trans
      (cosetCoefficients_two_pow hk hsize hoffset), hidft, fun i hi => ?_,
      fun other hother h => eq_scaled_idft hk hoffset hother hsize h, ?_⟩
    · rw [← getD_dft_scaled hidft.le offset _ hi, hback]
    · rw [coseword_eq hc.sound t mode _ offset horder, cosetValues_two_pow hk hidft.le, hback]

/-- The hypotheses are satisfiable: one cache is empty, the other one is what the first operation
leaves. -/
theorem coset_evaluation_interpolation_two :
    ({} : Cache).Reachable ∧ (coseword {} .populate #[5] 7 (2 ^ 1) {}).2.Reachable ∧
    (#[5] : Array Goldilocks).size ≤ 2 ^ 1 ∧ (7 : Goldilocks) ≠ 0 ∧
    ∃ values, (coseword {} .populate #[5] 7 (2 ^ 1) {}).1 = .ok values ∧
      (intercosate .sequential .lookupOnly values 7 (2 ^ 1)
        (coseword {} .populate #[5] 7 (2 ^ 1) {}).2).1 = .ok #[5, 0] := by
  have hleft := Cache.Reachable.empty.after (.coseword {} .populate #[5] 7 (2 ^ 1))
  have hseven : (7 : Goldilocks) ≠ 0 := by decide
  obtain ⟨w, -, heval, -⟩ := coset_evaluation_interpolation Cache.Reachable.empty hleft {}
    .sequential .populate .lookupOnly (k := 1) (by decide) 7
  obtain ⟨values, hvalues, -, -, hback⟩ := heval #[5] (by decide)
  exact ⟨.empty, hleft, by decide, hseven, values, hvalues, hback hseven⟩

end ProofMiner
