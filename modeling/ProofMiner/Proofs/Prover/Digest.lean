/-
# What the digest is

A digest is made by five kinds of calls. Each of them succeeds, from any registry with a reachable
cache, and gives a value that depends on its arguments alone (`Returns`, `returns_intercosate`, …),
so the values can be put together without looking at registries any more:

* interpolation gives the polynomial `P` with the trace as its values at the powers of `w`, where
  `w` has order `n`;
* the extension has the value `P (7 * v ^ i)` at place `i`, where `v` has order `4 * n`;
* four places on stands the value at `7 * v ^ (i + 4)`, and this is `w * (7 * v ^ i)`, because
  `v ^ 4 = w`; at the end of the vector the places go round, and so do the powers of `v`;
* pointwise products and the square are evaluated at the four points of the digest.
-/

import Mathlib
import ProofMiner.Proofs.Jet.Transparency
import ProofMiner.Proofs.Readers
import ProofMiner.Prover.Stark

namespace ProofMiner
namespace Stark

open Finset Goldilocks

/-! ### Calls that succeed -/

/-- From every registry with a reachable cache the computation gives `v`, and it leaves such a
registry. -/
def Returns {α : Type} (m : Attempting α) (v : α) : Prop :=
  ∀ r : Jet.Registry, r.cache.Reachable →
    ∃ r' : Jet.Registry, m.run r = (.ok v, r') ∧ r'.cache.Reachable

/-- A value is returned whatever the registry. -/
theorem returns_pure {α : Type} (v : α) : Returns (pure v) v := fun r hr => ⟨r, rfl, hr⟩

/-- Attempts are composed from parts that return. -/
theorem Returns.bind {α β : Type} {m : Attempting α} {f : α → Attempting β} {v : α} {w : β}
    (hm : Returns m v) (hf : Returns (f v) w) : Returns (m >>= f) w := by
  intro r hr
  obtain ⟨r₁, h₁, hr₁⟩ := hm r hr
  obtain ⟨r₂, h₂, hr₂⟩ := hf r₁ hr₁
  exact ⟨r₂, (bind_run_of_ok h₁ f).trans h₂, hr₂⟩

/-- A call succeeds if the operation computes a value from the arguments. -/
theorem returns_call {op : Jet.Op} {args : Jet.Args} {v : Jet.Value} (h : Jet.Fits op args)
    (hv : Jet.evaluate .sequential op args = .ok v) : Returns (call op args) v := by
  intro r hr
  have hfst := Jet.Registry.invoke_fst hr h
  have hleft := Jet.Registry.reachable_invoke hr op args
  rcases hcall : r.invoke op args with ⟨out, r'⟩
  rw [hcall] at hfst hleft
  rw [hv] at hfst
  obtain rfl : out = .ok v := hfst
  refine ⟨r', ?_, hleft⟩
  unfold call
  rw [get_bind_run, hcall]
  rfl

/-- A call that succeeds by itself succeeds with any cache. -/
theorem returns_callPolynomial {op : Jet.Op} {args : Jet.Args} {p : Array Goldilocks}
    (h : Jet.Fits op args) (hv : Jet.evaluate .sequential op args = .ok (.bpoly p)) :
    Returns (callPolynomial op args) p :=
  (returns_call h hv).bind (returns_pure p)

/-- The operations that a digest uses return their values where their arguments fit. -/
theorem returns_intercosate {k : ℕ} (hk : k ≤ 32) {values : Array Goldilocks}
    (hsize : values.size = 2 ^ k) {offset : Goldilocks} (hoffset : offset ≠ 0) :
    Returns (callPolynomial .bpIntercosate {
      bpolys := [values], offset := some offset, order := some (UInt64.ofNat (2 ^ k)) })
      (scaled (idft (towerRoot k) values) offset⁻¹) := by
  have horder : 2 ^ k < 2 ^ 64 := Nat.pow_lt_pow_right one_lt_two (by omega)
  refine returns_callPolynomial trivial ?_
  rw [Jet.evaluate]
  change (intercosate .sequential .lookupOnly values offset (UInt64.ofNat (2 ^ k)).toNat {}).1.bind
    (fun p => .ok (Jet.Value.bpoly p)) = _
  rw [UInt64.toNat_ofNat_of_lt' horder, intercosate_eq Cache.sound_empty .sequential .lookupOnly
    values offset horder, cosetCoefficients_two_pow hk hsize hoffset]
  rfl

theorem returns_coseword {k : ℕ} (hk : k ≤ 32) {coeffs : Array Goldilocks}
    (hsize : coeffs.size ≤ 2 ^ k) (offset : Goldilocks) :
    Returns (callPolynomial .bpCoseword {
      bpolys := [coeffs], offset := some offset, order := some (UInt64.ofNat (2 ^ k)) })
      (dft (towerRoot k) (scaled (resized coeffs (2 ^ k)) offset)) := by
  have horder : 2 ^ k < 2 ^ 64 := Nat.pow_lt_pow_right one_lt_two (by omega)
  refine returns_callPolynomial trivial ?_
  rw [Jet.evaluate]
  change (coseword .sequential .lookupOnly coeffs offset (UInt64.ofNat (2 ^ k)).toNat {}).1.bind
    (fun p => .ok (Jet.Value.bpoly p)) = _
  rw [UInt64.toNat_ofNat_of_lt' horder, coseword_eq Cache.sound_empty .sequential .lookupOnly
    coeffs offset horder, cosetValues_two_pow hk hsize offset]
  rfl

theorem returns_hadamard {a b : Array Goldilocks} (h : a.size = b.size) :
    Returns (callPolynomial .bpHadamard { bpolys := [a, b] })
      (Array.ofFn fun i : Fin a.size => a.getD i 0 * b.getD i 0) := by
  refine returns_callPolynomial trivial ?_
  rw [Jet.evaluate]
  change (hadamard .sequential a b).bind (fun p => .ok (Jet.Value.bpoly p)) = _
  rw [hadamard_eq .sequential h]
  rfl

theorem returns_mul {p q : Array Goldilocks} (h : nextPowerOfTwo (p.size + q.size - 1) ≤ 2 ^ 32) :
    Returns (callPolynomial .bpMul { bpolys := [p, q] }) (Polynomial.mul p q) := by
  refine returns_callPolynomial ?_ ?_
  · rintro _ _ ⟨⟩
    exact h
  · rw [Jet.evaluate]
    change (multiply .sequential p q).bind (fun p => .ok (Jet.Value.bpoly p)) = _
    rw [multiply_eq .sequential h]
    rfl

/-- An evaluation always returns. -/
theorem returns_eval (p : Array Goldilocks) (x : Goldilocks) :
    Returns (callScalar .bpEval { bpolys := [p], belts := [x] }) (Polynomial.valueAt p x) := by
  have hcall : Returns (call .bpEval { bpolys := [p], belts := [x] })
      (.belt (Polynomial.valueAt p x)) := by
    rw [← Polynomial.eval_eq_valueAt]
    exact returns_call (show Jet.Fits .bpEval _ from trivial) rfl
  exact hcall.bind (returns_pure _)

/-! ### The trace -/

/-- The commitment is repeated as often as it takes. -/
theorem commitmentAt_toArray (commitment : List Goldilocks) (i : ℕ) :
    commitmentAt commitment.toArray i = commitment.getD (i % commitment.length) 0 := by
  rw [commitmentAt, List.size_toArray, Array.getD_eq_getD_getElem?, List.getElem?_toArray,
    List.getD_eq_getElem?_getD]

/-- The trace of a nonce by its recursion. -/
def traceEntry (commitment : List Goldilocks) (nonce : UInt64) : ℕ → Goldilocks
  | 0 => nonce.toNat + 1
  | i + 1 => traceEntry commitment nonce i ^ 7 + commitment.getD (i % commitment.length) 0 + i

/-- Each row of the trace comes from the commitment, the nonce and its number. -/
theorem trace_eq (commitment : List Goldilocks) (nonce : UInt64) {n : ℕ} (hn : n ≤ 2 ^ 64) :
    trace commitment.toArray nonce n =
      Array.ofFn fun i : Fin n => traceEntry commitment nonce i := by
  have hfold : ∀ m ≤ 2 ^ 64, m.fold (fun i _ (b : Array Goldilocks × Goldilocks) =>
      (b.1.push b.2, nextEntry commitment.toArray i b.2)) (#[], ofWord nonce + 1) =
      (Array.ofFn fun i : Fin m => traceEntry commitment nonce i,
        traceEntry commitment nonce m) := by
    intro m hm
    induction m with
    | zero => rw [Nat.fold_zero, Array.ofFn_zero, traceEntry, ofWord_eq_natCast]
    | succ m ih =>
      rw [Nat.fold_succ, ih (by omega), Array.ofFn_succ, traceEntry, ← commitmentAt_toArray,
        ← ofNat_eq_natCast hm]
      rfl
  exact congrArg Prod.fst (hfold n hn)

/-- The polynomial of the trace. -/
def tracePolynomial (commitment : List Goldilocks) (nonce : UInt64) (k : ℕ) : Array Goldilocks :=
  idft (towerRoot k) (Array.ofFn fun i : Fin (2 ^ k) => traceEntry commitment nonce i)

@[simp] theorem size_tracePolynomial (commitment : List Goldilocks) (nonce : UInt64) (k : ℕ) :
    (tracePolynomial commitment nonce k).size = 2 ^ k := by
  rw [tracePolynomial, size_idft, Array.size_ofFn]

/-- **The polynomial takes the entries of the trace as values.** -/
theorem valueAt_tracePolynomial (commitment : List Goldilocks) (nonce : UInt64) {k : ℕ}
    (hk : k ≤ 32) {i : ℕ} (hi : i < 2 ^ k) :
    Polynomial.valueAt (tracePolynomial commitment nonce k) (towerRoot k ^ i) =
      traceEntry commitment nonce i := by
  rw [← getD_dft_eq_valueAt _ _ (by rwa [size_tracePolynomial]), tracePolynomial,
    dft_idft_towerRoot hk Array.size_ofFn, getD_ofFn _ hi]

/-- It is the only one of its length that does. -/
theorem eq_tracePolynomial (commitment : List Goldilocks) (nonce : UInt64) {k : ℕ} (hk : k ≤ 32)
    {p : Array Goldilocks} (hp : p.size = 2 ^ k)
    (h : ∀ i < 2 ^ k, Polynomial.valueAt p (towerRoot k ^ i) = traceEntry commitment nonce i) :
    p = tracePolynomial commitment nonce k := by
  have hsize : (Array.ofFn fun i : Fin (2 ^ k) => traceEntry commitment nonce i).size = 2 ^ k :=
    Array.size_ofFn
  have hunique := eq_scaled_idft hk one_ne_zero hp hsize fun i hi => by
    rw [one_mul, h i hi, getD_ofFn _ hi]
  rwa [inv_one, scaled_one] at hunique

/-- The call that interpolates the trace. -/
theorem returns_tracePolynomial (commitment : List Goldilocks) (nonce : UInt64) {k : ℕ}
    (hk : k ≤ 32) :
    Returns (callPolynomial .bpIntercosate {
      bpolys := [trace commitment.toArray nonce (2 ^ k)], offset := some 1,
      order := some (UInt64.ofNat (2 ^ k)) }) (tracePolynomial commitment nonce k) := by
  have htrace := trace_eq commitment nonce (Nat.pow_le_pow_right two_pos (by omega : k ≤ 64))
  have hsize : (trace commitment.toArray nonce (2 ^ k)).size = 2 ^ k := by
    rw [htrace, Array.size_ofFn]
  have hcall := returns_intercosate hk hsize one_ne_zero
  rw [inv_one, scaled_one] at hcall
  rwa [tracePolynomial, ← htrace]

/-! ### The extension -/

/-- The values on the coset four times as large. -/
def extension (p : Array Goldilocks) (k : ℕ) : Array Goldilocks :=
  dft (towerRoot (k + 2)) (scaled (resized p (2 ^ (k + 2))) 7)

theorem two_pow_add_two (k : ℕ) : 2 ^ (k + 2) = 4 * 2 ^ k := by ring

variable {k : ℕ} {p : Array Goldilocks}

@[simp] theorem size_extension : (extension p k).size = 2 ^ (k + 2) := by
  rw [extension, size_dft, size_scaled, size_resized]

/-- The trace is extended to its values on a coset of four times as many points. -/
theorem getD_extension (hp : p.size ≤ 2 ^ (k + 2)) {i : ℕ} (hi : i < 2 ^ (k + 2)) :
    (extension p k).getD i 0 = Polynomial.valueAt p (7 * towerRoot (k + 2) ^ i) :=
  getD_dft_scaled hp 7 _ hi

/-- **Four places on is one step of the smaller subgroup.** -/
theorem getD_neighbours_extension (hk : k + 2 ≤ 32) (hp : p.size ≤ 2 ^ (k + 2)) {i : ℕ}
    (hi : i < 2 ^ (k + 2)) : (neighbours (extension p k)).getD i 0 =
      Polynomial.valueAt p (towerRoot k * (7 * towerRoot (k + 2) ^ i)) := by
  have hfour : towerRoot (k + 2) ^ 4 = towerRoot k := towerRoot_pow (show 2 ≤ k + 2 by omega) hk
  have hround : towerRoot (k + 2) ^ ((i + 4) % 2 ^ (k + 2)) =
      towerRoot k * towerRoot (k + 2) ^ i := by
    rw [← pow_eq_pow_mod _ (isPrimitiveRoot_towerRoot hk).pow_eq_one, pow_add, hfour, mul_comm]
  rw [neighbours, getD_ofFn _ (size_extension.symm ▸ hi)]
  simp only [size_extension, extensionFactor]
  rw [getD_extension hp (Nat.mod_lt _ (Nat.two_pow_pos _)), hround, mul_left_comm]

/-- The pointwise product of the extension with its neighbours. -/
def mixed (p : Array Goldilocks) (k : ℕ) : Array Goldilocks :=
  Array.ofFn fun i : Fin (extension p k).size =>
    (extension p k).getD i 0 * (neighbours (extension p k)).getD i 0

/-- Each value of the extension is multiplied by that of the next row. -/
theorem valueAt_mixed (hk : k + 2 ≤ 32) (hp : p.size ≤ 2 ^ (k + 2)) (z : Goldilocks) :
    Polynomial.valueAt (mixed p k) z = ∑ i ∈ range (4 * 2 ^ k),
      Polynomial.valueAt p (7 * towerRoot (k + 2) ^ i) *
        Polynomial.valueAt p (towerRoot k * (7 * towerRoot (k + 2) ^ i)) * z ^ i := by
  have hsize : (mixed p k).size = 4 * 2 ^ k := by
    rw [mixed, Array.size_ofFn, size_extension, two_pow_add_two]
  rw [Polynomial.valueAt, hsize]
  refine sum_congr rfl fun i hi => ?_
  have hlt : i < 2 ^ (k + 2) := by
    rw [two_pow_add_two]
    exact mem_range.1 hi
  rw [mixed, getD_ofFn _ (size_extension.symm ▸ hlt), getD_extension hp hlt,
    getD_neighbours_extension hk hp hlt]

/-! ### The digest -/

/-- The element of the digest that belongs to a point `z`. -/
def digestEntry (p : Array Goldilocks) (w v : Goldilocks) (n : ℕ) (z : Goldilocks) : Goldilocks :=
  (∑ i ∈ range (4 * n), Polynomial.valueAt p (7 * v ^ i) *
    Polynomial.valueAt p (w * (7 * v ^ i)) * z ^ i) + Polynomial.valueAt p z ^ 2

/-- The digest is taken at four points that depend on the nonce. -/
theorem digestPoint_toArray (commitment : List Goldilocks) (nonce : UInt64) {j : ℕ} (hj : j < 4) :
    digestPoint commitment.toArray nonce j =
      commitment.getD (j % commitment.length) 0 + nonce.toNat + (j + 2 : ℕ) := by
  rw [digestPoint, commitmentAt_toArray, ofWord_eq_natCast, ofNat_eq_natCast (by omega)]

/-- The calls for one element. -/
theorem returns_entry (hk : k + 2 ≤ 32) (hp : p.size ≤ 2 ^ (k + 2)) (z : Goldilocks) :
    Returns (do
      let a ← callScalar .bpEval { bpolys := [mixed p k], belts := [z] }
      let b ← callScalar .bpEval { bpolys := [Polynomial.mul p p], belts := [z] }
      return a + b) (digestEntry p (towerRoot k) (towerRoot (k + 2)) (2 ^ k) z) := by
  rw [digestEntry, ← valueAt_mixed hk hp, sq, ← Polynomial.valueAt_mul]
  exact (returns_eval _ z).bind ((returns_eval _ z).bind (returns_pure _))

/-- **The digest from its parts.** -/
theorem returns_digest (c : Candidate) (nonce : UInt64) (hcommitment : c.commitment ≠ [])
    (hlog : c.log2TraceLength.toNat = k) (hk : k ≤ 20) :
    Returns (digest c nonce)
      (Vector.ofFn fun j : Fin 4 => digestEntry (tracePolynomial c.commitment nonce k)
        (towerRoot k) (towerRoot (k + 2)) (2 ^ k) (digestPoint c.commitment.toArray nonce j),
        tracePolynomial c.commitment nonce k) := by
  have hempty : ¬ c.commitment.isEmpty = true := by rwa [List.isEmpty_iff]
  have hlong : ¬ maxLog2TraceLength < c.log2TraceLength.toNat := by
    rw [maxLog2TraceLength]
    omega
  have horder : 2 ^ k * extensionFactor = 2 ^ (k + 2) := by
    rw [extensionFactor, two_pow_add_two, mul_comm]
  have hoffset : cosetOffset = 7 := ofNat_eq_natCast (by decide)
  unfold digest
  rw [if_neg hempty, if_neg hlong]
  dsimp only
  rw [hlog, Nat.one_shiftLeft, horder, hoffset]
  refine (returns_tracePolynomial c.commitment nonce (show k ≤ 32 by omega)).bind ?_
  generalize htrace : tracePolynomial c.commitment nonce k = p
  have hsize : p.size = 2 ^ k := by rw [← htrace, size_tracePolynomial]
  have hle : p.size ≤ 2 ^ (k + 2) := by
    rw [two_pow_add_two]
    omega
  have hnext : nextPowerOfTwo (p.size + p.size - 1) ≤ 2 ^ 32 := by
    have hle : p.size + p.size - 1 ≤ 2 ^ (k + 2) := by
      rw [two_pow_add_two]
      omega
    exact (nextPowerOfTwo_le hle).trans (Nat.pow_le_pow_right two_pos (by omega))
  refine (returns_coseword (show k + 2 ≤ 32 by omega) hle 7).bind ?_
  refine (returns_hadamard (a := extension p k) (b := neighbours (extension p k))
    (by rw [neighbours, Array.size_ofFn])).bind ?_
  refine (returns_mul hnext).bind ?_
  have hentry := returns_entry (show k + 2 ≤ 32 by omega) hle
  refine (hentry _).bind ((hentry _).bind ((hentry _).bind ((hentry _).bind ?_)))
  exact returns_pure _

/-- **Every digest is the specified one.** For a candidate with a commitment and a trace that is not
too long, the computation does not fail, whatever the nonce and the tuning and the mode of the
registry and whatever its cache has served before. The coefficients are those of the only polynomial
of their length with the trace as its values on the subgroup of order `n`, and element `j` of the
digest is the sum of `P (7 * v ^ i) * P (w * (7 * v ^ i)) * z ^ i` over the coset, plus `P z ^ 2`,
at the point `z` of `j`. -/
theorem digest_eq_digestEntry (c : Candidate) (nonce : UInt64) (hcommitment : c.commitment ≠ [])
    (hlog : c.log2TraceLength.toNat ≤ 20) (r : Jet.Registry) (hr : r.cache.Reachable) :
    ∃ (w v : Goldilocks) (p : Array Goldilocks),
      orderedRoot (2 ^ c.log2TraceLength.toNat) = .ok w ∧
      orderedRoot (4 * 2 ^ c.log2TraceLength.toNat) = .ok v ∧
      p.size = 2 ^ c.log2TraceLength.toNat ∧
      (∀ i < 2 ^ c.log2TraceLength.toNat,
        Polynomial.valueAt p (w ^ i) = traceEntry c.commitment nonce i) ∧
      (∀ q : Array Goldilocks, q.size = 2 ^ c.log2TraceLength.toNat →
        (∀ i < 2 ^ c.log2TraceLength.toNat,
          Polynomial.valueAt q (w ^ i) = traceEntry c.commitment nonce i) → q = p) ∧
      ((digest c nonce).run r).1 = .ok (Vector.ofFn fun j : Fin 4 =>
        digestEntry p w v (2 ^ c.log2TraceLength.toNat)
          (c.commitment.getD (j.val % c.commitment.length) 0 + nonce.toNat + (j.val + 2 : ℕ)),
        p) := by
  generalize hk : c.log2TraceLength.toNat = k at hlog ⊢
  obtain ⟨r', hrun, -⟩ := returns_digest c nonce hcommitment hk hlog r hr
  refine ⟨towerRoot k, towerRoot (k + 2), tracePolynomial c.commitment nonce k,
    orderedRoot_two_pow (by omega), ?_, size_tracePolynomial _ _ _,
    fun i hi => valueAt_tracePolynomial _ _ (by omega) hi,
    fun q hq h => eq_tracePolynomial _ _ (by omega) hq h, ?_⟩
  · rw [← two_pow_add_two, orderedRoot_two_pow (by omega)]
  · simp only [digestPoint_toArray _ _ (Fin.isLt _)] at hrun
    rw [hrun]

/-- The hypotheses are satisfiable: a trace of length two, on a registry that was warmed up. -/
theorem digest_eq_digestEntry_two :
    ({ commitment := [3], log2TraceLength := 1 } : Candidate).commitment ≠ [] ∧
    (Jet.Registry.ofHistory {} .lookupOnly [.request (.warmUp 0 3 7)]).cache.Reachable ∧
    ∃ (w v : Goldilocks) (p : Array Goldilocks), p.size = 2 ^ 1 ∧
      Polynomial.valueAt p (w ^ 1) = traceEntry [3] 5 1 ∧
      ((digest { commitment := [3], log2TraceLength := 1 } 5).run
        (Jet.Registry.ofHistory {} .lookupOnly [.request (.warmUp 0 3 7)])).1 =
          .ok (Vector.ofFn fun j : Fin 4 =>
            digestEntry p w v (2 ^ 1) ([3].getD (j.val % 1) 0 + 5 + (j.val + 2 : ℕ)), p) := by
  have hwarm := Jet.Registry.reachable_ofHistory {} .lookupOnly [.request (.warmUp 0 3 7)]
  obtain ⟨w, v, p, -, -, hsize, hvalues, -, hrun⟩ := digest_eq_digestEntry
    { commitment := [3], log2TraceLength := 1 } 5 (by decide) (by decide) _ hwarm
  exact ⟨by decide, hwarm, w, v, p, hsize, hvalues 1 (by decide), hrun⟩

end Stark
end ProofMiner
