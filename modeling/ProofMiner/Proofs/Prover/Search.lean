/-
# The search for a nonce

Whether a nonce is accepted depends on the candidate and the nonce alone: from any registry with a
reachable cache the digest of a usable candidate is the same (`Usable.returns_digest`), and what the
calls leave behind is a registry with a reachable cache again. So a search can be followed nonce by
nonce. Nonces that are not accepted leave it to the nonces after them, on the registry after their
digests (`Usable.run_search_of_not_accepted`), and an accepted one ends it with its proof.

Nonces are words, so those of a candidate that starts near the end of the range go on at zero.

A candidate that is not usable is refused at its first nonce, before any call, so the refusal does
not depend on the nonce either (`exists_run_search_of_not_usable`).
-/

import ProofMiner.Proofs.Prover.Digest

namespace ProofMiner
namespace Stark

open Goldilocks

/-- A candidate that an attempt can work on: it has a commitment, and its trace is not too long. -/
structure Usable (c : Candidate) : Prop where
  commitment_ne_nil : c.commitment ≠ []
  log2_le : c.log2TraceLength.toNat ≤ maxLog2TraceLength

/-- The polynomial of the trace of a nonce. -/
def proofPolynomial (c : Candidate) (nonce : UInt64) : Array Goldilocks :=
  tracePolynomial c.commitment nonce c.log2TraceLength.toNat

/-- The digest of a nonce. -/
def nonceDigest (c : Candidate) (nonce : UInt64) : Vector Goldilocks 4 :=
  Vector.ofFn fun j : Fin 4 => digestEntry (proofPolynomial c nonce)
    (towerRoot c.log2TraceLength.toNat) (towerRoot (c.log2TraceLength.toNat + 2))
    (2 ^ c.log2TraceLength.toNat) (digestPoint c.commitment.toArray nonce j)

/-- The digest of the nonce is below the target. -/
def Accepted (c : Candidate) (nonce : UInt64) : Prop :=
  ((nonceDigest c nonce).get 0).val < c.target

/-- The registry after the digests of `n` nonces in a row, and nothing else. -/
def afterDigests (c : Candidate) (nonce : UInt64) (r : Jet.Registry) : (n : ℕ) → Jet.Registry
  | 0 => r
  | n + 1 => ((digest c (nonce + UInt64.ofNat n)).run (afterDigests c nonce r n)).2

/-- A candidate is usable if it has a commitment and its trace is not too long. -/
theorem usable_iff {c : Candidate} :
    Usable c ↔ ¬ (c.commitment = [] ∨ 20 < c.log2TraceLength.toNat) := by
  rw [not_or, not_lt]
  exact ⟨fun h => ⟨h.commitment_ne_nil, h.log2_le⟩, fun h => ⟨h.1, h.2⟩⟩

variable (env : WorkerEnv) (payouts : List Payout) {c : Candidate} {r : Jet.Registry}

/-! ### Candidates that are refused -/

/-- An empty commitment is refused before anything is computed. -/
theorem run_digest_of_nil (h : c.commitment = []) (nonce : UInt64) (r : Jet.Registry) :
    (digest c nonce).run r =
      (.error (.rejected s!"candidate {c.id.toNat} has an empty commitment"), r) := by
  rw [digest, if_pos (by rw [h]; rfl)]
  rfl

/-- A trace that is too long is refused before anything is computed. -/
theorem run_digest_of_lt (hne : c.commitment ≠ [])
    (h : maxLog2TraceLength < c.log2TraceLength.toNat) (nonce : UInt64) (r : Jet.Registry) :
    (digest c nonce).run r = (.error (.rejected
      s!"trace length 2^{c.log2TraceLength.toNat} exceeds 2^{maxLog2TraceLength}"), r) := by
  rw [digest, if_neg (by rwa [List.isEmpty_iff]), if_pos h]
  rfl

/-- A candidate that is not usable is refused at the first nonce, whichever it is. -/
theorem exists_run_search_of_not_usable (h : ¬ Usable c) (count : ℕ) (nonce : UInt64)
    (r : Jet.Registry) : ∃ message,
      (search env payouts c (count + 1) nonce).run r = (.error (.rejected message), r) := by
  rw [search]
  by_cases hnil : c.commitment = []
  · exact ⟨_, bind_run_of_error (run_digest_of_nil hnil nonce r) _⟩
  · have hlong : maxLog2TraceLength < c.log2TraceLength.toNat :=
      not_le.1 fun hle => h ⟨hnil, hle⟩
    exact ⟨_, bind_run_of_error (run_digest_of_lt hnil hlong nonce r) _⟩

/-! ### One nonce -/

/-- A usable candidate has a digest for every nonce, whatever the registry. -/
theorem Usable.returns_digest (h : Usable c) (nonce : UInt64) :
    Returns (digest c nonce) (nonceDigest c nonce, proofPolynomial c nonce) :=
  Stark.returns_digest c nonce h.commitment_ne_nil rfl h.log2_le

/-- Digests leave a cache that accesses can lead to. -/
theorem Usable.reachable_afterDigests (h : Usable c) (hr : r.cache.Reachable) (nonce : UInt64)
    (n : ℕ) : (afterDigests c nonce r n).cache.Reachable := by
  induction n with
  | zero => exact hr
  | succ n ih =>
    obtain ⟨r', hrun, hr'⟩ := h.returns_digest (nonce + UInt64.ofNat n) _ ih
    rwa [afterDigests, hrun]

section Step

variable (h : Usable c) (hr : r.cache.Reachable) (count : ℕ) {nonce : UInt64}
include h hr

/-- An accepted nonce ends the search with its proof. -/
theorem Usable.run_search_succ_of_accepted (haccepted : Accepted c nonce) :
    (search env payouts c (count + 1) nonce).run r =
      (.ok [proof env payouts c nonce (nonceDigest c nonce) (proofPolynomial c nonce)],
        ((digest c nonce).run r).2) := by
  obtain ⟨r', hrun, -⟩ := h.returns_digest nonce r hr
  rw [search, bind_run_of_ok hrun, hrun]
  exact congrArg (fun m : Attempting _ => m.run r') (if_pos haccepted)

/-- Any other nonce leaves it to the nonces after it. -/
theorem Usable.run_search_succ_of_not_accepted (haccepted : ¬ Accepted c nonce) :
    (search env payouts c (count + 1) nonce).run r =
      (search env payouts c count (nonce + 1)).run ((digest c nonce).run r).2 := by
  obtain ⟨r', hrun, -⟩ := h.returns_digest nonce r hr
  rw [search, bind_run_of_ok hrun, hrun]
  exact congrArg (fun m : Attempting _ => m.run r') (if_neg haccepted)

end Step

/-! ### All nonces -/

section Run

variable (h : Usable c) (hr : r.cache.Reachable) {k : ℕ} {nonce : UInt64}
  (hbefore : ∀ i < k, ¬ Accepted c (nonce + UInt64.ofNat i))
include h hr hbefore

/-- **A search gets past nonces that are not accepted**, and has examined just these then. -/
theorem Usable.run_search_of_not_accepted (rest : ℕ) :
    (search env payouts c (rest + k) nonce).run r =
      (search env payouts c rest (nonce + UInt64.ofNat k)).run (afterDigests c nonce r k) := by
  induction k generalizing rest with
  | zero => rw [show nonce + UInt64.ofNat 0 = nonce from add_zero nonce, afterDigests, add_zero]
  | succ k ih =>
    have hreach := h.reachable_afterDigests hr nonce k
    rw [← add_assoc, add_right_comm, ih (fun i hi => hbefore i (hi.trans k.lt_succ_self)),
      h.run_search_succ_of_not_accepted env payouts hreach rest (hbefore k k.lt_succ_self),
      afterDigests, UInt64.ofNat_add, ← add_assoc]
    rfl

/-- **The first accepted nonce ends the search.** -/
theorem Usable.run_search_of_accepted {count : ℕ} (hk : k < count)
    (haccepted : Accepted c (nonce + UInt64.ofNat k)) :
    (search env payouts c count nonce).run r =
      (.ok [proof env payouts c (nonce + UInt64.ofNat k) (nonceDigest c (nonce + UInt64.ofNat k))
        (proofPolynomial c (nonce + UInt64.ofNat k))], afterDigests c nonce r (k + 1)) := by
  obtain ⟨rest, rfl⟩ := Nat.exists_eq_add_of_lt hk
  have hreach := h.reachable_afterDigests hr nonce k
  rw [show k + rest + 1 = rest + 1 + k by omega,
    h.run_search_of_not_accepted env payouts hr hbefore,
    h.run_search_succ_of_accepted env payouts hreach rest haccepted, afterDigests]

/-- If no nonce is accepted, all of them are examined. -/
theorem Usable.run_search_of_none :
    (search env payouts c k nonce).run r = (.ok [], afterDigests c nonce r k) := by
  have hall := h.run_search_of_not_accepted env payouts hr hbefore 0
  rwa [zero_add] at hall

end Run

/-- No search gives two proofs, from any registry at all. By induction on the nonces. -/
theorem length_le_one_of_run_search {count : ℕ} {nonce : UInt64} {r r' : Jet.Registry}
    {proofs : List MinedProof}
    (h : (search env payouts c count nonce).run r = (.ok proofs, r')) : proofs.length ≤ 1 := by
  induction count generalizing nonce r with
  | zero =>
    obtain rfl : [] = proofs := Except.ok.inj (congrArg Prod.fst h)
    exact Nat.zero_le 1
  | succ count ih =>
    rw [search] at h
    rcases hdigest : (digest c nonce).run r with ⟨_ | ⟨d, coefficients⟩, r₁⟩
    · rw [bind_run_of_error hdigest] at h
      cases h
    · rw [bind_run_of_ok hdigest] at h
      dsimp only at h
      split_ifs at h
      · obtain rfl : [_] = proofs := Except.ok.inj (congrArg Prod.fst h)
        exact le_rfl
      · exact ih h

/-! ### Attempts -/

/-- Without nonces there is nothing to look at, not even the candidate. -/
theorem poke_of_nonceCount_eq_zero (h : c.nonceCount = 0) (r : Jet.Registry) :
    (program env payouts).poke c r = (.ok [], r) := by
  change (search env payouts c c.nonceCount.toNat c.nonceStart).run r = _
  rw [h]
  rfl

/-- With a nonce, an unusable candidate is rejected. -/
theorem exists_poke_of_not_usable (hcount : c.nonceCount ≠ 0) (h : ¬ Usable c)
    (r : Jet.Registry) : ∃ message,
      (program env payouts).poke c r = (.error (.rejected message), r) := by
  have hpos : c.nonceCount.toNat ≠ 0 := fun hzero => hcount (UInt64.toNat_inj.1 hzero)
  obtain ⟨count, hsucc⟩ := Nat.exists_eq_succ_of_ne_zero hpos
  change ∃ message, (search env payouts c c.nonceCount.toNat c.nonceStart).run r = _
  rw [hsucc]
  exact exists_run_search_of_not_usable env payouts h count c.nonceStart r

/-- A usable candidate does not fail: one of its nonces is the first accepted one, or none is. -/
theorem Usable.exists_poke_eq_ok (h : Usable c) (hr : r.cache.Reachable) :
    ∃ proofs, ((program env payouts).poke c r).1 = .ok proofs := by
  change ∃ proofs, ((search env payouts c c.nonceCount.toNat c.nonceStart).run r).1 = .ok proofs
  by_cases hsome : ∃ k < c.nonceCount.toNat, Accepted c (c.nonceStart + UInt64.ofNat k)
  · classical
    obtain ⟨hk, haccepted⟩ := Nat.find_spec hsome
    have hbefore : ∀ i < Nat.find hsome, ¬ Accepted c (c.nonceStart + UInt64.ofNat i) :=
      fun i hi hacc => Nat.find_min hsome hi ⟨hi.trans hk, hacc⟩
    exact ⟨_, congrArg Prod.fst (h.run_search_of_accepted env payouts hr hbefore hk haccepted)⟩
  · have hnone : ∀ i < c.nonceCount.toNat, ¬ Accepted c (c.nonceStart + UInt64.ofNat i) :=
      fun i hi hacc => hsome ⟨i, hi, hacc⟩
    exact ⟨_, congrArg Prod.fst (h.run_search_of_none env payouts hr hnone)⟩

/-- **An attempt finds the first accepted nonce.** It gives at most one proof, and without nonces
it gives none and calls nothing. With nonces it is refused if and only if the commitment is empty or
the trace longer than `2 ^ 20`. Otherwise the digest and the polynomial of every nonce are those
that the program computes for it, from any registry, and

* if nonce `k`, counted from the start of the candidate and around the range of words, is the first
  one that is accepted, then the attempt gives the one proof with this nonce, the whole digest and
  all coefficients that belong to it, the candidate, the worker and its generation, and the payouts,
  and the digests of the nonces up to this one are all that it has called;
* if none is accepted, it gives no proof. -/
theorem poke_finds_first (env : WorkerEnv) (payouts : List Payout) (c : Candidate)
    (r : Jet.Registry) (hr : r.cache.Reachable) :
    (∀ proofs, ((program env payouts).poke c r).1 = .ok proofs → proofs.length ≤ 1) ∧
    (c.nonceCount = 0 → (program env payouts).poke c r = (.ok [], r)) ∧
    (c.nonceCount ≠ 0 →
      ((∃ message, ((program env payouts).poke c r).1 = .error (.rejected message)) ↔
        c.commitment = [] ∨ 20 < c.log2TraceLength.toNat) ∧
      (¬ (c.commitment = [] ∨ 20 < c.log2TraceLength.toNat) →
        (∀ nonce,
          (proofPolynomial c nonce).size = 2 ^ c.log2TraceLength.toNat ∧
          (∀ i < 2 ^ c.log2TraceLength.toNat,
            Polynomial.valueAt (proofPolynomial c nonce)
              (towerRoot c.log2TraceLength.toNat ^ i) = traceEntry c.commitment nonce i) ∧
          ∀ r' : Jet.Registry, r'.cache.Reachable →
            ((digest c nonce).run r').1 = .ok (nonceDigest c nonce, proofPolynomial c nonce)) ∧
        (∀ k < c.nonceCount.toNat, Accepted c (c.nonceStart + UInt64.ofNat k) →
          (∀ i < k, ¬ Accepted c (c.nonceStart + UInt64.ofNat i)) →
          (program env payouts).poke c r = (.ok [{
            candidateId := c.id
            nonce := c.nonceStart + UInt64.ofNat k
            workerId := env.worker
            generation := env.generation
            digest := nonceDigest c (c.nonceStart + UInt64.ofNat k)
            body := (proofPolynomial c (c.nonceStart + UInt64.ofNat k)).toList
            payouts := payouts }], afterDigests c c.nonceStart r (k + 1))) ∧
        ((∀ k < c.nonceCount.toNat, ¬ Accepted c (c.nonceStart + UInt64.ofNat k)) →
          (program env payouts).poke c r =
            (.ok [], afterDigests c c.nonceStart r c.nonceCount.toNat)))) := by
  refine ⟨fun proofs hproofs => ?_, fun hzero => poke_of_nonceCount_eq_zero env payouts hzero r,
    fun hcount => ⟨⟨?_, fun hbad => ?_⟩, fun hgood => ?_⟩⟩
  · exact length_le_one_of_run_search env payouts (Prod.ext hproofs rfl)
  · rintro ⟨message, hfailed⟩
    by_contra hgood
    obtain ⟨proofs, hok⟩ := (usable_iff.2 hgood).exists_poke_eq_ok env payouts hr
    rw [hok] at hfailed
    cases hfailed
  · obtain ⟨message, hrun⟩ := exists_poke_of_not_usable env payouts hcount
      (fun h => usable_iff.1 h hbad) r
    exact ⟨message, congrArg Prod.fst hrun⟩
  · have h := usable_iff.2 hgood
    have hlog : c.log2TraceLength.toNat ≤ 32 := h.log2_le.trans (by decide)
    refine ⟨fun nonce => ⟨size_tracePolynomial _ _ _, fun i hi => ?_, fun r' hr' => ?_⟩,
      fun k hk haccepted hbefore => ?_, fun hnone => ?_⟩
    · exact valueAt_tracePolynomial _ _ hlog hi
    · obtain ⟨r'', hrun, -⟩ := h.returns_digest nonce r' hr'
      exact congrArg Prod.fst hrun
    · exact h.run_search_of_accepted env payouts hr hbefore hk haccepted
    · exact h.run_search_of_none env payouts hr hnone

/-- A candidate whose first nonce is the last word. -/
def wrapping : Candidate where
  id := 7
  commitment := [3]
  nonceStart := 18446744073709551615
  nonceCount := 3
  target := 1000
  log2TraceLength := 0

/-- The hypotheses are satisfiable: the last word is not accepted and the nonce after it, which is
zero, is. -/
theorem poke_finds_first_wrapping :
    (Jet.Registry.ofHistory {} .populate [.request (.warmUp 0 3 7)]).cache.Reachable ∧
    ¬ (wrapping.commitment = [] ∨ 20 < wrapping.log2TraceLength.toNat) ∧
    ¬ Accepted wrapping 18446744073709551615 ∧ Accepted wrapping 0 ∧
    ((program { worker := 2, generation := 5 } []).poke wrapping
      (Jet.Registry.ofHistory {} .populate [.request (.warmUp 0 3 7)])).1 =
        .ok [{ candidateId := 7, nonce := 0, workerId := 2, generation := 5,
               digest := #v[157, 260, 401, 586], body := [1], payouts := [] }] := by
  have hwarm := Jet.Registry.reachable_ofHistory {} .populate [.request (.warmUp 0 3 7)]
  have husable : ¬ (wrapping.commitment = [] ∨ 20 < wrapping.log2TraceLength.toNat) := by decide
  have hlast : ¬ Accepted wrapping 18446744073709551615 := by
    unfold Accepted
    decide +kernel
  have hdigest : nonceDigest wrapping 0 = #v[157, 260, 401, 586] := by decide +kernel
  have hzero : Accepted wrapping 0 := by
    rw [Accepted, hdigest]
    decide
  have hbody : (proofPolynomial wrapping 0).toList = [1] := by decide +kernel
  have hfirst := ((poke_finds_first { worker := 2, generation := 5 } [] wrapping _ hwarm).2.2
    (by decide)).2 husable
  have hrun := hfirst.2.1 1 (by decide) hzero fun i hi => by
    obtain rfl := Nat.lt_one_iff.1 hi
    exact hlast
  refine ⟨hwarm, husable, hlast, hzero, (congrArg Prod.fst hrun).trans ?_⟩
  rw [show wrapping.nonceStart + UInt64.ofNat 1 = 0 from by decide, hdigest, hbody]
  rfl

end Stark
end ProofMiner
