/-
# Mined proofs in JSON

A proof is read if and only if the text is an object with a member for every field, the payouts
apart, which may be absent (`ofJson_eq_ok_iff`). The payouts are texts inside of the text: a proof
that is written holds the texts of its splits, and each of them is read as a split again if and only
if it is valid. That makes a proof come back from its text if and only if all its splits are valid
(`parse_render_iff`).
-/

import ProofMiner.Proofs.Work.Payouts
import ProofMiner.Proofs.Work.Records
import ProofMiner.Work.MinedProof

namespace ProofMiner
namespace MinedProof

open Json (Canonical)
open Record (IsNumber AreElements)

/-- The value is a text of this split. -/
def IsPayout (v : Json) (k : Payout) : Prop := ∃ text, v = .string text ∧ Payout.parse text = .ok k

/-- The object has a member for each field of the proof, with the value of that field. Where it has
no splits, the proof has none. -/
structure Spelled (p : MinedProof) (j : Json) : Prop where
  candidateId : ∃ v, j.get? "candidate_id" = some v ∧ IsNumber p.candidateId.toNat v
  nonce : ∃ v, j.get? "nonce" = some v ∧ IsNumber p.nonce.toNat v
  workerId : ∃ v, j.get? "worker_id" = some v ∧ IsNumber p.workerId.toNat v
  generation : ∃ v, j.get? "generation" = some v ∧ IsNumber p.generation.toNat v
  digest : ∃ v, j.get? "digest" = some v ∧ AreElements p.digest.toList v
  body : ∃ v, j.get? "proof" = some v ∧ AreElements p.body v
  payouts : (j.get? "mining_keys").elim (p.payouts = []) fun v =>
    List.Forall₂ IsPayout (payoutValues v) p.payouts

/-- A split is read from a text, and from nothing else. -/
theorem payout_eq_ok_iff {v : Json} {k : Payout} : payout v = .ok k ↔ IsPayout v k := by
  cases v with
  | string text =>
    rw [payout, mapError_eq_ok_iff]
    exact ⟨fun h => ⟨text, rfl, h⟩, fun ⟨_, h, hk⟩ => Json.string.inj h ▸ hk⟩
  | _ => exact ⟨nofun, fun ⟨_, h, _⟩ => nomatch h⟩

/-- A digest has four elements. -/
theorem digestOfList?_eq_some_iff {xs : List Goldilocks} {d : Vector Goldilocks 4} :
    digestOfList? xs = some d ↔ d.toList = xs := by
  unfold digestOfList?
  split_ifs with hsize
  · rw [Option.some.injEq]
    constructor
    · rintro rfl
      rfl
    · rintro rfl
      rfl
  · refine iff_of_false nofun ?_
    rintro rfl
    exact hsize d.size_toArray

/-- **A proof is read if and only if the object spells it out.** -/
theorem ofJson_eq_ok_iff {j : Json} {p : MinedProof} : ofJson j = .ok p ↔ p.Spelled j := by
  unfold ofJson
  simp only [bind_eq_ok_iff, Record.wordMember_eq_ok_iff, Record.member_eq_ok_iff,
    Record.elements_eq_ok_iff, Record.halfWord_eq_ok_iff]
  constructor
  · rintro ⟨id, hid, nonce, hnonce, w, hw, worker, hworker, generation, hgeneration, v, hv, xs,
      hxs, h⟩
    cases hdigest : digestOfList? xs with
    | none =>
      rw [hdigest] at h
      cases h
    | some digest =>
      obtain rfl := digestOfList?_eq_some_iff.1 hdigest
      simp only [hdigest, bind_eq_ok_iff, Record.member_eq_ok_iff, Record.elements_eq_ok_iff] at h
      obtain ⟨u, hu, body, hbody, h⟩ := h
      -- the splits are read where the proof is put together
      cases hkeys : j.get? "mining_keys" with
      | none =>
        simp only [hkeys] at h
        obtain rfl := Except.ok.inj h
        exact ⟨hid, hnonce, ⟨w, hw, hworker⟩, hgeneration, ⟨v, hv, hxs⟩, ⟨u, hu, hbody⟩,
          by rw [hkeys]; rfl⟩
      | some keys =>
        simp only [hkeys, bind_eq_ok_iff, mapM_eq_ok_iff, payout_eq_ok_iff] at h
        obtain ⟨payouts, hpayouts, h⟩ := h
        obtain rfl := Except.ok.inj h
        exact ⟨hid, hnonce, ⟨w, hw, hworker⟩, hgeneration, ⟨v, hv, hxs⟩, ⟨u, hu, hbody⟩,
          by rw [hkeys]; exact hpayouts⟩
  · rintro ⟨hid, hnonce, ⟨w, hw, hworker⟩, hgeneration, ⟨v, hv, hxs⟩, ⟨u, hu, hbody⟩, hlast⟩
    refine ⟨_, hid, _, hnonce, w, hw, _, hworker, _, hgeneration, v, hv, _, hxs, ?_⟩
    have hdigest : digestOfList? p.digest.toList = some p.digest :=
      digestOfList?_eq_some_iff.2 rfl
    simp only [hdigest, bind_eq_ok_iff, Record.member_eq_ok_iff, Record.elements_eq_ok_iff]
    refine ⟨u, hu, _, hbody, ?_⟩
    cases hkeys : j.get? "mining_keys" with
    | none =>
      rw [hkeys] at hlast
      have hnone : p.payouts = [] := hlast
      simp only [← hnone]
      rfl
    | some keys =>
      rw [hkeys] at hlast
      simp only [bind_eq_ok_iff, mapM_eq_ok_iff, payout_eq_ok_iff]
      exact ⟨_, hlast, rfl⟩

/-- A text is read as a proof if it spells one. -/
theorem parse_eq_ok_iff {cs : List Char} {p : MinedProof} :
    parse cs = .ok p ↔ ∃ j, Json.parse cs = .ok j ∧ p.Spelled j := by
  simp only [parse, bind_eq_ok_iff, Record.parse_eq_ok_iff, ofJson_eq_ok_iff]

/-! ### What is written -/

/-- An object spells out the proof that it is made of, as far as the splits go. -/
theorem spelled_toJson_iff {p : MinedProof} : p.Spelled p.toJson ↔ ∀ k ∈ p.payouts, k.Valid := by
  have hpayouts : List.Forall₂ IsPayout (p.payouts.map fun k => .string k.render) p.payouts ↔
      ∀ k ∈ p.payouts, k.Valid := by
    rw [List.forall₂_map_left_iff, List.forall₂_same]
    refine forall₂_congr fun k _ => ?_
    rw [← Payout.parse_render_iff]
    exact ⟨fun ⟨_, htext, h⟩ => Json.string.inj htext ▸ h, fun h => ⟨_, rfl, h⟩⟩
  constructor
  · intro h
    exact hpayouts.1 h.payouts
  · intro h
    exact {
      candidateId := ⟨_, rfl, Record.isNumber_unsigned p.candidateId⟩
      nonce := ⟨_, rfl, Record.isNumber_unsigned p.nonce⟩
      workerId := ⟨_, rfl, Record.isNumber_halfWord p.workerId⟩
      generation := ⟨_, rfl, Record.isNumber_unsigned p.generation⟩
      digest := ⟨_, rfl, Record.areElements_ofElements p.digest.toList⟩
      body := ⟨_, rfl, Record.areElements_ofElements p.body⟩
      payouts := hpayouts.2 h }

/-- What is written can be printed and parsed. -/
theorem canonical_toJson (p : MinedProof) : Canonical p.toJson := by
  have hkeys : ["candidate_id", "digest", "generation", "mining_keys", "nonce", "proof",
      "worker_id"].Pairwise (· < ·) := by decide
  refine .object hkeys fun m hm => ?_
  simp only [List.mem_cons, List.not_mem_nil, or_false] at hm
  rcases hm with rfl | rfl | rfl | rfl | rfl | rfl | rfl
  · exact .unsigned p.candidateId
  · exact Record.canonical_ofElements p.digest.toList
  · exact .unsigned p.generation
  · refine .array fun v hv => ?_
    obtain ⟨k, -, rfl⟩ := List.mem_map.1 hv
    exact .string k.render
  · exact .unsigned p.nonce
  · exact Record.canonical_ofElements p.body
  · exact .unsigned p.workerId.toUInt64

/-- **A proof is read back from its text if and only if its splits are valid.** -/
theorem parse_render_iff {p : MinedProof} :
    parse p.render.toList = .ok p ↔ ∀ k ∈ p.payouts, k.Valid := by
  have hparse : Json.parse p.render.toList = .ok p.toJson := Json.parse_render p.canonical_toJson
  rw [parse_eq_ok_iff, ← spelled_toJson_iff, hparse]
  exact ⟨fun ⟨_, hj, h⟩ => Except.ok.inj hj ▸ h, fun h => ⟨_, rfl, h⟩⟩

/-- **Proofs are exact in JSON, down to the texts of their splits.** A proof is read back from its
text if and only if its splits are valid, and so is a split from its own text, whatever characters
its keys are made of. A split that was read from any other text has a text of its own, which stays
the same when it is read and written again. -/
theorem proofs_exact :
    (∀ p : MinedProof, parse p.render.toList = .ok p ↔ ∀ k ∈ p.payouts, k.Valid) ∧
    (∀ k : Payout, Payout.parse k.render = .ok k ↔ k.Valid) ∧
    ∀ text k, Payout.parse text = .ok k →
      (Payout.parse k.render).map Payout.render = .ok k.render := by
  refine ⟨fun p => parse_render_iff, fun k => Payout.parse_render_iff, fun text k h => ?_⟩
  rw [Payout.parse_render_iff.2 (Payout.valid_of_parse h)]
  rfl

/-- A split whose text is not the one that it was read from: there are zeros in front of the numbers
and a comma after the last key. The keys hold a colon, digits and a quote. -/
theorem proofs_exact_rewritten :
    Payout.parse "007,02:a:1,2\"," = .ok { share := 7, threshold := 2, keys := ["a:1", "2\""] } ∧
    (Payout.parse "7,2:a:1,2\"").map Payout.render = .ok "7,2:a:1,2\"" := by
  have hread : Payout.parse "007,02:a:1,2\"," =
      .ok { share := 7, threshold := 2, keys := ["a:1", "2\""] } := by decide +kernel
  have hrender : Payout.render { share := 7, threshold := 2, keys := ["a:1", "2\""] } =
      "7,2:a:1,2\"" := by decide +kernel
  refine ⟨hread, ?_⟩
  rw [← hrender]
  exact proofs_exact.2.2 _ _ hread

end MinedProof
end ProofMiner
