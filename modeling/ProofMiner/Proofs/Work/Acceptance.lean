/-
# Which texts are taken for proofs

An object with the members of a proof (`WellShaped`) is read as the proof that it spells out, and texts of
most other shapes are refused. The splits are the exception: they are read from whatever the member holds,
item by item, and other values than arrays have items too. A null has none, the values of an object are its
items, and a single text is the only one of itself (`Unlisted`).
-/

import Mathlib
import ProofMiner.Proofs.Work.MinedProofs

namespace ProofMiner
namespace MinedProof

open Json (Canonical IsBelow IsArrayOf)
open Record (AreElements)

variable {cs : List Char} {j v : Json} {p : MinedProof} {ks : List Payout}

/-- An object with the members of a proof. -/
structure WellShaped (j : Json) : Prop where
  candidateId : ∃ v, j.get? "candidate_id" = some v ∧ IsBelow (2 ^ 64) v
  nonce : ∃ v, j.get? "nonce" = some v ∧ IsBelow (2 ^ 64) v
  workerId : ∃ v, j.get? "worker_id" = some v ∧ IsBelow (2 ^ 32) v
  generation : ∃ v, j.get? "generation" = some v ∧ IsBelow (2 ^ 64) v
  digest : ∃ items, j.get? "digest" = some (.array items) ∧ items.length = 4 ∧
    ∀ v ∈ items, IsBelow modulus.toNat v
  body : ∃ v, j.get? "proof" = some v ∧ IsArrayOf (IsBelow modulus.toNat) v
  payouts : ∀ v, j.get? "mining_keys" = some v → IsArrayOf (fun v => ∃ k, IsPayout v k) v

/-- The value holds these splits and is no array. -/
inductive Unlisted : Json → List Payout → Prop
  | null : Unlisted .null []
  | object {members : List (String × Json)} {ks : List Payout}
    (h : List.Forall₂ IsPayout (members.map Prod.snd) ks) : Unlisted (.object members) ks
  | string {text : String} {k : Payout} (h : Payout.parse text = .ok k) : Unlisted (.string text) [k]

/-- Splits are read from arrays, or they are unlisted. -/
theorem forall₂_payoutValues_iff : List.Forall₂ IsPayout (payoutValues v) ks ↔
    (∃ items, v = .array items ∧ List.Forall₂ IsPayout items ks) ∨ Unlisted v ks := by
  constructor
  · intro h
    cases v with
    | array items => exact .inl ⟨items, rfl, h⟩
    | object => exact .inr (.object h)
    | null =>
      obtain rfl := List.forall₂_nil_left_iff.1 h
      exact .inr .null
    | _ =>
      obtain ⟨k, rest, ⟨text, heq, hk⟩, hrest, rfl⟩ := List.forall₂_cons_left_iff.1 h
      obtain rfl := List.forall₂_nil_left_iff.1 hrest
      rw [heq]
      exact .inr (.string hk)
  · rintro (⟨items, rfl, h⟩ | h)
    · exact h
    · cases h with
      | null => exact .nil
      | object h => exact h
      | string h => exact .cons ⟨_, rfl, h⟩ .nil

/-- The splits of the object, if it has any, stand in an array. -/
def Listed (j : Json) : Prop := ∀ v, j.get? "mining_keys" = some v → ∃ items, v = .array items

/-- A proof that is read has its splits as an array, or in another way. -/
theorem Spelled.not_listed_iff (h : p.Spelled j) :
    ¬ Listed j ↔ ∃ v, j.get? "mining_keys" = some v ∧ Unlisted v p.payouts := by
  constructor
  · intro hnot
    simp only [Listed, not_forall, exists_prop] at hnot
    obtain ⟨v, hv, hnot⟩ := hnot
    have hpayouts := h.payouts
    rw [hv] at hpayouts
    refine ⟨v, hv, (forall₂_payoutValues_iff.1 hpayouts).resolve_left ?_⟩
    rintro ⟨items, heq, -⟩
    exact hnot ⟨items, heq⟩
  · rintro ⟨v, hv, hunlisted⟩ hlisted
    obtain ⟨items, rfl⟩ := hlisted v hv
    cases hunlisted

/-- An array of texts of splits is read, and so is no member at all. -/
theorem exists_payouts {v? : Option Json}
    (h : ∀ v, v? = some v → IsArrayOf (fun v => ∃ k, IsPayout v k) v) :
    ∃ ks : List Payout, v?.elim (ks = []) fun v => List.Forall₂ IsPayout (payoutValues v) ks := by
  cases v? with
  | none => exact ⟨[], rfl⟩
  | some v =>
    obtain ⟨items, rfl, hall⟩ := h v rfl
    obtain ⟨ks, hread⟩ : ∃ ks, items.mapM payout = .ok ks := by
      refine exists_mapM_eq_ok fun v hv => ?_
      obtain ⟨k, hk⟩ := hall v hv
      exact ⟨k, payout_eq_ok_iff.2 hk⟩
    exact ⟨ks, (mapM_eq_ok_iff.1 hread).imp fun _ _ => payout_eq_ok_iff.1⟩

/-- **Every object with the members of a proof spells one out**, with its splits in an array. -/
theorem wellShaped_iff : WellShaped j ↔ Listed j ∧ ∃ p : MinedProof, p.Spelled j := by
  constructor
  · rintro ⟨⟨v, hv, hid⟩, ⟨u, hu, hnonce⟩, ⟨w, hw, hworker⟩, ⟨x, hx, hgeneration⟩,
      ⟨items, hitems, hlength, hdigest⟩, ⟨y, hy, hbody⟩, hpayouts⟩
    obtain ⟨candidateId, hid⟩ := Record.covers_word.isBelow_iff.1 hid
    obtain ⟨nonce, hnonce⟩ := Record.covers_word.isBelow_iff.1 hnonce
    obtain ⟨workerId, hworker⟩ := Record.covers_halfWord.isBelow_iff.1 hworker
    obtain ⟨generation, hgeneration⟩ := Record.covers_word.isBelow_iff.1 hgeneration
    obtain ⟨xs, hxs⟩ := Record.isArrayOf_iff.1 ⟨items, rfl, hdigest⟩
    obtain ⟨body, hbody⟩ := Record.isArrayOf_iff.1 hbody
    have hsize : xs.toArray.size = 4 := by
      obtain ⟨items', heq, hall⟩ := hxs
      obtain rfl := Json.array.inj heq
      rw [← hlength, List.size_toArray, hall.length_eq]
    obtain ⟨payouts, hread⟩ := exists_payouts hpayouts
    refine ⟨fun v hv => ?_, ?_⟩
    · obtain ⟨items, heq, -⟩ := hpayouts v hv
      exact ⟨items, heq⟩
    · exact ⟨{ candidateId, nonce, workerId, generation, digest := ⟨xs.toArray, hsize⟩, body, payouts },
        ⟨v, hv, hid⟩, ⟨u, hu, hnonce⟩, ⟨w, hw, hworker⟩, ⟨x, hx, hgeneration⟩, ⟨_, hitems, hxs⟩,
        ⟨y, hy, hbody⟩, hread⟩
  · rintro ⟨hlisted, p, ⟨v, hv, hid⟩, ⟨u, hu, hnonce⟩, ⟨w, hw, hworker⟩, ⟨x, hx, hgeneration⟩,
      ⟨z, hz, hdigest⟩, ⟨y, hy, hbody⟩, hpayouts⟩
    obtain ⟨items, rfl, hall⟩ := Record.isArrayOf_iff.2 ⟨_, hdigest⟩
    refine ⟨⟨v, hv, Record.covers_word.isBelow_iff.2 ⟨_, hid⟩⟩,
      ⟨u, hu, Record.covers_word.isBelow_iff.2 ⟨_, hnonce⟩⟩,
      ⟨w, hw, Record.covers_halfWord.isBelow_iff.2 ⟨_, hworker⟩⟩,
      ⟨x, hx, Record.covers_word.isBelow_iff.2 ⟨_, hgeneration⟩⟩, ⟨items, hz, ?_, hall⟩,
      ⟨y, hy, Record.isArrayOf_iff.2 ⟨_, hbody⟩⟩, fun keys hkeys => ?_⟩
    · obtain ⟨items', heq, hitems⟩ := hdigest
      obtain rfl := Json.array.inj heq
      rw [hitems.length_eq, Vector.length_toList]
    · obtain ⟨items, rfl⟩ := hlisted keys hkeys
      rw [hkeys] at hpayouts
      refine ⟨items, rfl, fun v hv => ?_⟩
      obtain ⟨i, hi, rfl⟩ := List.getElem_of_mem hv
      have hpayouts : List.Forall₂ IsPayout items p.payouts := hpayouts
      exact ⟨_, hpayouts.get hi (hpayouts.length_eq ▸ hi)⟩

/-- **A text is taken for a proof as its shape says, or its splits are unlisted.** -/
theorem read_as_shaped_iff (cs : List Char) :
    ((∃ p, parse cs = .ok p) ∨ ∃ fault, parse cs = .error fault) ∧
    (∀ p, parse cs = .ok p ↔ ∃ j, Json.parse cs = .ok j ∧ p.Spelled j) ∧
    (∀ j, WellShaped j ↔ Listed j ∧ ∃ p : MinedProof, p.Spelled j) ∧
    ((∀ p, parse cs = .ok p ↔ ∃ j, Json.parse cs = .ok j ∧ WellShaped j ∧ p.Spelled j) ↔
      ¬ ∃ (p : MinedProof) (j v : Json), Json.parse cs = .ok j ∧ p.Spelled j ∧ j.get? "mining_keys" = some v ∧
        Unlisted v p.payouts) := by
  refine ⟨?_, fun p => parse_eq_ok_iff, fun j => wellShaped_iff, fun hshaped => ?_, fun hnone p => ?_⟩
  · cases parse cs with
    | ok p => exact .inl ⟨p, rfl⟩
    | error fault => exact .inr ⟨fault, rfl⟩
  · rintro ⟨p, j, v, hj, hspelled, hv, hunlisted⟩
    obtain ⟨j', hj', hwell, -⟩ := (hshaped p).1 (parse_eq_ok_iff.2 ⟨j, hj, hspelled⟩)
    obtain rfl := Except.ok.inj (hj.symm.trans hj')
    exact hspelled.not_listed_iff.2 ⟨v, hv, hunlisted⟩ (wellShaped_iff.1 hwell).1
  · rw [parse_eq_ok_iff]
    refine exists_congr fun j => and_congr_right fun hj => ?_
    refine ⟨fun hspelled => ⟨wellShaped_iff.2 ⟨?_, p, hspelled⟩, hspelled⟩, And.right⟩
    by_contra hnot
    obtain ⟨v, hv, hunlisted⟩ := hspelled.not_listed_iff.1 hnot
    exact hnone ⟨p, j, v, hj, hspelled, hv, hunlisted⟩

/-- A proof whose only split does not stand in an array. -/
def loneSplit : Json := .object [
  ("candidate_id", .unsigned 1), ("digest", .array [.unsigned 0, .unsigned 0, .unsigned 0, .unsigned 0]),
  ("generation", .unsigned 4), ("mining_keys", .string "1,1:alice"), ("nonce", .unsigned 2),
  ("proof", .array [.unsigned 1]), ("worker_id", .unsigned 3)]

theorem canonical_loneSplit : Canonical loneSplit := by
  have hkeys : ["candidate_id", "digest", "generation", "mining_keys", "nonce", "proof",
      "worker_id"].Pairwise (· < ·) := by decide
  refine .object hkeys fun m hm => ?_
  simp only [List.mem_cons, List.not_mem_nil, or_false] at hm
  rcases hm with rfl | rfl | rfl | rfl | rfl | rfl | rfl
  · exact .unsigned 1
  · exact Record.canonical_ofElements [0, 0, 0, 0]
  · exact .unsigned 4
  · exact .string "1,1:alice"
  · exact .unsigned 2
  · exact Record.canonical_ofElements [1]
  · exact .unsigned 3

/-- The split is read as if it stood in one. -/
theorem loneSplit_read :
    (∃ p, parse loneSplit.render.toList = .ok p ∧ p.payouts = [{ keys := ["alice"] }]) ∧
    ¬ ∃ j, Json.parse loneSplit.render.toList = .ok j ∧ WellShaped j := by
  have hparse := Json.parse_render canonical_loneSplit
  have hsplit : Payout.parse "1,1:alice" = .ok { keys := ["alice"] } := rfl
  constructor
  · let p : MinedProof :=
      { candidateId := 1, nonce := 2, workerId := 3, generation := 4, body := [1],
        payouts := [{ keys := ["alice"] }] }
    refine ⟨p, parse_eq_ok_iff.2 ⟨_, hparse, ?_⟩, rfl⟩
    exact {
      candidateId := ⟨_, rfl, rfl⟩
      nonce := ⟨_, rfl, rfl⟩
      workerId := ⟨_, rfl, rfl⟩
      generation := ⟨_, rfl, rfl⟩
      digest := ⟨_, rfl, Record.areElements_ofElements p.digest.toList⟩
      body := ⟨_, rfl, Record.areElements_ofElements p.body⟩
      payouts := .cons ⟨_, rfl, hsplit⟩ .nil }
  · rintro ⟨j, hj, hwell⟩
    obtain rfl := Except.ok.inj (hparse.symm.trans hj)
    obtain ⟨items, heq, -⟩ := hwell.payouts (.string "1,1:alice") rfl
    cases heq

end MinedProof
end ProofMiner
