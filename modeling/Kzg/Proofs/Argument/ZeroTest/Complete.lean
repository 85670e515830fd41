import Kzg.Proofs.Argument.Quotient
import Kzg.Proofs.Argument.ZeroTest
import Kzg.Proofs.Opening.Forms

/-! # Completeness of the zero test

The subgroup of order `m` of a domain of size `n` is every `n/m`-th element. The polynomial through
values on the domain is a multiple of `x^m - 1` exactly if every `n/m`-th value is zero, down to the
trivial subgroup and up to the whole domain. The prover finds the quotient in just these cases, and
the identity then holds at every challenge. -/

namespace Kzg.ZeroTest

open Polynomial
open SetupM (Responds)

section Witness

theorem Witness.ofValues_of_ne {values : List Fr} (h : ∀ k ≤ maxLogSize, values.length ≠ 2 ^ k)
    (order : Nat) : ofValues values order = .error (.domainSize values.length maxSize) := by
  rw [ofValues, Domain.ofSize_of_ne h]
  rfl

variable {k : Nat} (hk : k ≤ maxLogSize) {values : List Fr} (hLength : values.length = 2 ^ k)

include hk hLength

theorem Witness.ofValues_of_not_dvd {order : Nat} (h : ¬ order ∣ values.length) :
    ofValues values order = .error (.notADivisor order values.length) := by
  have hSubgroup : (Domain.cyclic (Fr.canonicalRoot k) k).subgroup order =
      .error (.notADivisor order values.length) := by
    rw [hLength] at h ⊢
    exact Domain.subgroup_of_not_dvd h
  rw [ofValues, hLength, Domain.ofSize_two_pow hk, ← hLength]
  simp only [bind, Except.bind, hSubgroup]

variable {j : Nat} (hj : j ≤ k)

include hj

/-- The elements of the subgroup are the powers of the generator to multiples of the stride. -/
theorem X_pow_sub_one_dvd_iff {root : Fr} (hRoot : IsPrimitiveRoot root (2 ^ k)) {f : Fr[X]}
    (h : (Domain.cyclic root k).Interpolates values f) :
    X ^ 2 ^ j - 1 ∣ f ↔ ∀ i < 2 ^ j, values.getD (i * values.length / 2 ^ j) 0 = 0 := by
  have hStride (i : Nat) : i * values.length / 2 ^ j = i * 2 ^ (k - j) := by
    rw [hLength, Nat.mul_div_assoc i (pow_dvd_pow 2 hj), Nat.pow_div hj two_pos]
  have hValue (i : Nat) (hi : i < 2 ^ j) :
      values.getD (i * values.length / 2 ^ j) 0 = f.eval ((root ^ 2 ^ (k - j)) ^ i) := by
    have hIndex : i * 2 ^ (k - j) < 2 ^ k := by
      calc i * 2 ^ (k - j) < 2 ^ j * 2 ^ (k - j) := Nat.mul_lt_mul_of_pos_right hi (by positivity)
        _ = 2 ^ k := by rw [← pow_add, Nat.add_sub_cancel' hj]
    have hEntry := h.getElem?_eq (Domain.built_cyclic hk hRoot) hIndex
    rw [hStride, List.getD_eq_getElem?_getD, hEntry, ← pow_mul, mul_comm]
    rfl
  rw [Domain.X_pow_sub_one_dvd_iff (Domain.primitiveRoot_subgroup hj hRoot)]
  refine forall₂_congr fun i hi => ?_
  rw [hValue i hi]

theorem Witness.exists_ofValues : ∃ p : Coeffs,
    ofValues values (2 ^ j) = (do
      let q ← p.divExact (Coeffs.vanishing (2 ^ j))
      return ⟨Domain.cyclic (Fr.canonicalRoot k) k, 2 ^ j, p, q⟩) ∧
    (Domain.cyclic (Fr.canonicalRoot k) k).Interpolates values p.toPoly := by
  have hRoot := Fr.canonicalRoot_primitive hk
  obtain ⟨p, hP, -, hValues, -⟩ := (Domain.built_cyclic hk hRoot).exists_interpolate hLength
  refine ⟨p, ?_, hValues⟩
  rw [ofValues, hLength, Domain.ofSize_two_pow hk]
  simp only [bind, Except.bind, Domain.subgroup_cyclic hk hj hRoot, hP]

/-- The polynomials of a witness about the values on the subgroup of an order. -/
structure Witness.Certifies (k order : Nat) (values : List Fr) (w : Witness) : Prop where
  interpolates : (Domain.cyclic (Fr.canonicalRoot k) k).Interpolates values w.p.toPoly
  identity : w.p.toPoly = w.q.toPoly * (X ^ order - 1)

theorem Witness.ofValues_of_vanishing
    (h : ∀ i < 2 ^ j, values.getD (i * values.length / 2 ^ j) 0 = 0) :
    ∃ w, ofValues values (2 ^ j) = .ok w ∧ w.Certifies k (2 ^ j) values := by
  obtain ⟨p, hRun, hValues⟩ := exists_ofValues hk hLength hj
  have hDvd := (X_pow_sub_one_dvd_iff hk hLength hj (Fr.canonicalRoot_primitive hk) hValues).mpr h
  obtain ⟨q, hDivision, hQuotient⟩ := Coeffs.divExact_vanishing_of_dvd (Nat.two_pow_pos j) hDvd
  rw [hDivision] at hRun
  exact ⟨_, hRun, hValues, hQuotient⟩

theorem Witness.ofValues_of_not_vanishing
    (h : ¬ ∀ i < 2 ^ j, values.getD (i * values.length / 2 ^ j) 0 = 0) :
    ofValues values (2 ^ j) = .error .nonZeroRemainder := by
  obtain ⟨p, hRun, hValues⟩ := exists_ofValues hk hLength hj
  have hDvd := mt
    (X_pow_sub_one_dvd_iff hk hLength hj (Fr.canonicalRoot_primitive hk) hValues).mp h
  rw [hRun, Coeffs.divExact_vanishing_of_not_dvd (Nat.two_pow_pos j) hDvd]
  rfl

end Witness

section Complete

variable {G1 G2 : Type} [PointGroup G1] [PointGroup G2] [PointCodec G1] [Pairing G1 G2]

/-- The answer is a proof that the verifier accepts for the commitment to the values. -/
def Accepted (setup : PublicSetup G1 G2) (secret : Fr) (values : List Fr) (order : Nat) (r : Fr)
    (answer : Except KzgError (Proof G1)) : Prop :=
  ∃ (proof : Proof G1) (pCommitment : G1), answer = .ok proof ∧
    TrustedSetup.CommitsTo G2 secret values pCommitment ∧
    verify setup order pCommitment proof r = .ok true

variable [LawfulPointGroup G1] [LawfulPointGroup G2] [LawfulPointCodec G1] [LawfulPairing G1 G2]
  {setup : PublicSetup G1 G2} {secret : Fr} (hSetup : setup.PublishedFrom secret)

include hSetup

theorem Witness.Certifies.exists_accepted {k j : Nat} (hk : k ≤ maxLogSize) (hj : j ≤ k)
    {values : List Fr} {w : Witness} (hWitness : w.Certifies k (2 ^ j) values) {r : Fr}
    (hr : r ^ 2 ^ j ≠ 1) :
    ∃ proof, Responds (TrustedSetup.Reached secret : TrustedSetup G1 G2 → Prop)
      (openedProof (2 ^ j) w.p w.q r) (.ok proof) ∧
        Accepted setup secret values (2 ^ j) r (.ok proof) := by
  have hHolds := holdsAt_of_toPoly_eq hWitness.identity r
  exact ⟨_, responds_openedProof (TrustedSetup.suppliesPowers G1 G2 secret) (2 ^ j) w.p w.q r,
    _, w.p.commitmentAt secret, rfl,
    TrustedSetup.commitsTo_of_interpolates G2 secret hk hWitness.interpolates,
    (verify_exactProof_iff hSetup (hj.trans hk) w.p w.q r).mpr ⟨hr, hHolds⟩⟩

/-- For a subgroup of the canonical domain only the values on it and the challenge matter. -/
theorem exists_answer {k j : Nat} (hk : k ≤ maxLogSize) (hj : j ≤ k) {values : List Fr}
    (hLength : values.length = 2 ^ k) (r : Fr) :
    ∃ answer : Except KzgError (Proof G1),
      Responds (TrustedSetup.Reached secret : TrustedSetup G1 G2 → Prop) (prove values (2 ^ j) r)
        answer ∧
      (answer = .error (.poly .nonZeroRemainder) ↔
        ¬ ∀ i < 2 ^ j, values.getD (i * values.length / 2 ^ j) 0 = 0) ∧
      ((∀ i < 2 ^ j, values.getD (i * values.length / 2 ^ j) 0 = 0) →
        (answer = .error .challengeInSubgroup ↔ r ^ 2 ^ j = 1) ∧
        (r ^ 2 ^ j ≠ 1 → Accepted setup secret values (2 ^ j) r answer)) := by
  rw [prove_eq_openedProof]
  refine exists_prover_answer ?_ (Witness.ofValues_of_not_vanishing hk hLength hj)
  intro hZero
  obtain ⟨w, hRun, hWitness⟩ := Witness.ofValues_of_vanishing hk hLength hj hZero
  exact ⟨w, hRun, rfl, fun hr => hWitness.exists_accepted hSetup hk hj hr⟩

/-- The prover fails with a mismatch of dimensions on a size that no domain has and on an order that
does not divide it. On all others it fails exactly for a value of the stride that is not zero and
for a challenge in the subgroup, and the verifier accepts all else that it delivers. -/
theorem stride_complete (values : List Fr) (order : Nat) (r : Fr) :
    ∃ answer : Except KzgError (Proof G1),
      Responds (TrustedSetup.Reached secret : TrustedSetup G1 G2 → Prop) (prove values order r)
        answer ∧
      ((∀ k ≤ maxLogSize, values.length ≠ 2 ^ k) →
        answer = .error (.poly (.domainSize values.length maxSize))) ∧
      ((∃ k ≤ maxLogSize, values.length = 2 ^ k) →
        (¬ order ∣ values.length →
          answer = .error (.poly (.notADivisor order values.length))) ∧
        (order ∣ values.length →
          (answer = .error (.poly .nonZeroRemainder) ↔
            ∃ i < order, values.getD (i * values.length / order) 0 ≠ 0) ∧
          ((∀ i < order, values.getD (i * values.length / order) 0 = 0) →
            (answer = .error .challengeInSubgroup ↔ r ^ order = 1) ∧
            (r ^ order ≠ 1 → Accepted setup secret values order r answer)))) := by
  by_cases hSize : ∃ k ≤ maxLogSize, values.length = 2 ^ k
  · obtain ⟨k, hk, hLength⟩ := id hSize
    by_cases hDvd : order ∣ values.length
    · rw [hLength] at hDvd
      obtain ⟨j, hj, rfl⟩ := (Nat.dvd_prime_pow Nat.prime_two).mp hDvd
      obtain ⟨answer, hRun, hNonzero, hZero⟩ := exists_answer hSetup hk hj hLength r
      push Not at hNonzero
      refine ⟨answer, hRun, ?_, ?_⟩
      · intro hNone
        exact absurd hLength (hNone k hk)
      · intro _
        exact ⟨fun hNot => absurd (hLength ▸ hDvd) hNot, fun _ => ⟨hNonzero, hZero⟩⟩
    · refine ⟨_, responds_prover_of_error (Witness.ofValues_of_not_dvd hk hLength hDvd), ?_, ?_⟩
      · intro hNone
        exact absurd hLength (hNone k hk)
      · intro _
        exact ⟨fun _ => rfl, fun hDivides => absurd hDivides hDvd⟩
  · have hNone : ∀ k ≤ maxLogSize, values.length ≠ 2 ^ k := by
      intro k hk hLength
      exact hSize ⟨k, hk, hLength⟩
    refine ⟨_, responds_prover_of_error (Witness.ofValues_of_ne hNone order), ?_, ?_⟩
    · intro _
      rfl
    · intro hSome
      exact absurd hSome hSize

omit hSetup in
/-- Of four values the first and the third are zero, those of the subgroup of order two. On the
whole domain the values do not vanish. -/
theorem stride_complete_exponent :
    let setup : PublicSetup (Exponent "G1") (Exponent "G2") := PublicSetup.ofPowers 5 0 0
    let values : List Fr := [0, 3, 0, 8]
    setup.PublishedFrom 5 ∧
    (∃ answer, Accepted setup 5 values 2 3 answer ∧
      Responds (TrustedSetup.Reached 5 : TrustedSetup (Exponent "G1") (Exponent "G2") → Prop)
        (prove values 2 3) answer) ∧
    Responds (TrustedSetup.Reached 5 : TrustedSetup (Exponent "G1") (Exponent "G2") → Prop)
      (prove values 4 3 : SetupM _ (Proof (Exponent "G1"))) (.error (.poly .nonZeroRemainder)) ∧
    Responds (TrustedSetup.Reached 5 : TrustedSetup (Exponent "G1") (Exponent "G2") → Prop)
      (prove values 3 3 : SetupM _ (Proof (Exponent "G1")))
      (.error (.poly (.notADivisor 3 4))) := by
  intro setup values
  have hSetup : setup.PublishedFrom 5 := PublicSetup.publishedFrom_ofPowers (by decide) 0 0
  have hSize : ∃ k ≤ maxLogSize, values.length = 2 ^ k := ⟨2, by decide, rfl⟩
  refine ⟨hSetup, ?_, ?_, ?_⟩
  · obtain ⟨answer, hRun, -, hAnswer⟩ := stride_complete hSetup values 2 3
    have hComplete := ((hAnswer hSize).2 (by decide)).2 (by decide +kernel)
    exact ⟨answer, hComplete.2 (by decide +kernel), hRun⟩
  · obtain ⟨answer, hRun, -, hAnswer⟩ := stride_complete hSetup values 4 3
    rwa [((hAnswer hSize).2 (by decide)).1.mpr ⟨1, by decide, by decide +kernel⟩] at hRun
  · obtain ⟨answer, hRun, -, hAnswer⟩ := stride_complete hSetup values 3 3
    rwa [(hAnswer hSize).1 (by decide)] at hRun

end Complete

end Kzg.ZeroTest
