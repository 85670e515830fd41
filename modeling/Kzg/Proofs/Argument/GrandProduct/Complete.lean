import Kzg.Proofs.Argument.GrandProduct
import Kzg.Proofs.Argument.Identity
import Kzg.Proofs.Argument.Quotient
import Kzg.Proofs.Argument.Subgroup
import Kzg.Proofs.Fourier.Product
import Kzg.Proofs.Opening.DerivedWeight
import Kzg.Proofs.Opening.Forms

/-! # Completeness of the grand product

The running product of values that multiply to one is back at its start after the last step, so the
quotient exists and the identity holds at every challenge. If they do not multiply to one, there is
no quotient and the prover fails before it commits to anything. -/

namespace Kzg.GrandProduct

open Finset (range)
open Polynomial
open SetupM (Responds)

section Witness

theorem exists_identity {f t : Coeffs} (h : f.length + t.length - 1 ≤ maxSize) (omega : Fr) :
    ∃ num : Coeffs, identity f t omega = .ok num ∧
      num.toPoly = t.toPoly.comp (C omega * X) - f.toPoly * t.toPoly := by
  refine ⟨_, identity_eq (Coeffs.fitsTransform_of_length_le h) omega, ?_⟩
  rw [Coeffs.toPoly_sub, Coeffs.toPoly_dilate, Coeffs.toPoly_mul]

/-- The polynomials of a witness about `values` on the canonical subgroup of order `2^k`. -/
structure Witness.Certifies (k : Nat) (values : List Fr) (w : Witness) : Prop where
  domain_eq : w.domain = Domain.cyclic (Fr.canonicalRoot k) k
  interpolates_f : w.domain.Interpolates values w.f.toPoly
  interpolates_t :
    w.domain.Interpolates (runningProduct (values.take (w.domain.size - 1))) w.t.toPoly
  start : w.t.eval 1 = 1
  identity : identityPoly w.domain.size w.domain.generator w.f w.t w.q = 0

theorem Witness.Certifies.size_eq {k : Nat} {values : List Fr} {w : Witness}
    (h : w.Certifies k values) : w.domain.size = 2 ^ k := by
  rw [h.domain_eq]
  rfl

/-- Up to the identity polynomial there is nothing that fails on the values of a subgroup. -/
theorem Witness.exists_interpolated {k : Nat} (hk : k ≤ maxLogSize) {values : List Fr}
    (hLength : values.length = 2 ^ k) : ∃ f t : Coeffs,
    f.length = 2 ^ k ∧ t.length = 2 ^ k ∧
    ofValues values = (do
      let num ← GrandProduct.identity f t (Fr.canonicalRoot k)
      let q ← num.divExact (Coeffs.vanishing (2 ^ k))
      return ⟨Domain.cyclic (Fr.canonicalRoot k) k, f, t, q⟩) ∧
    (Domain.cyclic (Fr.canonicalRoot k) k).Interpolates values f.toPoly ∧
    (Domain.cyclic (Fr.canonicalRoot k) k).Interpolates
      (runningProduct (values.take (2 ^ k - 1))) t.toPoly := by
  have hDomain := Domain.built_canonical hk
  have hSize : (Domain.cyclic (Fr.canonicalRoot k) k).size = 2 ^ k := rfl
  obtain ⟨f, hF, hFLength, hFValues, -⟩ := hDomain.exists_interpolate hLength
  obtain ⟨t, hT, hTLength, hTValues, -⟩ :=
    hDomain.exists_interpolate (length_runningProduct_take hLength)
  refine ⟨f, t, hFLength, hTLength, ?_, hFValues, hTValues⟩
  rw [ofValues, hLength, Domain.ofSize_two_pow hk]
  simp only [bind, Except.bind, hF, hSize, hT]
  rfl

variable {k : Nat} (hk : k < maxLogSize) {values : List Fr} (hLength : values.length = 2 ^ k)

include hk hLength

theorem Witness.exists_ofValues : ∃ f t num : Coeffs,
    ofValues values = (do
      let q ← num.divExact (Coeffs.vanishing (2 ^ k))
      return ⟨Domain.cyclic (Fr.canonicalRoot k) k, f, t, q⟩) ∧
    (Domain.cyclic (Fr.canonicalRoot k) k).Interpolates values f.toPoly ∧
    (Domain.cyclic (Fr.canonicalRoot k) k).Interpolates
      (runningProduct (values.take (2 ^ k - 1))) t.toPoly ∧
    num.toPoly = t.toPoly.comp (C (Fr.canonicalRoot k) * X) - f.toPoly * t.toPoly := by
  obtain ⟨f, t, hFLength, hTLength, hRun, hF, hT⟩ := exists_interpolated hk.le hLength
  obtain ⟨num, hNum, hPoly⟩ :=
    exists_identity (length_product_le_maxSize hk hFLength hTLength) (Fr.canonicalRoot k)
  refine ⟨f, t, num, ?_, hF, hT, hPoly⟩
  rw [hRun, hNum]
  rfl

section Interpolated

variable {f t : Coeffs}
  (hF : (Domain.cyclic (Fr.canonicalRoot k) k).Interpolates values f.toPoly)
  (hT : (Domain.cyclic (Fr.canonicalRoot k) k).Interpolates
    (runningProduct (values.take (2 ^ k - 1))) t.toPoly)

include hF hT

theorem carries_of_interpolates :
    RunningProduct.Carries (2 ^ k) (Fr.canonicalRoot k) f.toPoly 1 t.toPoly := by
  have hRoot := Fr.canonicalRoot_primitive hk.le
  refine RunningProduct.carries_of_interpolates hRoot hk.le hLength ?_ hT
  intro i hi
  have hEntry := hF.getElem?_eq (Domain.built_cyclic hk.le hRoot) hi
  rw [eval_one, mul_one, List.getD_eq_getElem?_getD, hEntry]
  rfl

theorem X_pow_sub_one_dvd_iff_prod_eq_one :
    X ^ 2 ^ k - 1 ∣ t.toPoly.comp (C (Fr.canonicalRoot k) * X) - f.toPoly * t.toPoly ↔
      values.prod = 1 := by
  have hDvd := (carries_of_interpolates hk hLength hF hT).X_pow_sub_one_dvd_iff
    (Fr.canonicalRoot_primitive hk.le) (by simp)
  simpa only [mul_one, hF.prod_eval, eval_one, Finset.prod_const_one] using hDvd

end Interpolated

theorem Witness.ofValues_of_prod_eq_one (hProduct : values.prod = 1) :
    ∃ w, ofValues values = .ok w ∧ w.Certifies k values := by
  obtain ⟨f, t, num, hRun, hF, hT, hNum⟩ := exists_ofValues hk hLength
  have hDvd := (X_pow_sub_one_dvd_iff_prod_eq_one hk hLength hF hT).mpr hProduct
  obtain ⟨q, hDivision, hQuotient⟩ :=
    Coeffs.divExact_vanishing_of_dvd (Nat.two_pow_pos k) (hNum ▸ hDvd)
  rw [hDivision] at hRun
  have hStart := (carries_of_interpolates hk hLength hF hT).eval_one (Nat.two_pow_pos k)
  rw [Coeffs.eval_toPoly] at hStart
  exact ⟨_, hRun, rfl, hF, hT, hStart, sub_eq_zero.mpr (hNum.symm.trans hQuotient)⟩

theorem Witness.ofValues_of_prod_ne_one (hProduct : values.prod ≠ 1) :
    ofValues values = .error .nonZeroRemainder := by
  obtain ⟨f, t, num, hRun, hF, hT, hNum⟩ := exists_ofValues hk hLength
  have hDvd := mt (X_pow_sub_one_dvd_iff_prod_eq_one hk hLength hF hT).mp hProduct
  rw [hRun, Coeffs.divExact_vanishing_of_not_dvd (Nat.two_pow_pos k) (hNum ▸ hDvd)]
  rfl

end Witness

section Verify

variable {G1 G2 : Type} [PointGroup G1] [PointGroup G2] [PointCodec G1] [Pairing G1 G2]
  [LawfulPointGroup G1] [LawfulPointGroup G2] [LawfulPointCodec G1] [LawfulPairing G1 G2]
  {setup : PublicSetup G1 G2} {secret : Fr} (hSetup : setup.PublishedFrom secret)
  {k : Nat}

include hSetup

/-- On true openings only the start of the running product and the identity are left to check. -/
theorem verify_exactProof_iff (hk : k ≤ maxLogSize) (f t q : Coeffs) (r : Fr) :
    verify setup (2 ^ k) (f.commitmentAt secret)
        (exactProof (2 ^ k) (Fr.canonicalRoot k) f t q secret r) r = .ok true ↔
      r ^ 2 ^ k ≠ 1 ∧ t.eval 1 = 1 ∧
        HoldsAt r (2 ^ k) (f.eval r) (t.eval r) (t.eval (Fr.canonicalRoot k * r)) (q.eval r) := by
  have hOpenings := verifyOpenings_exactOpenings hSetup.g2Tau_eq (List.cons_ne_nil (t, 1)
    [(t, r), (t, Fr.canonicalRoot k * r), (f, r), (q, r)])
  rw [verify_eq_ok_true_iff]
  constructor
  · rintro ⟨omega, hSubgroup, -, ⟨-, hStart⟩, -, hHolds⟩
    exact ⟨((subgroupFor_eq_ok_iff _ _ _).mp hSubgroup).2, hStart, hHolds⟩
  · rintro ⟨hOutside, hStart, hHolds⟩
    exact ⟨_, subgroupFor_two_pow hk hOutside, ⟨rfl, rfl⟩, ⟨⟨rfl, rfl, rfl, rfl, rfl⟩, hStart⟩,
      hOpenings, hHolds⟩

end Verify

section Complete

variable {G1 G2 : Type} [PointGroup G1] [PointGroup G2] [PointCodec G1] [Pairing G1 G2]

/-- The answer is a proof that the verifier accepts for the commitment to the values, whatever
weight its openings derive. -/
def Accepted (setup : PublicSetup G1 G2) (secret : Fr) (values : List Fr) (r : Fr)
    (answer : Except KzgError (Proof G1)) : Prop :=
  ∃ (proof : Proof G1) (fCommitment : G1), answer = .ok proof ∧
    TrustedSetup.CommitsTo G2 secret values fCommitment ∧
    (∀ weight, (Batch.ofOpenings proof.openings).verifyWith setup weight = .ok true) ∧
    verify setup values.length fCommitment proof r = .ok true

variable [LawfulPointGroup G1] [LawfulPointGroup G2] [LawfulPointCodec G1] [LawfulPairing G1 G2]
  {setup : PublicSetup G1 G2} {secret : Fr} (hSetup : setup.PublishedFrom secret)
  {k : Nat} (hk : k < maxLogSize) {values : List Fr} (hLength : values.length = 2 ^ k) {r : Fr}

include hSetup hk hLength

theorem Witness.Certifies.exists_accepted {w : Witness} (hWitness : w.Certifies k values)
    (hr : r ^ values.length ≠ 1) :
    ∃ proof, Responds (TrustedSetup.Reached secret : TrustedSetup G1 G2 → Prop)
      (openedProof w.domain.size w.domain.generator w.f w.t w.q r) (.ok proof) ∧
        Accepted setup secret values r (.ok proof) := by
  obtain ⟨d, f, t, q⟩ := w
  obtain ⟨rfl, hF, -, hStart, hIdentity⟩ := hWitness
  rw [hLength] at hr
  have hHolds := (eval_identityPoly_eq_zero_iff _ _ f t q r).mp (by rw [hIdentity, eval_zero])
  have hProve := responds_exactProof (TrustedSetup.suppliesPowers G1 G2 secret) (2 ^ k)
    (Fr.canonicalRoot k) f t q r
  refine ⟨_, hProve, _, f.commitmentAt secret, rfl,
    TrustedSetup.commitsTo_of_interpolates G2 secret hk.le hF, ?_, ?_⟩
  · rw [openings_exactProof]
    exact Batch.verifyWith_exactOpenings hSetup.g2Tau_eq (List.cons_ne_nil _ _)
  · rw [hLength]
    exact (verify_exactProof_iff hSetup hk.le f t q r).mpr ⟨hr, hStart, hHolds⟩

/-- The prover fails exactly on values that do not multiply to one and on challenges in the
subgroup, and the verifier accepts all else that it delivers. -/
theorem prove_complete (r : Fr) :
    ∃ answer : Except KzgError (Proof G1),
      Responds (TrustedSetup.Reached secret : TrustedSetup G1 G2 → Prop) (prove values r) answer ∧
      (answer = .error (.poly .nonZeroRemainder) ↔ values.prod ≠ 1) ∧
      (values.prod = 1 →
        (answer = .error .challengeInSubgroup ↔ r ^ values.length = 1) ∧
        (r ^ values.length ≠ 1 → Accepted setup secret values r answer)) := by
  rw [prove_eq_openedProof]
  refine exists_prover_answer ?_ (Witness.ofValues_of_prod_ne_one hk hLength)
  intro hProduct
  obtain ⟨w, hRun, hWitness⟩ := Witness.ofValues_of_prod_eq_one hk hLength hProduct
  have hSize : w.domain.size = values.length := hWitness.size_eq.trans hLength.symm
  exact ⟨w, hRun, hSize, fun hr => hWitness.exists_accepted hSetup hk hLength hr⟩

omit hSetup hk hLength in
/-- Two and its inverse are accepted at three, two and two are not proved. -/
theorem prove_complete_exponent :
    let setup : PublicSetup (Exponent "G1") (Exponent "G2") := PublicSetup.ofPowers 5 0 0
    setup.PublishedFrom 5 ∧
    (∃ answer, Accepted setup 5 [2, 2⁻¹] 3 answer ∧
      Responds (TrustedSetup.Reached 5 : TrustedSetup (Exponent "G1") (Exponent "G2") → Prop)
        (prove [2, 2⁻¹] 3) answer) ∧
    Responds (TrustedSetup.Reached 5 : TrustedSetup (Exponent "G1") (Exponent "G2") → Prop)
      (prove [2, 2] 3 : SetupM _ (Proof (Exponent "G1"))) (.error (.poly .nonZeroRemainder)) := by
  intro setup
  have hSetup : setup.PublishedFrom 5 := PublicSetup.publishedFrom_ofPowers (by decide) 0 0
  have hk : 1 < maxLogSize := by decide
  have hLength (v w : Fr) : [v, w].length = 2 ^ 1 := rfl
  refine ⟨hSetup, ?_, ?_⟩
  · obtain ⟨answer, hRun, -, hComplete⟩ := prove_complete hSetup hk (hLength 2 2⁻¹) 3
    exact ⟨answer, (hComplete (by decide +kernel)).2 (by decide +kernel), hRun⟩
  · obtain ⟨answer, hRun, hProduct, -⟩ := prove_complete hSetup hk (hLength 2 2) 3
    rw [hProduct.mpr (by decide +kernel)] at hRun
    exact hRun

end Complete

end Kzg.GrandProduct
