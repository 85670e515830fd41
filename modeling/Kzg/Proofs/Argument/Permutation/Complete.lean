import Kzg.Proofs.Argument.Identity
import Kzg.Proofs.Argument.Permutation.Sound
import Kzg.Proofs.Argument.Quotient
import Kzg.Proofs.Fourier.Product
import Kzg.Proofs.Opening.DerivedWeight
import Kzg.Proofs.Opening.Forms

/-! # Completeness of the permutation provers

Where no row of the second side is zero, the running product of the quotients of the rows is back at
its start exactly if the rows of both sides have the same product, and then the quotient exists and
the identity holds at every challenge. The rows of a side in another order have the same product. -/

namespace Kzg.Permutation

open Finset (range)
open Polynomial
open SetupM (Responds)

section Ratio

variable {rows0 rows1 : List Fr} (hLengths : rows0.length = rows1.length)

include hLengths

theorem ratio_of_zero_mem (h : 0 ∈ rows1) : ratio rows0 rows1 = .error .divisionByZero := by
  have hZero : rows1.any (· = 0) = true := by simpa using h
  rw [ratio, if_neg (not_not.mpr hLengths), hZero]
  rfl

theorem ratio_of_zero_not_mem (h : 0 ∉ rows1) :
    ratio rows0 rows1 = .ok (List.zipWith (· / ·) rows0 rows1) := by
  have hZero : rows1.any (· = 0) = false := by
    rw [List.any_eq_false]
    rintro row hRow hEq
    exact h (of_decide_eq_true hEq ▸ hRow)
  have hQuotients : List.zipWith (· * ·) rows0 (rows1.map (·⁻¹)) =
      List.zipWith (· / ·) rows0 rows1 := by
    rw [List.zipWith_map_right]
    simp only [← div_eq_mul_inv]
  rw [ratio, if_neg (not_not.mpr hLengths), hZero, Fr.invertAll_eq_map, ← hQuotients]
  rfl

end Ratio

section Witness

theorem exists_identity {k : Nat} (hk : k < maxLogSize) {f0 f1 t : Coeffs}
    (h0 : f0.length = 2 ^ k) (h1 : f1.length = 2 ^ k) (ht : t.length = 2 ^ k) (omega : Fr) :
    ∃ num : Coeffs, identity f0 f1 t omega = .ok num ∧
      num.toPoly = t.toPoly.comp (C omega * X) * f1.toPoly - f0.toPoly * t.toPoly := by
  have hNext := length_product_le_maxSize hk ht h1
  have hHere := length_product_le_maxSize hk h0 ht
  refine ⟨_, identity_eq (Coeffs.fitsTransform_of_length_le hNext)
    (Coeffs.fitsTransform_of_length_le hHere) omega, ?_⟩
  rw [Coeffs.toPoly_sub, Coeffs.toPoly_mul, Coeffs.toPoly_mul, Coeffs.toPoly_dilate]

/-- The polynomials of a witness about the rows of both sides on the canonical subgroup of order
`2^k`. -/
structure Witness.Certifies (k : Nat) (rows0 rows1 : List Fr) (w : Witness) : Prop where
  domain_eq : w.domain = Domain.cyclic (Fr.canonicalRoot k) k
  interpolates_f0 : w.domain.Interpolates rows0 w.f0.toPoly
  interpolates_f1 : w.domain.Interpolates rows1 w.f1.toPoly
  interpolates_t : w.domain.Interpolates (runningProduct
    ((List.zipWith (· / ·) rows0 rows1).take (w.domain.size - 1))) w.t.toPoly
  start : w.t.eval 1 = 1
  identity : RunningProduct.identityPoly w.domain.size w.domain.generator w.f0.toPoly w.f1.toPoly
    w.t.toPoly w.q.toPoly = 0

theorem Witness.Certifies.size_eq {k : Nat} {rows0 rows1 : List Fr} {w : Witness}
    (h : w.Certifies k rows0 rows1) : w.domain.size = 2 ^ k := by
  rw [h.domain_eq]
  rfl

theorem Witness.Certifies.holdsAt_self {k : Nat} {rows0 rows1 : List Fr} {w : Witness}
    (h : w.Certifies k rows0 rows1) (r : Fr) : w.HoldsAt r := by
  have hHolds := (RunningProduct.eval_identityPoly_eq_zero_iff r).mp (by rw [h.identity, eval_zero])
  simpa only [Coeffs.eval_toPoly] using hHolds

/-- The identity is about any polynomials through the rows, since there are no others than those of
the witness. -/
theorem Witness.Certifies.holdsAt {k : Nat} (hk : k ≤ maxLogSize) {rows0 rows1 : List Fr}
    {w : Witness} (h : w.Certifies k rows0 rows1) {g0 g1 : Fr[X]}
    (h0 : (Domain.cyclic (Fr.canonicalRoot k) k).Interpolates rows0 g0)
    (h1 : (Domain.cyclic (Fr.canonicalRoot k) k).Interpolates rows1 g1) (r : Fr) :
    Permutation.HoldsAt r (2 ^ k) (g0.eval r) (g1.eval r) (w.t.eval r)
      (w.t.eval (Fr.canonicalRoot k * r)) (w.q.eval r) := by
  have hDomain := Domain.built_canonical hk
  have hHolds := h.holdsAt_self r
  obtain ⟨d, f0, f1, t, q⟩ := w
  obtain ⟨rfl, hF0, hF1, -, -, -⟩ := h
  rw [← hF0.unique hDomain h0, ← hF1.unique hDomain h1, Coeffs.eval_toPoly, Coeffs.eval_toPoly]
  exact hHolds

theorem Witness.ofRows_of_ratio_eq_error {rows0 rows1 : List Fr} {e : PolyError}
    (h : ratio rows0 rows1 = .error e) : ofRows rows0 rows1 = .error e := by
  rw [ofRows, h]
  rfl

variable {k : Nat} {rows0 rows1 : List Fr} (h0 : rows0.length = 2 ^ k) (h1 : rows1.length = 2 ^ k)

include h0 h1

theorem Witness.ofRows_of_zero_mem (h : 0 ∈ rows1) :
    ofRows rows0 rows1 = .error .divisionByZero :=
  ofRows_of_ratio_eq_error (ratio_of_zero_mem (h0.trans h1.symm) h)

/-- Up to the identity polynomial there is nothing else that fails on the rows of a subgroup. -/
theorem Witness.exists_interpolated (hk : k ≤ maxLogSize) (hNe : 0 ∉ rows1) :
    ∃ f0 f1 t : Coeffs, f0.length = 2 ^ k ∧ f1.length = 2 ^ k ∧ t.length = 2 ^ k ∧
    ofRows rows0 rows1 = (do
      let num ← Permutation.identity f0 f1 t (Fr.canonicalRoot k)
      let q ← num.divExact (Coeffs.vanishing (2 ^ k))
      return ⟨Domain.cyclic (Fr.canonicalRoot k) k, f0, f1, t, q⟩) ∧
    (Domain.cyclic (Fr.canonicalRoot k) k).Interpolates rows0 f0.toPoly ∧
    (Domain.cyclic (Fr.canonicalRoot k) k).Interpolates rows1 f1.toPoly ∧
    (Domain.cyclic (Fr.canonicalRoot k) k).Interpolates
      (runningProduct ((List.zipWith (· / ·) rows0 rows1).take (2 ^ k - 1))) t.toPoly := by
  have hDomain := Domain.built_canonical hk
  have hSize : (Domain.cyclic (Fr.canonicalRoot k) k).size = 2 ^ k := rfl
  have hQuotients : (List.zipWith (· / ·) rows0 rows1).length = 2 ^ k := by
    rw [List.length_zipWith, h0, h1, min_self]
  obtain ⟨f0, hF0, hF0Length, hF0Values, -⟩ := hDomain.exists_interpolate h0
  obtain ⟨f1, hF1, hF1Length, hF1Values, -⟩ := hDomain.exists_interpolate h1
  obtain ⟨t, hT, hTLength, hTValues, -⟩ :=
    hDomain.exists_interpolate (length_runningProduct_take hQuotients)
  refine ⟨f0, f1, t, hF0Length, hF1Length, hTLength, ?_, hF0Values, hF1Values, hTValues⟩
  rw [ofRows, ratio_of_zero_not_mem (h0.trans h1.symm) hNe]
  simp only [bind, Except.bind, hQuotients, Domain.ofSize_two_pow hk, hF0, hF1, hSize, hT]
  rfl

variable (hk : k < maxLogSize) (hNe : 0 ∉ rows1)

include hk hNe

theorem Witness.exists_ofRows : ∃ f0 f1 t num : Coeffs,
    ofRows rows0 rows1 = (do
      let q ← num.divExact (Coeffs.vanishing (2 ^ k))
      return ⟨Domain.cyclic (Fr.canonicalRoot k) k, f0, f1, t, q⟩) ∧
    (Domain.cyclic (Fr.canonicalRoot k) k).Interpolates rows0 f0.toPoly ∧
    (Domain.cyclic (Fr.canonicalRoot k) k).Interpolates rows1 f1.toPoly ∧
    (Domain.cyclic (Fr.canonicalRoot k) k).Interpolates
      (runningProduct ((List.zipWith (· / ·) rows0 rows1).take (2 ^ k - 1))) t.toPoly ∧
    num.toPoly =
      t.toPoly.comp (C (Fr.canonicalRoot k) * X) * f1.toPoly - f0.toPoly * t.toPoly := by
  obtain ⟨f0, f1, t, hF0Length, hF1Length, hTLength, hRun, hF0, hF1, hT⟩ :=
    exists_interpolated h0 h1 hk.le hNe
  obtain ⟨num, hNum, hPoly⟩ :=
    exists_identity hk hF0Length hF1Length hTLength (Fr.canonicalRoot k)
  refine ⟨f0, f1, t, num, ?_, hF0, hF1, hT, hPoly⟩
  rw [hRun, hNum]
  rfl

section Interpolated

variable {f0 f1 t : Coeffs}
  (hF0 : (Domain.cyclic (Fr.canonicalRoot k) k).Interpolates rows0 f0.toPoly)
  (hF1 : (Domain.cyclic (Fr.canonicalRoot k) k).Interpolates rows1 f1.toPoly)
  (hT : (Domain.cyclic (Fr.canonicalRoot k) k).Interpolates
    (runningProduct ((List.zipWith (· / ·) rows0 rows1).take (2 ^ k - 1))) t.toPoly)

omit h0 h1 in
include hF1 in
theorem eval_ne_zero_of_interpolates (i : Nat) (hi : i < 2 ^ k) :
    f1.toPoly.eval (Fr.canonicalRoot k ^ i) ≠ 0 := by
  have hEntry := hF1.getElem?_eq (Domain.built_canonical hk.le) hi
  intro hZero
  exact hNe (List.mem_of_getElem? (hEntry.trans (congrArg some hZero)))

include hF0 hF1 hT

theorem carries_of_interpolates :
    RunningProduct.Carries (2 ^ k) (Fr.canonicalRoot k) f0.toPoly f1.toPoly t.toPoly := by
  have hRoot := Fr.canonicalRoot_primitive hk.le
  have hDomain := Domain.built_cyclic hk.le hRoot
  have hQuotients : (List.zipWith (· / ·) rows0 rows1).length = 2 ^ k := by
    rw [List.length_zipWith, h0, h1, min_self]
  refine RunningProduct.carries_of_interpolates hRoot hk.le hQuotients ?_ hT
  intro i hi
  have hEntry0 := hF0.getElem?_eq hDomain hi
  have hEntry1 := hF1.getElem?_eq hDomain hi
  rw [List.getD_eq_getElem?_getD, List.getElem?_zipWith, hEntry0, hEntry1]
  exact div_mul_cancel₀ _ (eval_ne_zero_of_interpolates hk hNe hF1 i hi)

theorem X_pow_sub_one_dvd_iff_prod_eq :
    X ^ 2 ^ k - 1 ∣
        t.toPoly.comp (C (Fr.canonicalRoot k) * X) * f1.toPoly - f0.toPoly * t.toPoly ↔
      rows0.prod = rows1.prod := by
  rw [← hF0.prod_eval, ← hF1.prod_eval]
  exact (carries_of_interpolates h0 h1 hk hNe hF0 hF1 hT).X_pow_sub_one_dvd_iff
    (Fr.canonicalRoot_primitive hk.le) (eval_ne_zero_of_interpolates hk hNe hF1)

end Interpolated

theorem Witness.ofRows_of_prod_eq (hProduct : rows0.prod = rows1.prod) :
    ∃ w, ofRows rows0 rows1 = .ok w ∧ w.Certifies k rows0 rows1 := by
  obtain ⟨f0, f1, t, num, hRun, hF0, hF1, hT, hNum⟩ := exists_ofRows h0 h1 hk hNe
  have hDvd := (X_pow_sub_one_dvd_iff_prod_eq h0 h1 hk hNe hF0 hF1 hT).mpr hProduct
  obtain ⟨q, hDivision, hQuotient⟩ :=
    Coeffs.divExact_vanishing_of_dvd (Nat.two_pow_pos k) (hNum ▸ hDvd)
  rw [hDivision] at hRun
  have hStart := (carries_of_interpolates h0 h1 hk hNe hF0 hF1 hT).eval_one (Nat.two_pow_pos k)
  rw [Coeffs.eval_toPoly] at hStart
  exact ⟨_, hRun, rfl, hF0, hF1, hT, hStart, sub_eq_zero.mpr (hNum.symm.trans hQuotient)⟩

theorem Witness.ofRows_of_prod_ne (hProduct : rows0.prod ≠ rows1.prod) :
    ofRows rows0 rows1 = .error .nonZeroRemainder := by
  obtain ⟨f0, f1, t, num, hRun, hF0, hF1, hT, hNum⟩ := exists_ofRows h0 h1 hk hNe
  have hDvd := mt (X_pow_sub_one_dvd_iff_prod_eq h0 h1 hk hNe hF0 hF1 hT).mp hProduct
  rw [hRun, Coeffs.divExact_vanishing_of_not_dvd (Nat.two_pow_pos k) (hNum ▸ hDvd)]
  rfl

end Witness

section Verify

variable {G1 G2 : Type} [PointGroup G1] [PointGroup G2] [PointCodec G1] [Pairing G1 G2]
  [LawfulPointGroup G1] [LawfulPointGroup G2] [LawfulPointCodec G1] [LawfulPairing G1 G2]
  {setup : PublicSetup G1 G2} {secret : Fr} (hSetup : setup.PublishedFrom secret)

theorem openings_exactProof {G : Type} [PointGroup G] (rows : Rows G) (order : Nat) (omega : Fr)
    (p0 p1 t q : Coeffs) (secret r : Fr) :
    (exactProof rows order omega p0 p1 t q secret r).openings =
      exactOpenings secret [(t, 1), (t, r), (t, omega * r), (p0, r), (p1, r), (q, r)] :=
  rfl

include hSetup

/-- On true openings only the start of the running product and the identity are left to check. -/
theorem verifyRows_exactProof_iff {k : Nat} (hk : k ≤ maxLogSize) (rows : Rows G1)
    (p0 p1 t q : Coeffs) (labels : List (Coeffs × Fr)) (f0 f1 r : Fr) :
    verifyRows setup (2 ^ k) (p0.commitmentAt secret) (p1.commitmentAt secret)
        (exactProof rows (2 ^ k) (Fr.canonicalRoot k) p0 p1 t q secret r)
        (exactOpenings secret labels) f0 f1 r = .ok true ↔
      r ^ 2 ^ k ≠ 1 ∧ t.eval 1 = 1 ∧
        HoldsAt r (2 ^ k) f0 f1 (t.eval r) (t.eval (Fr.canonicalRoot k * r)) (q.eval r) := by
  have hOpenings : verifyOpenings setup (exactOpenings secret labels ++
      (exactProof rows (2 ^ k) (Fr.canonicalRoot k) p0 p1 t q secret r).openings) = .ok true := by
    rw [openings_exactProof, exactOpenings, exactOpenings, ← List.map_append]
    exact verifyOpenings_exactOpenings hSetup.g2Tau_eq (by simp)
  rw [verifyRows_eq_ok_true_iff]
  constructor
  · rintro ⟨omega, hSubgroup, -, ⟨-, hStart⟩, -, hHolds⟩
    exact ⟨((subgroupFor_eq_ok_iff _ _ _).mp hSubgroup).2, hStart, hHolds⟩
  · rintro ⟨hOutside, hStart, hHolds⟩
    exact ⟨_, subgroupFor_two_pow hk hOutside, ⟨rfl, rfl, rfl⟩,
      ⟨⟨rfl, rfl, rfl, rfl, rfl, rfl⟩, hStart⟩, hOpenings, hHolds⟩

end Verify

section Plain

theorem zero_mem_plainRows_iff (p : List Fr) (theta : Fr) : 0 ∈ plainRows p theta ↔ theta ∈ p := by
  simp [plainRows, sub_eq_zero]

theorem length_plainRows (p : List Fr) (theta : Fr) : (plainRows p theta).length = p.length :=
  List.length_map _

variable {G1 G2 : Type} [PointGroup G1] [PointGroup G2] [PointCodec G1] [Pairing G1 G2]

/-- The answer is a proof that the verifier accepts for the commitments to the values of both sides,
whatever weight its openings derive. -/
def PlainAccepted (setup : PublicSetup G1 G2) (secret : Fr) (p0 p1 : List Fr) (theta r : Fr)
    (answer : Except KzgError (Proof G1)) : Prop :=
  ∃ (proof : Proof G1) (p0Commitment p1Commitment : G1), answer = .ok proof ∧
    TrustedSetup.CommitsTo G2 secret p0 p0Commitment ∧
    TrustedSetup.CommitsTo G2 secret p1 p1Commitment ∧
    (∀ weight, (Batch.ofOpenings proof.openings).verifyWith setup weight = .ok true) ∧
    verify setup p0.length p0Commitment p1Commitment proof theta r = .ok true

variable [LawfulPointGroup G1] [LawfulPointGroup G2] [LawfulPointCodec G1] [LawfulPairing G1 G2]
  {setup : PublicSetup G1 G2} {secret : Fr} (hSetup : setup.PublishedFrom secret)
  {k : Nat} (hk : k < maxLogSize) {p0 p1 : List Fr} (h0 : p0.length = 2 ^ k)
  (h1 : p1.length = 2 ^ k) {theta r : Fr}

include hSetup hk h0 h1

theorem Witness.Certifies.exists_plainAccepted {w : Witness}
    (hWitness : w.Certifies k (plainRows p0 theta) (plainRows p1 theta))
    (hr : r ^ p0.length ≠ 1) :
    ∃ proof, Responds (TrustedSetup.Reached secret : TrustedSetup G1 G2 → Prop)
      (do
        let p0 ← w.domain.interpolate p0
        let p1 ← w.domain.interpolate p1
        openedProof .plain w.domain.size w.domain.generator p0 p1 w.t w.q r) (.ok proof) ∧
        PlainAccepted setup secret p0 p1 theta r (.ok proof) := by
  rw [h0] at hr
  have hDomain := Domain.built_canonical hk.le
  obtain ⟨p0Coeffs, hRun0, -, hValues0, -⟩ := hDomain.exists_interpolate h0
  obtain ⟨p1Coeffs, hRun1, -, hValues1, -⟩ := hDomain.exists_interpolate h1
  -- The rows are the values less `θ`, and so are the polynomials through them.
  have hHolds := hWitness.holdsAt hk.le (hValues0.sub_C hDomain theta)
    (hValues1.sub_C hDomain theta) r
  simp only [eval_sub, eval_C, Coeffs.eval_toPoly] at hHolds
  obtain ⟨d, f0, f1, t, q⟩ := w
  obtain rfl : d = Domain.cyclic (Fr.canonicalRoot k) k := hWitness.domain_eq
  have hProve := responds_openedProof (TrustedSetup.suppliesPowers G1 G2 secret) (2 ^ k)
    (Fr.canonicalRoot k) .plain p0Coeffs p1Coeffs t q r
  refine ⟨_, (SetupM.responds_lift_poly hRun0).bind ((SetupM.responds_lift_poly hRun1).bind hProve),
    _, p0Coeffs.commitmentAt secret, p1Coeffs.commitmentAt secret, rfl,
    TrustedSetup.commitsTo_of_interpolates G2 secret hk.le hValues0,
    TrustedSetup.commitsTo_of_interpolates G2 secret hk.le hValues1, ?_, ?_⟩
  · rw [openings_exactProof]
    exact Batch.verifyWith_exactOpenings hSetup.g2Tau_eq (List.cons_ne_nil _ _)
  · rw [h0, verify_eq_ok_true_iff]
    exact ⟨rfl, (verifyRows_exactProof_iff hSetup hk.le .plain p0Coeffs p1Coeffs t q [] _ _ r).mpr
      ⟨hr, hWitness.start, hHolds⟩⟩

/-- Where no row of the second side is zero only the products and the challenge matter. -/
theorem exists_plain_answer (hTheta : theta ∉ p1) (r : Fr) :
    ∃ answer : Except KzgError (Proof G1),
      Responds (TrustedSetup.Reached secret : TrustedSetup G1 G2 → Prop) (prove p0 p1 theta r)
        answer ∧
      (answer = .error (.poly .nonZeroRemainder) ↔
        (plainRows p0 theta).prod ≠ (plainRows p1 theta).prod) ∧
      ((plainRows p0 theta).prod = (plainRows p1 theta).prod →
        (answer = .error .challengeInSubgroup ↔ r ^ p0.length = 1) ∧
        (r ^ p0.length ≠ 1 → PlainAccepted setup secret p0 p1 theta r answer)) := by
  have hRows0 := (length_plainRows p0 theta).trans h0
  have hRows1 := (length_plainRows p1 theta).trans h1
  have hNe := mt (zero_mem_plainRows_iff p1 theta).mp hTheta
  rw [prove_eq_openedProof]
  refine exists_prover_answer ?_ (Witness.ofRows_of_prod_ne hRows0 hRows1 hk hNe)
  intro hProduct
  obtain ⟨w, hRun, hWitness⟩ := Witness.ofRows_of_prod_eq hRows0 hRows1 hk hNe hProduct
  have hSize : w.domain.size = p0.length := hWitness.size_eq.trans h0.symm
  exact ⟨w, hRun, hSize, fun hr => hWitness.exists_plainAccepted hSetup hk h0 h1 hr⟩

/-- The prover fails exactly where a row of the second side is zero, where the rows of the sides
have different products and on challenges in the subgroup. The verifier accepts all else that it
delivers, and so the values of one side in any order on the other. -/
theorem plain_complete (theta r : Fr) :
    ∃ answer : Except KzgError (Proof G1),
      Responds (TrustedSetup.Reached secret : TrustedSetup G1 G2 → Prop) (prove p0 p1 theta r)
        answer ∧
      (answer = .error (.poly .divisionByZero) ↔ theta ∈ p1) ∧
      (theta ∉ p1 →
        (answer = .error (.poly .nonZeroRemainder) ↔
          (p0.map (· - theta)).prod ≠ (p1.map (· - theta)).prod) ∧
        ((p0.map (· - theta)).prod = (p1.map (· - theta)).prod →
          (answer = .error .challengeInSubgroup ↔ r ^ p0.length = 1) ∧
          (r ^ p0.length ≠ 1 → PlainAccepted setup secret p0 p1 theta r answer))) ∧
      (p1.Perm p0 → theta ∉ p1 → r ^ p0.length ≠ 1 →
        PlainAccepted setup secret p0 p1 theta r answer) := by
  by_cases hTheta : theta ∈ p1
  · have hZero := Witness.ofRows_of_zero_mem ((length_plainRows p0 theta).trans h0)
      ((length_plainRows p1 theta).trans h1) ((zero_mem_plainRows_iff p1 theta).mpr hTheta)
    refine ⟨_, responds_prover_of_error hZero, ?_, ?_, ?_⟩
    · simp [hTheta]
    · intro hNot
      exact absurd hTheta hNot
    · intro _ hNot
      exact absurd hTheta hNot
  · obtain ⟨answer, hRun, hNone, hComplete⟩ := exists_plain_answer hSetup hk h0 h1 hTheta r
    refine ⟨answer, hRun, iff_of_false ?_ hTheta, fun _ => ⟨hNone, hComplete⟩, ?_⟩
    · -- It is not one of the three answers that there are.
      rintro rfl
      have hProduct : (plainRows p0 theta).prod = (plainRows p1 theta).prod := by
        simpa using hNone
      obtain ⟨hMem, hAccepted⟩ := hComplete hProduct
      have hOutside : r ^ p0.length ≠ 1 := by
        simpa [KzgError.challengeInSubgroup] using hMem
      obtain ⟨_, _, _, hProof, -⟩ := hAccepted hOutside
      cases hProof
    · intro hPerm _ hr
      exact (hComplete (hPerm.map _).prod_eq.symm).2 hr

omit hSetup hk h0 h1 in
/-- One and two in the other order are accepted with `θ = 5`. With `θ = 2` a row is zero. -/
theorem plain_complete_exponent :
    let setup : PublicSetup (Exponent "G1") (Exponent "G2") := PublicSetup.ofPowers 7 0 0
    setup.PublishedFrom 7 ∧
    (∃ answer, PlainAccepted setup 7 [1, 2] [2, 1] 5 3 answer ∧
      Responds (TrustedSetup.Reached 7 : TrustedSetup (Exponent "G1") (Exponent "G2") → Prop)
        (prove [1, 2] [2, 1] 5 3) answer) ∧
    Responds (TrustedSetup.Reached 7 : TrustedSetup (Exponent "G1") (Exponent "G2") → Prop)
      (prove [1, 2] [2, 1] 2 3 : SetupM _ (Proof (Exponent "G1")))
      (.error (.poly .divisionByZero)) := by
  intro setup
  have hSetup : setup.PublishedFrom 7 := PublicSetup.publishedFrom_ofPowers (by decide) 0 0
  have hk : 1 < maxLogSize := by decide
  have hLength (v w : Fr) : [v, w].length = 2 ^ 1 := rfl
  refine ⟨hSetup, ?_, ?_⟩
  · obtain ⟨answer, hRun, -, -, hComplete⟩ :=
      plain_complete hSetup hk (hLength 1 2) (hLength 2 1) 5 3
    exact ⟨answer, hComplete (.swap 1 2 []) (by decide +kernel) (by decide +kernel), hRun⟩
  · obtain ⟨answer, hRun, hTheta, -⟩ :=
      plain_complete hSetup hk (hLength 1 2) (hLength 2 1) 2 3
    rw [hTheta.mpr (by decide +kernel)] at hRun
    exact hRun

end Plain

end Kzg.Permutation
