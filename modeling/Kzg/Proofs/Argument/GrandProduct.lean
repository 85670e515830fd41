import Kzg.Proofs.Argument.RunningProduct
import Kzg.Proofs.Opening.Exact
import Kzg.Argument.GrandProduct

/-! # Soundness of the grand product

If the identity polynomial is zero and the running product starts at one, the recurrence carries it
around the subgroup and the values multiply to one. Otherwise a challenge that passes is a root of
the identity polynomial, whose degree the numbers of coefficients bound. -/

namespace Kzg.GrandProduct

open Finset (range)
open Polynomial
open SetupM (Responds)

section Identity

/-- The polynomial `t(ωx) - f·t - q·(x^order - 1)`. -/
noncomputable def identityPoly (order : Nat) (omega : Fr) (f t q : Coeffs) : Fr[X] :=
  t.toPoly.comp (C omega * X) - f.toPoly * t.toPoly - q.toPoly * (X ^ order - 1)

variable (order : Nat) (omega : Fr) (f t q : Coeffs)

/-- A grand product is carried around the subgroup over the constant one. -/
theorem identityPoly_eq : identityPoly order omega f t q =
    RunningProduct.identityPoly order omega f.toPoly 1 t.toPoly q.toPoly := by
  rw [identityPoly, RunningProduct.identityPoly, mul_one]

theorem eval_identityPoly_eq_zero_iff (r : Fr) :
    (identityPoly order omega f t q).eval r = 0 ↔
      HoldsAt r order (f.eval r) (t.eval r) (t.eval (omega * r)) (q.eval r) := by
  rw [identityPoly_eq, RunningProduct.eval_identityPoly_eq_zero_iff]
  simp only [eval_one, mul_one, Coeffs.eval_toPoly]

theorem natDegree_identityPoly_le :
    (identityPoly order omega f t q).natDegree ≤ f.length + t.length + q.length + order := by
  have hF := f.natDegree_toPoly_le
  have hT := t.natDegree_toPoly_le
  have hQ := q.natDegree_toPoly_le
  have hIdentity : (identityPoly order omega f t q).natDegree ≤ f.toPoly.natDegree +
      (1 : Fr[X]).natDegree + t.toPoly.natDegree + q.toPoly.natDegree + order := by
    rw [identityPoly_eq]
    exact RunningProduct.natDegree_identityPoly_le
  rw [natDegree_one] at hIdentity
  omega

/-- Around the whole subgroup the running product is back at its start. -/
theorem prod_eq_one_of_identity {order : Nat} {omega : Fr} {f t q : Coeffs}
    (hOrder : omega ^ order = 1) (hIdentity : identityPoly order omega f t q = 0)
    (hStart : t.eval 1 = 1) : ∏ i ∈ range order, f.eval (omega ^ i) = 1 := by
  rw [identityPoly_eq] at hIdentity
  have hProduct := RunningProduct.prod_eq_of_identity hOrder hIdentity
    (by rw [Coeffs.eval_toPoly, hStart])
  simpa only [eval_one, Finset.prod_const_one, Coeffs.eval_toPoly, eq_comm] using hProduct

end Identity

section Verify

variable {G1 G2 : Type} [PointGroup G1] [PointGroup G2] [PointCodec G1] [Pairing G1 G2]

theorem verify_eq_ok_true_iff (setup : PublicSetup G1 G2) (order : Nat) (fCommitment : G1)
    (proof : Proof G1) (r : Fr) :
    verify setup order fCommitment proof r = .ok true ↔
      ∃ omega, subgroupFor order r = .ok omega ∧
        (proof.order = order ∧ proof.fCommitment = fCommitment) ∧
        (proof.PlacedAt omega r ∧ proof.tAtOne.value = 1) ∧
        verifyOpenings setup proof.openings = .ok true ∧
        HoldsAt r order proof.fAtR.value proof.tAtR.value proof.tAtOmegaR.value
          proof.qAtR.value := by
  simp only [verify, bind_eq_ok_iff, guard_eq_ok_true_iff, decide_eq_ok_true_iff, exists_passed_iff,
    not_or, not_not, ne_eq]

end Verify

section Prover

variable {S G1 G2 : Type} [PointGroup G1] [SetupSource S G1 G2]

/-- The proof about any three polynomials with their true openings. -/
def openedProof (order : Nat) (omega : Fr) (f t q : Coeffs) (r : Fr) : SetupM S (Proof G1) := do
  return {
    order
    fCommitment := ← commitCoeffs f
    tCommitment := ← commitCoeffs t
    qCommitment := ← commitCoeffs q
    tAtOne := ← openAt t 1
    tAtR := ← openAt t r
    tAtOmegaR := ← openAt t (omega * r)
    fAtR := ← openAt f r
    qAtR := ← openAt q r }

theorem prove_eq_openedProof (values : List Fr) (r : Fr) :
    (prove values r : SetupM S (Proof G1)) = (do
      let w ← Witness.ofValues values
      checkOutsideSubgroup r w.domain.size
      openedProof w.domain.size w.domain.generator w.f w.t w.q r) :=
  rfl

noncomputable def exactProof (order : Nat) (omega : Fr) (f t q : Coeffs) (secret r : Fr) :
    Proof G1 where
  order := order
  fCommitment := f.commitmentAt secret
  tCommitment := t.commitmentAt secret
  qCommitment := q.commitmentAt secret
  tAtOne := t.openingAt secret 1
  tAtR := t.openingAt secret r
  tAtOmegaR := t.openingAt secret (omega * r)
  fAtR := f.openingAt secret r
  qAtR := q.openingAt secret r

theorem openings_exactProof (order : Nat) (omega : Fr) (f t q : Coeffs) (secret r : Fr) :
    (exactProof order omega f t q secret r : Proof G1).openings =
      exactOpenings secret [(t, 1), (t, r), (t, omega * r), (f, r), (q, r)] :=
  rfl

variable [LawfulPointGroup G1] {I : S → Prop} {secret : Fr}
  (hPowers : ∀ capacity, SuppliesPowers I secret capacity) (order : Nat) (omega : Fr)
  (f t q : Coeffs) (r : Fr)

include hPowers

theorem responds_exactProof :
    Responds I (openedProof order omega f t q r : SetupM S (Proof G1))
      (.ok (exactProof order omega f t q secret r)) := by
  have hCommit := responds_commitmentAt hPowers
  have hOpen := responds_openingAt hPowers
  exact (hCommit f).bind ((hCommit t).bind ((hCommit q).bind ((hOpen t 1).bind
    ((hOpen t r).bind ((hOpen t (omega * r)).bind ((hOpen f r).bind ((hOpen q r).bind
      (SetupM.responds_pure _))))))))

theorem responds_openedProof :
    ∃ proof : Proof G1, Responds I (openedProof order omega f t q r : SetupM S (Proof G1))
        (.ok proof) ∧
      proof.tAtOne.value = t.eval 1 ∧ proof.tAtR.value = t.eval r ∧
      proof.tAtOmegaR.value = t.eval (omega * r) ∧ proof.fAtR.value = f.eval r ∧
      proof.qAtR.value = q.eval r :=
  ⟨_, responds_exactProof hPowers order omega f t q r, rfl, rfl, rfl, rfl, rfl⟩

end Prover

/-- A prover that commits to any polynomials, whose openings are all true, passes for few challenges
if the values do not multiply to one. -/
theorem verify_sound {G1 G2 : Type} [PointGroup G1] [PointGroup G2] [PointCodec G1] [Pairing G1 G2]
    [LawfulPointGroup G1] (setup : PublicSetup G1 G2) (secret : Fr) {order : Nat} {omega : Fr}
    (hOmega : Domain.canonicalGenerator order = .ok omega) (f t q : Coeffs)
    (hProduct : ∏ i ∈ range order, f.eval (omega ^ i) ≠ 1) :
    ∃ (fCommitment : G1) (proofAt : Fr → Proof G1),
      Responds (TrustedSetup.Reached secret : TrustedSetup G1 G2 → Prop) (commitCoeffs f)
        (.ok fCommitment) ∧
      (∀ r, Responds (TrustedSetup.Reached secret : TrustedSetup G1 G2 → Prop)
        (openedProof order omega f t q r) (.ok (proofAt r))) ∧
      ∃ bad : Finset Fr, bad.card ≤ f.length + t.length + q.length + order ∧
        ∀ r, verify setup order fCommitment (proofAt r) r = .ok true → r ∈ bad := by
  have hPowers := TrustedSetup.suppliesPowers G1 G2 secret
  choose proofAt hProof hAtOne hAtR hAtOmegaR hFAtR hQAtR using
    fun r => responds_openedProof hPowers order omega f t q r
  refine ⟨_, proofAt, responds_commitCoeffs (hPowers _) le_rfl, hProof, ?_⟩
  obtain ⟨k, hk, rfl, rfl⟩ := (Domain.canonicalGenerator_eq_ok_iff order omega).mp hOmega
  have hOrder := (Fr.canonicalRoot_primitive hk).pow_eq_one
  -- A running product that does not start at one fails for every challenge.
  by_cases hStart : t.eval 1 = 1
  · have hNe : identityPoly (2 ^ k) (Fr.canonicalRoot k) f t q ≠ 0 :=
      fun hIdentity => hProduct (prod_eq_one_of_identity hOrder hIdentity hStart)
    obtain ⟨bad, hCard, hBad⟩ := Coeffs.exists_finset_roots hNe
    refine ⟨bad, hCard.trans (natDegree_identityPoly_le _ _ f t q), ?_⟩
    intro r hr
    obtain ⟨-, -, -, -, -, hHolds⟩ := (verify_eq_ok_true_iff ..).mp hr
    rw [hFAtR, hAtR, hAtOmegaR, hQAtR, ← eval_identityPoly_eq_zero_iff] at hHolds
    exact hBad r hHolds
  · refine ⟨∅, Nat.zero_le _, ?_⟩
    intro r hr
    obtain ⟨-, -, -, ⟨-, hOne⟩, -⟩ := (verify_eq_ok_true_iff ..).mp hr
    rw [hAtOne] at hOne
    exact absurd hOne hStart

/-- The values two and zero of a constant and of no polynomial. -/
theorem verify_sound_exponent :
    Domain.canonicalGenerator 4 = .ok (Fr.canonicalRoot 2) ∧
    ∃ (fCommitment : Exponent "G1") (proofAt : Fr → Proof (Exponent "G1")),
      Responds (TrustedSetup.Reached 2 : TrustedSetup (Exponent "G1") (Exponent "G2") → Prop)
        (commitCoeffs [2]) (.ok fCommitment) ∧
      (∀ r, Responds (TrustedSetup.Reached 2 : TrustedSetup (Exponent "G1") (Exponent "G2") → Prop)
        (openedProof 4 (Fr.canonicalRoot 2) [2] [1] [] r) (.ok (proofAt r))) ∧
      ∃ bad : Finset Fr, bad.card ≤ 1 + 1 + 0 + 4 ∧
        ∀ r, verify (PublicSetup.ofPowers 2 0 0 : PublicSetup _ (Exponent "G2")) 4 fCommitment
          (proofAt r) r = .ok true → r ∈ bad := by
  have hOmega := Domain.canonicalGenerator_two_pow (by decide : 2 ≤ maxLogSize)
  have hProduct : ∏ i ∈ range 4, Coeffs.eval [2] (Fr.canonicalRoot 2 ^ i) ≠ 1 := by
    simp [Coeffs.eval]
    decide
  exact ⟨hOmega, verify_sound (PublicSetup.ofPowers 2 0 0) 2 hOmega [2] [1] [] hProduct⟩

end Kzg.GrandProduct
