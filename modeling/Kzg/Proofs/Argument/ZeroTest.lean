import Kzg.Proofs.Argument.RunningProduct
import Kzg.Proofs.Argument.Subgroup
import Kzg.Proofs.Opening.Exact
import Kzg.Proofs.Opening.DerivedWeight
import Kzg.Argument.ZeroTest

/-! # Soundness of the zero test

On true openings the verifier answers whether `p = q·(x^m - 1)` at the challenge. If that is an
identity of polynomials it always does; if `p` does not vanish on the subgroup it is not one, and
the challenges that pass are roots of the difference. -/

namespace Kzg.ZeroTest

open Polynomial
open SetupM (Responds)

section Identity

noncomputable def identityPoly (order : Nat) (p q : Coeffs) : Fr[X] :=
  p.toPoly - q.toPoly * (X ^ order - 1)

variable {order : Nat} {p q : Coeffs}

theorem eval_identityPoly_eq_zero_iff (r : Fr) :
    (identityPoly order p q).eval r = 0 ↔ HoldsAt r order (p.eval r) (q.eval r) := by
  simp only [identityPoly, eval_sub, eval_mul, eval_pow, eval_X, eval_one, Coeffs.eval_toPoly,
    HoldsAt, vanishingAt, sub_eq_zero]

theorem holdsAt_of_toPoly_eq (h : p.toPoly = q.toPoly * (X ^ order - 1)) (r : Fr) :
    HoldsAt r order (p.eval r) (q.eval r) := by
  rw [← eval_identityPoly_eq_zero_iff, identityPoly, h, sub_self, eval_zero]

theorem natDegree_identityPoly_le :
    (identityPoly order p q).natDegree ≤ p.length + q.length + order := by
  have hP := p.natDegree_toPoly_le
  have hQ := q.natDegree_toPoly_le
  have hQuotient := RunningProduct.natDegree_mul_X_pow_sub_one_le q.toPoly order
  have hDifference := natDegree_sub_le p.toPoly (q.toPoly * (X ^ order - 1))
  rw [identityPoly]
  omega

theorem identityPoly_ne_zero {h : Fr} (hRoot : h ^ order = 1) (hValue : p.eval h ≠ 0) :
    identityPoly order p q ≠ 0 := by
  intro hZero
  have hHolds := (eval_identityPoly_eq_zero_iff h).mp (by rw [hZero, eval_zero])
  rw [HoldsAt, (vanishingAt_eq_zero_iff h order).mpr hRoot, mul_zero] at hHolds
  exact hValue hHolds

end Identity

section Verify

variable {G1 G2 : Type} [PointGroup G1] [PointGroup G2] [PointCodec G1] [Pairing G1 G2]

theorem verify_eq_ok_true_iff (setup : PublicSetup G1 G2) (order : Nat) (pCommitment : G1)
    (proof : Proof G1) (r : Fr) :
    verify setup order pCommitment proof r = .ok true ↔
      ∃ omega, subgroupFor order r = .ok omega ∧
        (proof.order = order ∧ proof.pCommitment = pCommitment) ∧ proof.PlacedAt r ∧
        verifyOpenings setup proof.openings = .ok true ∧
        HoldsAt r order proof.pAtR.value proof.qAtR.value := by
  simp only [verify, bind_eq_ok_iff, guard_eq_ok_true_iff, decide_eq_ok_true_iff, exists_passed_iff,
    not_or, not_not, ne_eq]

end Verify

section Prover

variable {S G1 G2 : Type} [PointGroup G1] [SetupSource S G1 G2]

/-- The proof about any two polynomials with their true openings. -/
def openedProof (order : Nat) (p q : Coeffs) (r : Fr) : SetupM S (Proof G1) := do
  return {
    order
    pCommitment := ← commitCoeffs p
    qCommitment := ← commitCoeffs q
    pAtR := ← openAt p r
    qAtR := ← openAt q r }

theorem prove_eq_openedProof (values : List Fr) (order : Nat) (r : Fr) :
    (prove values order r : SetupM S (Proof G1)) = (do
      let w ← Witness.ofValues values order
      checkOutsideSubgroup r order
      openedProof order w.p w.q r) :=
  rfl

noncomputable def exactProof (order : Nat) (p q : Coeffs) (secret r : Fr) : Proof G1 where
  order := order
  pCommitment := p.commitmentAt secret
  qCommitment := q.commitmentAt secret
  pAtR := p.openingAt secret r
  qAtR := q.openingAt secret r

theorem responds_openedProof [LawfulPointGroup G1] {I : S → Prop} {secret : Fr}
    (hPowers : ∀ capacity, SuppliesPowers I secret capacity) (order : Nat) (p q : Coeffs) (r : Fr) :
    Responds I (openedProof order p q r : SetupM S (Proof G1))
      (.ok (exactProof order p q secret r)) :=
  (responds_commitmentAt hPowers p).bind ((responds_commitmentAt hPowers q).bind
    ((responds_openingAt hPowers p r).bind ((responds_openingAt hPowers q r).bind
      (SetupM.responds_pure _))))

end Prover

section Exact

variable {G1 G2 : Type} [PointGroup G1] [PointGroup G2] [PointCodec G1] [Pairing G1 G2]
  [LawfulPointGroup G1] [LawfulPointGroup G2] [LawfulPointCodec G1] [LawfulPairing G1 G2]

theorem verify_exactProof_iff {setup : PublicSetup G1 G2} {secret : Fr}
    (hSetup : setup.PublishedFrom secret) {k : Nat} (hk : k ≤ maxLogSize) (p q : Coeffs) (r : Fr) :
    verify setup (2 ^ k) (p.commitmentAt secret) (exactProof (2 ^ k) p q secret r) r = .ok true ↔
      r ^ 2 ^ k ≠ 1 ∧ HoldsAt r (2 ^ k) (p.eval r) (q.eval r) := by
  have hOpenings := verifyOpenings_exactOpenings hSetup.g2Tau_eq
    (List.cons_ne_nil (p, r) [(q, r)])
  rw [verify_eq_ok_true_iff]
  constructor
  · rintro ⟨omega, hSubgroup, -, -, -, hHolds⟩
    exact ⟨((subgroupFor_eq_ok_iff _ _ _).mp hSubgroup).2, hHolds⟩
  · rintro ⟨hOutside, hHolds⟩
    exact ⟨_, subgroupFor_two_pow hk hOutside, ⟨rfl, rfl⟩, ⟨rfl, rfl⟩, hOpenings, hHolds⟩

/-- True openings of a polynomial that does not vanish on the subgroup pass for few challenges, and
those of a multiple of `x^m - 1` with its quotient pass for all that are outside of the subgroup. -/
theorem sound_and_complete {setup : PublicSetup G1 G2} {secret : Fr}
    (hSetup : setup.PublishedFrom secret) {k : Nat} (hk : k ≤ maxLogSize) (p q : Coeffs) :
    ∃ (pCommitment : G1) (proofAt : Fr → Proof G1),
      Responds (TrustedSetup.Reached secret : TrustedSetup G1 G2 → Prop) (commitCoeffs p)
        (.ok pCommitment) ∧
      (∀ r, Responds (TrustedSetup.Reached secret : TrustedSetup G1 G2 → Prop)
        (openedProof (2 ^ k) p q r) (.ok (proofAt r))) ∧
      ((∃ h : Fr, h ^ 2 ^ k = 1 ∧ p.eval h ≠ 0) →
        ∃ bad : Finset Fr, bad.card ≤ p.length + q.length + 2 ^ k ∧
          ∀ r, verify setup (2 ^ k) pCommitment (proofAt r) r = .ok true → r ∈ bad) ∧
      (p.toPoly = q.toPoly * (X ^ 2 ^ k - 1) →
        ∀ r, r ^ 2 ^ k ≠ 1 → verify setup (2 ^ k) pCommitment (proofAt r) r = .ok true) := by
  have hPowers := TrustedSetup.suppliesPowers G1 G2 secret
  have hVerify := verify_exactProof_iff hSetup hk p q
  refine ⟨_, exactProof (2 ^ k) p q secret, responds_commitmentAt hPowers p,
    responds_openedProof hPowers (2 ^ k) p q, ?_, ?_⟩
  · rintro ⟨h, hRoot, hValue⟩
    obtain ⟨bad, hCard, hBad⟩ := Coeffs.exists_finset_roots (identityPoly_ne_zero hRoot hValue)
    refine ⟨bad, hCard.trans natDegree_identityPoly_le, ?_⟩
    intro r hr
    exact hBad r ((eval_identityPoly_eq_zero_iff r).mpr ((hVerify r).mp hr).2)
  · intro hIdentity r hr
    refine (hVerify r).mpr ⟨hr, (eval_identityPoly_eq_zero_iff r).mp ?_⟩
    rw [identityPoly, hIdentity, sub_self, eval_zero]

/-- The polynomial `x` does not vanish at one; `x² - 1` is a multiple of itself. -/
theorem sound_and_complete_exponent :
    let setup : PublicSetup (Exponent "G1") (Exponent "G2") := PublicSetup.ofPowers 2 0 0
    (∃ (pCommitment : Exponent "G1") (proofAt : Fr → Proof (Exponent "G1")) (bad : Finset Fr),
      (∀ r, Responds
        (TrustedSetup.Reached 2 : TrustedSetup (Exponent "G1") (Exponent "G2") → Prop)
        (openedProof 2 [0, 1] [5] r) (.ok (proofAt r))) ∧
      bad.card ≤ 2 + 1 + 2 ∧
        ∀ r, verify setup 2 pCommitment (proofAt r) r = .ok true → r ∈ bad) ∧
    ∃ (pCommitment : Exponent "G1") (proofAt : Fr → Proof (Exponent "G1")),
      (∀ r, Responds
        (TrustedSetup.Reached 2 : TrustedSetup (Exponent "G1") (Exponent "G2") → Prop)
        (openedProof 2 [-1, 0, 1] [1] r) (.ok (proofAt r))) ∧
      verify setup 2 pCommitment (proofAt 3) 3 = .ok true := by
  intro setup
  have hSetup : setup.PublishedFrom 2 := PublicSetup.publishedFrom_ofPowers (by decide) 0 0
  have hk : 1 ≤ maxLogSize := by decide
  constructor
  · obtain ⟨c, proofAt, -, hProof, hSound, -⟩ := sound_and_complete hSetup hk [0, 1] [5]
    obtain ⟨bad, hCard, hBad⟩ := hSound ⟨1, one_pow _, by decide +kernel⟩
    exact ⟨c, proofAt, bad, hProof, hCard, hBad⟩
  · obtain ⟨c, proofAt, -, hProof, -, hComplete⟩ := sound_and_complete hSetup hk [-1, 0, 1] [1]
    refine ⟨c, proofAt, hProof, hComplete ?_ 3 (by decide +kernel)⟩
    simp [sub_eq_add_neg, sq]

end Exact

end Kzg.ZeroTest
