import Kzg.Proofs.Opening.Prove
import Kzg.Proofs.Group.Exponent
import Kzg.Opening.Verify

/-! # What a verifier accepts

Verification compares the defect `c - y - q·(τ - z)` of an opening with zero, where `c` and `q` are
the scalars of the commitment and of the proof, on whichever side of the pairing the product with
`z` stands. It fails on points that are not valid, and on nothing else. -/

namespace Kzg

open PointGroup (generator)
open LawfulPointGroup
open SetupM (Responds)

variable {G1 G2 : Type} [PointGroup G1] [PointGroup G2]

theorem checkOpeningPoints_eq_ok_iff (setup : PublicSetup G1 G2) (commitment proof : G1) :
    checkOpeningPoints setup commitment proof = .ok () ↔
      checkPoint commitment = .ok () ∧ checkPoint proof = .ok () ∧
        checkPoint setup.g2Tau = .ok () := by
  rw [checkOpeningPoints, seq_eq_ok_iff, seq_eq_ok_iff]

theorem checkOpeningPoints_smul [LawfulPointGroup G1] [LawfulPointGroup G2]
    {setup : PublicSetup G1 G2} {t : Fr} (hTau : setup.g2Tau = t • generator) (c q : Fr) :
    checkOpeningPoints setup (c • (generator : G1)) (q • generator) = .ok () := by
  rw [checkOpeningPoints_eq_ok_iff, hTau]
  exact ⟨checkPoint_smul c, checkPoint_smul q, checkPoint_smul t⟩

variable [Pairing G1 G2]

/-- A wrong proof is not an error, an invalid point is. -/
theorem exists_verifyValue_eq_ok_iff (setup : PublicSetup G1 G2) (commitment proof : G1)
    (z y : Fr) :
    (∃ v, verifyValue setup commitment proof z y = .ok v) ↔
      checkPoint commitment = .ok () ∧ checkPoint proof = .ok () ∧
        checkPoint setup.g2Tau = .ok () := by
  rw [← checkOpeningPoints_eq_ok_iff]
  constructor
  · rintro ⟨v, h⟩
    rw [verifyValue, seq_eq_ok_iff] at h
    exact h.1
  · intro h
    rw [verifyValue, h]
    exact ⟨_, rfl⟩

variable [LawfulPointGroup G1] [LawfulPointGroup G2] [LawfulPairing G1 G2]

theorem verifyValue_smul {setup : PublicSetup G1 G2} {t : Fr} (hTau : setup.g2Tau = t • generator)
    (c q z y : Fr) :
    verifyValue setup (c • generator) (q • generator) z y =
      .ok (decide (c - y = q * (t - z))) := by
  have hPairing : pairingsEqual (-y • generator + c • generator : G1) (generator : G2)
      (q • generator) (-z • generator + t • generator) = decide (c - y = q * (t - z)) := by
    have h := pairingsEqual_smul_iff G1 G2 (-y + c) 1 q (-z + t)
    rw [one_smul_generator, add_smul_generator, add_smul_generator, mul_one, neg_add_eq_sub,
      neg_add_eq_sub] at h
    rw [Bool.eq_iff_iff, decide_eq_true_eq, h]
  rw [verifyValue, checkOpeningPoints_smul hTau, hTau]
  exact congrArg Except.ok hPairing

theorem verifyValueMoved_smul {setup : PublicSetup G1 G2} {t : Fr}
    (hTau : setup.g2Tau = t • generator) (c q z y : Fr) :
    verifyValueMoved setup (c • generator) (q • generator) z y =
      .ok (decide (c - y = q * (t - z))) := by
  have hPairing : pairingsEqual (q • generator : G1) (t • generator : G2)
      (-y • generator + z • q • generator + c • generator) generator =
        decide (c - y = q * (t - z)) := by
    rw [Bool.eq_iff_iff, decide_eq_true_eq, ← mul_smul_generator, ← add_smul_generator,
      ← add_smul_generator, pairingsEqual_smul_generator_iff]
    constructor
    · intro h
      linear_combination -h
    · intro h
      linear_combination -h
  rw [verifyValueMoved, checkOpeningPoints_smul hTau, hTau]
  exact congrArg Except.ok hPairing

/-- Both arrangements answer with the same defect, and an invalid point stops either of them with
the same error before anything is paired. -/
theorem verifyValueMoved_eq_verifyValue (setup : PublicSetup G1 G2) (commitment proof : G1)
    (z y : Fr) :
    verifyValueMoved setup commitment proof z y = verifyValue setup commitment proof z y := by
  cases hPoints : checkOpeningPoints setup commitment proof with
  | error e =>
    rw [verifyValueMoved, verifyValue, hPoints]
    rfl
  | ok _ =>
    rw [checkOpeningPoints_eq_ok_iff] at hPoints
    obtain ⟨hCommitment, hProof, hTau⟩ := hPoints
    obtain ⟨c, rfl⟩ := (checkPoint_eq_ok_iff commitment).mp hCommitment
    obtain ⟨q, rfl⟩ := (checkPoint_eq_ok_iff proof).mp hProof
    obtain ⟨t, ht⟩ := (checkPoint_eq_ok_iff setup.g2Tau).mp hTau
    rw [verifyValueMoved_smul ht, verifyValue_smul ht]

/-- Any proof passes at the secret when the value is the commitment's own scalar, and none passes
where a point is invalid. -/
theorem verifyValueMoved_eq_verifyValue_exponent :
    let setup : PublicSetup (Exponent "G1") (Exponent "G2") := PublicSetup.ofPowers 2 0 0
    let broken : PublicSetup (Exponent "G1") (Exponent "G2") :=
      ⟨[.valid 1], [.valid 1, .invalid], rfl, rfl, le_rfl⟩
    verifyValueMoved setup (.valid 7) (.valid 9) 2 7 = .ok true ∧
      verifyValueMoved setup (.valid 7) (.valid 9) 1 7 = .ok false ∧
      verifyValueMoved setup .invalid (.valid 9) 2 7 = .error (.offCurve "G1") ∧
      verifyValueMoved broken (.valid 7) (.valid 9) 2 7 = .error (.offCurve "G2") := by
  intro setup broken
  simp only [verifyValueMoved_eq_verifyValue]
  decide +kernel

/-- The values that pass for a commitment and an honest proof lie on a line through the opened
one, whose slope is the value of the quotient at the secret. -/
theorem verifyValue_openAt {setup : PublicSetup G1 G2} {secret : Fr}
    (hSetup : setup.PublishedFrom secret) (p : Coeffs) (z : Fr) :
    ∃ (commitment : G1) (o : Opening G1),
      Responds (TrustedSetup.Reached secret : TrustedSetup G1 G2 → Prop) (commitCoeffs p)
        (.ok commitment) ∧
      Responds (TrustedSetup.Reached secret : TrustedSetup G1 G2 → Prop) (openAt p z) (.ok o) ∧
      (∀ z' y', verifyValue setup commitment o.proof z' y' =
        .ok (decide (y' = p.eval z + (p.quotientAt z).eval secret * (z' - z)))) ∧
      ∀ y', verifyValue setup commitment o.proof z y' = .ok (decide (y' = p.eval z)) := by
  have hPowers := TrustedSetup.suppliesPowers G1 G2 secret p.trim.length
  have hLine (z' y' : Fr) :
      verifyValue setup (p.eval secret • generator)
          ((p.quotientAt z).eval secret • generator) z' y' =
        .ok (decide (y' = p.eval z + (p.quotientAt z).eval secret * (z' - z))) := by
    rw [verifyValue_smul hSetup.g2Tau_eq]
    have hQuotient := p.eval_quotientAt_mul z secret
    congr 2
    rw [eq_iff_iff]
    constructor
    · intro h
      linear_combination -hQuotient - h
    · intro h
      linear_combination -hQuotient - h
  refine ⟨_, _, responds_commitCoeffs hPowers le_rfl,
    responds_openAt hPowers (Nat.sub_le _ _) z, hLine, ?_⟩
  intro y'
  rw [hLine, sub_self, mul_zero, add_zero]

theorem verifyValue_openAt_exponent :
    (PublicSetup.ofPowers 2 0 0 :
      PublicSetup (Exponent "G1") (Exponent "G2")).PublishedFrom 2 ∧
    ∃ (commitment : Exponent "G1") (o : Opening (Exponent "G1")),
      Responds (TrustedSetup.Reached 2 : TrustedSetup (Exponent "G1") (Exponent "G2") → Prop)
        (commitCoeffs [7, 0, 1, 0]) (.ok commitment) ∧
      Responds (TrustedSetup.Reached 2 : TrustedSetup (Exponent "G1") (Exponent "G2") → Prop)
        (openAt [7, 0, 1, 0] 5) (.ok o) ∧
      (∀ z' y', verifyValue (PublicSetup.ofPowers 2 0 0 : PublicSetup _ (Exponent "G2")) commitment
        o.proof z' y' = .ok (decide (y' = Coeffs.eval [7, 0, 1, 0] 5 +
          (Coeffs.quotientAt [7, 0, 1, 0] 5).eval 2 * (z' - 5)))) ∧
      ∀ y', verifyValue (PublicSetup.ofPowers 2 0 0 : PublicSetup _ (Exponent "G2")) commitment
        o.proof 5 y' = .ok (decide (y' = Coeffs.eval [7, 0, 1, 0] 5)) :=
  have hSetup := PublicSetup.publishedFrom_ofPowers (by decide) 0 0
  ⟨hSetup, verifyValue_openAt hSetup [7, 0, 1, 0] 5⟩

end Kzg
