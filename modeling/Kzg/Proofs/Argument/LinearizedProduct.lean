import Kzg.Proofs.Coefficients.Evaluation
import Kzg.Proofs.Opening.DerivedWeight
import Kzg.Argument.LinearizedProduct

/-! # What a linearized product shows

The linearization takes the value `p1(ζ)` at `ζ` exactly if `μ·(p1(ζ)·p2(ζ) - q(ζ))` is zero, and
otherwise the prover finds no quotient. Its commitment is the same combination of the commitments as
it is of the polynomials, whatever their lengths. So the batch of a proof with another third
commitment has one defect, the difference at the secret of the two third polynomials times `μ`. -/

namespace Kzg.LinearizedProduct

open PointGroup (generator)
open SetupM (Responds)

section Linearization

theorem eval_linearization (p1 p2 q : Coeffs) (y1 mu x : Fr) :
    (linearization p1 p2 q y1 mu).eval x = mu * (y1 * p2.eval x - q.eval x) + p1.eval x := by
  rw [linearization, Coeffs.eval_add, Coeffs.eval_scaleBy, Coeffs.eval_sub, Coeffs.eval_scaleBy]
  ring

theorem eval_linearization_eq_iff (p1 p2 q : Coeffs) (zeta mu : Fr) :
    (linearization p1 p2 q (p1.eval zeta) mu).eval zeta = p1.eval zeta ↔
      mu * (p1.eval zeta * p2.eval zeta - q.eval zeta) = 0 := by
  rw [eval_linearization, add_eq_right]

variable {G : Type} [PointGroup G] [LawfulPointGroup G]

/-- The commitments are combined as the polynomials are. -/
theorem commitmentAt_linearization (p1 p2 q : Coeffs) (y1 mu secret : Fr) :
    (mu • (y1 • p2.commitmentAt secret - q.commitmentAt secret) + p1.commitmentAt secret : G) =
      (linearization p1 p2 q y1 mu).commitmentAt secret := by
  simp only [Coeffs.commitmentAt, eval_linearization, LawfulPointGroup.add_smul_generator,
    LawfulPointGroup.mul_smul_generator, LawfulPointGroup.sub_smul_generator]

end Linearization

/-- The proof with another third commitment. -/
def Proof.withProduct {G : Type} (proof : Proof G) (c : G) : Proof G where
  p1Commitment := proof.p1Commitment
  p2Commitment := proof.p2Commitment
  qCommitment := c
  p1AtZeta := proof.p1AtZeta
  kAtZeta := proof.kAtZeta

section Verify

variable {G1 G2 : Type} [PointGroup G1] [PointGroup G2] [PointCodec G1] [Pairing G1 G2]

theorem verify_eq_ok_true_iff (setup : PublicSetup G1 G2)
    (p1Commitment p2Commitment qCommitment : G1) (proof : Proof G1) (zeta mu : Fr) :
    verify setup p1Commitment p2Commitment qCommitment proof zeta mu = .ok true ↔
      checkPoint proof.p2Commitment = .ok () ∧ checkPoint proof.qCommitment = .ok () ∧
        (proof.p1Commitment = p1Commitment ∧ proof.p2Commitment = p2Commitment ∧
          proof.qCommitment = qCommitment) ∧
        proof.PlacedAt zeta ∧ verifyOpenings setup (proof.openings mu) = .ok true := by
  rw [verify, seq_eq_ok_iff, seq_eq_ok_iff]
  simp only [guard_eq_ok_true_iff, not_or, not_not, ne_eq]

end Verify

section Prover

/-- The commitments to the three polynomials, with the true openings of the first one and of the
linearization. -/
noncomputable def exactProof {G : Type} [PointGroup G] (p1 p2 q : Coeffs) (secret zeta mu : Fr) :
    Proof G where
  p1Commitment := p1.commitmentAt secret
  p2Commitment := p2.commitmentAt secret
  qCommitment := q.commitmentAt secret
  p1AtZeta := p1.openingAt secret zeta
  kAtZeta := (linearization p1 p2 q (p1.eval zeta) mu).openingAt secret zeta

variable {S G1 G2 : Type} [PointGroup G1] [SetupSource S G1 G2] {I : S → Prop}
  {p1 p2 q : Coeffs} {zeta mu : Fr}

theorem responds_prove_of_ne (h : mu * (p1.eval zeta * p2.eval zeta - q.eval zeta) ≠ 0) :
    Responds I (prove p1 p2 q zeta mu : SetupM S (Proof G1)) (.error (.poly .nonZeroRemainder)) :=
  (responds_proveValue_of_ne (mt (eval_linearization_eq_iff p1 p2 q zeta mu).mp h)).bind_error _

theorem responds_prove [LawfulPointGroup G1] {secret : Fr}
    (hPowers : ∀ capacity, SuppliesPowers I secret capacity)
    (h : mu * (p1.eval zeta * p2.eval zeta - q.eval zeta) = 0) :
    Responds I (prove p1 p2 q zeta mu : SetupM S (Proof G1))
      (.ok (exactProof p1 p2 q secret zeta mu)) := by
  have hValue := (eval_linearization_eq_iff p1 p2 q zeta mu).mpr h
  have hK := responds_proveValue (hPowers _)
    (le_refl (linearization p1 p2 q (p1.eval zeta) mu).degree) zeta
  rw [exactProof, Coeffs.openingAt, Coeffs.openingAt]
  rw [hValue] at hK ⊢
  exact hK.bind ((responds_commitmentAt hPowers p1).bind ((responds_commitmentAt hPowers p2).bind
    ((responds_commitmentAt hPowers q).bind ((responds_proveValue (hPowers _) le_rfl zeta).bind
      (SetupM.responds_pure _)))))

end Prover

section Exact

variable {G1 G2 : Type} [PointGroup G1] [PointGroup G2] [PointCodec G1] [Pairing G1 G2]
  [LawfulPointGroup G1] [LawfulPointGroup G2] [LawfulPointCodec G1] [LawfulPairing G1 G2]

omit [PointCodec G1] [LawfulPointCodec G1] in
/-- The opening is that of the linearization with `q`, the commitment of the one with `q'`. -/
theorem openings_withProduct (p1 p2 q q' : Coeffs) (secret zeta mu : Fr) :
    ((exactProof p1 p2 q secret zeta mu).withProduct (q'.commitmentAt secret : G1)).openings mu =
      [p1.claimAt secret zeta (p1.eval secret),
        (linearization p1 p2 q (p1.eval zeta) mu).claimAt secret zeta
          ((linearization p1 p2 q' (p1.eval zeta) mu).eval secret)].map liftClaim := by
  have hCommitment := commitmentAt_linearization (G := G1) p1 p2 q' (p1.eval zeta) mu secret
  rw [Proof.openings, Proof.kCommitment]
  exact congrArg (fun c => [(p1.commitmentAt secret, p1.openingAt secret zeta),
    (c, (linearization p1 p2 q (p1.eval zeta) mu).openingAt secret zeta)]) hCommitment

theorem eval_defects (p1 p2 q q' : Coeffs) (secret zeta mu c : Fr) :
    Coeffs.eval ([p1.claimAt secret zeta (p1.eval secret),
        (linearization p1 p2 q (p1.eval zeta) mu).claimAt secret zeta
          ((linearization p1 p2 q' (p1.eval zeta) mu).eval secret)].map (defect secret)) c =
      -(mu * (q'.eval secret - q.eval secret)) * c := by
  simp only [List.map_cons, List.map_nil, defect_claimAt, eval_linearization, Coeffs.eval_cons,
    Coeffs.eval_nil]
  ring

/-- The batch is right but for the difference of the two third polynomials, which the weight may
hide. -/
theorem verify_withProduct {setup : PublicSetup G1 G2} {secret : Fr}
    (hSetup : setup.PublishedFrom secret) {p1 p2 q : Coeffs} (q' : Coeffs) {zeta mu : Fr}
    (h : mu * (p1.eval zeta * p2.eval zeta - q.eval zeta) = 0) :
    verify setup (p1.commitmentAt secret) (p2.commitmentAt secret) (q'.commitmentAt secret)
        ((exactProof p1 p2 q secret zeta mu).withProduct (q'.commitmentAt secret)) zeta mu =
          .ok true ↔
      mu * (q'.eval secret - q.eval secret) = 0 ∨
        (Batch.ofOpenings (((exactProof p1 p2 q secret zeta mu).withProduct
          (q'.commitmentAt secret : G1)).openings mu)).challenge = .ok 0 := by
  have hValue := (eval_linearization_eq_iff p1 p2 q zeta mu).mpr h
  obtain ⟨c, hChallenge, hOpenings⟩ := verifyOpenings_liftClaim hSetup.g2Tau_eq
    (List.cons_ne_nil (p1.claimAt secret zeta (p1.eval secret))
      [(linearization p1 p2 q (p1.eval zeta) mu).claimAt secret zeta
        ((linearization p1 p2 q' (p1.eval zeta) mu).eval secret)])
  rw [← openings_withProduct] at hChallenge hOpenings
  rw [eval_defects, mul_eq_zero, neg_eq_zero] at hOpenings
  rw [hChallenge, Except.ok.injEq, ← hOpenings, verify_eq_ok_true_iff]
  constructor
  · rintro ⟨-, -, -, -, hBatch⟩
    exact hBatch
  · intro hBatch
    exact ⟨LawfulPointGroup.checkPoint_smul _, LawfulPointGroup.checkPoint_smul _,
      ⟨rfl, rfl, rfl⟩, ⟨rfl, rfl, hValue⟩, hBatch⟩

/-- The prover succeeds exactly if the product holds at `ζ` or `μ` is zero. What it delivers is
accepted, and so it is after `q` is replaced, in the proof and in the statement, by a polynomial
with the same value at the secret. -/
theorem linearized_complete {setup : PublicSetup G1 G2} {secret : Fr}
    (hSetup : setup.PublishedFrom secret) (p1 p2 q : Coeffs) (zeta mu : Fr) :
    ∃ answer : Except KzgError (Proof G1),
      Responds (TrustedSetup.Reached secret : TrustedSetup G1 G2 → Prop) (prove p1 p2 q zeta mu)
        answer ∧
      ((∃ proof, answer = .ok proof) ↔
        mu * (p1.eval zeta * p2.eval zeta - q.eval zeta) = 0) ∧
      ((¬ ∃ proof, answer = .ok proof) → answer = .error (.poly .nonZeroRemainder)) ∧
      ∃ c1 c2 : G1,
        Responds (TrustedSetup.Reached secret : TrustedSetup G1 G2 → Prop) (commitCoeffs p1)
          (.ok c1) ∧
        Responds (TrustedSetup.Reached secret : TrustedSetup G1 G2 → Prop) (commitCoeffs p2)
          (.ok c2) ∧
        ∀ proof, answer = .ok proof →
          (∃ c, Responds (TrustedSetup.Reached secret : TrustedSetup G1 G2 → Prop)
            (commitCoeffs q) (.ok c) ∧ verify setup c1 c2 c proof zeta mu = .ok true) ∧
          ∀ q', ∃ c', Responds (TrustedSetup.Reached secret : TrustedSetup G1 G2 → Prop)
            (commitCoeffs q') (.ok c') ∧
            (verify setup c1 c2 c' (proof.withProduct c') zeta mu = .ok true ↔
              mu * (q'.eval secret - q.eval secret) = 0 ∨
              (Batch.ofOpenings ((proof.withProduct c').openings mu)).challenge = .ok 0) := by
  have hPowers := TrustedSetup.suppliesPowers G1 G2 secret
  by_cases hHolds : mu * (p1.eval zeta * p2.eval zeta - q.eval zeta) = 0
  · refine ⟨_, responds_prove hPowers hHolds, ?_, ?_, p1.commitmentAt secret,
      p2.commitmentAt secret, responds_commitmentAt hPowers p1, responds_commitmentAt hPowers p2,
      ?_⟩
    · simp [hHolds]
    · simp
    · rintro proof hProof
      cases hProof
      constructor
      · refine ⟨_, responds_commitmentAt hPowers q, ?_⟩
        exact (verify_withProduct hSetup q hHolds).mpr (.inl (by rw [sub_self, mul_zero]))
      · intro q'
        exact ⟨_, responds_commitmentAt hPowers q', verify_withProduct hSetup q' hHolds⟩
  · refine ⟨_, responds_prove_of_ne hHolds, ?_, ?_, p1.commitmentAt secret,
      p2.commitmentAt secret, responds_commitmentAt hPowers p1, responds_commitmentAt hPowers p2,
      ?_⟩
    · simp [hHolds]
    · simp
    · rintro proof hProof
      cases hProof

/-- For `x` and `x` the product `x²` is proved and `x³` is not. At the secret seven `x²` has the
value 49, and the proof is also one for this constant. -/
theorem linearized_complete_exponent :
    let setup : PublicSetup (Exponent "G1") (Exponent "G2") := PublicSetup.ofPowers 7 0 0
    setup.PublishedFrom 7 ∧
    (∃ (proof : Proof (Exponent "G1")) (c1 c2 c c' : Exponent "G1"),
      Responds (TrustedSetup.Reached 7 : TrustedSetup (Exponent "G1") (Exponent "G2") → Prop)
        (prove [0, 1] [0, 1] [0, 0, 1] 5 3) (.ok proof) ∧
      verify setup c1 c2 c proof 5 3 = .ok true ∧
      Responds (TrustedSetup.Reached 7 : TrustedSetup (Exponent "G1") (Exponent "G2") → Prop)
        (commitCoeffs [49]) (.ok c') ∧
      verify setup c1 c2 c' (proof.withProduct c') 5 3 = .ok true) ∧
    Responds (TrustedSetup.Reached 7 : TrustedSetup (Exponent "G1") (Exponent "G2") → Prop)
      (prove [0, 1] [0, 1] [0, 0, 0, 1] 5 3 : SetupM _ (Proof (Exponent "G1")))
      (.error (.poly .nonZeroRemainder)) := by
  intro setup
  have hSetup : setup.PublishedFrom 7 := PublicSetup.publishedFrom_ofPowers (by decide) 0 0
  refine ⟨hSetup, ?_, ?_⟩
  · obtain ⟨answer, hRun, hSucceeds, -, c1, c2, -, -, hAccepted⟩ :=
      linearized_complete hSetup [0, 1] [0, 1] [0, 0, 1] 5 3
    obtain ⟨proof, rfl⟩ := hSucceeds.mpr (by decide +kernel)
    obtain ⟨⟨c, -, hVerify⟩, hReplaced⟩ := hAccepted proof rfl
    obtain ⟨c', hCommit, hIff⟩ := hReplaced [49]
    exact ⟨proof, c1, c2, c, c', hRun, hVerify, hCommit, hIff.mpr (.inl (by decide +kernel))⟩
  · obtain ⟨answer, hRun, hSucceeds, hFails, -⟩ :=
      linearized_complete hSetup [0, 1] [0, 1] [0, 0, 0, 1] 5 3
    rwa [hFails (mt hSucceeds.mp (by decide +kernel))] at hRun

end Exact

end Kzg.LinearizedProduct
