import Kzg.Proofs.Opening.Forms

/-! # Vectors of values at the point that they derive

The prover and the verifier of a vector of values derive the same point, whatever the hash makes of
the vector and its commitment, and find the same value there. So an honest proof always passes, and
any other one passes only where it closes the quotient identity at the secret. -/

namespace Kzg

open PointGroup (generator)
open Polynomial
open SetupM (Responds)

variable {G1 G2 : Type} [PointGroup G1] [PointGroup G2] [PointCodec G1] [Pairing G1 G2]
  [LawfulPointGroup G1] [LawfulPointGroup G2] [LawfulPairing G1 G2] [LawfulPointCodec G1]
  {setup : PublicSetup G1 G2} {secret : Fr} {e : EvalForm}

omit [LawfulPointCodec G1] in
/-- Verification compares the two sides of the quotient identity, at the derived point. -/
theorem verifyEvaluations_smul (hTau : setup.g2Tau = secret • generator)
    (hDomain : e.domain.Built) {s z : Fr}
    (hChallenge : evaluationChallenge e.evals (s • generator : G1) = .ok z) (q : Fr) :
    verifyEvaluations setup e (s • generator) (q • generator) =
      .ok (decide (q * (secret - z) = s - e.interpolant.eval z)) := by
  rw [verifyEvaluations, LawfulPointGroup.checkPoint_smul, hChallenge]
  simp only [eq_comm (a := q * (secret - z)), ← verifyValue_smul hTau, EvalForm.eval_eq hDomain]
  rfl

/-- Whatever point is derived, an element of the domain included, the opening there succeeds and
passes. At the derived one it is what the prover of the vector returns and what its verifier
accepts. For any other commitment and proof the verifier decides the quotient identity. -/
theorem evaluations_complete (hSetup : setup.PublishedFrom secret) (hDomain : e.domain.Built) :
    (∃ c : G1,
      Responds (TrustedSetup.Reached secret : TrustedSetup G1 G2 → Prop) (commitEvals e) (.ok c) ∧
      (∀ z, ∃ o : Opening G1, o.point = z ∧ o.value = e.interpolant.eval z ∧
        Responds (TrustedSetup.Reached secret : TrustedSetup G1 G2 → Prop) (openEvalsAt e z)
          (.ok o) ∧
        o.verify setup c = .ok true) ∧
      ∃ o : Opening G1, evaluationChallenge e.evals c = .ok o.point ∧
        o.value = e.interpolant.eval o.point ∧
        Responds (TrustedSetup.Reached secret : TrustedSetup G1 G2 → Prop) (commitAndOpen e)
          (.ok (c, o)) ∧
        verifyEvaluations setup e c o.proof = .ok true) ∧
    ∀ (p' : Fr[X]) (q : Fr), ∃ z,
      evaluationChallenge e.evals (p'.eval secret • generator : G1) = .ok z ∧
      verifyEvaluations setup e (p'.eval secret • generator) (q • generator) =
        .ok (decide (q * (secret - z) = p'.eval secret - e.interpolant.eval z)) := by
  obtain ⟨p, -, hPoly, hInterpolant⟩ := EvalForm.exists_toCoeffs hDomain
  have hLagrange := TrustedSetup.suppliesLagrange G1 G2 secret hDomain
  have hCommit := responds_commitEvals_of_interpolates hDomain hInterpolant hLagrange
  have hOpen := responds_openEvalsAt_of_interpolates hDomain hInterpolant hLagrange
  have hValue (z : Fr) : p.eval z = e.interpolant.eval z := by
    rw [← hPoly, p.eval_toPoly]
  refine ⟨⟨p.commitmentAt secret, hCommit, ?_, ?_⟩, ?_⟩
  · intro z
    exact ⟨p.openingAt secret z, rfl, hValue z, hOpen z, verify_openingAt hSetup.g2Tau_eq p z⟩
  · obtain ⟨z, hChallenge⟩ := exists_evaluationChallenge (G := G1) e.evals (p.eval secret)
    refine ⟨p.openingAt secret z, hChallenge, hValue z,
      responds_commitAndOpen hCommit hChallenge (hOpen z), ?_⟩
    refine (verifyEvaluations_smul hSetup.g2Tau_eq hDomain hChallenge _).trans ?_
    rw [← hValue, p.eval_quotientAt_mul, decide_eq_true rfl]
  · intro p' q
    obtain ⟨z, hChallenge⟩ := exists_evaluationChallenge (G := G1) e.evals (p'.eval secret)
    exact ⟨z, hChallenge, verifyEvaluations_smul hSetup.g2Tau_eq hDomain hChallenge q⟩

/-- The secret is an element of a domain that is not the canonical one, and the values are opened
there as well. -/
theorem evaluations_complete_exponent :
    let root : Fr := -Fr.canonicalRoot 2
    let setup : PublicSetup (Exponent "G1") (Exponent "G2") := PublicSetup.ofPowers root 0 0
    let e : EvalForm := ⟨[7, 0, 1, 5], Domain.cyclic root 2, rfl⟩
    setup.PublishedFrom root ∧ e.domain.Built ∧
    ∃ (c : Exponent "G1") (o o' : Opening (Exponent "G1")), o.point = root ∧
      Responds (TrustedSetup.Reached root : TrustedSetup (Exponent "G1") (Exponent "G2") → Prop)
        (openEvalsAt e root) (.ok o) ∧
      o.verify setup c = .ok true ∧
      Responds (TrustedSetup.Reached root : TrustedSetup (Exponent "G1") (Exponent "G2") → Prop)
        (commitAndOpen e) (.ok (c, o')) ∧
      verifyEvaluations setup e c o'.proof = .ok true ∧
      ∃ z, verifyEvaluations setup e ((X ^ 2 : Fr[X]).eval root • generator)
          ((3 : Fr) • generator) =
        .ok (decide (3 * (root - z) = (X ^ 2 : Fr[X]).eval root - e.interpolant.eval z)) := by
  intro root setup e
  have hRoot : IsPrimitiveRoot root (2 ^ 2) := (Fr.hasOrder_two_pow_iff _ 2).mp (by decide +kernel)
  have hDomain : e.domain.Built := Domain.built_cyclic (by decide) hRoot
  have hSetup : setup.PublishedFrom root :=
    PublicSetup.publishedFrom_ofPowers (by decide +kernel) 0 0
  obtain ⟨⟨c, -, hPoints, o', -, -, hProve, hPass⟩, hAny⟩ := evaluations_complete hSetup hDomain
  obtain ⟨o, hPoint, -, hOpen, hVerify⟩ := hPoints root
  obtain ⟨z, -, hOther⟩ := hAny (X ^ 2) 3
  exact ⟨hSetup, hDomain, c, o, o', hPoint, hOpen, hVerify, hProve, hPass, z, hOther⟩

end Kzg
