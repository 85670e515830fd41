import Kzg.Proofs.Setup.Public
import Kzg.Commitment

/-! # What a commitment is

A commitment is the generator times the sum of the coefficients with the weights that the points of
its source stand for. Whatever source supplies the vectors of a secret, it is the value of the
polynomial at the secret times the generator. -/

namespace Kzg

open PointGroup (generator)
open SetupM (Responds)

variable {S G1 G2 : Type} [PointGroup G1] [SetupSource S G1 G2]

/-- On the setups in `I` the source has the generator times `weights`, as many of them as `capacity`
allows. -/
def SuppliesMultiples (I : S → Prop) (weights : Nat → Fr) (capacity : ℕ∞) : Prop :=
  ∀ length : Nat, length ≤ capacity → Responds I (SetupSource.g1Powers length : SetupM S (List G1))
    (.ok (generatorMultiples ((List.range length).map weights)))

/-- On the setups in `I` the source has at least `capacity` powers of the secret. -/
def SuppliesPowers (I : S → Prop) (secret : Fr) (capacity : Nat) : Prop :=
  ∀ length ≤ capacity,
    Responds I (SetupSource.g1Powers length : SetupM S (List G1)) (.ok (powerVector secret length))

/-- On the setups in `I` the Lagrange vector of the domain is the generator times `weights`. -/
def SuppliesLagrange (I : S → Prop) (d : Domain) (weights : List Fr) : Prop :=
  Responds I (SetupSource.lagrange d : SetupM S (List G1)) (.ok (generatorMultiples weights))

theorem SuppliesPowers.suppliesMultiples {I : S → Prop} {secret : Fr} {capacity : Nat}
    (h : SuppliesPowers I secret capacity) : SuppliesMultiples I (secret ^ ·) capacity := by
  intro length hLength
  rw [← Fr.powers_eq_map]
  exact h length (by exact_mod_cast hLength)

variable (G1 G2) in
theorem TrustedSetup.suppliesPowers [PointGroup G2] (secret : Fr) (capacity : Nat) :
    SuppliesPowers (Reached secret : TrustedSetup G1 G2 → Prop) secret capacity :=
  fun length _ => responds_g1Powers secret length

variable (G1 G2) in
theorem TrustedSetup.suppliesLagrange [PointGroup G2] (secret : Fr) {d : Domain} (hd : d.Built) :
    SuppliesLagrange (Reached secret : TrustedSetup G1 G2 → Prop) d (d.lagrangeAt secret) :=
  responds_lagrange secret hd

theorem PublicSetup.PublishedFrom.suppliesPowers [PointGroup G2] {secret : Fr}
    {setup : PublicSetup G1 G2} (h : setup.PublishedFrom secret) :
    SuppliesPowers (· = setup) secret setup.g1.length :=
  fun _ => h.responds_g1Powers

variable [LawfulPointGroup G1] {I : S → Prop} {secret : Fr}

theorem commitTerms_generatorMultiples {xs scalars : List Fr} (h : xs.length = scalars.length) :
    commitTerms (generatorMultiples xs : List G1) scalars =
      .ok (Fr.dot xs scalars • generator) := by
  rw [commitTerms, linearCombination_generatorMultiples h]
  rfl

theorem responds_commitCoeffs_weightedSum {weights : Nat → Fr} {capacity : ℕ∞}
    (hMultiples : SuppliesMultiples I weights capacity) {p : Coeffs}
    (hCapacity : p.trim.length ≤ capacity) :
    Responds I (commitCoeffs p : SetupM S G1) (.ok (weightedSum weights p.toPoly • generator)) := by
  rw [commitCoeffs, ← p.toPoly_trim]
  by_cases hTrim : p.trim = []
  · rw [hTrim, Coeffs.toPoly_nil, map_zero, LawfulPointGroup.zero_smul_generator]
    exact SetupM.responds_pure 0
  · rw [if_neg (by simpa using hTrim)]
    apply (hMultiples _ hCapacity).bind
    rw [weightedSum_toPoly, ← commitTerms_generatorMultiples (by simp)]
    exact SetupM.responds_lift _

theorem responds_commitCoeffs {capacity : Nat} (hPowers : SuppliesPowers I secret capacity)
    {p : Coeffs} (hCapacity : p.trim.length ≤ capacity) :
    Responds I (commitCoeffs p : SetupM S G1) (.ok (p.eval secret • generator)) := by
  rw [← Coeffs.eval_toPoly, ← weightedSum_pow]
  exact responds_commitCoeffs_weightedSum hPowers.suppliesMultiples (by exact_mod_cast hCapacity)

theorem responds_commitEvals {e : EvalForm} {weights : List Fr}
    (hLagrange : SuppliesLagrange I e.domain weights) (hLength : weights.length = e.domain.size) :
    Responds I (commitEvals e : SetupM S G1) (.ok (Fr.dot weights e.evals • generator)) := by
  rw [commitEvals]
  apply hLagrange.bind
  rw [← commitTerms_generatorMultiples (hLength.trans e.length_evals.symm)]
  exact SetupM.responds_lift _

end Kzg
