import Kzg.Proofs.Opening.Verify

/-! # True openings

A source of the powers of a secret commits to any polynomial and opens it at any point, and what it
gives is known from the polynomial. Under a setup of the same secret a true opening passes. -/

namespace Kzg

open PointGroup (generator)
open SetupM (Responds)

namespace Coeffs

variable {G : Type} [PointGroup G]

def commitmentAt (p : Coeffs) (secret : Fr) : G :=
  p.eval secret • generator

noncomputable def openingAt (p : Coeffs) (secret z : Fr) : Opening G where
  point := z
  value := p.eval z
  proof := (p.quotientAt z).eval secret • generator

end Coeffs

/-- The commitments to polynomials, each with its true opening at a point. -/
noncomputable def exactOpenings {G : Type} [PointGroup G] (secret : Fr)
    (polys : List (Coeffs × Fr)) : List (G × Opening G) :=
  polys.map fun pz => (pz.1.commitmentAt secret, pz.1.openingAt secret pz.2)

section Source

variable {S G1 G2 : Type} [PointGroup G1] [SetupSource S G1 G2] [LawfulPointGroup G1]
  {I : S → Prop} {secret : Fr} (hPowers : ∀ capacity, SuppliesPowers I secret capacity)

include hPowers

theorem responds_commitmentAt (p : Coeffs) :
    Responds I (commitCoeffs p : SetupM S G1) (.ok (p.commitmentAt secret)) :=
  responds_commitCoeffs (hPowers _) le_rfl

theorem responds_openingAt (p : Coeffs) (z : Fr) :
    Responds I (openAt p z : SetupM S (Opening G1)) (.ok (p.openingAt secret z)) :=
  responds_openAt (hPowers _) le_rfl z

end Source

section Verify

variable {G1 G2 : Type} [PointGroup G1] [PointGroup G2] [Pairing G1 G2] [LawfulPointGroup G1]
  [LawfulPointGroup G2] [LawfulPairing G1 G2] {setup : PublicSetup G1 G2} {secret : Fr}
  (hTau : setup.g2Tau = secret • generator)

include hTau

theorem verify_openingAt (p : Coeffs) (z : Fr) :
    (p.openingAt secret z).verify setup (p.commitmentAt secret) = .ok true := by
  rw [Opening.verify, Coeffs.openingAt, Coeffs.commitmentAt, verifyValue_smul hTau,
    p.eval_quotientAt_mul z secret, decide_eq_true rfl]

theorem verify_of_mem_exactOpenings {polys : List (Coeffs × Fr)} {co : G1 × Opening G1}
    (h : co ∈ exactOpenings secret polys) : co.2.verify setup co.1 = .ok true := by
  obtain ⟨⟨p, z⟩, -, rfl⟩ := List.mem_map.mp h
  exact verify_openingAt hTau p z

end Verify

end Kzg
