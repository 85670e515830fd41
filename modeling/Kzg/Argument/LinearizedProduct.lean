import Kzg.Opening.Batch
import Kzg.Opening.Prove

/-! # Linearized products

A linearized product shows `p1(ζ)·p2(ζ) = q(ζ)` for three committed polynomials by two openings
instead of three: `k = p1 + μ·(p1(ζ)·p2 - q)` takes the value `p1(ζ)` at `ζ` where the product
holds, and anyone can compute its commitment from the others. -/

namespace Kzg.LinearizedProduct

def linearization (p1 p2 q : Coeffs) (y1 mu : Fr) : Coeffs :=
  p1.add (((p2.scaleBy y1).sub q).scaleBy mu)

structure Proof (G : Type) where
  p1Commitment : G
  p2Commitment : G
  qCommitment : G
  p1AtZeta : Opening G
  kAtZeta : Opening G
deriving DecidableEq

namespace Proof

variable {G : Type} [PointGroup G]

def kCommitment (proof : Proof G) (mu : Fr) : G :=
  mu • (proof.p1AtZeta.value • proof.p2Commitment - proof.qCommitment) + proof.p1Commitment

abbrev PlacedAt (proof : Proof G) (zeta : Fr) : Prop :=
  proof.p1AtZeta.point = zeta ∧ proof.kAtZeta.point = zeta ∧
    proof.kAtZeta.value = proof.p1AtZeta.value

def openings (proof : Proof G) (mu : Fr) : List (G × Opening G) :=
  [(proof.p1Commitment, proof.p1AtZeta), (proof.kCommitment mu, proof.kAtZeta)]

end Proof

/-- The linearization is opened first, so that a product that does not hold fails before any
commitment. -/
def prove {S G1 G2 : Type} [PointGroup G1] [SetupSource S G1 G2] (p1 p2 q : Coeffs)
    (zeta mu : Fr) : SetupM S (Proof G1) := do
  let y1 := p1.eval zeta
  let kProof ← proveValue (linearization p1 p2 q y1 mu) zeta y1
  return {
    p1Commitment := ← commitCoeffs p1
    p2Commitment := ← commitCoeffs p2
    qCommitment := ← commitCoeffs q
    p1AtZeta := { point := zeta, value := y1, proof := ← proveValue p1 zeta y1 }
    kAtZeta := { point := zeta, value := y1, proof := kProof } }

/-- The batch of openings does not see the second and the third commitment, so that they are
checked apart. -/
def verify {G1 G2 : Type} [PointGroup G1] [PointGroup G2] [PointCodec G1] [Pairing G1 G2]
    (setup : PublicSetup G1 G2) (p1Commitment p2Commitment qCommitment : G1) (proof : Proof G1)
    (zeta mu : Fr) : Except KzgError Bool := do
  checkPoint proof.p2Commitment
  checkPoint proof.qCommitment
  if proof.p1Commitment ≠ p1Commitment ∨ proof.p2Commitment ≠ p2Commitment
      ∨ proof.qCommitment ≠ qCommitment then
    return false
  if ¬ proof.PlacedAt zeta then return false
  verifyOpenings setup (proof.openings mu)

end Kzg.LinearizedProduct
