import Kzg.Opening.Verify

/-! # Verifying many openings at once

The claims of a batch are added up with the powers of one scalar as weights and verified together.
A batch with a false claim passes for fewer scalars than it has claims, so the scalar is derived
from the batch itself. -/

namespace Kzg

open PointGroup (generator)

variable {G1 G2 : Type} [PointGroup G1] [PointGroup G2] [Pairing G1 G2]

namespace Batch

/-- `e(Σ rⁱ·πᵢ, τ) = e(Σ rⁱ·Cᵢ + Σ rⁱ·zᵢ·πᵢ - Σ rⁱ·yᵢ, 1)`. -/
def verifyWith (setup : PublicSetup G1 G2) (b : Batch G1) (r : Fr) : Except KzgError Bool := do
  b.check
  checkPoint setup.g2Tau
  let weights := Fr.powers r b.commitments.length
  let value := (List.zipWith (· * ·) weights b.values).foldl (· + ·) 0
  let proof ← linearCombination b.proofs weights
  let proofAtPoints ← linearCombination b.proofs (List.zipWith (· * ·) weights b.points)
  let commitment ← linearCombination b.commitments weights
  let moved := commitment + proofAtPoints - value • generator
  return pairingsEqual proof setup.g2Tau moved generator

variable [PointCodec G1]

def verify (setup : PublicSetup G1 G2) (b : Batch G1) : Except KzgError Bool := do
  b.check
  verifyWith setup b (← b.challenge)

def ofOpenings (openings : List (G1 × Opening G1)) : Batch G1 where
  commitments := openings.map fun (c, _) => c
  points := openings.map fun (_, o) => o.point
  values := openings.map fun (_, o) => o.value
  proofs := openings.map fun (_, o) => o.proof

def ofBytes (commitments points values proofs : List (List UInt8)) :
    Except KzgError (Batch G1) := do
  let commitments ← commitments.mapM fun bytes => readField "commitment" (readPoint bytes)
  let proofs ← proofs.mapM fun bytes => readField "proof" (readPoint bytes)
  let points ← points.mapM fun bytes => readField "z" (Fr.ofBytes bytes)
  let values ← values.mapM fun bytes => readField "y" (Fr.ofBytes bytes)
  return { commitments, points, values, proofs }

end Batch

variable [PointCodec G1]

def verifyOpenings (setup : PublicSetup G1 G2) (openings : List (G1 × Opening G1)) :
    Except KzgError Bool :=
  (Batch.ofOpenings openings).verify setup

def verifyBatchBytes (setup : PublicSetup G1 G2)
    (commitments points values proofs : List (List UInt8)) : Except KzgError Bool := do
  (← Batch.ofBytes commitments points values proofs).verify setup

end Kzg
