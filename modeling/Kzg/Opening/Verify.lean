import Kzg.Poly
import Kzg.Opening.Basic
import Kzg.Setup.Public
import Kzg.Transcript

/-! # Verifying one opening

The proof is right when its pairing with `τ - z` equals the pairing of the commitment, less the
value, with one. Moving the product with `z` to the first group leaves a fixed point of the setup
in the second one, with the same outcome. A wrong proof is answered with `false`; only points that
are not valid are errors. -/

namespace Kzg

open PointGroup (generator)

variable {G1 G2 : Type} [PointGroup G1] [PointGroup G2] [Pairing G1 G2]

def checkOpeningPoints (setup : PublicSetup G1 G2) (commitment proof : G1) :
    Except KzgError Unit := do
  checkPoint commitment
  checkPoint proof
  checkPoint setup.g2Tau

/-- `e(C - y, 1) = e(proof, τ - z)`. -/
def verifyValue (setup : PublicSetup G1 G2) (commitment proof : G1) (z y : Fr) :
    Except KzgError Bool := do
  checkOpeningPoints setup commitment proof
  let difference := -y • generator + commitment
  let divisor := -z • generator + setup.g2Tau
  return pairingsEqual difference generator proof divisor

/-- `e(proof, τ) = e(C - y + z·proof, 1)`. -/
def verifyValueMoved (setup : PublicSetup G1 G2) (commitment proof : G1) (z y : Fr) :
    Except KzgError Bool := do
  checkOpeningPoints setup commitment proof
  let moved := -y • generator + z • proof + commitment
  return pairingsEqual proof setup.g2Tau moved generator

def Opening.verify (setup : PublicSetup G1 G2) (commitment : G1) (o : Opening G1) :
    Except KzgError Bool :=
  verifyValue setup commitment o.proof o.point o.value

variable [PointCodec G1]

def readField {α : Type} (field : String) (read : Except PointReadError α) : Except KzgError α :=
  read.mapError fun _ => .badField field

def verifyValueBytes (setup : PublicSetup G1 G2) (commitment proof z y : List UInt8) :
    Except KzgError Bool := do
  let commitment ← readField "commitment" (readPoint commitment)
  let proof ← readField "proof" (readPoint proof)
  let z ← readField "z_fr" (Fr.ofBytes z)
  let y ← readField "value_fr" (Fr.ofBytes y)
  verifyValue setup commitment proof z y

/-- Verifies a vector of values against its commitment at the point that both derive. Only the
proof comes from outside. -/
def verifyEvaluations (setup : PublicSetup G1 G2) (e : EvalForm) (commitment proof : G1) :
    Except KzgError Bool := do
  checkPoint proof
  let z ← evaluationChallenge e.evals commitment
  let y ← (e.eval z : Except PolyError Fr)
  verifyValue setup commitment proof z y

end Kzg
