import Kzg.Argument.Permutation.Prove
import Kzg.Opening.Batch

/-! # Verifying permutations

The order and the commitments to both sides are the statement, and in a prescribed permutation the
commitments to the labels too. A proof of another statement is rejected. -/

namespace Kzg.Permutation

structure Wiring (G : Type) where
  seq0 : G
  seq1 : G
deriving DecidableEq

namespace Proof

variable {G : Type}

/-- The running product is opened at its start, at the challenge and one step further, the other
polynomials at the challenge. -/
abbrev PlacedAt (proof : Proof G) (omega r : Fr) : Prop :=
  proof.tAtOne.point = 1 ∧ proof.tAtR.point = r ∧ proof.tAtOmegaR.point = omega * r ∧
    proof.p0AtR.point = r ∧ proof.p1AtR.point = r ∧ proof.qAtR.point = r

/-- The openings of all but the labels, each with its commitment. -/
def openings (proof : Proof G) : List (G × Opening G) := [
  (proof.tCommitment, proof.tAtOne), (proof.tCommitment, proof.tAtR),
  (proof.tCommitment, proof.tAtOmegaR), (proof.p0Commitment, proof.p0AtR),
  (proof.p1Commitment, proof.p1AtR), (proof.qCommitment, proof.qAtR)]

end Proof

variable {G1 G2 : Type} [PointGroup G1] [PointGroup G2]

def Wiring.ofValues (setup : PublicSetup G1 G2) (seq0 seq1 : List Fr) :
    Except KzgError (Wiring G1) := do
  if seq0.length ≠ seq1.length then throw .inputLength
  let lagrange ← setup.lagrange (← Domain.ofSize seq0.length)
  return { seq0 := ← linearCombination lagrange seq0, seq1 := ← linearCombination lagrange seq1 }

variable [PointCodec G1] [Pairing G1 G2]

/-- What both kinds of proof have in common. The openings of the labels, if any, and the values of
the rows at the challenge come from the caller. -/
def verifyRows (setup : PublicSetup G1 G2) (order : Nat) (p0Commitment p1Commitment : G1)
    (proof : Proof G1) (labels : List (G1 × Opening G1)) (f0 f1 r : Fr) :
    Except KzgError Bool := do
  let omega ← subgroupFor order r
  if proof.order ≠ order ∨ proof.p0Commitment ≠ p0Commitment
      ∨ proof.p1Commitment ≠ p1Commitment then
    return false
  if ¬ proof.PlacedAt omega r ∨ proof.tAtOne.value ≠ 1 then return false
  if !(← verifyOpenings setup (labels ++ proof.openings)) then return false
  return decide (HoldsAt r order f0 f1 proof.tAtR.value proof.tAtOmegaR.value proof.qAtR.value)

def verify (setup : PublicSetup G1 G2) (order : Nat) (p0Commitment p1Commitment : G1)
    (proof : Proof G1) (theta r : Fr) : Except KzgError Bool :=
  match proof.rows with
  | .plain =>
    verifyRows setup order p0Commitment p1Commitment proof [] (proof.p0AtR.value - theta)
      (proof.p1AtR.value - theta) r
  | .prescribed _ _ => .error .expectedPlain

def verifyPrescribed (setup : PublicSetup G1 G2) (order : Nat) (p0Commitment p1Commitment : G1)
    (wiring : Wiring G1) (proof : Proof G1) (gamma theta r : Fr) : Except KzgError Bool :=
  match proof.rows with
  | .prescribed (some (c0, o0)) (some (c1, o1)) =>
    if c0 ≠ wiring.seq0 ∨ c1 ≠ wiring.seq1 then .ok false
    else if o0.point ≠ r ∨ o1.point ≠ r then .ok false
    else
      verifyRows setup order p0Commitment p1Commitment proof
        [(wiring.seq0, o0), (wiring.seq1, o1)] (proof.p0AtR.value * gamma - o0.value - theta)
        (proof.p1AtR.value * gamma - o1.value - theta) r
  | _ => .error .expectedPrescribed

end Kzg.Permutation
