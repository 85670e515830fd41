import Kzg.Argument.Permutation.Basic
import Kzg.Opening.Prove

/-! # Proofs of permutations

A proof commits to both sides, to the running product and to the quotient. A prescribed one also
commits to the labels of both sides and opens them at the challenge, since the verifier needs their
values for the rows. -/

namespace Kzg.Permutation

/-- Which rows a proof is about. A prescribed proof that lacks the labels of a side is malformed. -/
inductive Rows (G : Type)
  | plain
  | prescribed (seq0 seq1 : Option (G × Opening G))
deriving DecidableEq

structure Proof (G : Type) where
  rows : Rows G
  order : Nat
  p0Commitment : G
  p1Commitment : G
  tCommitment : G
  qCommitment : G
  tAtOne : Opening G
  tAtR : Opening G
  tAtOmegaR : Opening G
  p0AtR : Opening G
  p1AtR : Opening G
  qAtR : Opening G
deriving DecidableEq

variable {S G1 G2 : Type} [PointGroup G1] [SetupSource S G1 G2]

def openValues (domain : Domain) (values : List Fr) (r : Fr) : SetupM S (G1 × Opening G1) := do
  let p ← domain.interpolate values
  return (← commitCoeffs p, ← openAt p r)

def proveRows (rows : Rows G1) (w : Witness) (p0 p1 : List Fr) (r : Fr) :
    SetupM S (Proof G1) := do
  let p0 ← w.domain.interpolate p0
  let p1 ← w.domain.interpolate p1
  return {
    rows
    order := w.domain.size
    p0Commitment := ← commitCoeffs p0
    p1Commitment := ← commitCoeffs p1
    tCommitment := ← commitCoeffs w.t
    qCommitment := ← commitCoeffs w.q
    tAtOne := ← openAt w.t 1
    tAtR := ← openAt w.t r
    tAtOmegaR := ← openAt w.t (w.domain.generator * r)
    p0AtR := ← openAt p0 r
    p1AtR := ← openAt p1 r
    qAtR := ← openAt w.q r }

/-- `p1` is `p0` in some order. -/
def prove (p0 p1 : List Fr) (theta r : Fr) : SetupM S (Proof G1) := do
  let w ← Witness.ofRows (plainRows p0 theta) (plainRows p1 theta)
  checkOutsideSubgroup r w.domain.size
  proveRows .plain w p0 p1 r

/-- `p1`, labelled by `seq1`, is `p0`, labelled by `seq0`, in some order. -/
def provePrescribed (p0 p1 seq0 seq1 : List Fr) (gamma theta r : Fr) : SetupM S (Proof G1) := do
  let rows0 ← prescribedRows p0 seq0 gamma theta
  let rows1 ← prescribedRows p1 seq1 gamma theta
  let w ← Witness.ofRows rows0 rows1
  checkOutsideSubgroup r w.domain.size
  let labels0 ← openValues w.domain seq0 r
  let labels1 ← openValues w.domain seq1 r
  proveRows (.prescribed (some labels0) (some labels1)) w p0 p1 r

end Kzg.Permutation
