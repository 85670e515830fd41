import Kzg.Argument.Basic
import Kzg.Opening.Batch
import Kzg.Opening.Prove

/-! # Zero tests

A zero test shows that a polynomial `p` vanishes on the subgroup of order `m`, by the quotient `q`
in `p = q·(x^m - 1)`. -/

namespace Kzg.ZeroTest

/-- `p = q·(x^m - 1)` at `r`, from the values of `p` and `q`. -/
abbrev HoldsAt (r : Fr) (order : Nat) (p q : Fr) : Prop :=
  p = q * vanishingAt r order

structure Witness where
  domain : Domain
  order : Nat
  p : Coeffs
  q : Coeffs

namespace Witness

/-- For the polynomial with the given values on the canonical domain. There is none if a value on
the subgroup is not zero. -/
def ofValues (values : List Fr) (order : Nat) : Except PolyError Witness := do
  let domain ← Domain.ofSize values.length
  let _ ← domain.subgroup order
  let p ← domain.interpolate values
  let q ← p.divExact (.vanishing order)
  return { domain, order, p, q }

abbrev HoldsAt (w : Witness) (r : Fr) : Prop :=
  ZeroTest.HoldsAt r w.order (w.p.eval r) (w.q.eval r)

end Witness

structure Proof (G : Type) where
  order : Nat
  pCommitment : G
  qCommitment : G
  pAtR : Opening G
  qAtR : Opening G
deriving DecidableEq

namespace Proof

variable {G : Type}

abbrev PlacedAt (proof : Proof G) (r : Fr) : Prop :=
  proof.pAtR.point = r ∧ proof.qAtR.point = r

def openings (proof : Proof G) : List (G × Opening G) :=
  [(proof.pCommitment, proof.pAtR), (proof.qCommitment, proof.qAtR)]

end Proof

/-- The witness comes first, so that a claim that does not hold fails before any commitment. -/
def prove {S G1 G2 : Type} [PointGroup G1] [SetupSource S G1 G2] (values : List Fr) (order : Nat)
    (r : Fr) : SetupM S (Proof G1) := do
  let w ← Witness.ofValues values order
  checkOutsideSubgroup r order
  return {
    order
    pCommitment := ← commitCoeffs w.p
    qCommitment := ← commitCoeffs w.q
    pAtR := ← openAt w.p r
    qAtR := ← openAt w.q r }

/-- A proof of another statement, or with an opening elsewhere, is rejected before any point is
looked at. -/
def verify {G1 G2 : Type} [PointGroup G1] [PointGroup G2] [PointCodec G1] [Pairing G1 G2]
    (setup : PublicSetup G1 G2) (order : Nat) (pCommitment : G1) (proof : Proof G1) (r : Fr) :
    Except KzgError Bool := do
  let _ ← subgroupFor order r
  if proof.order ≠ order ∨ proof.pCommitment ≠ pCommitment then return false
  if ¬ proof.PlacedAt r then return false
  if !(← verifyOpenings setup proof.openings) then return false
  return decide (HoldsAt r order proof.pAtR.value proof.qAtR.value)

end Kzg.ZeroTest
