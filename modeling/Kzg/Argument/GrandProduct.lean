import Kzg.Argument.Basic
import Kzg.Opening.Batch
import Kzg.Opening.Prove

/-! # Grand products

A grand product shows that the values of a polynomial `f` on the subgroup multiply to one. Their
running product `t` starts at one and satisfies `t(ωx) = f(x)·t(x)` on the whole subgroup, also
where it wraps around; `q` is the quotient of `t(ωx) - f·t` by `x^m - 1`. -/

namespace Kzg.GrandProduct

/-- The values with the factor added that makes their product one, and the running product of the
values. They leave one place of a subgroup free. -/
def close (values : List Fr) : Except PolyError (List Fr × List Fr) := do
  if !isPowerOfTwo (values.length + 1) then throw (.noClosingRow values.length)
  let products := runningProduct values
  let closing ← (products.getLastD 1).inverse
  return (values ++ [closing], products)

def identity (f t : Coeffs) (omega : Fr) : Except PolyError Coeffs :=
  return (t.dilate omega).sub (← f.fastMul t)

/-- `t(ωx) - f·t = q·(x^m - 1)` at `r`, where `tNext` is the value of `t` at `ω·r`. -/
abbrev HoldsAt (r : Fr) (order : Nat) (f t tNext q : Fr) : Prop :=
  q * vanishingAt r order = tNext - f * t

structure Witness where
  domain : Domain
  f : Coeffs
  t : Coeffs
  q : Coeffs

namespace Witness

/-- The values must multiply to one, or the running product does not wrap around. -/
def ofValues (values : List Fr) : Except PolyError Witness := do
  let domain ← Domain.ofSize values.length
  let f ← domain.interpolate values
  let t ← domain.interpolate (runningProduct (values.take (domain.size - 1)))
  let q ← (← identity f t domain.generator).divExact domain.vanishing
  return { domain, f, t, q }

abbrev HoldsAt (w : Witness) (r : Fr) : Prop :=
  GrandProduct.HoldsAt r w.domain.size (w.f.eval r) (w.t.eval r)
    (w.t.eval (w.domain.generator * r)) (w.q.eval r)

end Witness

structure Proof (G : Type) where
  order : Nat
  fCommitment : G
  tCommitment : G
  qCommitment : G
  tAtOne : Opening G
  tAtR : Opening G
  tAtOmegaR : Opening G
  fAtR : Opening G
  qAtR : Opening G
deriving DecidableEq

namespace Proof

variable {G : Type}

/-- The running product is opened at its start, at the challenge and one step further, the other
polynomials at the challenge. -/
abbrev PlacedAt (proof : Proof G) (omega r : Fr) : Prop :=
  proof.tAtOne.point = 1 ∧ proof.tAtR.point = r ∧ proof.tAtOmegaR.point = omega * r ∧
    proof.fAtR.point = r ∧ proof.qAtR.point = r

def openings (proof : Proof G) : List (G × Opening G) := [
  (proof.tCommitment, proof.tAtOne), (proof.tCommitment, proof.tAtR),
  (proof.tCommitment, proof.tAtOmegaR), (proof.fCommitment, proof.fAtR),
  (proof.qCommitment, proof.qAtR)]

end Proof

/-- The witness comes first, so that a claim that does not hold fails before any commitment. -/
def prove {S G1 G2 : Type} [PointGroup G1] [SetupSource S G1 G2] (values : List Fr) (r : Fr) :
    SetupM S (Proof G1) := do
  let w ← Witness.ofValues values
  checkOutsideSubgroup r w.domain.size
  return {
    order := w.domain.size
    fCommitment := ← commitCoeffs w.f
    tCommitment := ← commitCoeffs w.t
    qCommitment := ← commitCoeffs w.q
    tAtOne := ← openAt w.t 1
    tAtR := ← openAt w.t r
    tAtOmegaR := ← openAt w.t (w.domain.generator * r)
    fAtR := ← openAt w.f r
    qAtR := ← openAt w.q r }

def verify {G1 G2 : Type} [PointGroup G1] [PointGroup G2] [PointCodec G1] [Pairing G1 G2]
    (setup : PublicSetup G1 G2) (order : Nat) (fCommitment : G1) (proof : Proof G1) (r : Fr) :
    Except KzgError Bool := do
  let omega ← subgroupFor order r
  if proof.order ≠ order ∨ proof.fCommitment ≠ fCommitment then return false
  if ¬ proof.PlacedAt omega r ∨ proof.tAtOne.value ≠ 1 then return false
  if !(← verifyOpenings setup proof.openings) then return false
  return decide (HoldsAt r order proof.fAtR.value proof.tAtR.value proof.tAtOmegaR.value
    proof.qAtR.value)

end Kzg.GrandProduct
