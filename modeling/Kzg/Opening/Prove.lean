import Kzg.Commitment
import Kzg.Opening.Basic
import Kzg.Transcript

/-! # Proving openings

From coefficients the quotient comes by long division, from values it is computed on the domain
itself. -/

namespace Kzg

/-- The value at the element `z` of a domain of the quotient `(p(x) - y)/(x - z)`, from the values
of `p` on the other elements: `Σ (p(w) - y)·w/(z·(z - w))`. -/
def quotientOnDomain (domain : Domain) (z : Fr) (evals : List Fr) (y : Fr) :
    Except PolyError Fr := do
  let others := (domain.elements.zip evals).filter fun (w, _) => w != z
  let terms ← others.mapM fun (w, v) => ((v - y) * w).divide ((z - w) * z)
  return terms.foldl (· + ·) 0

def quotientEvals (e : EvalForm) (z y : Fr) : Except PolyError (List Fr) :=
  (e.domain.elements.zip e.evals).mapM fun (w, v) =>
    if w - z = 0 then quotientOnDomain e.domain z e.evals y else (v - y).divide (w - z)

variable {S G1 G2 : Type} [PointGroup G1] [SetupSource S G1 G2]

/-- The proof of `p(z) = y`. There is none of any other value. -/
def proveValue (p : Coeffs) (z y : Fr) : SetupM S G1 := do
  let quotient ← ((p.padTo 1).sub [y]).divExact [-z, 1]
  commitCoeffs quotient

def openAt (p : Coeffs) (z : Fr) : SetupM S (Opening G1) := do
  let value := p.eval z
  return { point := z, value, proof := ← proveValue p z value }

def openEvalsAt (e : EvalForm) (z : Fr) : SetupM S (Opening G1) := do
  let value ← (e.eval z : Except PolyError Fr)
  let quotient ← EvalForm.onDomain (← quotientEvals e z value) e.domain
  return { point := z, value, proof := ← commitEvals quotient }

def openEvalsAtIndex (e : EvalForm) (index : Nat) : SetupM S (Opening G1) := do
  let some z := e.domain.element? index | throw .noSuchRoot
  openEvalsAt e z

/-- Commits to values and opens them at the point that the values and the commitment derive. -/
def commitAndOpen [PointCodec G1] (e : EvalForm) : SetupM S (G1 × Opening G1) := do
  let commitment ← commitEvals e
  let z ← evaluationChallenge e.evals commitment
  return (commitment, ← openEvalsAt e z)

def openAll (polys : List Coeffs) (points : List Fr) : SetupM S (List (Opening G1)) := do
  if polys.length ≠ points.length then throw .inputLength
  (polys.zip points).mapM fun (p, z) => openAt p z

end Kzg
