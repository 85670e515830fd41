import Kzg.Poly
import Kzg.Group.LinearCombination
import Kzg.Setup.Source

/-! # Commitments

The commitment to a polynomial is its value at the secret of the setup times the generator. It is
computed from the coefficients and the powers of the secret, or from the values on a domain and the
Lagrange vector of the domain. -/

namespace Kzg

variable {S G1 G2 : Type} [PointGroup G1] [SetupSource S G1 G2]

def commitTerms (points : List G1) (scalars : List Fr) : Except KzgError G1 :=
  (linearCombination points scalars).mapError fun e => .commit e.message

/-- Zeros at the top take no capacity, and the zero polynomial none at all. -/
def commitCoeffs (p : Coeffs) : SetupM S G1 := do
  let coeffs := p.trim
  if coeffs.isEmpty then return 0
  let powers ← SetupSource.g1Powers coeffs.length
  commitTerms powers coeffs

def commitEvals (e : EvalForm) : SetupM S G1 := do
  commitTerms (← SetupSource.lagrange e.domain) e.evals

def commit : Poly → SetupM S G1
  | .coeffs p => commitCoeffs p
  | .evals e => commitEvals e

def commitAll (polys : List Coeffs) : SetupM S (List G1) :=
  polys.mapM commitCoeffs

end Kzg
