import Kzg.Group.Basic
import Kzg.Fourier.Transform

/-! # Linear combinations of points

A commitment is a linear combination of setup points. The inverse Fourier transform of points turns
the powers of a secret into the values of the Lagrange polynomials at it. -/

namespace Kzg

variable {G : Type} [PointGroup G]

def linearCombination (points : List G) (scalars : List Fr) : Except KzgError G :=
  if points.length ≠ scalars.length then .error (.termCounts points.length scalars.length)
  else .ok ((List.zipWith (fun p s => s • p) points scalars).foldr (· + ·) 0)

/-- The inverse transform of points by the canonical root of order the number of points. -/
def ifftPoints (points : List G) : Except KzgError (List G) := do
  if !isPowerOfTwo points.length then throw .groupTransformLength
  let some root := Fr.rootOfOrder? points.length | throw .groupTransformDomain
  Fourier.inverseTransform (· • ·) root points

def generatorMultiples (scalars : List Fr) : List G :=
  scalars.map fun s => s • (PointGroup.generator : G)

end Kzg
