import Kzg.Coefficients.Division

/-! # Interpolation

Through arbitrary points by Lagrange's formula, and at a point outside a group of roots of unity
by the barycentric one. -/

namespace Kzg.Coeffs

/-- The polynomial with fewer coefficients than there are points, through the points. A point that
is repeated has no Lagrange polynomial and contributes nothing. -/
def interpolate (xs ys : List Fr) : Except PolyError Coeffs := do
  if xs.length ≠ ys.length then throw (.pointsAndValues xs.length ys.length)
  let product := ofRoots xs
  let numerators ← xs.mapM fun x => divExact product [-x, 1]
  let denominators := List.zipWith eval numerators xs
  let weights := List.zipWith (· * ·) ys (← Fr.invertAll denominators)
  return (List.zipWith scaleBy numerators weights).foldl add (List.replicate xs.length 0)

/-- `(x^n - 1)/n · Σ y·w/(x - w)` over the `n` roots `w`, the value at `x` of the polynomial that
takes the values `ys` on them. Fails on the roots themselves. -/
def barycentric (x : Fr) (roots ys : List Fr) : Except PolyError Fr := do
  if roots.length ≠ ys.length then throw (.domainAndValues roots.length ys.length)
  let widthInverse ← (Fr.ofNat roots.length).inverse
  let terms ← (roots.zip ys).mapM fun (w, y) => return y * w * (← (x - w).inverse)
  return (x ^ roots.length - 1) * widthInverse * terms.foldl (· + ·) 0

end Kzg.Coeffs
