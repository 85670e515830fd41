import Kzg.Field.Scalar

/-! # Openings

An opening claims the value of a committed polynomial at a point. Its proof is the commitment to
the quotient `(p(x) - value)/(x - point)`, which is a polynomial only if the claim is true. -/

namespace Kzg

structure Opening (G : Type) where
  point : Fr
  value : Fr
  proof : G
deriving DecidableEq

end Kzg
