import Kzg.Domain

/-! # Sources of setup vectors

Commitments are computed over the multiples of a generator by the powers of a secret. A source
supplies as many of them as are asked for, or fails; it may compute them on the way and keep
them. -/

namespace Kzg

/-- Computations on a setup, which may grow; what has grown stays after a failure. -/
abbrev SetupM (S α : Type) := ExceptT KzgError (StateM S) α

/-- Where the powers of the secret come from. -/
class SetupSource (S : Type) (G1 G2 : outParam Type) where
  g1Powers : Nat → SetupM S (List G1)
  g2Powers : Nat → SetupM S (List G2)
  /-- The multiples of the generator by the values at the secret of the Lagrange polynomials of a
  domain. -/
  lagrange : Domain → SetupM S (List G1)

end Kzg
