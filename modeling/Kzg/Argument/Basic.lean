import Kzg.Domain

/-! # Subgroup arguments

An argument is about values on the subgroup of order `m`. It holds exactly when its identity
polynomial is a multiple of `x^m - 1`: the prover finds the quotient, and the verifier compares the
two sides at a challenge outside of the subgroup. -/

namespace Kzg

def vanishingAt (r : Fr) (order : Nat) : Fr :=
  r ^ order - 1

/-- On the subgroup itself every identity holds. -/
def checkOutsideSubgroup (r : Fr) (order : Nat) : Except KzgError Unit :=
  if vanishingAt r order = 0 then .error .challengeInSubgroup else .ok ()

/-- The canonical generator of the subgroup of an order, for a challenge outside of it. -/
def subgroupFor (order : Nat) (r : Fr) : Except KzgError Fr := do
  let omega ← Domain.canonicalGenerator order
  checkOutsideSubgroup r order
  return omega

/-- `1, v₀, v₀·v₁, …`: one entry more than there are values. -/
def runningProduct (values : List Fr) : List Fr :=
  go 1 values
where
  go (acc : Fr) : List Fr → List Fr
    | [] => [acc]
    | v :: vs => acc :: go (acc * v) vs

end Kzg
