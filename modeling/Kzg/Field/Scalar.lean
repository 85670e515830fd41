import Kzg.Error
import Kzg.Field.Residue

/-! # The scalar field

The field of exponents of the curve groups. Its operations are total, with the inverse of zero
zero; `inverse`, `divide` and `power` are the ones that refuse to divide by zero. -/

namespace Kzg

/-- The order of the curve groups, a prime. -/
def scalarOrder : Nat :=
  21888242871839275222246405745257275088548364400416034343698204186575808495617

instance : Modulus scalarOrder := ⟨by decide⟩

abbrev Fr := Residue scalarOrder

namespace Fr

def ofNat (n : Nat) : Fr := Residue.ofNat n

def inverse (a : Fr) : Except PolyError Fr :=
  if a = 0 then .error .divisionByZero else .ok a⁻¹

def divide (a b : Fr) : Except PolyError Fr :=
  return a * (← inverse b)

/-- A negative exponent inverts the power, so that only negative powers of zero fail. -/
def power (a : Fr) (e : Int) : Except PolyError Fr :=
  if e < 0 then inverse (a ^ e.natAbs) else .ok (a ^ e.natAbs)

def powers (x : Fr) (count : Nat) : List Fr :=
  go count 1
where
  go : Nat → Fr → List Fr
    | 0, _ => []
    | k + 1, y => y :: go k (y * x)

/-- With `acc` the product of the nonzero entries so far, gives its inverse and the inverses of
the remaining entries, from a single inversion at the end of the list. -/
def invertFrom (acc : Fr) : List Fr → Except PolyError (Fr × List Fr)
  | [] => return (← inverse acc, [])
  | v :: vs => do
    if v = 0 then
      let (i, inverses) ← invertFrom acc vs
      return (i, 0 :: inverses)
    else
      let (i, inverses) ← invertFrom (acc * v) vs
      return (i * v, i * acc :: inverses)

/-- Inverts every entry with one inversion. Zeros are skipped and stay zero. -/
def invertAll (values : List Fr) : Except PolyError (List Fr) :=
  return (← invertFrom 1 values).2

end Fr

end Kzg
