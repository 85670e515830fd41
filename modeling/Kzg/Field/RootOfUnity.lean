import Kzg.Field.Scalar

/-! # Roots of unity of two-power order

The scalar field has roots of unity of order `2^k` for `k` up to 28 and no further. The canonical
root of each order is a power of one fixed root of order `2^28`. -/

namespace Kzg

def maxLogSize : Nat := 28

def maxSize : Nat := 1 <<< maxLogSize

def isPowerOfTwo (n : Nat) : Bool :=
  n == 1 <<< n.log2

def ceilPowerOfTwo (n : Nat) : Nat :=
  if n ≤ 1 then 1 else 1 <<< ((n - 1).log2 + 1)

namespace Fr

def rootOfMaxOrder : Fr :=
  ofNat 19103219067921713944291392827692070036145651957329286315305642004821462161904

/-- The canonical root of order `2^k`. -/
def canonicalRoot (k : Nat) : Fr :=
  rootOfMaxOrder ^ (1 <<< (maxLogSize - k))

def rootOfOrder? (n : Nat) : Option Fr :=
  if isPowerOfTwo n && n.log2 ≤ maxLogSize then some (canonicalRoot n.log2) else none

def primitiveRoot (k : Nat) : Except KzgError Fr :=
  if k > maxLogSize then .error (.rootPower maxLogSize) else .ok (canonicalRoot k)

/-- For a power of two `n`: the order of `x` is exactly `n`. -/
def hasOrder (x : Fr) (n : Nat) : Bool :=
  x ^ n == 1 && (n ≤ 1 || x ^ (n / 2) != 1)

/-- The number of squarings, at most `limit`, that take `x` to one. -/
def squaringsToOne? : Nat → Fr → Option Nat
  | 0, x => if x = 1 then some 0 else none
  | limit + 1, x => if x = 1 then some 0 else (squaringsToOne? limit (x * x)).map (· + 1)

/-- The powers of a root of unity up to and with the first that is one again. -/
def cycle (root : Fr) : Except PolyError (List Fr) :=
  match squaringsToOne? maxLogSize root with
  | some k => .ok (powers root ((1 <<< k) + 1))
  | none => .error .notARootOfUnity

end Fr

end Kzg
