import Kzg.Curve.Base

/-! # Points of short Weierstrass curves

The group law of `y² = x³ + b`, on affine points and, for scalar multiples, on Jacobian triples.
Nothing here checks that a point is on a curve. -/

namespace Kzg

inductive Point (K : Type)
  | infinity
  | affine (x y : K)
deriving DecidableEq

/-- `(x/z², y/z³)`, and the point at infinity where `z` is zero. -/
structure Jacobian (K : Type) where
  x : K
  y : K
  z : K

variable {K : Type} [Zero K] [One K] [Add K] [Sub K] [Neg K] [Mul K] [Inv K] [DecidableEq K]

namespace Jacobian

def infinity : Jacobian K := ⟨1, 1, 0⟩

@[specialize] def double (p : Jacobian K) : Jacobian K :=
  let a := p.x * p.x
  let b := p.y * p.y
  let c := b * b
  let s := p.x + b
  let d := s * s - a - c
  let d := d + d
  let e := a + a + a
  let x := e * e - (d + d)
  let c := c + c
  let c := c + c
  let yz := p.y * p.z
  ⟨x, e * (d - x) - (c + c), yz + yz⟩

@[specialize] def addAffine (p : Jacobian K) (x y : K) : Jacobian K :=
  if p.z = 0 then ⟨x, y, 1⟩
  else
    let zz := p.z * p.z
    let h := x * zz - p.x
    let r := y * (zz * p.z) - p.y
    if h = 0 then
      if r = 0 then double p else infinity
    else
      let hh := h * h
      let hhh := h * hh
      let v := p.x * hh
      let x := r * r - hhh - (v + v)
      ⟨x, r * (v - x) - p.y * hhh, p.z * h⟩

@[specialize] def toPoint (p : Jacobian K) : Point K :=
  if p.z = 0 then .infinity
  else
    let i := p.z⁻¹
    let ii := i * i
    .affine (p.x * ii) (p.y * (ii * i))

end Jacobian

namespace Point

instance : Zero (Point K) := ⟨infinity⟩

instance : Neg (Point K) where
  neg
    | infinity => infinity
    | affine x y => affine x (-y)

@[specialize] def add : Point K → Point K → Point K
  | infinity, q => q
  | p, infinity => p
  | affine x y, affine x' y' => (Jacobian.addAffine ⟨x, y, 1⟩ x' y').toPoint

instance : Add (Point K) := ⟨add⟩

@[specialize] def times (n : Nat) : Point K → Point K
  | infinity => infinity
  | affine x y =>
    let step (digit : Bool) (acc : Jacobian K) :=
      if digit then acc.double.addAffine x y else acc.double
    (foldBits step n Jacobian.infinity).toPoint

def satisfies (b : K) : Point K → Bool
  | infinity => true
  | affine x y => y * y = x * x * x + b

end Point

end Kzg
