import Kzg.Curve.Tower

/-! # The pairing

The ate pairing of the two groups: the product of the lines met while a point of the second group
is multiplied by `6·x²`, one less than the trace of the curve, raised to the power that takes it to
a root of unity of the order of the groups. -/

namespace Kzg.Bn254.Ate

def parameter : Nat := 4965661367192848881

def loopCount : Nat := 6 * parameter * parameter

/-- The value at `(px, py)` of the line through `(x, y)` with the given slope, all on the twist but
`(px, py)`. Its parts stand beside `1`, `w` and `w³`. -/
def line (slope x y : Fq2) (px py : Fq) : Fq12 :=
  ⟨⟨⟨py, 0⟩, 0, 0⟩, ⟨-(slope * ⟨px, 0⟩), slope * x - y, 0⟩⟩

def advance (slope x y x' : Fq2) (px py : Fq) : (Fq2 × Fq2) × Fq12 :=
  let x3 := slope * slope - x - x'
  ((x3, slope * (x - x3) - y), line slope x y px py)

def step (qx qy : Fq2) (px py : Fq) (digit : Bool) (acc : (Fq2 × Fq2) × Fq12) :
    (Fq2 × Fq2) × Fq12 :=
  let ((x, y), f) := acc
  let square := x * x
  let tangent := (square + square + square) * (y + y)⁻¹
  let ((x, y), l) := advance tangent x y x px py
  let f := f * f * l
  if digit then
    let chord := (y - qy) * (x - qx)⁻¹
    let (r, l) := advance chord x y qx px py
    (r, f * l)
  else ((x, y), f)

/-- The product of the lines, and one for a pair with a point at infinity. -/
def millerLoop : G1 → G2 → Fq12
  | .affine px py, .affine qx qy =>
    let digits := List.range loopCount.log2
    (digits.foldr (fun i acc => step qx qy px py (loopCount.testBit i) acc) ((qx, qy), 1)).2
  | _, _ => 1

/-- Whether the power to `(q¹² - 1)/r` is one, with `q` and `r` the orders of the base field and of
the groups. -/
def reducesToOne (f : Fq12) : Bool :=
  (f.conjugate * f⁻¹) ^ ((Nat.pow baseOrder 6 + 1) / scalarOrder) = 1

end Kzg.Bn254.Ate

namespace Kzg.Bn254

instance : Pairing G1 G2 where
  productIsOne pairs :=
    Ate.reducesToOne (pairs.foldl (fun f (p, q) => f * Ate.millerLoop p q) 1)

end Kzg.Bn254
