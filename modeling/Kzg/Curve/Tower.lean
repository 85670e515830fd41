import Kzg.Curve.Groups

/-! # The extension tower of the pairing

The values of the pairing are in the extension of degree twelve of the base field, built over the
quadratic one by a cube root `v` of `9 + u` and a square root `w` of `v`. -/

namespace Kzg.Bn254

/-- `c0 + c1·v + c2·v²` with `v³ = 9 + u`. -/
structure Fq6 where
  c0 : Fq2
  c1 : Fq2
  c2 : Fq2
deriving DecidableEq

namespace Fq6

def add (a b : Fq6) : Fq6 := ⟨a.c0 + b.c0, a.c1 + b.c1, a.c2 + b.c2⟩

def sub (a b : Fq6) : Fq6 := ⟨a.c0 - b.c0, a.c1 - b.c1, a.c2 - b.c2⟩

def neg (a : Fq6) : Fq6 := ⟨-a.c0, -a.c1, -a.c2⟩

def mul (a b : Fq6) : Fq6 :=
  ⟨a.c0 * b.c0 + G2.twist * (a.c1 * b.c2 + a.c2 * b.c1),
    a.c0 * b.c1 + a.c1 * b.c0 + G2.twist * (a.c2 * b.c2),
    a.c0 * b.c2 + a.c1 * b.c1 + a.c2 * b.c0⟩

def mulByV (a : Fq6) : Fq6 :=
  ⟨G2.twist * a.c2, a.c0, a.c1⟩

def inv (a : Fq6) : Fq6 :=
  let t0 := a.c0 * a.c0 - G2.twist * (a.c1 * a.c2)
  let t1 := G2.twist * (a.c2 * a.c2) - a.c0 * a.c1
  let t2 := a.c1 * a.c1 - a.c0 * a.c2
  let n := (a.c0 * t0 + G2.twist * (a.c2 * t1 + a.c1 * t2))⁻¹
  ⟨t0 * n, t1 * n, t2 * n⟩

instance : Zero Fq6 := ⟨⟨0, 0, 0⟩⟩
instance : One Fq6 := ⟨⟨1, 0, 0⟩⟩
instance : Add Fq6 := ⟨add⟩
instance : Sub Fq6 := ⟨sub⟩
instance : Neg Fq6 := ⟨neg⟩
instance : Mul Fq6 := ⟨mul⟩
instance : Inv Fq6 := ⟨inv⟩

end Fq6

/-- `c0 + c1·w` with `w² = v`. -/
structure Fq12 where
  c0 : Fq6
  c1 : Fq6
deriving DecidableEq

namespace Fq12

def mul (a b : Fq12) : Fq12 :=
  let low := a.c0 * b.c0
  let high := a.c1 * b.c1
  ⟨low + high.mulByV, (a.c0 + a.c1) * (b.c0 + b.c1) - low - high⟩

def inv (a : Fq12) : Fq12 :=
  let n := (a.c0 * a.c0 - (a.c1 * a.c1).mulByV)⁻¹
  ⟨a.c0 * n, -(a.c1 * n)⟩

instance : One Fq12 := ⟨⟨1, 0⟩⟩
instance : Mul Fq12 := ⟨mul⟩
instance : Inv Fq12 := ⟨inv⟩
instance : Pow Fq12 Nat := ⟨binaryPow⟩

/-- The power to the order of the sextic extension. -/
def conjugate (a : Fq12) : Fq12 :=
  ⟨a.c0, -a.c1⟩

end Fq12

end Kzg.Bn254
