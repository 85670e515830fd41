import Kzg.Curve.Compressed
import Kzg.Group.Basic

/-! # The two groups of BN254

The first group is the whole curve `y² = x³ + 3` over the base field. The second one is a subgroup
of the twist `y² = x³ + 3/(9 + u)` over the quadratic extension. -/

namespace Kzg.Bn254

abbrev G1 := Point Fq

abbrev G2 := Point Fq2

namespace G1

def constant : Fq := Fq.ofNat 3

def generator : G1 := .affine (Fq.ofNat 1) (Fq.ofNat 2)

/-- The number of points on the curve is the order of the scalar field, so that every point on the
curve is in the subgroup. -/
def inSubgroup (_ : G1) : Bool := true

instance : PointGroup G1 where
  smul s p := p.times s.val
  name := "G1"
  generator := generator
  onCurve := Point.satisfies constant
  inSubgroup := inSubgroup
  decEq := inferInstance

instance : PointCodec G1 where
  byteSize := Coordinate.byteSize Fq
  encode := Compressed.encode
  decode? := Compressed.decode? constant inSubgroup

end G1

namespace G2

/-- `9 + u`, which has neither a square nor a cube root. -/
def twist : Fq2 := ⟨Fq.ofNat 9, Fq.ofNat 1⟩

def constant : Fq2 := ⟨Fq.ofNat 3, 0⟩ * twist⁻¹

def generator : G2 :=
  .affine
    ⟨Fq.ofNat 10857046999023057135944570762232829481370756359578518086990519993285655852781,
      Fq.ofNat 11559732032986387107991004021392285783925812861821192530917403151452391805634⟩
    ⟨Fq.ofNat 8495653923123431417604973247489272438418190587263600148770280649306958101930,
      Fq.ofNat 4082367875863433681332203403145435568316851327593401208105741076214120093531⟩

def inSubgroup (p : G2) : Bool :=
  p.times scalarOrder = .infinity

instance : PointGroup G2 where
  smul s p := p.times s.val
  name := "G2"
  generator := generator
  onCurve := Point.satisfies constant
  inSubgroup := inSubgroup
  decEq := inferInstance

instance : PointCodec G2 where
  byteSize := Coordinate.byteSize Fq2
  encode := Compressed.encode
  decode? := Compressed.decode? constant inSubgroup

end G2

end Kzg.Bn254
