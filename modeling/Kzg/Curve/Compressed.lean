import Kzg.Curve.Point

/-! # Compressed points

The written form of a point is its first coordinate, least significant byte first. The two top
bits of the last byte are flags: one says that the second coordinate is the greater of the two that
the curve allows, the other marks the point at infinity, whose coordinate is written as zero. -/

namespace Kzg.Compressed

def greaterFlag : UInt8 := 0x80

def infinityFlag : UInt8 := 0x40

def setFlags (flags : UInt8) (bytes : List UInt8) : List UInt8 :=
  bytes.dropLast ++ [bytes.getLastD 0 ||| flags]

/-- Which of the two flags are set, and the bytes without them. -/
def splitFlags (bytes : List UInt8) : (Bool × Bool) × List UInt8 :=
  let last := bytes.getLastD 0
  ((last &&& greaterFlag != 0, last &&& infinityFlag != 0),
    bytes.dropLast ++ [last &&& 0x3f])

variable {K : Type} [Zero K] [Add K] [Neg K] [Mul K] [Coordinate K]

def encode : Point K → List UInt8
  | .infinity => setFlags infinityFlag (List.replicate (Coordinate.byteSize K) 0)
  | .affine x y =>
    setFlags (if Coordinate.lt (-y) y then greaterFlag else 0) (Coordinate.toBytes x)

/-- The point on `y² = x³ + b` with the given coordinate, with the greater or the smaller `y`. -/
def lift? (b x : K) (greater : Bool) : Option (Point K) := do
  let y ← Coordinate.sqrt? (x * x * x + b)
  return .affine x (if Coordinate.lt (-y) y = greater then y else -y)

/-- Any canonical coordinate may stand beside the flag of infinity. Points must be in the
subgroup. -/
def decode? (b : K) (inSubgroup : Point K → Bool) (bytes : List UInt8) : Option (Point K) := do
  let ((greater, infinite), bytes) := splitFlags bytes
  if greater && infinite then none
  let x ← Coordinate.ofBytes? bytes
  if infinite then return .infinity
  let p ← lift? b x greater
  if inSubgroup p then return p else none

end Kzg.Compressed
