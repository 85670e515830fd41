import Kzg.Bytes

/-! # Groups of points

What the commitment scheme needs of a curve: points with the operations of a group on which scalars
act, a check that a point is one, a written form, and a test on products of pairings. A point is
any pair of coordinates; it is a valid one only after `checkPoint`. -/

namespace Kzg

class PointGroup (G : Type) extends Zero G, Add G, Neg G, SMul Fr G where
  name : String
  generator : G
  onCurve : G → Bool
  inSubgroup : G → Bool
  decEq : DecidableEq G

instance (priority := low) {G : Type} [PointGroup G] : DecidableEq G := PointGroup.decEq

instance {G : Type} [PointGroup G] : Sub G := ⟨fun p q => p + -q⟩

/-- The written form of points, always of `byteSize` bytes. -/
class PointCodec (G : Type) where
  byteSize : Nat
  encode : G → List UInt8
  decode? : List UInt8 → Option G

class Pairing (G1 G2 : Type) where
  /-- Whether the product of the pairings of all pairs is one. -/
  productIsOne : List (G1 × G2) → Bool

variable {G G1 G2 : Type}

/-- The identity is as good as any other point: it is the commitment to zero and the proof of a
constant. -/
def checkPoint [PointGroup G] (p : G) : Except KzgError Unit :=
  if p = 0 then .ok ()
  else if !PointGroup.onCurve p then .error (.offCurve (PointGroup.name G))
  else if !PointGroup.inSubgroup p then .error (.outsideSubgroup (PointGroup.name G))
  else .ok ()

/-- `e(a1, a2) = e(b1, b2)`. -/
def pairingsEqual [PointGroup G1] [Pairing G1 G2] (a1 : G1) (a2 : G2) (b1 : G1) (b2 : G2) : Bool :=
  Pairing.productIsOne [(a1, a2), (-b1, b2)]

def pointBytes [PointCodec G] (p : G) : List UInt8 :=
  (PointCodec.encode p).reverse

def readPoint [PointCodec G] (bytes : List UInt8) : Except PointReadError G :=
  let size := PointCodec.byteSize G
  if bytes.length ≠ size then .error (.byteCount size bytes.length)
  else match PointCodec.decode? bytes.reverse with
    | some p => .ok p
    | none => .error .malformed

end Kzg
