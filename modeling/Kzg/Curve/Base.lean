import Kzg.Bytes

/-! # Coordinates in the base field

Points of the first group have their coordinates in a prime field, those of the second one in its
quadratic extension by a root `u` of `-1`. Both kinds of coordinate have a canonical written form,
an order, and square roots where there are any. -/

namespace Kzg

/-- The order of the base field, a prime that is 3 modulo 4. -/
def baseOrder : Nat :=
  21888242871839275222246405745257275088696311157297823662689037894645226208583

instance : Modulus baseOrder := ⟨by decide⟩

abbrev Fq := Residue baseOrder

/-- What the written form of a point needs of its coordinates. -/
class Coordinate (K : Type) where
  byteSize : Nat
  /-- Least significant byte first; the two top bits of the last byte are clear. -/
  toBytes : K → List UInt8
  ofBytes? : List UInt8 → Option K
  lt : K → K → Bool
  sqrt? : K → Option K

namespace Fq

def ofNat (n : Nat) : Fq := Residue.ofNat n

def byteSize : Nat := 32

def toBytes (a : Fq) : List UInt8 :=
  bytesLE byteSize a.val

def ofBytes? (bytes : List UInt8) : Option Fq :=
  Residue.ofNat? (natOfLE bytes)

def sqrt? (a : Fq) : Option Fq :=
  let root := a ^ ((baseOrder + 1) / 4)
  if root * root = a then some root else none

instance : Coordinate Fq where
  byteSize := byteSize
  toBytes := toBytes
  ofBytes? := ofBytes?
  lt a b := a.val < b.val
  sqrt? := sqrt?

end Fq

/-- `c0 + c1·u` with `u² = -1`. -/
structure Fq2 where
  c0 : Fq
  c1 : Fq
deriving DecidableEq

namespace Fq2

def add (a b : Fq2) : Fq2 := ⟨a.c0 + b.c0, a.c1 + b.c1⟩

def sub (a b : Fq2) : Fq2 := ⟨a.c0 - b.c0, a.c1 - b.c1⟩

def neg (a : Fq2) : Fq2 := ⟨-a.c0, -a.c1⟩

def mul (a b : Fq2) : Fq2 :=
  ⟨a.c0 * b.c0 - a.c1 * b.c1, a.c0 * b.c1 + a.c1 * b.c0⟩

def norm (a : Fq2) : Fq :=
  a.c0 * a.c0 + a.c1 * a.c1

def inv (a : Fq2) : Fq2 :=
  let n := a.norm⁻¹
  ⟨a.c0 * n, -a.c1 * n⟩

instance : Zero Fq2 := ⟨⟨0, 0⟩⟩
instance : One Fq2 := ⟨⟨1, 0⟩⟩
instance : Add Fq2 := ⟨add⟩
instance : Sub Fq2 := ⟨sub⟩
instance : Neg Fq2 := ⟨neg⟩
instance : Mul Fq2 := ⟨mul⟩
instance : Inv Fq2 := ⟨inv⟩

def toBytes (a : Fq2) : List UInt8 :=
  Fq.toBytes a.c0 ++ Fq.toBytes a.c1

def ofBytes? (bytes : List UInt8) : Option Fq2 := do
  let c0 ← Fq.ofBytes? (bytes.take Fq.byteSize)
  let c1 ← Fq.ofBytes? (bytes.drop Fq.byteSize)
  return ⟨c0, c1⟩

def lt (a b : Fq2) : Bool :=
  a.c1.val < b.c1.val || (a.c1 == b.c1 && a.c0.val < b.c0.val)

/-- Of an element of the base field, the root of it or of its negative times `u`. Otherwise the
square of the first part of a root is `(c0 ± s)/2`, where `s` is a root of the norm. -/
def sqrt? (a : Fq2) : Option Fq2 :=
  if a.c1 = 0 then
    match Fq.sqrt? a.c0 with
    | some root => some ⟨root, 0⟩
    | none => (Fq.sqrt? (-a.c0)).map fun root => ⟨0, root⟩
  else do
    let half := (Fq.ofNat 2)⁻¹
    let s ← Fq.sqrt? a.norm
    let x ← Fq.sqrt? ((a.c0 + s) * half) <|> Fq.sqrt? ((a.c0 - s) * half)
    return ⟨x, a.c1 * half * x⁻¹⟩

instance : Coordinate Fq2 where
  byteSize := 2 * Fq.byteSize
  toBytes := toBytes
  ofBytes? := ofBytes?
  lt := lt
  sqrt? := sqrt?

end Fq2

end Kzg
