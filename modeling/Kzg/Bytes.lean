import Kzg.Field.Scalar

/-! # Numbers and scalars as byte strings

Numbers are written in a fixed number of bytes. A scalar is read only from its one written form:
32 bytes, most significant first, below the order of the field. -/

namespace Kzg

/-- The lowest `width` digits of `n` in base 256, least significant first. -/
def bytesLE : Nat → Nat → List UInt8
  | 0, _ => []
  | width + 1, n => UInt8.ofNat n :: bytesLE width (n / 256)

def natOfLE : List UInt8 → Nat
  | [] => 0
  | b :: bs => b.toNat + 256 * natOfLE bs

def bytesBE (width n : Nat) : List UInt8 :=
  (bytesLE width n).reverse

def natOfBE (bytes : List UInt8) : Nat :=
  natOfLE bytes.reverse

def countBytes (n : Nat) : List UInt8 :=
  bytesBE 8 n

/-- The text must be ASCII. -/
def asciiBytes (text : String) : List UInt8 :=
  text.toList.map fun c => UInt8.ofNat c.toNat

def chunks {α : Type} (size : Nat) : Nat → List α → List (List α)
  | 0, _ => []
  | count + 1, entries => entries.take size :: chunks size count (entries.drop size)

/-- Only numbers below the modulus name a residue. -/
def Residue.ofNat? {m : Nat} (n : Nat) : Option (Residue m) :=
  if h : n < m then some ⟨n, h⟩ else none

namespace Fr

def byteSize : Nat := 32

def toBytes (a : Fr) : List UInt8 :=
  bytesBE byteSize a.val

def ofBytes (bytes : List UInt8) : Except PointReadError Fr :=
  if bytes.length ≠ byteSize then .error (.byteCount byteSize bytes.length)
  else match Residue.ofNat? (natOfBE bytes) with
    | some a => .ok a
    | none => .error .malformed

end Fr

end Kzg
