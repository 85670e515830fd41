import Kzg.Field.RootOfUnity
import Kzg.Coefficients.Basic

/-! # The discrete Fourier transform

The transform of a list of `2^k` values is assembled from the transforms of the values at even and
at odd positions, with powers of the root read off its table of powers. The values may be scalars
or anything else that scalars act on. -/

namespace Kzg

def evens {α : Type} : List α → List α
  | [] => []
  | [a] => [a]
  | a :: _ :: l => a :: evens l

def odds {α : Type} : List α → List α
  | [] => []
  | [_] => []
  | _ :: b :: l => b :: odds l

namespace Fourier

variable {V : Type}

/-- Where the factors of `half` butterflies stand in a table of powers. -/
def twiddleIndices (half stride : Nat) : List Nat :=
  (List.range half).map (· * stride)

def twiddles (table : Array Fr) (half stride : Nat) : List Fr :=
  (twiddleIndices half stride).map fun i => table.getD i 0

/-- The transform of `2^k` values, where the root is entry `stride` of the table. -/
def transform [Add V] [Sub V] (act : Fr → V → V) (table : Array Fr) :
    (k stride : Nat) → List V → List V
  | 0, _, values => values
  | k + 1, stride, values =>
    let low := transform act table k (2 * stride) (evens values)
    let high := List.zipWith act (twiddles table (1 <<< k) stride)
      (transform act table k (2 * stride) (odds values))
    List.zipWith (· + ·) low high ++ List.zipWith (· - ·) low high

/-- The inverse of the transform by a root of order `n`: the transform by the inverse of the root,
divided by `n`. -/
def inverseTransform [Add V] [Sub V] (act : Fr → V → V) (root : Fr) (values : List V) :
    Except PolyError (List V) := do
  let table ← (root⁻¹).cycle
  let n := values.length
  return (transform act table.toArray n.log2 1 values).map (act (Fr.ofNat n)⁻¹)

end Fourier

def checkTransform (values : List Fr) (root : Fr) : Except PolyError Unit := do
  let n := values.length
  if !isPowerOfTwo n then throw (.transformLength n)
  if !root.hasOrder n then throw (.rootOrder n)

def fft (values : List Fr) (root : Fr) : Except PolyError (List Fr) := do
  checkTransform values root
  let table ← root.cycle
  return Fourier.transform (· * ·) table.toArray values.length.log2 1 values

def ifft (values : List Fr) (root : Fr) : Except PolyError (List Fr) := do
  checkTransform values root
  Fourier.inverseTransform (· * ·) root values

def fftOnCoset (coeffs : Coeffs) (root shift : Fr) : Except PolyError (List Fr) :=
  fft (coeffs.dilate shift) root

def ifftOnCoset (values : List Fr) (root shift : Fr) : Except PolyError Coeffs := do
  Coeffs.contract (← ifft values root) shift

def Coeffs.fastMul (p q : Coeffs) : Except PolyError Coeffs := do
  if p.isEmpty || q.isEmpty then return []
  let length := p.length + q.length - 1
  let n := ceilPowerOfTwo length
  let some root := Fr.rootOfOrder? n | throw (.noRootOfUnity n)
  let pValues ← fft (p.padTo n) root
  let qValues ← fft (q.padTo n) root
  return (← ifft (List.zipWith (· * ·) pValues qValues) root).take length

end Kzg
