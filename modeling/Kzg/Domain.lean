import Kzg.Fourier.Transform
import Kzg.Coefficients.Interpolation

/-! # Evaluation domains

A domain is a group of roots of unity of two-power order, listed as the powers of a generator. -/

namespace Kzg

structure Domain where
  size : Nat
  generator : Fr
  sizeInverse : Fr
  elements : List Fr
deriving DecidableEq

/-- Every `stride`-th entry, the first one after `skip` others. -/
def everyNth {α : Type} (stride : Nat) : (skip : Nat) → List α → List α
  | _, [] => []
  | 0, a :: l => a :: everyNth stride (stride - 1) l
  | skip + 1, _ :: l => everyNth stride skip l

namespace Domain

def checkSize (size : Nat) : Except PolyError Unit :=
  if isPowerOfTwo size && size ≤ maxSize then .ok ()
  else .error (.domainSize size maxSize)

def canonicalGenerator (size : Nat) : Except PolyError Fr := do
  checkSize size
  match Fr.rootOfOrder? size with
  | some root => return root
  | none => throw (.noRootOfUnity size)

def ofGenerator (generator : Fr) (size : Nat) : Except PolyError Domain := do
  checkSize size
  if !generator.hasOrder size then throw (.generatorOrder size)
  let table ← generator.cycle
  return {
    size
    generator
    sizeInverse := ← (Fr.ofNat size).inverse
    elements := table.take size }

def ofSize (size : Nat) : Except PolyError Domain := do
  ofGenerator (← canonicalGenerator size) size

def element? (d : Domain) (i : Nat) : Option Fr :=
  d.elements[i]?

def indexOf? (d : Domain) (x : Fr) : Option Nat :=
  d.elements.idxOf? x

def contains (d : Domain) (x : Fr) : Bool :=
  (d.indexOf? x).isSome

def vanishing (d : Domain) : Coeffs :=
  Coeffs.vanishing d.size

def evalVanishing (d : Domain) (x : Fr) : Fr :=
  x ^ d.size - 1

def subgroup (d : Domain) (order : Nat) : Except PolyError Domain := do
  if order = 0 || order > d.size || d.size % order ≠ 0 then throw (.notADivisor order d.size)
  let stride := d.size / order
  return {
    size := order
    generator := d.elements.getD (stride % d.size) 0
    sizeInverse := ← (Fr.ofNat order).inverse
    elements := everyNth stride 0 d.elements }

def checkCount (d : Domain) (values : List Fr) : Except PolyError Unit :=
  if values.length = d.size then .ok () else .error (.evaluationCount values.length d.size)

def valuesOf (d : Domain) (coeffs : Coeffs) : Except PolyError (List Fr) := do
  if coeffs.length > d.size then throw (.tooManyCoefficients coeffs.length d.size)
  fft (coeffs.padTo d.size) d.generator

def interpolate (d : Domain) (values : List Fr) : Except PolyError Coeffs := do
  d.checkCount values
  ifft values d.generator

def valuesOnCoset (d : Domain) (coeffs : Coeffs) (shift : Fr) : Except PolyError (List Fr) :=
  d.valuesOf (coeffs.dilate shift)

def interpolateOnCoset (d : Domain) (values : List Fr) (shift : Fr) : Except PolyError Coeffs := do
  Coeffs.contract (← d.interpolate values) shift

/-- The value at `x` of the polynomial with the given values on the domain: one of them where `x`
is in the domain, and the barycentric formula elsewhere. -/
def evalAt (d : Domain) (values : List Fr) (x : Fr) : Except PolyError Fr := do
  d.checkCount values
  match d.indexOf? x with
  | some i => return values.getD i 0
  | none => Coeffs.barycentric x d.elements values

/-- The values at `x` of the Lagrange polynomials of the domain, which mark the position of `x` if
it is an element. -/
def lagrangeWeights (d : Domain) (x : Fr) : Except PolyError (List Fr) := do
  let vanishing := d.evalVanishing x
  if vanishing = 0 then return d.elements.map fun w => if w = x then 1 else 0
  let inverses ← Fr.invertAll (d.elements.map fun w => Fr.ofNat d.size * (x - w))
  return List.zipWith (fun w i => vanishing * w * i) d.elements inverses

end Domain

end Kzg
