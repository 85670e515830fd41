/-! # Causes of failure

Three layers can fail: arithmetic on polynomials, the commitment scheme above it, and the reading
of encoded points and scalars. All wording is in this module; the other modules name causes. -/

namespace Kzg

inductive PolyError
  | divisionByZero
  | nonZeroRemainder
  | dimensionMismatch (detail : String)
  | transform (detail : String)
  | incorrectForm (detail : String)
  | other (detail : String)
deriving DecidableEq

namespace PolyError

def message : PolyError → String
  | divisionByZero => "division by zero"
  | nonZeroRemainder => "non-zero remainder in exact division"
  | dimensionMismatch detail => s!"dimension mismatch: {detail}"
  | transform detail => s!"FFT error: {detail}"
  | incorrectForm detail => s!"incorrect form error: {detail}"
  | other detail => s!"generic error: {detail}"

def pointsAndValues (points values : Nat) : PolyError :=
  dimensionMismatch s!"{points} points but {values} values"

def domainAndValues (size values : Nat) : PolyError :=
  dimensionMismatch s!"domain of size {size} but {values} values"

def lengthNotPowerOfTwo (n : Nat) : PolyError :=
  dimensionMismatch s!"length {n} is not a power of two"

def transformLength (n : Nat) : PolyError :=
  dimensionMismatch s!"fft input length {n} is not a power of two"

def rootOrder (n : Nat) : PolyError :=
  dimensionMismatch s!"root of unity does not have order {n}"

def generatorOrder (n : Nat) : PolyError :=
  dimensionMismatch s!"generator does not have order {n}"

def domainSize (n largest : Nat) : PolyError :=
  dimensionMismatch s!"domain size {n} is not a power of two no larger than {largest}"

def notADivisor (order size : Nat) : PolyError :=
  dimensionMismatch s!"{order} does not divide domain size {size}"

def tooManyCoefficients (count size : Nat) : PolyError :=
  dimensionMismatch s!"{count} coefficients do not fit a domain of size {size}"

def evaluationCount (count size : Nat) : PolyError :=
  dimensionMismatch s!"{count} evaluations for a domain of size {size}"

def noClosingRow (count : Nat) : PolyError :=
  dimensionMismatch
    s!"{count} gate values do not leave room for a closing factor in a power-of-two subgroup"

def valuesAndWiring (values wiring : Nat) : PolyError :=
  dimensionMismatch s!"{values} values but {wiring} wiring entries"

def rowCounts (numerator denominator : Nat) : PolyError :=
  dimensionMismatch s!"numerator has {numerator} rows, denominator {denominator}"

def notARootOfUnity : PolyError :=
  transform "element is not a root of unity of supported order"

def noRootOfUnity (n : Nat) : PolyError :=
  transform s!"no root of unity of order {n}"

def expectedCoefficients : PolyError :=
  incorrectForm "expected coefficient form, found evaluation form"

def expectedEvaluations : PolyError :=
  incorrectForm "expected evaluation form, found coefficient form"

end PolyError

inductive KzgError
  | poly (cause : PolyError)
  | msm (detail : String)
  | serialization (detail : String)
  | capacityExceeded (length capacity : Nat)
  | notOnCurve (detail : String)
  | commit (detail : String)
  | transform (detail : String)
  | setup (detail : String)
  | other (detail : String)
  | inputLength
deriving DecidableEq

namespace KzgError

def message : KzgError → String
  | poly cause => s!"polynomial error: {cause.message}"
  | msm detail => s!"MSM error: {detail}"
  | serialization detail => s!"serialization error: {detail}"
  | capacityExceeded length capacity =>
    s!"polynomial degree {length} exceeds SRS capacity {capacity}"
  | notOnCurve detail => s!"not on curve error: {detail}"
  | commit detail => s!"commit error: {detail}"
  | transform detail => s!"FFT error: {detail}"
  | setup detail => s!"setup error: {detail}"
  | other detail => s!"generic error: {detail}"
  | inputLength => "invalid input length"

def termCounts (points scalars : Nat) : KzgError :=
  msm s!"{points} points for {scalars} scalars (msm returned {min points scalars})"

def offCurve (group : String) : KzgError :=
  notOnCurve s!"{group} point not on curve"

def outsideSubgroup (group : String) : KzgError :=
  notOnCurve s!"{group} point not in correct subgroup"

def groupTransformLength : KzgError :=
  transform "length provided is not a power of 2"

def groupTransformDomain : KzgError :=
  transform "Could not perform IFFT due to domain construction error"

def rootPower (largest : Nat) : KzgError :=
  other s!"power must be <= {largest}"

def challengeInSubgroup : KzgError :=
  other "challenge lies inside the subgroup"

def noSuchRoot : KzgError :=
  other "Root of unity not found"

def expectedPlain : KzgError :=
  other "expected a plain permutation proof"

def expectedPrescribed : KzgError :=
  other "expected a prescribed permutation proof with wiring openings"

def emptySetup : KzgError :=
  setup "empty G1 setup vector"

def firstG1NotGenerator : KzgError :=
  setup "first G1 setup point is not the generator"

def tooFewG2 : KzgError :=
  setup "G2 setup vector needs at least [1] and [tau]"

def firstG2NotGenerator : KzgError :=
  setup "first G2 setup point is not the generator"

def zeroSecret : KzgError :=
  setup "setup secret must be nonzero"

def fileMissing : KzgError :=
  setup "No such file or directory (os error 2)"

def pointCount (expected found : Nat) : KzgError :=
  setup s!"Expected {expected} points, but got {found}."

def badPoint (offset : Nat) (reason : String) : KzgError :=
  serialization s!"point at byte {offset}: {reason}"

def badField (field : String) : KzgError :=
  serialization s!"Failed to deserialize {field}"

end KzgError

inductive PointReadError
  | invalidData (detail : String)
  | malformed
deriving DecidableEq

namespace PointReadError

def message : PointReadError → String
  | invalidData detail => s!"Invalid point data: {detail}"
  | malformed => "Deserialization failed"

def byteCount (expected found : Nat) : PointReadError :=
  invalidData s!"expected {expected} bytes, got {found}"

end PointReadError

/-- Arithmetic inside the scheme reports its cause as it is. -/
instance : MonadLift (Except PolyError) (Except KzgError) where
  monadLift := Except.mapError KzgError.poly

end Kzg
