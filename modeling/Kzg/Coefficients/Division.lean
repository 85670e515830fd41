import Kzg.Coefficients.Basic

/-! # Long division of polynomials

The numerator is read from its top coefficient down, with a window of as many coefficients as the
denominator has degrees: each step brings one more coefficient into the window, takes off the
multiple of the denominator that clears the top, and keeps the factor as a digit of the quotient. -/

namespace Kzg.Coeffs

/-- One digit of a division by `low + x^d·lead`, with `d` the length of `low`. -/
def divisionStep (low : Coeffs) (leadInverse : Fr) (c : Fr) (acc : Coeffs × Coeffs) :
    Coeffs × Coeffs :=
  let row := c :: acc.2
  let digit := row.getLastD 0 * leadInverse
  (digit :: acc.1, List.zipWith (fun r d => r - digit * d) row low)

/-- Quotient and remainder. The remainder has exactly as many coefficients as the degree of the
denominator, so that a division is exact when they all are zero. -/
def divRem (num den : Coeffs) : Except PolyError (Coeffs × Coeffs) :=
  match (trim den).getLast? with
  | none => .error .divisionByZero
  | some lead => do
    let leadInverse ← lead.inverse
    let low := (trim den).dropLast
    let (digits, rem) := num.foldr (divisionStep low leadInverse) ([], List.replicate low.length 0)
    return (digits.take (num.length - low.length), rem)

def divExact (num den : Coeffs) : Except PolyError Coeffs := do
  let (quot, rem) ← divRem num den
  if rem.all (· = 0) then return quot else throw .nonZeroRemainder

end Kzg.Coeffs
