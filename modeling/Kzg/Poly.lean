import Kzg.Domain

/-! # Polynomials in either form

A polynomial is held by its coefficients or by its values on a domain. Operations that need one
form ask for it and fail on the other. -/

namespace Kzg

structure EvalForm where
  evals : List Fr
  domain : Domain
  length_evals : evals.length = domain.size

namespace EvalForm

def onDomain (evals : List Fr) (domain : Domain) : Except PolyError EvalForm :=
  if h : evals.length = domain.size then .ok ⟨evals, domain, h⟩
  else .error (.evaluationCount evals.length domain.size)

/-- The values on the canonical domain of as many elements; they are never padded. -/
def ofValues (evals : List Fr) : Except PolyError EvalForm := do
  onDomain evals (← Domain.ofSize evals.length)

def eval (e : EvalForm) (x : Fr) : Except PolyError Fr :=
  e.domain.evalAt e.evals x

def toCoeffs (e : EvalForm) : Except PolyError Coeffs :=
  e.domain.interpolate e.evals

end EvalForm

namespace Coeffs

/-- Only the coefficients up to the leading one have to fit the domain. -/
def toEvalsOn (p : Coeffs) (domain : Domain) : Except PolyError EvalForm := do
  EvalForm.onDomain (← domain.valuesOf p.trim) domain

/-- The values on the smallest canonical domain for all stored coefficients. -/
def toEvals (p : Coeffs) : Except PolyError EvalForm := do
  p.toEvalsOn (← Domain.ofSize (ceilPowerOfTwo (max p.length 1)))

end Coeffs

inductive Poly
  | coeffs (p : Coeffs)
  | evals (e : EvalForm)

namespace Poly

def size : Poly → Nat
  | coeffs p => p.length
  | evals e => e.evals.length

def asCoeffs : Poly → Except PolyError Coeffs
  | coeffs p => .ok p
  | evals _ => .error .expectedCoefficients

def asEvals : Poly → Except PolyError EvalForm
  | evals e => .ok e
  | coeffs _ => .error .expectedEvaluations

def toCoeffs : Poly → Except PolyError Coeffs
  | coeffs p => .ok p
  | evals e => e.toCoeffs

def eval : Poly → Fr → Except PolyError Fr
  | coeffs p, x => .ok (p.eval x)
  | evals e, x => e.eval x

def trim (p : Poly) : Except PolyError Poly :=
  return coeffs (← p.asCoeffs).trim

def intoCoeffs (p : Poly) : Except PolyError Poly :=
  return coeffs (← p.toCoeffs)

def intoEvals (p : Poly) : Except PolyError Poly := do
  return evals (← (← p.asCoeffs).toEvals)

def intoEvalsOn (p : Poly) (domain : Domain) : Except PolyError Poly := do
  return evals (← (← p.asCoeffs).toEvalsOn domain)

end Poly

end Kzg
