import Kzg.Argument.Basic

/-! # Permutations

A permutation argument shows that the values of `p1` on the subgroup are those of `p0` in another
order. Each side gives one row per element: `p - θ`, or `p·γ - seq - θ` where each value carries a
label. The running product `t` of the quotients of the rows `f0` and `f1` satisfies
`t(ωx)·f1 = f0·t` on the whole subgroup; `q` is the quotient of the difference by `x^m - 1`. -/

namespace Kzg.Permutation

def plainRows (p : List Fr) (theta : Fr) : List Fr :=
  p.map (· - theta)

def prescribedRows (p labels : List Fr) (gamma theta : Fr) : Except PolyError (List Fr) :=
  if p.length ≠ labels.length then .error (.valuesAndWiring p.length labels.length)
  else .ok (List.zipWith (fun x s => x * gamma - s - theta) p labels)

/-- The quotients of the rows. A zero below the line is an error, not a zero quotient. -/
def ratio (f0 f1 : List Fr) : Except PolyError (List Fr) := do
  if f0.length ≠ f1.length then throw (.rowCounts f0.length f1.length)
  if f1.any (· = 0) then throw .divisionByZero
  return List.zipWith (· * ·) f0 (← Fr.invertAll f1)

def identity (f0 f1 t : Coeffs) (omega : Fr) : Except PolyError Coeffs := do
  let next ← (t.dilate omega).fastMul f1
  return next.sub (← f0.fastMul t)

/-- `t(ωx)·f1 - f0·t = q·(x^m - 1)` at `r`, where `tNext` is the value of `t` at `ω·r`. -/
abbrev HoldsAt (r : Fr) (order : Nat) (f0 f1 t tNext q : Fr) : Prop :=
  q * vanishingAt r order = tNext * f1 - f0 * t

structure Witness where
  domain : Domain
  f0 : Coeffs
  f1 : Coeffs
  t : Coeffs
  q : Coeffs

namespace Witness

/-- The rows of both sides must have the same product. -/
def ofRows (rows0 rows1 : List Fr) : Except PolyError Witness := do
  let quotients ← ratio rows0 rows1
  let domain ← Domain.ofSize quotients.length
  let f0 ← domain.interpolate rows0
  let f1 ← domain.interpolate rows1
  let t ← domain.interpolate (runningProduct (quotients.take (domain.size - 1)))
  let q ← (← identity f0 f1 t domain.generator).divExact domain.vanishing
  return { domain, f0, f1, t, q }

abbrev HoldsAt (w : Witness) (r : Fr) : Prop :=
  Permutation.HoldsAt r w.domain.size (w.f0.eval r) (w.f1.eval r) (w.t.eval r)
    (w.t.eval (w.domain.generator * r)) (w.q.eval r)

end Witness

end Kzg.Permutation
