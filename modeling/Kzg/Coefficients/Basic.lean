import Kzg.Field.Scalar

/-! # Polynomials as lists of coefficients

The entry at index `i` is the coefficient of `x^i`. Zeros at the top are allowed and do not change
the polynomial; no operation but `trim` removes them. -/

namespace Kzg

abbrev Coeffs := List Fr

namespace Coeffs

def eval (p : Coeffs) (x : Fr) : Fr :=
  p.foldr (fun c acc => acc * x + c) 0

def trim : Coeffs → Coeffs
  | [] => []
  | c :: p =>
    let rest := trim p
    if rest.isEmpty && c = 0 then [] else c :: rest

def add : Coeffs → Coeffs → Coeffs
  | [], q => q
  | a :: p, [] => a :: p
  | a :: p, b :: q => (a + b) :: add p q

def sub : Coeffs → Coeffs → Coeffs
  | [], q => q.map (-·)
  | a :: p, [] => a :: p
  | a :: p, b :: q => (a - b) :: sub p q

def scaleBy (p : Coeffs) (c : Fr) : Coeffs :=
  p.map (· * c)

/-- The product by rows: one coefficient less than the operands have together, and none if one of
them has none. -/
def mul : Coeffs → Coeffs → Coeffs
  | [], _ => []
  | a :: p, q => if q.isEmpty then [] else add (q.map (a * ·)) (0 :: mul p q)

/-- The coefficients of `p(x·factor)`. -/
def dilate (p : Coeffs) (factor : Fr) : Coeffs :=
  go 1 p
where
  go (power : Fr) : Coeffs → Coeffs
    | [] => []
    | c :: p => c * power :: go (power * factor) p

/-- The coefficients of `p(x/factor)`, which `dilate` by the same factor takes back to `p`. -/
def contract (p : Coeffs) (factor : Fr) : Except PolyError Coeffs :=
  return dilate p (← factor.inverse)

def padTo (p : Coeffs) (n : Nat) : Coeffs :=
  p ++ List.replicate (n - p.length) 0

/-- The zero polynomial reports degree zero. -/
def degree (p : Coeffs) : Nat :=
  (trim p).length - 1

def vanishing (n : Nat) : Coeffs :=
  sub (List.replicate n 0 ++ [1]) [1]

def ofRoots (roots : List Fr) : Coeffs :=
  roots.foldl (fun p r => mul p [-r, 1]) [1]

end Coeffs

end Kzg
