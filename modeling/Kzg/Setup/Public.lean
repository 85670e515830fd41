import Kzg.Group.LinearCombination
import Kzg.Setup.Source

/-! # Published setups

A published setup holds the multiples of both generators by the first powers of a secret that
nobody knows. Its capacity is fixed. -/

namespace Kzg

open PointGroup (generator)

/-- Entry `i` of both vectors stands for the generator times `τ^i`. The second one reaches at
least `τ`, which is all a verifier needs. -/
structure PublicSetup (G1 G2 : Type) [PointGroup G1] [PointGroup G2] where
  g1 : List G1
  g2 : List G2
  head_g1 : g1.head? = some generator
  head_g2 : g2.head? = some generator
  two_le_g2 : 2 ≤ g2.length

namespace PublicSetup

variable {G1 G2 : Type} [PointGroup G1] [PointGroup G2]

def ofVectors (g1 : List G1) (g2 : List G2) : Except KzgError (PublicSetup G1 G2) :=
  if g1 = [] then .error .emptySetup
  else if h1 : g1.head? = some generator then
    if hlen : 2 ≤ g2.length then
      if h2 : g2.head? = some generator then .ok ⟨g1, g2, h1, h2, hlen⟩
      else .error .firstG2NotGenerator
    else .error .tooFewG2
  else .error .firstG1NotGenerator

def g2Tau (s : PublicSetup G1 G2) : G2 :=
  have := s.two_le_g2
  s.g2[1]

def powers {G : Type} (vector : List G) (length : Nat) : Except KzgError (List G) :=
  if length ≤ vector.length then .ok (vector.take length)
  else .error (.capacityExceeded length vector.length)

/-- Only the size of the domain counts: the vector is that of the canonical domain. -/
def lagrange (s : PublicSetup G1 G2) (domain : Domain) : Except KzgError (List G1) := do
  ifftPoints (← powers s.g1 domain.size)

instance : SetupSource (PublicSetup G1 G2) G1 G2 where
  g1Powers length := do powers (← get).g1 length
  g2Powers length := do powers (← get).g2 length
  lagrange domain := do (← get).lagrange domain

end PublicSetup

end Kzg
