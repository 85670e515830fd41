import Kzg.Setup.Public

/-! # Setups that hold their secret

The vectors are computed on demand and kept: a longer request adds only the missing powers, and
each domain has its Lagrange vector computed once. -/

namespace Kzg

open PointGroup (generator)

structure TrustedSetup (G1 G2 : Type) where
  secret : Fr
  g1 : List G1
  g2 : List G2
  /-- The Lagrange vectors computed so far, by size and generator of their domain. -/
  lagrangeVectors : List ((Nat × Fr) × List G1)
  secret_ne_zero : secret ≠ 0

namespace TrustedSetup

variable {G1 G2 : Type} [PointGroup G1] [PointGroup G2]

def ofSecret (secret : Fr) : Except KzgError (TrustedSetup G1 G2) :=
  if h : secret = 0 then .error .zeroSecret
  else .ok ⟨secret, [], [], [], h⟩

def extendPowers {G : Type} [PointGroup G] (secret : Fr) (known : List G) (length : Nat) : List G :=
  let first := secret ^ known.length
  known ++ generatorMultiples ((Fr.powers secret (length - known.length)).map (· * first))

def g1Powers (length : Nat) : SetupM (TrustedSetup G1 G2) (List G1) := do
  let s ← get
  let vector := extendPowers s.secret s.g1 length
  set { s with g1 := vector }
  return vector.take length

def g2Powers (length : Nat) : SetupM (TrustedSetup G1 G2) (List G2) := do
  let s ← get
  let vector := extendPowers s.secret s.g2 length
  set { s with g2 := vector }
  return vector.take length

def lagrange (domain : Domain) : SetupM (TrustedSetup G1 G2) (List G1) := do
  let s ← get
  let key := (domain.size, domain.generator)
  match s.lagrangeVectors.lookup key with
  | some vector => return vector
  | none =>
    let vector := generatorMultiples (← (domain.lagrangeWeights s.secret : Except PolyError _))
    set { s with lagrangeVectors := (key, vector) :: s.lagrangeVectors }
    return vector

instance : SetupSource (TrustedSetup G1 G2) G1 G2 := ⟨g1Powers, g2Powers, lagrange⟩

def g2Tau : SetupM (TrustedSetup G1 G2) G2 := do
  return (← g2Powers 2).getD 1 0

/-- The public part, with the given numbers of powers, of the second group at least two. -/
def publish (g1Length g2Length : Nat) : SetupM (TrustedSetup G1 G2) (PublicSetup G1 G2) := do
  let g1 ← g1Powers g1Length
  let g2 ← g2Powers (max g2Length 2)
  PublicSetup.ofVectors g1 g2

def describe (s : TrustedSetup G1 G2) : String :=
  s!"TrustedSetup \x7b tau: \"<secret>\", g1_len: {s.g1.length}, g2_len: {s.g2.length} \x7d"

end TrustedSetup

end Kzg
