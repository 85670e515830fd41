import Kzg.Proofs.Domain.Lagrange
import Kzg.Proofs.Group.LinearCombination
import Kzg.Proofs.Setup.Responses
import Kzg.Setup.Trusted

/-! # What a setup that holds its secret supplies

However often a trusted setup has been asked before, a vector of powers is that of the secret and a
Lagrange vector is that of the domain: what it keeps is invisible. A published setup holds the same
powers. -/

namespace Kzg

open PointGroup (generator)
open SetupM (Responds)

section Powers

variable {G : Type} [PointGroup G]

def powerVector (secret : Fr) (length : Nat) : List G :=
  generatorMultiples (Fr.powers secret length)

@[simp] theorem length_powerVector (secret : Fr) (n : Nat) :
    (powerVector secret n : List G).length = n := by
  rw [powerVector, length_generatorMultiples, Fr.length_powers]

theorem take_powerVector (secret : Fr) {m n : Nat} (h : m ≤ n) :
    (powerVector secret n : List G).take m = powerVector secret m := by
  rw [powerVector, take_generatorMultiples, Fr.take_powers secret h, powerVector]

theorem extendPowers_powerVector (secret : Fr) (m n : Nat) :
    TrustedSetup.extendPowers secret (powerVector secret m : List G) n =
      powerVector secret (m + (n - m)) := by
  rw [TrustedSetup.extendPowers, length_powerVector, powerVector, ← generatorMultiples_append,
    ← Fr.powers_add, powerVector]

end Powers

namespace TrustedSetup

variable {G1 G2 : Type} [PointGroup G1] [PointGroup G2]

/-- The setups that requests lead to from a fresh one with the given secret. -/
inductive Reached (secret : Fr) : TrustedSetup G1 G2 → Prop
  | fresh {s : TrustedSetup G1 G2} : ofSecret secret = .ok s → Reached secret s
  | g1Powers {s : TrustedSetup G1 G2} (length : Nat) : Reached secret s →
    Reached secret ((g1Powers length).run.run s).2
  | g2Powers {s : TrustedSetup G1 G2} (length : Nat) : Reached secret s →
    Reached secret ((g2Powers length).run.run s).2
  | lagrange {s : TrustedSetup G1 G2} {d : Domain} : d.Built → Reached secret s →
    Reached secret ((lagrange d).run.run s).2

omit [PointGroup G2] in
/-- A vector that is not known yet is computed and kept. -/
theorem run_lagrange (d : Domain) (s : TrustedSetup G1 G2) :
    (lagrange d : SetupM _ (List G1)).run.run s =
      match s.lagrangeVectors.lookup (d.size, d.generator) with
      | some vector => (.ok vector, s)
      | none =>
        let vector := generatorMultiples (d.lagrangeAt s.secret)
        (.ok vector,
          { s with lagrangeVectors := ((d.size, d.generator), vector) :: s.lagrangeVectors }) := by
  rw [lagrange, SetupM.run_get_bind]
  cases hLookup : s.lagrangeVectors.lookup (d.size, d.generator) with
  | some vector =>
    simp only [hLookup]
    rfl
  | none =>
    simp only [hLookup, Domain.lagrangeWeights_eq]
    rfl

/-- What is kept is what would be computed. -/
structure Consistent (secret : Fr) (s : TrustedSetup G1 G2) : Prop where
  secret_eq : s.secret = secret
  g1_eq : ∃ n, s.g1 = powerVector secret n
  g2_eq : ∃ n, s.g2 = powerVector secret n
  lagrange_eq {d : Domain} {vector : List G1} : d.Built →
    s.lagrangeVectors.lookup (d.size, d.generator) = some vector →
      vector = generatorMultiples (d.lagrangeAt secret)

namespace Consistent

variable {secret : Fr} {s : TrustedSetup G1 G2}

theorem of_fresh (h : ofSecret secret = .ok s) : Consistent secret s := by
  rw [ofSecret] at h
  split at h
  · cases h
  · cases h
    exact ⟨rfl, ⟨0, rfl⟩, ⟨0, rfl⟩, fun _ hLookup => by cases hLookup⟩

theorem extend {G : Type} [PointGroup G] {known : List G}
    (h : ∃ n, known = powerVector secret n) (length : Nat) :
    (∃ n, extendPowers secret known length = powerVector secret n) ∧
      (extendPowers secret known length).take length = powerVector secret length := by
  obtain ⟨n, rfl⟩ := h
  rw [extendPowers_powerVector]
  exact ⟨⟨_, rfl⟩, take_powerVector secret (by omega)⟩

theorem responds_g1Powers (length : Nat) :
    Responds (Consistent secret) (g1Powers length : SetupM (TrustedSetup G1 G2) (List G1))
      (.ok (powerVector secret length)) := by
  intro s hs
  obtain rfl := hs.secret_eq
  obtain ⟨hVector, hTake⟩ := extend hs.g1_eq length
  refine ⟨{ s with g1 := extendPowers s.secret s.g1 length }, ?_, { hs with g1_eq := hVector }⟩
  rw [← hTake]
  rfl

theorem responds_g2Powers (length : Nat) :
    Responds (Consistent secret) (g2Powers length : SetupM (TrustedSetup G1 G2) (List G2))
      (.ok (powerVector secret length)) := by
  intro s hs
  obtain rfl := hs.secret_eq
  obtain ⟨hVector, hTake⟩ := extend hs.g2_eq length
  refine ⟨{ s with g2 := extendPowers s.secret s.g2 length }, ?_, { hs with g2_eq := hVector }⟩
  rw [← hTake]
  rfl

/-- A vector is found under the size and the generator of its domain, which leave no choice. -/
theorem responds_lagrange {d : Domain} (hd : d.Built) :
    Responds (Consistent secret) (lagrange d : SetupM (TrustedSetup G1 G2) (List G1))
      (.ok (generatorMultiples (d.lagrangeAt secret))) := by
  intro s hs
  obtain rfl := hs.secret_eq
  rw [run_lagrange]
  cases hLookup : s.lagrangeVectors.lookup (d.size, d.generator) with
  | some vector =>
    refine ⟨s, ?_, hs⟩
    simp only [← hs.lagrange_eq hd hLookup]
  | none =>
    refine ⟨_, rfl, { hs with lagrange_eq := ?_ }⟩
    intro d' vector hd' hLookup'
    rw [List.lookup_cons] at hLookup'
    split at hLookup'
    · rename_i hKey
      rw [beq_iff_eq, Prod.mk.injEq] at hKey
      rw [hd'.ext hd hKey.1 hKey.2]
      exact (Option.some.inj hLookup').symm
    · exact hs.lagrange_eq hd' hLookup'

end Consistent

theorem Reached.consistent {secret : Fr} {s : TrustedSetup G1 G2} (h : Reached secret s) :
    Consistent secret s := by
  induction h with
  | fresh hFresh => exact .of_fresh hFresh
  | g1Powers length _ ih =>
    obtain ⟨s', hRun, hs'⟩ := Consistent.responds_g1Powers length _ ih
    rwa [hRun]
  | g2Powers length _ ih =>
    obtain ⟨s', hRun, hs'⟩ := Consistent.responds_g2Powers length _ ih
    rwa [hRun]
  | lagrange hd _ ih =>
    obtain ⟨s', hRun, hs'⟩ := Consistent.responds_lagrange hd _ ih
    rwa [hRun]

variable (G1 G2) in
theorem exists_reached {secret : Fr} (h : secret ≠ 0) :
    ∃ s : TrustedSetup G1 G2, Reached secret s :=
  ⟨⟨secret, [], [], [], h⟩, .fresh (dif_neg h)⟩

theorem Reached.secret_ne_zero {secret : Fr} {s : TrustedSetup G1 G2} (h : Reached secret s) :
    secret ≠ 0 :=
  h.consistent.secret_eq ▸ s.secret_ne_zero

section Responses

variable (secret : Fr)

/-- A request that keeps a setup consistent has the same answer at all times. -/
theorem responds_of_consistent {α : Type} {x : SetupM (TrustedSetup G1 G2) α}
    {r : Except KzgError α} (hAnswer : Responds (Consistent secret) x r)
    (hNext : ∀ s, Reached secret s → Reached secret (x.run.run s).2) :
    Responds (Reached secret) x r := by
  intro s hs
  obtain ⟨s', hRun, -⟩ := hAnswer s hs.consistent
  have hReached := hNext s hs
  rw [hRun] at hReached
  exact ⟨s', hRun, hReached⟩

theorem responds_g1Powers (length : Nat) :
    Responds (Reached secret) (SetupSource.g1Powers length : SetupM (TrustedSetup G1 G2) (List G1))
      (.ok (powerVector secret length)) :=
  responds_of_consistent secret (Consistent.responds_g1Powers length) fun _ => .g1Powers length

theorem responds_g2Powers (length : Nat) :
    Responds (Reached secret) (SetupSource.g2Powers length : SetupM (TrustedSetup G1 G2) (List G2))
      (.ok (powerVector secret length)) :=
  responds_of_consistent secret (Consistent.responds_g2Powers length) fun _ => .g2Powers length

theorem responds_lagrange {d : Domain} (hd : d.Built) :
    Responds (Reached secret) (SetupSource.lagrange d : SetupM (TrustedSetup G1 G2) (List G1))
      (.ok (generatorMultiples (d.lagrangeAt secret))) :=
  responds_of_consistent secret (Consistent.responds_lagrange hd) fun _ => .lagrange hd

theorem responds_publish (g1Length g2Length : Nat) :
    Responds (Reached secret) (publish g1Length g2Length : SetupM (TrustedSetup G1 G2) _)
      (PublicSetup.ofVectors (powerVector secret g1Length) (powerVector secret (max g2Length 2))) :=
  (responds_g1Powers secret g1Length).bind
    ((responds_g2Powers secret (max g2Length 2)).bind (SetupM.responds_lift _))

end Responses

end TrustedSetup

end Kzg
