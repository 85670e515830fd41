import Kzg.Proofs.Setup.Trusted

/-! # What a published setup supplies

A published setup holds the powers of the secret of the setup that it comes from. It supplies as
many of them as it holds, and the Lagrange vectors of the canonical domains only. -/

namespace Kzg

open PointGroup (generator)
open SetupM (Responds)

namespace PublicSetup

variable {G1 G2 : Type} [PointGroup G1] [PointGroup G2] {secret : Fr} {setup : PublicSetup G1 G2}

theorem ofVectors_eq_ok_iff (g1 : List G1) (g2 : List G2) :
    ofVectors g1 g2 = .ok setup ↔ setup.g1 = g1 ∧ setup.g2 = g2 := by
  constructor
  · intro h
    simp only [ofVectors] at h
    split at h
    · cases h
    · split at h
      · split at h
        · split at h
          · cases h
            exact ⟨rfl, rfl⟩
          · cases h
        · cases h
      · cases h
  · rintro ⟨rfl, rfl⟩
    have hNe : setup.g1 ≠ [] := by
      intro hNil
      have hHead := setup.head_g1
      rw [hNil] at hHead
      cases hHead
    rw [ofVectors, if_neg hNe, dif_pos setup.head_g1, dif_pos setup.two_le_g2,
      dif_pos setup.head_g2]

theorem lagrange_eq_ifftPoints {d : Domain} (h : d.size ≤ setup.g1.length) :
    setup.lagrange d = ifftPoints (setup.g1.take d.size) := by
  rw [lagrange, powers, if_pos h]
  rfl

/-- The setup is the public part of one with the given secret, at whatever time it was
published. -/
def PublishedFrom (secret : Fr) (setup : PublicSetup G1 G2) : Prop :=
  ∃ s : TrustedSetup G1 G2, s.Reached secret ∧ ∃ g1Length g2Length s',
    (TrustedSetup.publish g1Length g2Length).run.run s = (.ok setup, s')

namespace PublishedFrom

variable (h : setup.PublishedFrom secret)

include h

theorem secret_ne_zero : secret ≠ 0 := by
  obtain ⟨s, hs, -⟩ := h
  exact hs.secret_ne_zero

theorem exists_powerVector :
    (∃ m, setup.g1 = powerVector secret m) ∧ ∃ n ≥ 2, setup.g2 = powerVector secret n := by
  obtain ⟨s, hs, m, n, s', hRun⟩ := h
  obtain ⟨s'', hRun', -⟩ := TrustedSetup.responds_publish secret m n s hs
  have hVectors := congrArg Prod.fst (hRun'.symm.trans hRun)
  rw [ofVectors_eq_ok_iff] at hVectors
  exact ⟨⟨m, hVectors.1⟩, max n 2, le_max_right n 2, hVectors.2⟩

theorem g1_eq : setup.g1 = powerVector secret setup.g1.length := by
  obtain ⟨⟨m, hm⟩, -⟩ := h.exists_powerVector
  rw [hm, length_powerVector]

theorem g2Tau_eq : setup.g2Tau = secret • generator := by
  obtain ⟨-, n, hn, hg2⟩ := h.exists_powerVector
  have hEntry : setup.g2[1]? = some (secret • generator) := by
    rw [hg2, powerVector, generatorMultiples, List.getElem?_map, Fr.powers_eq_map]
    simp [Nat.lt_of_lt_of_le Nat.one_lt_two hn]
  exact (List.getElem_eq_iff _).mpr hEntry

theorem responds_g1Powers {length : Nat} (hLength : length ≤ setup.g1.length) :
    Responds (· = setup) (SetupSource.g1Powers length : SetupM (PublicSetup G1 G2) (List G1))
      (.ok (powerVector secret length)) := by
  have hPowers : powers setup.g1 length = .ok (powerVector secret length) := by
    rw [powers, if_pos hLength, h.g1_eq, take_powerVector secret hLength]
  exact SetupM.responds_read hPowers

section Lagrange

variable [LawfulPointGroup G1] {d : Domain} {k : Nat} (hk : k ≤ maxLogSize) (hSize : d.size = 2 ^ k)
  (hCapacity : d.size ≤ setup.g1.length)

include hk hSize hCapacity

theorem lagrange_eq : setup.lagrange d = .ok (generatorMultiples
    ((Domain.cyclic (Fr.canonicalRoot k) k).lagrangeAt secret)) := by
  rw [lagrange_eq_ifftPoints hCapacity, h.g1_eq, take_powerVector secret hCapacity, hSize]
  exact ifftPoints_generatorMultiples_powers hk secret

theorem responds_lagrange :
    Responds (· = setup) (SetupSource.lagrange d : SetupM (PublicSetup G1 G2) (List G1))
      (.ok (generatorMultiples
        ((Domain.cyclic (Fr.canonicalRoot k) k).lagrangeAt secret))) :=
  SetupM.responds_read (h.lagrange_eq hk hSize hCapacity)

end Lagrange

end PublishedFrom

section OfPowers

variable [LawfulPointGroup G1] [LawfulPointGroup G2]

theorem head?_powerVector {G : Type} [PointGroup G] [LawfulPointGroup G] (secret : Fr) (n : Nat) :
    (powerVector secret (n + 1) : List G).head? = some generator := by
  rw [← LawfulPointGroup.one_smul_generator]
  rfl

/-- The powers up to `secret^m` and `secret^(n + 1)`. -/
def ofPowers (secret : Fr) (m n : Nat) : PublicSetup G1 G2 where
  g1 := powerVector secret (m + 1)
  g2 := powerVector secret (n + 2)
  head_g1 := head?_powerVector secret m
  head_g2 := head?_powerVector secret (n + 1)
  two_le_g2 := by simp

theorem publishedFrom_ofPowers {secret : Fr} (h : secret ≠ 0) (m n : Nat) :
    (ofPowers secret m n : PublicSetup G1 G2).PublishedFrom secret := by
  obtain ⟨s, hs⟩ := TrustedSetup.exists_reached G1 G2 h
  obtain ⟨s', hRun, -⟩ := TrustedSetup.responds_publish secret (m + 1) (n + 2) s hs
  refine ⟨s, hs, m + 1, n + 2, s', hRun.trans ?_⟩
  congr 1
  exact (ofVectors_eq_ok_iff _ _).mpr ⟨rfl, by rw [max_eq_left (by omega)]; rfl⟩

end OfPowers

end PublicSetup

end Kzg
