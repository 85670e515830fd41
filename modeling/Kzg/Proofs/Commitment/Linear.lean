import Kzg.Proofs.Commitment
import Kzg.Proofs.Group.Exponent

/-! # Commitments are linear

A source whose points are multiples of the generator, of whatever scalars, commits to sums,
differences and multiples of coefficients by those of the commitments. Which coefficients it has
room for is a matter of the trimmed length, and so is the failure of a source that has a fixed
number of points. -/

namespace Kzg

open PointGroup (generator)
open LawfulPointGroup
open Polynomial
open SetupM (Responds)

variable {S G1 G2 : Type} [PointGroup G1] [SetupSource S G1 G2]

/-- On the setups in `I` there is a commitment to the coefficients that `capacity` has room for and
to no others, and the operations on coefficients are those on the commitments. -/
structure CommitsLinearly (I : S → Prop) (capacity : ℕ∞) : Prop where
  exists_iff (p : Coeffs) : (∃ c : G1, Responds I (commitCoeffs p : SetupM S G1) (.ok c)) ↔
    p.trim.length ≤ capacity
  add {p q : Coeffs} {c d : G1} : Responds I (commitCoeffs p : SetupM S G1) (.ok c) →
    Responds I (commitCoeffs q : SetupM S G1) (.ok d) →
      Responds I (commitCoeffs (p.add q) : SetupM S G1) (.ok (c + d))
  sub {p q : Coeffs} {c d : G1} : Responds I (commitCoeffs p : SetupM S G1) (.ok c) →
    Responds I (commitCoeffs q : SetupM S G1) (.ok d) →
      Responds I (commitCoeffs (p.sub q) : SetupM S G1) (.ok (c - d))
  scaleBy {p : Coeffs} {c : G1} (s : Fr) : Responds I (commitCoeffs p : SetupM S G1) (.ok c) →
    Responds I (commitCoeffs (p.scaleBy s) : SetupM S G1) (.ok (s • c))
  append_zeros (p : Coeffs) (n : Nat) :
    (commitCoeffs (p ++ List.replicate n 0) : SetupM S G1) = commitCoeffs p

theorem commitCoeffs_eq_of_toPoly_eq {p q : Coeffs} (h : p.toPoly = q.toPoly) :
    (commitCoeffs p : SetupM S G1) = commitCoeffs q := by
  rw [commitCoeffs, commitCoeffs, Coeffs.trim_eq_of_toPoly_eq h]

section Supplies

variable [LawfulPointGroup G1] {I : S → Prop} {weights : Nat → Fr} {capacity : ℕ∞}
  (hNonempty : ∃ s, I s) (hMultiples : SuppliesMultiples I weights capacity)
  (hFails : ∀ p : Coeffs, ¬ (p.trim.length : ℕ∞) ≤ capacity →
    ∃ e, Responds I (commitCoeffs p : SetupM S G1) (.error e))

include hNonempty hMultiples hFails

/-- The failures tell the room that a source has: without them it may have more than it says. -/
theorem responds_commitCoeffs_ok_iff (p : Coeffs) (c : G1) :
    Responds I (commitCoeffs p : SetupM S G1) (.ok c) ↔
      p.trim.length ≤ capacity ∧ c = weightedSum weights p.toPoly • generator := by
  constructor
  · intro h
    have hFits : p.trim.length ≤ capacity := by
      by_contra hNot
      obtain ⟨e, hError⟩ := hFails p hNot
      cases h.unique hError hNonempty
    have hValue := responds_commitCoeffs_weightedSum hMultiples hFits
    exact ⟨hFits, Except.ok.inj (h.unique hValue hNonempty)⟩
  · rintro ⟨hFits, rfl⟩
    exact responds_commitCoeffs_weightedSum hMultiples hFits

theorem commitsLinearly_of_suppliesMultiples : CommitsLinearly I capacity := by
  have hCommit := responds_commitCoeffs_ok_iff hNonempty hMultiples hFails
  have hWithin {m n k : Nat} (hLe : k ≤ max m n) (hm : m ≤ capacity) (hn : n ≤ capacity) :
      k ≤ capacity := by
    rcases le_max_iff.mp hLe with hLe | hLe
    · exact (Nat.cast_le.mpr hLe).trans hm
    · exact (Nat.cast_le.mpr hLe).trans hn
  constructor
  case exists_iff =>
    intro p
    simp only [hCommit, exists_and_left, exists_eq, and_true]
  case add =>
    intro p q c d hp hq
    rw [hCommit] at hp hq ⊢
    refine ⟨hWithin (Coeffs.length_trim_add_le p q) hp.1 hq.1, ?_⟩
    rw [hp.2, hq.2, Coeffs.toPoly_add, map_add, add_smul_generator]
  case sub =>
    intro p q c d hp hq
    rw [hCommit] at hp hq ⊢
    refine ⟨hWithin (Coeffs.length_trim_sub_le p q) hp.1 hq.1, ?_⟩
    rw [hp.2, hq.2, Coeffs.toPoly_sub, map_sub, sub_smul_generator]
  case scaleBy =>
    intro p c s hp
    rw [hCommit] at hp ⊢
    refine ⟨(Nat.cast_le.mpr (Coeffs.length_trim_scaleBy_le p s)).trans hp.1, ?_⟩
    rw [hp.2, Coeffs.toPoly_scaleBy, mul_comm, ← smul_eq_C_mul, map_smul, smul_eq_mul,
      mul_smul_generator]
  case append_zeros =>
    intro p n
    apply commitCoeffs_eq_of_toPoly_eq
    rw [Coeffs.toPoly_append, Coeffs.toPoly_replicate_zero, mul_zero, add_zero]

end Supplies

namespace PublicSetup

variable [PointGroup G2] {setup : PublicSetup G1 G2}

theorem responds_commitCoeffs_of_lt {p : Coeffs} (h : setup.g1.length < p.trim.length) :
    Responds (· = setup) (commitCoeffs p : SetupM (PublicSetup G1 G2) G1)
      (.error (.capacityExceeded p.trim.length setup.g1.length)) := by
  have hNe : p.trim ≠ [] := List.ne_nil_of_length_pos (Nat.zero_lt_of_lt h)
  rw [commitCoeffs, if_neg (by simpa using hNe)]
  apply Responds.bind_error
  exact SetupM.responds_read (if_neg (not_le.mpr h))

variable [LawfulPointGroup G1] (hValid : ∀ p ∈ setup.g1, checkPoint p = .ok ())

include hValid

theorem exists_suppliesMultiples :
    ∃ weights, SuppliesMultiples (· = setup) weights setup.g1.length ∧
      setup.g1 = generatorMultiples ((List.range setup.g1.length).map weights) := by
  obtain ⟨xs, hPoints⟩ := exists_generatorMultiples_eq hValid
  obtain ⟨n, hCount⟩ : ∃ n, xs.length = n := ⟨_, rfl⟩
  obtain ⟨weights, rfl⟩ := exists_eq_map_range hCount
  have hLength : setup.g1.length = n := by rw [hPoints, length_generatorMultiples, hCount]
  refine ⟨weights, fun length hFits => SetupM.responds_read ?_, by rw [hLength, hPoints]⟩
  rw [Nat.cast_le, hLength] at hFits
  rw [powers, hLength, if_pos hFits, hPoints, take_generatorMultiples, ← List.map_take,
    List.take_range, min_eq_left hFits]

theorem commitsLinearly : CommitsLinearly (· = setup) setup.g1.length := by
  obtain ⟨weights, hMultiples, -⟩ := exists_suppliesMultiples hValid
  have hNonempty : ∃ s, s = setup := ⟨setup, rfl⟩
  apply commitsLinearly_of_suppliesMultiples hNonempty hMultiples
  intro p hLarge
  exact ⟨_, responds_commitCoeffs_of_lt (by simpa using hLarge)⟩

/-- A linear map is known by its values on the powers of `x`, which are the points themselves. -/
theorem responds_commitCoeffs_X_pow {i : Nat} {point : G1} (hPoint : setup.g1[i]? = some point) :
    Responds (· = setup) (commitCoeffs (List.replicate i 0 ++ [1]) : SetupM (PublicSetup G1 G2) G1)
      (.ok point) := by
  obtain ⟨weights, hMultiples, hPoints⟩ := exists_suppliesMultiples hValid
  obtain ⟨hi, -⟩ := List.getElem?_eq_some_iff.mp hPoint
  have hWeight : point = weights i • generator := by
    rw [hPoints, generatorMultiples, List.map_map, List.getElem?_map,
      List.getElem?_range hi] at hPoint
    exact (Option.some.inj hPoint).symm
  have hPoly : Coeffs.toPoly (List.replicate i 0 ++ [1]) = X ^ i := by
    simp [Coeffs.toPoly_append]
  have hFits : (Coeffs.trim (List.replicate i 0 ++ [1])).length ≤ setup.g1.length := by
    refine (Coeffs.length_trim_le _).trans ?_
    simpa using hi
  rw [hWeight, ← weightedSum_X_pow weights, ← hPoly]
  exact responds_commitCoeffs_weightedSum hMultiples (Nat.cast_le.mpr hFits)

end PublicSetup

section Sources

variable [PointGroup G2] [LawfulPointGroup G1]

variable (G1 G2) in
theorem TrustedSetup.commitsLinearly {secret : Fr} (hSecret : secret ≠ 0) :
    CommitsLinearly (Reached secret : TrustedSetup G1 G2 → Prop) ⊤ := by
  have hMultiples :
      SuppliesMultiples (Reached secret : TrustedSetup G1 G2 → Prop) (secret ^ ·) ⊤ :=
    fun length _ => (suppliesPowers G1 G2 secret length).suppliesMultiples length le_rfl
  apply commitsLinearly_of_suppliesMultiples (exists_reached G1 G2 hSecret) hMultiples
  intro p hLarge
  exact absurd le_top hLarge

/-- Two commitments of the holder of the secret are equal exactly when the values at the secret
are. -/
theorem commitments_linear {secret : Fr} (hSecret : secret ≠ 0) {setup : PublicSetup G1 G2}
    (hValid : ∀ p ∈ setup.g1, checkPoint p = .ok ()) :
    CommitsLinearly (TrustedSetup.Reached secret : TrustedSetup G1 G2 → Prop) ⊤ ∧
      (∀ p q : Coeffs, ∃ c d : G1,
        Responds (TrustedSetup.Reached secret) (commitCoeffs p : SetupM (TrustedSetup G1 G2) G1)
          (.ok c) ∧
        Responds (TrustedSetup.Reached secret) (commitCoeffs q : SetupM (TrustedSetup G1 G2) G1)
          (.ok d) ∧
        (c = d ↔ p.eval secret = q.eval secret)) ∧
      CommitsLinearly (· = setup) setup.g1.length ∧
      (∀ (i : Nat) (point : G1), setup.g1[i]? = some point → Responds (· = setup)
        (commitCoeffs (List.replicate i 0 ++ [1]) : SetupM (PublicSetup G1 G2) G1) (.ok point)) ∧
      ∀ p : Coeffs, setup.g1.length < p.trim.length →
        Responds (· = setup) (commitCoeffs p : SetupM (PublicSetup G1 G2) G1)
          (.error (.capacityExceeded p.trim.length setup.g1.length)) := by
  have hCommit (p : Coeffs) :=
    responds_commitCoeffs (TrustedSetup.suppliesPowers G1 G2 secret _) (le_refl p.trim.length)
  refine ⟨TrustedSetup.commitsLinearly G1 G2 hSecret, fun p q => ?_,
    PublicSetup.commitsLinearly hValid, fun _ _ => PublicSetup.responds_commitCoeffs_X_pow hValid,
    fun _ => PublicSetup.responds_commitCoeffs_of_lt⟩
  exact ⟨_, _, hCommit p, hCommit q, smul_inj⟩

end Sources

/-- A setup whose two vectors belong to different secrets, up to the end of its room. -/
theorem commitments_linear_exponent :
    ∃ setup : PublicSetup (Exponent "G1") (Exponent "G2"),
      (2 : Fr) ≠ 0 ∧ (∀ p ∈ setup.g1, checkPoint p = .ok ()) ∧
      Responds (· = setup) (commitCoeffs [3, 1]) (.ok (.valid 8 : Exponent "G1")) ∧
      Responds (· = setup) (commitCoeffs [4, -1]) (.ok (.valid (-1) : Exponent "G1")) ∧
      Responds (· = setup) (commitCoeffs (Coeffs.add [3, 1] [4, -1]))
        (.ok (.valid 8 + .valid (-1) : Exponent "G1")) ∧
      Responds (· = setup) (commitCoeffs [1, 0, 7] : SetupM _ (Exponent "G1"))
        (.error (.capacityExceeded 3 2)) := by
  let setup : PublicSetup (Exponent "G1") (Exponent "G2") :=
    ⟨[.valid 1, .valid 5], [.valid 1, .valid 4], rfl, rfl, le_rfl⟩
  have hSecret : (2 : Fr) ≠ 0 := by decide
  have hValid : ∀ p ∈ setup.g1, checkPoint p = .ok () := by decide +kernel
  obtain ⟨-, -, hLinear, -, hFails⟩ := commitments_linear hSecret hValid
  have hp : Responds (· = setup) (commitCoeffs [3, 1]) (.ok (.valid 8 : Exponent "G1")) := by
    rintro s rfl
    exact ⟨_, rfl, rfl⟩
  have hq : Responds (· = setup) (commitCoeffs [4, -1]) (.ok (.valid (-1) : Exponent "G1")) := by
    rintro s rfl
    exact ⟨_, rfl, rfl⟩
  exact ⟨setup, hSecret, hValid, hp, hq, hLinear.add hp hq, hFails [1, 0, 7] (by decide)⟩

end Kzg
