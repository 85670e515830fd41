import Kzg.Proofs.Coefficients.Combination
import Kzg.Proofs.Domain.Lagrange
import Kzg.Proofs.Group.Laws
import Kzg.Group.LinearCombination

/-! # Linear combinations of multiples of the generator

A combination of multiples of the generator is the multiple by the combination of the scalars. So a
commitment is the value of the polynomial at the secret, and the inverse transform of the powers of
the secret is the Lagrange vector of the canonical domain. -/

namespace Kzg

open PointGroup (generator)
open LawfulPointGroup

variable {G : Type} [PointGroup G]

@[simp] theorem length_generatorMultiples (scalars : List Fr) :
    (generatorMultiples scalars : List G).length = scalars.length :=
  List.length_map _

theorem generatorMultiples_append (xs ys : List Fr) :
    (generatorMultiples (xs ++ ys) : List G) = generatorMultiples xs ++ generatorMultiples ys :=
  List.map_append

theorem take_generatorMultiples (n : Nat) (xs : List Fr) :
    (generatorMultiples xs : List G).take n = generatorMultiples (xs.take n) :=
  List.map_take.symm

variable [LawfulPointGroup G]

theorem exists_generatorMultiples_eq {points : List G} (h : ∀ p ∈ points, checkPoint p = .ok ()) :
    ∃ xs, points = generatorMultiples xs := by
  induction points with
  | nil => exact ⟨[], rfl⟩
  | cons p points ih =>
    obtain ⟨hPoint, hRest⟩ := List.forall_mem_cons.mp h
    obtain ⟨x, rfl⟩ := (checkPoint_eq_ok_iff p).mp hPoint
    obtain ⟨xs, rfl⟩ := ih hRest
    exact ⟨x :: xs, rfl⟩

theorem linearCombination_generatorMultiples {xs scalars : List Fr}
    (h : xs.length = scalars.length) :
    linearCombination (generatorMultiples xs : List G) scalars =
      .ok (Fr.dot xs scalars • generator) := by
  have hFold (xs scalars : List Fr) :
      (List.zipWith (fun p s => s • p) (generatorMultiples xs : List G) scalars).foldr
        (· + ·) 0 = Fr.dot xs scalars • generator := by
    induction xs generalizing scalars with
    | nil => simp [generatorMultiples, zero_smul_generator]
    | cons x xs ih =>
      cases scalars with
      | nil => simp [zero_smul_generator]
      | cons s scalars =>
        rw [Fr.dot_cons, add_smul_generator, mul_comm, mul_smul_generator, ← ih]
        rfl
  rw [linearCombination, length_generatorMultiples, if_neg (not_not.mpr h), hFold]

theorem ifftPoints_generatorMultiples {k : Nat} (hk : k ≤ maxLogSize) {xs : List Fr}
    (hLength : xs.length = 2 ^ k) : ifftPoints (generatorMultiples xs : List G) =
      .ok (generatorMultiples (Fourier.inverseEntries (Fr.canonicalRoot k) k xs)) := by
  have hTransform : Fourier.inverseTransform (· • ·) (Fr.canonicalRoot k)
      (generatorMultiples xs : List G) =
        .ok (generatorMultiples (Fourier.inverseEntries (Fr.canonicalRoot k) k xs)) := by
    rw [generatorMultiples, Fourier.inverseTransform_map (· • ·) (· • (generator : G))
      add_smul_generator sub_smul_generator mul_smul_generator,
      Fourier.inverseTransform_eq hk (Fr.canonicalRoot_primitive hk) hLength]
    rfl
  simp only [ifftPoints, length_generatorMultiples, hLength, isPowerOfTwo_two_pow,
    Fr.rootOfOrder_two_pow hk, hTransform]
  rfl

/-- The transform sees the number of powers only, so its vector is that of the canonical domain. -/
theorem ifftPoints_generatorMultiples_powers {k : Nat} (hk : k ≤ maxLogSize) (x : Fr) :
    ifftPoints (generatorMultiples (Fr.powers x (2 ^ k)) : List G) =
      .ok (generatorMultiples ((Domain.cyclic (Fr.canonicalRoot k) k).lagrangeAt x)) := by
  rw [ifftPoints_generatorMultiples hk (Fr.length_powers x _),
    Domain.lagrangeAt_cyclic hk (Fr.canonicalRoot_primitive hk)]

/-- The transform of the points may be left to the scalars, whatever the points are. -/
theorem linearCombination_ifftPoints {k : Nat} (hk : k ≤ maxLogSize) {points : List G}
    (hPoints : ∀ p ∈ points, checkPoint p = .ok ()) (hLength : points.length = 2 ^ k) :
    ∃ lagrange, ifftPoints points = .ok lagrange ∧
      ∀ values : List Fr, values.length = 2 ^ k → ∃ c,
        linearCombination lagrange values = .ok c ∧
        linearCombination points (Fourier.inverseEntries (Fr.canonicalRoot k) k values) =
          .ok c := by
  obtain ⟨xs, rfl⟩ := exists_generatorMultiples_eq hPoints
  rw [length_generatorMultiples] at hLength
  refine ⟨_, ifftPoints_generatorMultiples hk hLength, fun values hValues => ⟨_,
    linearCombination_generatorMultiples (by simp [hValues]), ?_⟩⟩
  rw [Fourier.dot_inverseEntries_comm _ hLength hValues]
  exact linearCombination_generatorMultiples (by simp [hLength])

omit [LawfulPointGroup G] in
theorem ifftPoints_of_ne {points : List G} (h : ∀ k, points.length ≠ 2 ^ k) :
    ifftPoints points = .error .groupTransformLength := by
  have hSize : isPowerOfTwo points.length = false := by
    rw [← Bool.not_eq_true, isPowerOfTwo_iff]
    rintro ⟨k, hk⟩
    exact h k hk
  rw [ifftPoints, hSize]
  rfl

end Kzg
