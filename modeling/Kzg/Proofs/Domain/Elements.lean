import Kzg.Proofs.Coefficients.Interpolation
import Kzg.Proofs.Domain.Interpolation

/-! # The elements of a domain as roots and as points

What is made of the elements one by one is what the domain has in closed form. The product of their
linear factors is `x^n - 1`, and the polynomial that Lagrange's formula finds through values at them
is that of the inverse transform. -/

namespace Kzg

open Polynomial

namespace Domain

variable {d : Domain} (hDomain : d.Built)

include hDomain

/-- A multiple of `x^n - 1` is a polynomial that is zero at every element. -/
theorem Built.X_pow_size_sub_one_dvd_iff (f : Fr[X]) :
    X ^ d.size - 1 ∣ f ↔ ∀ x ∈ d.elements, f.eval x = 0 := by
  obtain ⟨k, -, root, hRoot, rfl⟩ := hDomain.exists_root
  rw [elements_cyclic, List.forall_mem_map]
  simp only [List.mem_range]
  exact X_pow_sub_one_dvd_iff hRoot f

/-- All elements are roots of the product, so that it is a multiple of `x^n - 1` of its degree. -/
theorem Built.ofRoots_elements : Coeffs.ofRoots d.elements = d.vanishing := by
  have hSize := hDomain.length_elements
  have hMonic : (X ^ d.size - 1 : Fr[X]).Monic := monic_X_pow_sub_C 1 hDomain.size_pos.ne'
  have hDegree : (X ^ d.size - 1 : Fr[X]).natDegree = d.size := natDegree_X_pow_sub_C
  have hDvd : X ^ d.size - 1 ∣ (Coeffs.ofRoots d.elements).toPoly := by
    rw [hDomain.X_pow_size_sub_one_dvd_iff]
    intro x hx
    rw [Coeffs.eval_toPoly, Coeffs.eval_ofRoots_eq_zero_iff]
    exact hx
  apply Coeffs.toPoly_injective
  · rw [Coeffs.length_ofRoots, hSize, vanishing, Coeffs.length_vanishing]
  · rw [vanishing, Coeffs.toPoly_vanishing]
    apply eq_of_monic_of_dvd_of_natDegree_le hMonic (Coeffs.monic_ofRoots _) hDvd
    rw [Coeffs.natDegree_ofRoots, hSize, hDegree]

omit hDomain in
theorem evalVanishing_eq (d : Domain) (x : Fr) : d.evalVanishing x = d.vanishing.eval x := by
  rw [evalVanishing, vanishing, ← Coeffs.eval_toPoly, Coeffs.toPoly_vanishing, eval_sub, eval_pow,
    eval_X, eval_one]

theorem Built.interpolate_elements {values : List Fr} (hLength : values.length = d.size) :
    d.interpolate values = Coeffs.interpolate d.elements values := by
  have hCount : d.elements.length = values.length := hDomain.length_elements.trans hLength.symm
  obtain ⟨p, hPoints, hPasses⟩ := Coeffs.exists_passesThrough hCount
  obtain ⟨q, hTransform, hSize, hValues, -⟩ := hDomain.exists_interpolate hLength
  have hInterpolates : d.Interpolates values p.toPoly := by
    constructor
    · rw [← hDomain.length_elements]
      exact hPasses.degree_lt
    · exact hPasses.map_eval hCount hDomain.nodup_elements
  have hEq : p = q := by
    apply Coeffs.toPoly_injective
    · rw [hPasses.length_eq, hDomain.length_elements, hSize]
    · exact hInterpolates.unique hDomain hValues
  rw [hPoints, hTransform, hEq]

end Domain

namespace Coeffs

/-- The product over any roots, repeated ones included, and what is left of it by a division. Over
the elements of a domain all but the two outer coefficients cancel. -/
theorem root_products :
    (∀ roots : List Fr,
      (ofRoots roots).length = roots.length + 1 ∧
      (ofRoots roots).getLast? = some 1 ∧
      (∀ x, (ofRoots roots).eval x = (roots.map (x - ·)).prod) ∧
      ∀ r, ∃ quot rem, divRem (ofRoots roots) [-r, 1] = .ok (quot, rem) ∧
        TakesOut roots r quot rem) ∧
    ∀ d : Domain, d.Built → ofRoots d.elements = d.vanishing ∧
      ∀ x, d.evalVanishing x = d.vanishing.eval x := by
  constructor
  · intro roots
    exact ⟨length_ofRoots roots, getLast?_ofRoots roots, eval_ofRoots roots, exists_takesOut roots⟩
  · intro d hDomain
    exact ⟨hDomain.ofRoots_elements, d.evalVanishing_eq⟩

/-- A root that occurs twice, a scalar that is no root, and a domain that is not the canonical
one. -/
theorem root_products_repeatedRoot :
    divRem (ofRoots [2, 2, 3]) [-2, 1] = .ok (ofRoots [2, 3], [0]) ∧
    (∃ quot, divRem (ofRoots [2, 2, 3]) [-5, 1] = .ok (quot, [18])) ∧
    let d := Domain.cyclic (-Fr.canonicalRoot 2) 2
    d.Built ∧ ofRoots d.elements = d.vanishing ∧ d.evalVanishing 3 = d.vanishing.eval 3 := by
  obtain ⟨-, -, -, hDivision⟩ := root_products.1 [2, 2, 3]
  refine ⟨?_, ?_, ?_⟩
  · obtain ⟨quot, rem, hRun, hTakesOut⟩ := hDivision 2
    rw [hRun, hTakesOut.quot_eq (by decide), hTakesOut.rem_eq_zero_iff.mpr (by decide)]
    rfl
  · obtain ⟨quot, rem, hRun, hTakesOut⟩ := hDivision 5
    have hValue : ([2, 2, 3].map ((5 : Fr) - ·)).prod = 18 := by decide +kernel
    exact ⟨quot, by rw [hRun, hTakesOut.rem_eq, hValue]⟩
  · intro d
    have hRoot : IsPrimitiveRoot (-Fr.canonicalRoot 2) (2 ^ 2) :=
      (Fr.hasOrder_two_pow_iff _ 2).mp (by decide +kernel)
    have hDomain : d.Built := Domain.built_cyclic (by decide) hRoot
    obtain ⟨hProduct, hValues⟩ := root_products.2 d hDomain
    exact ⟨hDomain, hProduct, hValues 3⟩

/-- Interpolation only fails for the numbers of points and values. Points that are repeated do not
spoil the others, and the elements of a domain may as well be transformed. -/
theorem interpolation_of_points (xs ys : List Fr) :
    (xs.length = ys.length → ∃ p, interpolate xs ys = .ok p ∧ PassesThrough xs ys p ∧
      (xs.Nodup → ∀ f : Fr[X], f.degree < xs.length ∧ xs.map f.eval = ys ↔ f = p.toPoly)) ∧
    ((∃ e, interpolate xs ys = .error e) ↔ xs.length ≠ ys.length) ∧
    (∀ e, interpolate xs ys = .error e → ∃ detail, e = .dimensionMismatch detail) ∧
    ∀ d : Domain, d.Built → xs = d.elements → xs.length = ys.length →
      interpolate xs ys = d.interpolate ys := by
  have hRefused (hLength : xs.length ≠ ys.length) :
      interpolate xs ys = .error (.pointsAndValues xs.length ys.length) := by
    rw [interpolate, if_pos hLength]
    rfl
  have hFails : (∃ e, interpolate xs ys = .error e) ↔ xs.length ≠ ys.length := by
    rw [exists_error_iff]
    refine ⟨fun hNone hLength => ?_, fun hLength => ?_⟩
    · obtain ⟨p, hRun, -⟩ := exists_passesThrough hLength
      exact hNone ⟨p, hRun⟩
    · simp [hRefused hLength]
  refine ⟨?_, hFails, ?_, ?_⟩
  · intro hLength
    obtain ⟨p, hRun, hPasses⟩ := exists_passesThrough hLength
    exact ⟨p, hRun, hPasses, hPasses.unique_iff hLength⟩
  · intro e hError
    rw [hRefused (hFails.mp ⟨e, hError⟩)] at hError
    cases hError
    exact ⟨_, rfl⟩
  · rintro d hDomain rfl hLength
    exact (hDomain.interpolate_elements (hLength.symm.trans hDomain.length_elements)).symm

/-- One of the points occurs twice, and the values at it are different. -/
theorem interpolation_of_points_repeatedPoint :
    (∃ p, interpolate [1, 2, 1, 3] [5, 6, 7, 8] = .ok p ∧ p.length = 4 ∧
      p.eval 2 = 6 ∧ p.eval 3 = 8 ∧ p.eval 1 = 0) ∧
    (∃ p, interpolate [1, 2] [5, 6] = .ok p ∧ X + C 4 = p.toPoly) ∧
    (∃ e, interpolate [1, 2] [5, 6, 7] = .error e) ∧
    let d := Domain.cyclic (-Fr.canonicalRoot 2) 2
    d.Built ∧ interpolate d.elements [7, 0, 1, 5] = d.interpolate [7, 0, 1, 5] := by
  refine ⟨?_, ?_, ?_, ?_⟩
  · obtain ⟨p, hRun, hPasses, -⟩ := (interpolation_of_points [1, 2, 1, 3] [5, 6, 7, 8]).1 rfl
    have hTwo := hPasses.eval_of_count_eq_one 1 (by decide) (by decide)
    have hThree := hPasses.eval_of_count_eq_one 3 (by decide) (by decide)
    exact ⟨p, hRun, hPasses.length_eq, (Option.some.inj hTwo).symm, (Option.some.inj hThree).symm,
      hPasses.eval_of_one_lt_count 1 (by decide)⟩
  · obtain ⟨p, hRun, -, hUnique⟩ := (interpolation_of_points [1, 2] [5, 6]).1 rfl
    refine ⟨p, hRun, (hUnique (by decide) (X + C 4)).mp ⟨?_, ?_⟩⟩
    · rw [degree_X_add_C]
      exact_mod_cast Nat.one_lt_two
    · simp only [List.map_cons, List.map_nil, eval_add, eval_X, eval_C]
      decide +kernel
  · exact (interpolation_of_points [1, 2] [5, 6, 7]).2.1.mpr (by decide)
  · intro d
    have hRoot : IsPrimitiveRoot (-Fr.canonicalRoot 2) (2 ^ 2) :=
      (Fr.hasOrder_two_pow_iff _ 2).mp (by decide +kernel)
    have hDomain : d.Built := Domain.built_cyclic (by decide) hRoot
    exact ⟨hDomain, (interpolation_of_points d.elements [7, 0, 1, 5]).2.2.2 d hDomain rfl
      hDomain.length_elements⟩

end Coeffs

end Kzg
