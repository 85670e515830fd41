import Kzg.Proofs.Domain.Interpolation

/-! # The transform and its inverse

Both directions accept the same lists, those of as many values as the order of the root, which is a
power of two. One gives the values at the powers of the root, the other finds the coefficients
again. -/

namespace Kzg

/-- There are as many values as the order of the root, and their number is a power of two. -/
structure Transformable (values : List Fr) (root : Fr) : Prop where
  length_eq : ∃ k, values.length = 2 ^ k
  orderOf_eq : orderOf root = values.length

theorem transformable_iff (values : List Fr) (root : Fr) : Transformable values root ↔
    ∃ k ≤ maxLogSize, values.length = 2 ^ k ∧ IsPrimitiveRoot root (2 ^ k) := by
  constructor
  · rintro ⟨⟨k, hLength⟩, hOrder⟩
    have hRoot : IsPrimitiveRoot root (2 ^ k) := IsPrimitiveRoot.iff_orderOf.mpr (hLength ▸ hOrder)
    exact ⟨k, Fr.le_maxLogSize_of_primitive hRoot, hLength, hRoot⟩
  · rintro ⟨k, -, hLength, hRoot⟩
    exact ⟨⟨k, hLength⟩, hRoot.eq_orderOf.symm.trans hLength.symm⟩

theorem exists_checkTransform_eq_error {values : List Fr} {root : Fr}
    (h : ¬ Transformable values root) :
    ∃ detail, checkTransform values root = .error (.dimensionMismatch detail) := by
  rw [checkTransform]
  by_cases hSize : isPowerOfTwo values.length = true
  · obtain ⟨k, hLength⟩ := (isPowerOfTwo_iff _).mp hSize
    have hOrder : ¬ root.hasOrder values.length = true := by
      rw [hLength, Fr.hasOrder_two_pow_iff]
      intro hRoot
      exact h ⟨⟨k, hLength⟩, hRoot.eq_orderOf.symm.trans hLength.symm⟩
    simp only [hSize, hOrder]
    exact ⟨_, rfl⟩
  · simp only [hSize]
    exact ⟨_, rfl⟩

section Root

variable {k : Nat} (hk : k ≤ maxLogSize) {root : Fr} (hRoot : IsPrimitiveRoot root (2 ^ k))
  {values : Coeffs} (hLength : values.length = 2 ^ k)

include hk hRoot hLength

theorem ifft_map_eval :
    ifft ((List.range (2 ^ k)).map fun i => values.eval (root ^ i)) root = .ok values := by
  have hInterpolates : (Domain.cyclic root k).Interpolates
      ((List.range (2 ^ k)).map fun i => values.eval (root ^ i)) values.toPoly := by
    have hDegree := values.degree_toPoly_lt
    rw [hLength] at hDegree
    simp only [Domain.interpolates_cyclic_iff, Coeffs.eval_toPoly, and_true, hDegree]
  obtain ⟨p, hRun, hSize, hPoly⟩ := hInterpolates.interpolate_eq (Domain.built_cyclic hk hRoot)
  obtain rfl := Coeffs.toPoly_injective (hSize.trans hLength.symm) hPoly
  exact ((Domain.interpolate_eq_ok_iff _ _ _).mp hRun).2

theorem exists_ifft_eq_ok :
    ∃ coeffs, ifft values root = .ok coeffs ∧ fft coeffs root = .ok values := by
  obtain ⟨p, hRun, hSize, hInterpolates, -⟩ :=
    (Domain.built_cyclic hk hRoot).exists_interpolate hLength
  rw [Domain.interpolates_cyclic_iff] at hInterpolates
  refine ⟨p, ((Domain.interpolate_eq_ok_iff _ _ _).mp hRun).2, ?_⟩
  rw [fft_eq_map_eval hRoot hSize hk, ← hInterpolates.2]
  simp only [Coeffs.eval_toPoly]

end Root

theorem Domain.valuesOf_of_length_eq {d : Domain} {c : Coeffs} (h : c.length = d.size) :
    d.valuesOf c = fft c d.generator := by
  rw [valuesOf, if_neg h.not_gt, Coeffs.padTo, h, Nat.sub_self, List.replicate_zero,
    List.append_nil]

/-- The values that were interpolated are found again, on every domain. -/
theorem Domain.Built.valuesOf_of_interpolate {d : Domain} (hDomain : d.Built) {values : List Fr}
    {p : Coeffs} (h : d.interpolate values = .ok p) : d.valuesOf p = .ok values := by
  obtain ⟨hLength, hRun⟩ := (interpolate_eq_ok_iff d values p).mp h
  have hSize := (hDomain.interpolates_of_interpolate h).1
  obtain ⟨k, hk, root, hRoot, rfl⟩ := hDomain.exists_root
  obtain ⟨coeffs, hInverse, hForward⟩ := exists_ifft_eq_ok hk hRoot hLength
  obtain rfl : p = coeffs := Except.ok.inj (hRun.symm.trans hInverse)
  rw [valuesOf_of_length_eq hSize]
  exact hForward

end Kzg
