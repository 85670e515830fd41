import Kzg.Proofs.Fourier.Inverse

/-! # Multiplication through the transform

The values of a product are the products of the values. On a group of roots of unity with as many
elements as the product has coefficients they determine it. -/

namespace Kzg

open Polynomial

namespace Coeffs

section Root

variable {k : Nat} (hk : k ≤ maxLogSize) {root : Fr} (hRoot : IsPrimitiveRoot root (2 ^ k))

include hk hRoot

theorem fft_padTo {p : Coeffs} (h : p.length ≤ 2 ^ k) :
    fft (p.padTo (2 ^ k)) root =
      .ok ((List.range (2 ^ k)).map fun i => p.toPoly.eval (root ^ i)) := by
  rw [fft_eq_map_eval hRoot (length_padTo h) hk]
  simp only [← eval_toPoly, toPoly_padTo]

theorem ifft_products {p q : Coeffs} (h : (p.mul q).length ≤ 2 ^ k) :
    ifft (List.zipWith (· * ·) ((List.range (2 ^ k)).map fun i => p.toPoly.eval (root ^ i))
        ((List.range (2 ^ k)).map fun i => q.toPoly.eval (root ^ i))) root =
      .ok ((p.mul q).padTo (2 ^ k)) := by
  rw [← ifft_map_eval hk hRoot (length_padTo h), List.zipWith_map, List.zipWith_self]
  simp only [← eval_toPoly, toPoly_padTo, toPoly_mul, eval_mul]

end Root

theorem fastMul_of_eq_nil {p q : Coeffs} (h : p = [] ∨ q = []) : p.fastMul q = .ok (p.mul q) := by
  obtain rfl | rfl := h
  · rfl
  · rw [mul_nil, fastMul, if_pos (by simp)]
    rfl

theorem fastMul_eq_mul {p q : Coeffs} (h : p.length + q.length - 1 ≤ maxSize) :
    p.fastMul q = .ok (p.mul q) := by
  by_cases hNil : p = [] ∨ q = []
  · exact fastMul_of_eq_nil hNil
  · have hNe : p ≠ [] ∧ q ≠ [] := not_or.mp hNil
    have hp : 0 < p.length := List.length_pos_iff.mpr hNe.1
    have hq : 0 < q.length := List.length_pos_iff.mpr hNe.2
    obtain ⟨k, hSize, hLeast⟩ := exists_ceilPowerOfTwo (p.length + q.length - 1)
    have hk : k ≤ maxLogSize := (hLeast _).mp (maxSize_eq ▸ h)
    have hFits : p.length + q.length - 1 ≤ 2 ^ k := (hLeast k).mpr le_rfl
    have hRoot := Fr.canonicalRoot_primitive hk
    have hLength := length_mul hNe.1 hNe.2
    have hValues (g : Coeffs) (hg : g.length ≤ 2 ^ k) := fft_padTo hk hRoot hg
    have hInverse := ifft_products hk hRoot (p := p) (q := q) (hLength ▸ hFits)
    -- The inverse transform finds the product with its padding, which is cut off again.
    have hTake : ((p.mul q).padTo (2 ^ k)).take (p.length + q.length - 1) = p.mul q := by
      rw [← hLength, padTo, List.take_left]
    rw [fastMul, if_neg (by simpa using hNe)]
    simp only [hSize, Fr.rootOfOrder_two_pow hk, hValues p (by omega), hValues q (by omega),
      hInverse, hTake, bind, Except.bind, pure, Except.pure]

theorem fastMul_eq_error {p q : Coeffs} (hp : p ≠ []) (hq : q ≠ [])
    (hLarge : maxSize < p.length + q.length - 1) :
    p.fastMul q = .error (.noRootOfUnity (ceilPowerOfTwo (p.length + q.length - 1))) := by
  obtain ⟨k, hSize, hLeast⟩ := exists_ceilPowerOfTwo (p.length + q.length - 1)
  have hk : maxLogSize < k := by
    rw [maxSize_eq] at hLarge
    exact not_le.mp fun h => absurd ((hLeast _).mpr h) (not_le.mpr hLarge)
  rw [fastMul, if_neg (by simp [hp, hq])]
  simp only [hSize, Fr.rootOfOrder_eq_none hk]
  rfl

/-- There is nothing to choose between the two ways to multiply but the size of the product. -/
theorem fastMul_eq_mul_or_error (p q : Coeffs) :
    (p = [] ∨ q = [] ∨ p.length + q.length - 1 ≤ 2 ^ 28 → p.fastMul q = .ok (p.mul q)) ∧
    (p ≠ [] → q ≠ [] → 2 ^ 28 < p.length + q.length - 1 →
      ∃ detail, p.fastMul q = .error (.transform detail)) := by
  have hMax : maxSize = 2 ^ 28 := maxSize_eq
  constructor
  · rintro (h | h | h)
    · exact fastMul_of_eq_nil (.inl h)
    · exact fastMul_of_eq_nil (.inr h)
    · exact fastMul_eq_mul (hMax ▸ h)
  · intro hp hq hLarge
    exact ⟨_, fastMul_eq_error hp hq (hMax ▸ hLarge)⟩

/-- A product with zeros at the top and as many coefficients as a power of two, and one that is
too large by one. -/
theorem fastMul_eq_mul_or_error_zerosAtTop :
    fastMul [1, 2, 0] [3, 0] = .ok [3, 6, 0, 0] ∧
      ∃ detail, fastMul (List.replicate (2 ^ 28) 1) [1, 1] = .error (.transform detail) := by
  have hProduct := (fastMul_eq_mul_or_error [1, 2, 0] [3, 0]).1 (.inr (.inr (by decide)))
  have hMul : mul [1, 2, 0] [3, 0] = [3, 6, 0, 0] := by decide
  refine ⟨hProduct.trans (congrArg Except.ok hMul), ?_⟩
  apply (fastMul_eq_mul_or_error _ _).2
  · exact List.ne_nil_of_length_pos (by rw [List.length_replicate]; exact Nat.two_pow_pos 28)
  · exact List.cons_ne_nil 1 [1]
  · rw [List.length_replicate]
    decide

end Coeffs

namespace Domain.Built

variable {d : Domain} (hDomain : d.Built) {c : Coeffs} (h : c.length ≤ d.size)

include hDomain h

theorem valuesOf_eq : d.valuesOf c =
    .ok ((List.range d.size).map fun i => c.eval (d.generator ^ i)) := by
  obtain ⟨k, hk, root, hRoot, rfl⟩ := hDomain.exists_root
  rw [valuesOf, if_neg h.not_gt]
  simp only [← Coeffs.eval_toPoly]
  exact Coeffs.fft_padTo hk hRoot h

theorem interpolate_of_valuesOf {values : List Fr} (hRun : d.valuesOf c = .ok values) :
    d.interpolate values = .ok (c.padTo d.size) := by
  rw [hDomain.valuesOf_eq h] at hRun
  obtain rfl := Except.ok.inj hRun
  obtain ⟨k, hk, root, hRoot, rfl⟩ := hDomain.exists_root
  have hInverse := ifft_map_eval hk hRoot (Coeffs.length_padTo h)
  simp only [← Coeffs.eval_toPoly, Coeffs.toPoly_padTo] at hInverse ⊢
  exact (interpolate_eq_ok_iff _ _ _).mpr ⟨by simp, hInverse⟩

end Domain.Built

end Kzg
