import Mathlib.Algebra.Field.GeomSum
import Kzg.Proofs.Domain.Built
import Kzg.Proofs.Fourier.Transform

/-! # The Lagrange vector of a domain

At any point the values of the Lagrange polynomials are geometric sums, in one formula for the
elements of the domain and for all other points. The vector tells the generator of its domain,
unless it is taken at an element that two generators list at the same place. -/

namespace Kzg

open Finset (range)

namespace Coeffs

theorem eval_append (p q : Coeffs) (x : Fr) :
    eval (p ++ q) x = p.eval x + x ^ p.length * q.eval x := by
  simp only [← eval_toPoly, toPoly_append, Polynomial.eval_add, Polynomial.eval_mul,
    Polynomial.eval_pow, Polynomial.eval_X]

theorem eval_powers (x y : Fr) (n : Nat) :
    eval (Fr.powers x n) y = ∑ i ∈ range n, (x * y) ^ i := by
  induction n with
  | zero => rfl
  | succ n ih =>
    rw [Fr.powers_succ, eval_append, ih, Finset.sum_range_succ, Fr.length_powers, eval_cons,
      eval_nil, zero_mul, zero_add, mul_pow, mul_comm (y ^ n)]

end Coeffs

namespace Domain

/-- The value at `x` of the Lagrange polynomial of the element `w` of a domain. -/
def lagrangeValue (size : Nat) (x w : Fr) : Fr :=
  if x ^ size = 1 then if w = x then 1 else 0
  else (x ^ size - 1) * w * ((size : Fr) * (x - w))⁻¹

/-- The Lagrange vector of a domain. -/
def lagrangeAt (d : Domain) (x : Fr) : List Fr :=
  d.elements.map (lagrangeValue d.size x)

/-- No denominator is in the way: a domain has its vector at every point. -/
theorem lagrangeWeights_eq (d : Domain) (x : Fr) : d.lagrangeWeights x = .ok (d.lagrangeAt x) := by
  simp only [lagrangeWeights, evalVanishing, Fr.invertAll_eq_map, sub_eq_zero, List.map_map]
  split
  · rename_i hx
    refine congrArg Except.ok (List.map_congr_left ?_)
    intro w _
    rw [lagrangeValue, if_pos hx]
  · rename_i hx
    refine congrArg Except.ok ?_
    rw [List.zipWith_map_right, List.zipWith_self]
    apply List.map_congr_left
    intro w _
    rw [lagrangeValue, if_neg hx]
    rfl

theorem lagrangeAt_eq_map (root : Fr) (k : Nat) (x : Fr) :
    (cyclic root k).lagrangeAt x = (cyclic root k).elements.map (lagrangeValue (2 ^ k) x) := rfl

theorem Built.length_lagrangeAt {d : Domain} (h : d.Built) (x : Fr) :
    (d.lagrangeAt x).length = d.size := by
  obtain ⟨k, -, root, -, rfl⟩ := h.exists_root
  rw [lagrangeAt_eq_map, List.length_map, length_elements_cyclic]

theorem geometric_sum_eq_lagrangeValue {k : Nat} (hk : k ≤ maxLogSize) {w : Fr}
    (hw : w ^ 2 ^ k = 1) (x : Fr) :
    ((2 ^ k : Nat) : Fr)⁻¹ * ∑ j ∈ range (2 ^ k), (x * w⁻¹) ^ j = lagrangeValue (2 ^ k) x w := by
  have hSize := Fr.two_pow_ne_zero hk
  have hNe : w ≠ 0 := by
    rintro rfl
    simp at hw
  rw [lagrangeValue]
  by_cases hEq : w = x
  · subst hEq
    rw [if_pos hw, if_pos rfl, mul_inv_cancel₀ hNe]
    simp only [one_pow, Finset.sum_const, Finset.card_range, nsmul_eq_mul, mul_one]
    exact inv_mul_cancel₀ hSize
  · have hRatio : x * w⁻¹ ≠ 1 := by
      rwa [← div_eq_mul_inv, Ne, div_eq_one_iff_eq hNe, eq_comm]
    have hSub : x - w ≠ 0 := sub_ne_zero.mpr (Ne.symm hEq)
    rw [geom_sum_eq hRatio, mul_pow, inv_pow, hw, inv_one, mul_one, if_neg hEq]
    split
    · rename_i hx
      rw [hx, sub_self, zero_div, mul_zero]
    · have hDenominator : x * w⁻¹ - 1 = (x - w) * w⁻¹ := by
        rw [sub_mul, mul_inv_cancel₀ hNe]
      rw [hDenominator]
      field_simp

variable {k : Nat} (hk : k ≤ maxLogSize) {root : Fr} (hRoot : IsPrimitiveRoot root (2 ^ k))

include hk hRoot

theorem lagrangeAt_cyclic (x : Fr) :
    (cyclic root k).lagrangeAt x = Fourier.inverseEntries root k (Fr.powers x (2 ^ k)) := by
  simp only [Fourier.inverseEntries, Coeffs.eval_powers, inv_pow,
    geometric_sum_eq_lagrangeValue hk (pow_pow_size hRoot _)]
  rw [lagrangeAt_eq_map, elements_cyclic, List.map_map]
  rfl

/-- At an element of the domain the vector is the mark of its index, and elsewhere the second entry
determines the generator. -/
theorem lagrangeAt_cyclic_inj {root' : Fr} (hRoot' : IsPrimitiveRoot root' (2 ^ k)) {x : Fr}
    (hx : x ≠ 0) :
    (cyclic root k).lagrangeAt x = (cyclic root' k).lagrangeAt x ↔
      root = root' ∨ ∃ i < 2 ^ k, root ^ i = x ∧ root' ^ i = x := by
  simp only [lagrangeAt_eq_map, elements_cyclic, List.map_map, List.map_inj_left,
    List.mem_range, Function.comp_apply, lagrangeValue]
  constructor
  · intro h
    by_cases hOne : x ^ 2 ^ k = 1
    · have : NeZero (2 ^ k) := ⟨(Nat.two_pow_pos k).ne'⟩
      obtain ⟨i, hi, rfl⟩ := hRoot.eq_pow_of_pow_eq_one hOne
      refine Or.inr ⟨i, hi, rfl, ?_⟩
      by_contra hNe
      have hEntry := h i hi
      simp [hOne, hNe] at hEntry
    · left
      -- A domain of one element has no second entry, but also only one generator.
      rcases Nat.eq_zero_or_pos k with rfl | hPos
      · rw [pow_zero, IsPrimitiveRoot.one_right_iff] at hRoot hRoot'
        rw [hRoot, hRoot']
      · have hSize := Fr.two_pow_ne_zero hk
        have hNe {w : Fr} (hw : w ^ 2 ^ k = 1) : x - w ≠ 0 := by
          intro hZero
          rw [sub_eq_zero.mp hZero] at hOne
          exact hOne hw
        have hEntry := h 1 (Nat.one_lt_two_pow hPos.ne')
        have h₁ := hNe hRoot.pow_eq_one
        have h₂ := hNe hRoot'.pow_eq_one
        have h₃ : x ^ 2 ^ k - 1 ≠ 0 := sub_ne_zero.mpr hOne
        simp only [if_neg hOne, pow_one] at hEntry
        field_simp at hEntry
        exact mul_right_cancel₀ hx (by linear_combination hEntry)
  · rintro (rfl | ⟨j, hj, hPow, hPow'⟩) i hi
    · rfl
    · have hOne : x ^ 2 ^ k = 1 := by
        rw [← hPow]
        exact pow_pow_size hRoot j
      have hIndex {w : Fr} (hw : IsPrimitiveRoot w (2 ^ k)) (hwj : w ^ j = x) :
          w ^ i = x ↔ i = j := by
        rw [← hwj]
        exact ⟨hw.pow_inj hi hj, congrArg (w ^ ·)⟩
      simp only [if_pos hOne, hIndex hRoot hPow, hIndex hRoot' hPow']

end Domain

end Kzg
