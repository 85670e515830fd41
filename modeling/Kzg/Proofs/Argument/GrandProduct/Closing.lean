import Kzg.Proofs.Argument.GrandProduct.Witness

/-! # Closing a grand product

Values without a zero become a grand product by one more factor, the inverse of their product. The
running product of the witness is bound to the values: if one entry of it is changed, then the step
that leads there fails, since the entry before it is as it was, and the identity is left with no
more roots than its degree. -/

namespace Kzg

open Polynomial

/-- A change of the running product that is seen after a step but not before it is a root of the
identity at few scalars. -/
theorem RunningProduct.exists_finset_of_step {order : Nat} {omega x : Fr} {f change : Fr[X]}
    (hF : f.degree < order) (hChange : change.degree < order) (hHere : change.eval x = 0)
    (hNext : change.eval (omega * x) ≠ 0) :
    ∃ bad : Finset Fr, bad.card ≤ 2 * order - 2 ∧
      ∀ r, change.eval (omega * r) = f.eval r * change.eval r → r ∈ bad := by
  have hNe : change.comp (C omega * X) - f * change ≠ 0 := by
    intro hZero
    have hValue := congrArg (eval x) hZero
    simp only [eval_sub, eval_comp, eval_mul, eval_C, eval_X, hHere, mul_zero, sub_zero,
      eval_zero] at hValue
    exact hNext hValue
  have hFDegree := natDegree_le_pred (natDegree_le_of_degree_le hF.le)
    (coeff_eq_zero_of_degree_lt hF)
  have hChangeDegree := natDegree_le_pred (natDegree_le_of_degree_le hChange.le)
    (coeff_eq_zero_of_degree_lt hChange)
  have hProduct := natDegree_mul_le (p := f) (q := change)
  have hDilated := natDegree_dilated_le omega change
  have hWhole := natDegree_sub_le (change.comp (C omega * X)) (f * change)
  obtain ⟨bad, hCard, hBad⟩ := Coeffs.exists_finset_roots hNe
  refine ⟨bad, by omega, ?_⟩
  intro r hr
  apply hBad
  simp only [eval_sub, eval_comp, eval_mul, eval_C, eval_X, hr, sub_self]

namespace GrandProduct

section Close

theorem getLastD_runningProduct (values : List Fr) :
    (runningProduct values).getLastD 1 = values.prod := by
  rw [runningProduct_eq_map, List.range_succ]
  simp

variable {values : List Fr} {k : Nat} (hLength : values.length + 1 = 2 ^ k)

include hLength

theorem close_eq : close values = (do
    let closing ← values.prod.inverse
    return (values ++ [closing], runningProduct values)) := by
  rw [close, hLength, isPowerOfTwo_two_pow]
  simp only [getLastD_runningProduct]
  rfl

theorem close_of_zero_mem (h : 0 ∈ values) : close values = .error .divisionByZero := by
  rw [close_eq hLength, List.prod_eq_zero h, Fr.inverse_zero]
  rfl

theorem close_of_zero_not_mem (h : 0 ∉ values) :
    close values = .ok (values ++ [values.prod⁻¹], runningProduct values) := by
  rw [close_eq hLength, Fr.inverse_of_ne_zero (List.prod_ne_zero h)]
  rfl

/-- The closing factor takes the place that the values leave free. -/
theorem exists_witness_of_close (hk : k < maxLogSize) (h : 0 ∉ values) :
    (values ++ [values.prod⁻¹]).prod = 1 ∧
      ∃ w, Witness.ofValues (values ++ [values.prod⁻¹]) = .ok w ∧
        w.Certifies k (values ++ [values.prod⁻¹]) ∧
        w.domain.interpolate (runningProduct values) = .ok w.t := by
  have hClosed : (values ++ [values.prod⁻¹]).length = 2 ^ k := by simpa using hLength
  have hProduct : (values ++ [values.prod⁻¹]).prod = 1 := by
    rw [List.prod_append, List.prod_singleton]
    exact mul_inv_cancel₀ (List.prod_ne_zero h)
  obtain ⟨w, hRun, hWitness⟩ := Witness.ofValues_of_prod_eq_one hk hClosed hProduct
  have hT := (Witness.interpolate_of_ofValues hRun).2
  rw [hWitness.size_eq, ← hLength, Nat.add_sub_cancel, List.take_left] at hT
  exact ⟨hProduct, w, hRun, hWitness, hT⟩

end Close

section Changed

/-- The element before the first one is the last one. -/
theorem exists_mul_pow_eq_pow {omega : Fr} {m i : Nat} (hOrder : omega ^ m = 1) (hTwo : 2 ≤ m)
    (hi : i < m) : ∃ j < m, i ≠ j ∧ omega * omega ^ j = omega ^ i := by
  cases i with
  | zero =>
    refine ⟨m - 1, by omega, by omega, ?_⟩
    rw [← pow_succ', Nat.sub_add_cancel (by omega), hOrder, pow_zero]
  | succ i => exact ⟨i, by omega, by omega, (pow_succ' omega i).symm⟩

theorem eval_sub_of_modify {d : Domain} (hDomain : d.Built) {products : List Fr} {f g : Fr[X]}
    {i : Nat} {delta : Fr} (hF : d.Interpolates products f)
    (hG : d.Interpolates (products.modify i (· + delta)) g) {j : Nat} (hj : j < d.size) :
    (g - f).eval (d.generator ^ j) = if i = j then delta else 0 := by
  have hOld := hF.getElem?_eq hDomain hj
  have hNew := hG.getElem?_eq hDomain hj
  rw [List.getElem?_modify, hOld, Option.map_eq_map, Option.map_some, Option.some_inj] at hNew
  rw [eval_sub, ← hNew]
  split
  · exact add_sub_cancel_left _ _
  · exact sub_self _

variable {k : Nat} {values products : List Fr} {w : Witness}

/-- With the quotient as it was, a wrong entry of the running product is found out by all but a few
challenges. -/
theorem Witness.Certifies.exists_finset_of_modify (hk : k ≤ maxLogSize) (hTwo : 2 ≤ 2 ^ k)
    (h : w.Certifies k values) (hT : w.domain.interpolate products = .ok w.t) {i : Nat}
    (hi : i < 2 ^ k) {delta : Fr} (hDelta : delta ≠ 0) :
    ∃ changed, w.domain.interpolate (products.modify i (· + delta)) = .ok changed ∧
      ∃ bad : Finset Fr, bad.card ≤ 2 * 2 ^ k - 2 ∧
        ∀ r, GrandProduct.HoldsAt r (2 ^ k) (w.f.eval r) (changed.eval r)
          (changed.eval (w.domain.generator * r)) (w.q.eval r) → r ∈ bad := by
  have hDomain := h.domain_built hk
  have hSize := h.size_eq
  have hProducts := (hDomain.interpolates_of_interpolate hT).2
  have hLength : (products.modify i (· + delta)).length = w.domain.size := by
    rw [List.length_modify, hProducts.length_eq hDomain]
  obtain ⟨changed, hRun, -, hChanged, -⟩ := hDomain.exists_interpolate hLength
  have hOrder : w.domain.generator ^ 2 ^ k = 1 := by
    rw [h.domain_eq]
    exact (Fr.canonicalRoot_primitive hk).pow_eq_one
  obtain ⟨j, hj, hBefore, hStep⟩ := exists_mul_pow_eq_pow hOrder hTwo hi
  have hHere : (changed.toPoly - w.t.toPoly).eval (w.domain.generator ^ j) = 0 := by
    rw [eval_sub_of_modify hDomain hProducts hChanged (hSize ▸ hj), if_neg hBefore]
  have hNext : (changed.toPoly - w.t.toPoly).eval
      (w.domain.generator * w.domain.generator ^ j) ≠ 0 := by
    rwa [hStep, eval_sub_of_modify hDomain hProducts hChanged (hSize ▸ hi), if_pos rfl]
  have hDegree : (changed.toPoly - w.t.toPoly).degree < (2 ^ k : Nat) :=
    hSize ▸ (degree_sub_le _ _).trans_lt (max_lt hChanged.degree_lt hProducts.degree_lt)
  have hF : w.f.toPoly.degree < (2 ^ k : Nat) := hSize ▸ h.interpolates_f.degree_lt
  obtain ⟨bad, hCard, hBad⟩ :=
    RunningProduct.exists_finset_of_step hF hDegree hHere hNext
  refine ⟨changed, hRun, bad, hCard, fun r hr => hBad r ?_⟩
  -- The quotient is the same on both sides and drops out.
  have hHolds := h.holdsAt r
  rw [Witness.HoldsAt, hSize] at hHolds
  simp only [eval_sub, Coeffs.eval_toPoly]
  linear_combination hHolds - hr

end Changed

/-- Only a zero cannot be made up for by another factor. A running product with a wrong entry goes
with neither the values nor the quotient. -/
theorem close_completes_and_binds {values : List Fr} {m : Nat} (hLength : values.length + 1 = m)
    (hSize : ∃ k ≤ 27, m = 2 ^ k) :
    (close values = .error .divisionByZero ↔ 0 ∈ values) ∧
    (0 ∉ values → ∃ f t w, close values = .ok (f, t) ∧ f.prod = 1 ∧
      Witness.ofValues f = .ok w ∧ w.domain.valuesOf w.t = .ok t ∧
      (2 ≤ m → ∀ i < m, ∀ delta ≠ 0, ∃ changed,
        w.domain.interpolate (t.modify i (· + delta)) = .ok changed ∧
        ∃ bad : Finset Fr, bad.card ≤ 2 * m - 2 ∧
          ∀ r, HoldsAt r m (w.f.eval r) (changed.eval r) (changed.eval (w.domain.generator * r))
            (w.q.eval r) → r ∈ bad)) := by
  obtain ⟨k, hk, rfl⟩ := hSize
  have hSmall : k < maxLogSize := Nat.lt_succ_of_le hk
  refine ⟨⟨?_, close_of_zero_mem hLength⟩, ?_⟩
  · intro hError
    by_contra hNe
    rw [close_of_zero_not_mem hLength hNe] at hError
    cases hError
  · intro hNe
    obtain ⟨hProduct, w, hRun, hWitness, hT⟩ := exists_witness_of_close hLength hSmall hNe
    have hValues := (hWitness.domain_built hSmall.le).valuesOf_of_interpolate hT
    refine ⟨_, _, w, close_of_zero_not_mem hLength hNe, hProduct, hRun, hValues, ?_⟩
    intro hTwo i hi delta hDelta
    exact hWitness.exists_finset_of_modify hSmall.le hTwo hT hi hDelta

/-- Three values with the running product wrong where it starts, which the step from the last
element shows, and three values one of which is zero. -/
theorem close_completes_and_binds_firstEntry :
    ([2, 3, 5] : List Fr).length + 1 = 4 ∧ (∃ k ≤ 27, 4 = 2 ^ k) ∧
    (∃ f t w, close [2, 3, 5] = .ok (f, t) ∧ f.prod = 1 ∧ Witness.ofValues f = .ok w ∧
      w.domain.valuesOf w.t = .ok t ∧
      ∃ changed, w.domain.interpolate (t.modify 0 (· + 1)) = .ok changed ∧
        ∃ bad : Finset Fr, bad.card ≤ 6 ∧
          ∀ r, HoldsAt r 4 (w.f.eval r) (changed.eval r) (changed.eval (w.domain.generator * r))
            (w.q.eval r) → r ∈ bad) ∧
    close [2, 0, 5] = .error .divisionByZero := by
  have hFour : ∃ k ≤ 27, 4 = 2 ^ k := ⟨2, by decide, rfl⟩
  have hLength : ([2, 3, 5] : List Fr).length + 1 = 4 := rfl
  have hLengthZero : ([2, 0, 5] : List Fr).length + 1 = 4 := rfl
  refine ⟨hLength, hFour, ?_, ?_⟩
  · obtain ⟨f, t, w, hClose, hProduct, hRun, hValues, hBinds⟩ :=
      (close_completes_and_binds hLength hFour).2 (by decide)
    exact ⟨f, t, w, hClose, hProduct, hRun, hValues, hBinds (by decide) 0 (by decide) 1 one_ne_zero⟩
  · exact (close_completes_and_binds hLengthZero hFour).1.mpr (by decide)

end GrandProduct

end Kzg
