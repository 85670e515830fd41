import Mathlib.Algebra.Polynomial.Derivative
import Kzg.Proofs.Opening.Forms

/-! # The quotient at the opened element

The quotient of an opening at an element of a domain has its value there without a quotient of
differences. That value is the one of the formal derivative, and it is found from the values alone
unless the point is zero, which is no element. -/

namespace Kzg

open Polynomial

section Quotient

theorem Coeffs.eval_quotientAt_self (p : Coeffs) (z : Fr) :
    (p.quotientAt z).eval z = p.toPoly.derivative.eval z := by
  have hDerivative := congrArg (fun f => (derivative f).eval z) (p.quotientAt_mul z)
  simpa using hDerivative

variable {d : Domain} (hDomain : d.Built)

include hDomain

theorem quotientOnDomain_zero {values : List Fr} (hValues : values ≠ []) (y : Fr) :
    quotientOnDomain d 0 values y = .error .divisionByZero := by
  have hTerm (wv : Fr × Fr) : ((wv.2 - y) * wv.1).divide ((0 - wv.1) * 0) =
      .error .divisionByZero := by
    rw [mul_zero, Fr.divide, Fr.inverse_zero]
    rfl
  have hOthers : ∃ wv, wv ∈ (d.elements.zip values).filter fun wv => wv.1 != 0 := by
    have hCount : 0 < (d.elements.zip values).length := by
      rw [List.length_zip, hDomain.length_elements]
      exact lt_min hDomain.size_pos (List.length_pos_of_ne_nil hValues)
    obtain ⟨wv, hPair⟩ := List.exists_mem_of_length_pos hCount
    have hNe := hDomain.ne_zero_of_mem (List.of_mem_zip hPair).1
    exact ⟨wv, List.mem_filter.mpr ⟨hPair, bne_iff_ne.mpr hNe⟩⟩
  rw [quotientOnDomain, mapM_eq_error (e := .divisionByZero)]
  · rfl
  · intro wv _ e' hError
    exact (Except.error.inj ((hTerm wv).symm.trans hError)).symm
  · exact hOthers.imp fun wv hMem => ⟨hMem, hTerm wv⟩

theorem quotientOnDomain_eq_error_iff (z : Fr) (values : List Fr) (y : Fr) (e : PolyError) :
    quotientOnDomain d z values y = .error e ↔ z = 0 ∧ values ≠ [] ∧ e = .divisionByZero := by
  constructor
  · intro hError
    have hZero : z = 0 := by
      by_contra hNe
      rw [quotientOnDomain_eq d hNe] at hError
      cases hError
    subst hZero
    have hValues : values ≠ [] := by
      rintro rfl
      rw [quotientOnDomain, List.zip_nil_right] at hError
      cases hError
    rw [quotientOnDomain_zero hDomain hValues] at hError
    exact ⟨rfl, hValues, (Except.error.inj hError).symm⟩
  · rintro ⟨rfl, hValues, rfl⟩
    exact quotientOnDomain_zero hDomain hValues y

end Quotient

/-- At every element the values of the others give the derivative of the interpolant there, which is
the value of the quotient by the linear factor. No point but zero has a zero denominator. -/
theorem quotientOnDomain_eq_derivative {d : Domain} (hDomain : d.Built) {evals : List Fr}
    (hLength : evals.length = d.size) :
    (∃ p, d.interpolate evals = .ok p ∧ d.Interpolates evals p.toPoly ∧
      ∀ m y, evals[m]? = some y → ∃ z q,
        d.element? m = some z ∧ z = d.generator ^ m ∧
        quotientOnDomain d z evals y = .ok (p.toPoly.derivative.eval z) ∧
        q * (X - C z) = p.toPoly - C y ∧ q.eval z = p.toPoly.derivative.eval z) ∧
    ∀ z values y e, quotientOnDomain d z values y = .error e ↔
      z = 0 ∧ values ≠ [] ∧ e = .divisionByZero := by
  obtain ⟨p, hRun, -, hInterpolates, -⟩ := hDomain.exists_interpolate hLength
  refine ⟨⟨p, hRun, hInterpolates, ?_⟩, quotientOnDomain_eq_error_iff hDomain⟩
  intro m y hEntry
  obtain ⟨hm, -⟩ := List.getElem?_eq_some_iff.mp hEntry
  have hElement : d.element? m = some (d.generator ^ m) :=
    hDomain.element?_eq_some_iff.mpr ⟨hLength ▸ hm, rfl⟩
  have hValue : p.eval (d.generator ^ m) = y := by
    rw [hInterpolates.getElem?_eq hDomain (hLength ▸ hm), p.eval_toPoly] at hEntry
    exact Option.some.inj hEntry
  subst hValue
  refine ⟨_, p.quotientAt (d.generator ^ m), hElement, rfl, ?_, p.quotientAt_mul _,
    p.eval_quotientAt_self _⟩
  rw [quotientOnDomain_of_mem hDomain hInterpolates (List.mem_of_getElem? hElement),
    p.eval_quotientAt_self]

/-- The second element of a domain that is not the canonical one, a point off it and zero. -/
theorem quotientOnDomain_eq_derivative_otherGenerator :
    let z : Fr := -Fr.canonicalRoot 2
    let d := Domain.cyclic z 2
    d.Built ∧ (∃ p, d.interpolate [7, 0, 1, 5] = .ok p ∧
      quotientOnDomain d z [7, 0, 1, 5] 0 = .ok (p.toPoly.derivative.eval z)) ∧
      (¬ ∃ e, quotientOnDomain d 2 [7, 0, 1, 5] 9 = .error e) ∧
      quotientOnDomain d 0 [7, 0, 1, 5] 9 = .error .divisionByZero := by
  intro z d
  have hRoot : IsPrimitiveRoot z (2 ^ 2) := (Fr.hasOrder_two_pow_iff _ 2).mp (by decide +kernel)
  have hDomain : d.Built := Domain.built_cyclic (by decide) hRoot
  have hCount : ([7, 0, 1, 5] : List Fr).length = d.size := rfl
  obtain ⟨⟨p, hRun, -, hEntries⟩, hErrors⟩ := quotientOnDomain_eq_derivative hDomain hCount
  obtain ⟨z', q, -, hPoint, hQuotient, -⟩ := hEntries 1 0 rfl
  rw [pow_one] at hPoint
  subst hPoint
  refine ⟨hDomain, ⟨p, hRun, hQuotient⟩, ?_, (hErrors 0 _ 9 _).mpr ⟨rfl, by simp, rfl⟩⟩
  rintro ⟨e, hError⟩
  exact absurd ((hErrors 2 _ 9 e).mp hError).1 (by decide)

end Kzg
