import Kzg.Proofs.Argument.ZeroTest.Complete
import Kzg.Proofs.Domain.Elements
import Kzg.Proofs.Domain.Subgroups
import Kzg.Proofs.Fourier.Inverse

/-! # Witnesses of a zero test

The number of values and the order alone decide whether there is anything to test. If there is, the
elements of the subgroup are where the strided values are taken, and `x^m - 1` divides the
polynomial through all values exactly if these are zero. The quotient is then a witness, for which
the identity holds at every scalar, the elements of the subgroup included. -/

namespace Kzg.ZeroTest

open Polynomial

/-- There is a canonical domain for the values, and it has a subgroup of the order. -/
def Posed (length order : Nat) : Prop :=
  (∃ k ≤ 28, length = 2 ^ k) ∧ 1 ≤ order ∧ order ∣ length

instance (length order : Nat) : Decidable (Posed length order) :=
  inferInstanceAs (Decidable (_ ∧ _))

/-- The polynomial of a witness takes the values on the canonical domain, and the quotient is
exact. -/
structure IsWitness (values : List Fr) (order : Nat) (w : Witness) : Prop where
  ofSize_eq : Domain.ofSize values.length = .ok w.domain
  order_eq : w.order = order
  valuesOf_p : w.domain.valuesOf w.p = .ok values
  identity : w.p.toPoly = w.q.toPoly * (X ^ order - 1)
  holdsAt (r : Fr) : w.HoldsAt r

/-- What is looked at before the division. -/
structure Setting (values : List Fr) (order : Nat) (d sub : Domain) (p : Coeffs) : Prop where
  ofSize_eq : Domain.ofSize values.length = .ok d
  subgroup_eq : d.subgroup order = .ok sub
  interpolate_eq : d.interpolate values = .ok p

theorem exists_setting {values : List Fr} {order : Nat} (h : Posed values.length order) :
    ∃ d sub p, Setting values order d sub p := by
  obtain ⟨⟨k, hk, hLength⟩, -, hDvd⟩ := h
  have hDomain := Domain.built_canonical hk
  obtain ⟨sub, hSubgroup, -⟩ := hDomain.exists_subgroup (hLength ▸ hDvd)
  obtain ⟨p, hP, -⟩ := hDomain.exists_interpolate hLength
  exact ⟨_, sub, p, hLength ▸ Domain.ofSize_two_pow hk, hSubgroup, hP⟩

namespace Setting

variable {values : List Fr} {order : Nat} {d sub : Domain} {p : Coeffs}
  (h : Setting values order d sub p)

include h

theorem exists_exponents : ∃ k ≤ maxLogSize, ∃ j ≤ k, values.length = 2 ^ k ∧ order = 2 ^ j ∧
    d = Domain.cyclic (Fr.canonicalRoot k) k ∧
    sub = Domain.cyclic (Fr.canonicalRoot k ^ 2 ^ (k - j)) j := by
  obtain ⟨k, hk, hLength, rfl⟩ := (Domain.ofSize_eq_ok_iff _ _).mp h.ofSize_eq
  obtain ⟨j, hj, rfl⟩ := Domain.exists_of_subgroup_cyclic h.subgroup_eq
  have hSubgroup := h.subgroup_eq
  rw [Domain.subgroup_cyclic hk hj (Fr.canonicalRoot_primitive hk)] at hSubgroup
  exact ⟨k, hk, j, hj, hLength, rfl, rfl, (Except.ok.inj hSubgroup).symm⟩

theorem order_pos : 0 < order := by
  obtain ⟨-, -, j, -, -, rfl, -⟩ := h.exists_exponents
  exact Nat.two_pow_pos j

theorem ofValues_eq : Witness.ofValues values order = (do
    let q ← p.divExact (Coeffs.vanishing order)
    return ⟨d, order, p, q⟩) := by
  rw [Witness.ofValues, h.ofSize_eq]
  simp only [bind, Except.bind, h.subgroup_eq, h.interpolate_eq]

theorem dvd_iff_eval_eq_zero :
    X ^ order - 1 ∣ p.toPoly ↔ ∀ x ∈ sub.elements, p.eval x = 0 := by
  have hSub : sub.Built := .subgroup (.ofSize h.ofSize_eq) h.subgroup_eq
  have hOrder : sub.size = order := by
    obtain ⟨-, -, j, -, -, rfl, -, rfl⟩ := h.exists_exponents
    rfl
  rw [← hOrder, hSub.X_pow_size_sub_one_dvd_iff]
  simp only [Coeffs.eval_toPoly]

theorem dvd_iff_getD_eq_zero : X ^ order - 1 ∣ p.toPoly ↔
    ∀ i < order, values.getD (i * (values.length / order)) 0 = 0 := by
  have hInterpolates := ((Domain.Built.ofSize h.ofSize_eq).interpolates_of_interpolate
    h.interpolate_eq).2
  obtain ⟨k, hk, j, hj, hLength, rfl, rfl, -⟩ := h.exists_exponents
  have hDvd : 2 ^ j ∣ values.length := hLength ▸ pow_dvd_pow 2 hj
  rw [X_pow_sub_one_dvd_iff hk hLength hj (Fr.canonicalRoot_primitive hk) hInterpolates]
  simp only [Nat.mul_div_assoc _ hDvd]

theorem ofValues_of_dvd (hDvd : X ^ order - 1 ∣ p.toPoly) :
    ∃ w, Witness.ofValues values order = .ok w ∧ w.p = p ∧ IsWitness values order w := by
  obtain ⟨q, hDivision, hIdentity⟩ := Coeffs.divExact_vanishing_of_dvd h.order_pos hDvd
  refine ⟨⟨d, order, p, q⟩, ?_, rfl, ?_⟩
  · rw [h.ofValues_eq, hDivision]
    rfl
  · constructor
    case ofSize_eq => exact h.ofSize_eq
    case order_eq => rfl
    case valuesOf_p =>
      exact (Domain.Built.ofSize h.ofSize_eq).valuesOf_of_interpolate h.interpolate_eq
    case identity => exact hIdentity
    case holdsAt => exact holdsAt_of_toPoly_eq hIdentity

theorem ofValues_eq_error_iff :
    Witness.ofValues values order = .error .nonZeroRemainder ↔ ¬ X ^ order - 1 ∣ p.toPoly := by
  constructor
  · intro hError hDvd
    obtain ⟨w, hOk, -⟩ := h.ofValues_of_dvd hDvd
    cases hError.symm.trans hOk
  · intro hDvd
    rw [h.ofValues_eq, Coeffs.divExact_vanishing_of_not_dvd h.order_pos hDvd]
    rfl

theorem ofValues_ne_dimensionMismatch (detail : String) :
    Witness.ofValues values order ≠ .error (.dimensionMismatch detail) := by
  intro hError
  have hDvd : X ^ order - 1 ∣ p.toPoly := by
    by_contra hNot
    cases hError.symm.trans (h.ofValues_eq_error_iff.mpr hNot)
  obtain ⟨w, hOk, -⟩ := h.ofValues_of_dvd hDvd
  cases hError.symm.trans hOk

end Setting

namespace Witness

theorem exists_ofValues_eq_error {values : List Fr} {order : Nat}
    (h : ¬ Posed values.length order) :
    ∃ detail, ofValues values order = .error (.dimensionMismatch detail) := by
  by_cases hSize : ∃ k ≤ maxLogSize, values.length = 2 ^ k
  · obtain ⟨k, hk, hLength⟩ := id hSize
    have hDvd : ¬ order ∣ values.length := by
      intro hDvd
      have hPos : 0 < values.length := hLength ▸ Nat.two_pow_pos k
      exact h ⟨hSize, Nat.pos_of_dvd_of_pos hDvd hPos, hDvd⟩
    exact ⟨_, ofValues_of_not_dvd hk hLength hDvd⟩
  · exact ⟨_, ofValues_of_ne (fun k hk hLength => hSize ⟨k, hk, hLength⟩) order⟩

/-- The failures exclude each other, and there is no other one. -/
theorem stride_decides (values : List Fr) (order : Nat) :
    ((∃ detail, ofValues values order = .error (.dimensionMismatch detail)) ↔
      ¬ Posed values.length order) ∧
    (Posed values.length order → ∃ d sub p, Setting values order d sub p ∧
      (ofValues values order = .error .nonZeroRemainder ↔ ∃ x ∈ sub.elements, p.eval x ≠ 0) ∧
      ((∃ x ∈ sub.elements, p.eval x ≠ 0) ↔
        ∃ i < order, values.getD (i * (values.length / order)) 0 ≠ 0) ∧
      (ofValues values order ≠ .error .nonZeroRemainder →
        ∃ w, ofValues values order = .ok w ∧ w.p = p ∧ IsWitness values order w)) := by
  constructor
  · constructor
    · rintro ⟨detail, hError⟩ hPosed
      obtain ⟨d, sub, p, hSetting⟩ := exists_setting hPosed
      exact hSetting.ofValues_ne_dimensionMismatch detail hError
    · exact exists_ofValues_eq_error
  · intro hPosed
    obtain ⟨d, sub, p, hSetting⟩ := exists_setting hPosed
    have hElements := not_congr hSetting.dvd_iff_eval_eq_zero
    have hStride := not_congr hSetting.dvd_iff_getD_eq_zero
    push Not at hElements hStride
    refine ⟨d, sub, p, hSetting, ?_, ?_, ?_⟩
    · exact hSetting.ofValues_eq_error_iff.trans hElements
    · exact hElements.symm.trans hStride
    · intro hNoRemainder
      rw [ne_eq, hSetting.ofValues_eq_error_iff, not_not] at hNoRemainder
      exact hSetting.ofValues_of_dvd hNoRemainder

/-- Two of four values are zero. On the whole domain they do not vanish, and neither three nor zero
is the order of a subgroup. -/
theorem stride_decides_fourValues :
    Posed 4 2 ∧ Posed 4 4 ∧
    (∃ w, ofValues [0, 3, 0, 8] 2 = .ok w ∧ IsWitness [0, 3, 0, 8] 2 w) ∧
    ofValues [0, 3, 0, 8] 4 = .error .nonZeroRemainder ∧
    (∃ w, ofValues [0, 0] 2 = .ok w ∧ IsWitness [0, 0] 2 w) ∧
    (∃ detail, ofValues [0, 3, 0, 8] 3 = .error (.dimensionMismatch detail)) ∧
    (∃ detail, ofValues [0, 3, 0, 8] 0 = .error (.dimensionMismatch detail)) ∧
    ∃ detail, ofValues [0, 0, 0] 1 = .error (.dimensionMismatch detail) := by
  refine ⟨by decide, by decide, ?_, ?_, ?_, ?_, ?_, ?_⟩
  · obtain ⟨d, sub, p, -, hElements, hStride, hWitness⟩ :=
      (stride_decides [0, 3, 0, 8] 2).2 (by decide)
    obtain ⟨w, hOk, -, hIsWitness⟩ := hWitness (by
      rw [ne_eq, hElements, hStride]
      decide +kernel)
    exact ⟨w, hOk, hIsWitness⟩
  · obtain ⟨d, sub, p, -, hElements, hStride, -⟩ :=
      (stride_decides [0, 3, 0, 8] 4).2 (by decide)
    rw [hElements, hStride]
    decide +kernel
  · obtain ⟨d, sub, p, -, hElements, hStride, hWitness⟩ := (stride_decides [0, 0] 2).2 (by decide)
    obtain ⟨w, hOk, -, hIsWitness⟩ := hWitness (by
      rw [ne_eq, hElements, hStride]
      decide +kernel)
    exact ⟨w, hOk, hIsWitness⟩
  · exact (stride_decides [0, 3, 0, 8] 3).1.mpr (by decide)
  · exact (stride_decides [0, 3, 0, 8] 0).1.mpr (by decide)
  · exact (stride_decides [0, 0, 0] 1).1.mpr (by decide)

end Witness

end Kzg.ZeroTest
