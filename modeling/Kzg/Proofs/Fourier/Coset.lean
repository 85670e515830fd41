import Kzg.Proofs.Coefficients.Evaluation
import Kzg.Proofs.Fourier.Product

/-! # Transforms on cosets

The values of `p(x)` on the coset of a shift are those of `p(shift·x)` on the domain. A dilation is
taken back by the one with the inverse factor, also after zeros have been added at the top, so that
the way back from a coset fails for the shift zero only. -/

namespace Kzg

open Polynomial

namespace Coeffs

section Dilate

theorem dilate_dilate (p : Coeffs) (factor factor' : Fr) :
    (p.dilate factor).dilate factor' = p.dilate (factor * factor') := by
  apply toPoly_injective
  · simp only [length_dilate]
  · simp only [toPoly_dilate, comp_assoc, mul_comp, C_comp, X_comp, C_mul, mul_assoc]

theorem dilate_one (p : Coeffs) : p.dilate 1 = p := by
  apply toPoly_injective (length_dilate p 1)
  rw [toPoly_dilate, C_1, one_mul, comp_X]

theorem padTo_dilate (p : Coeffs) (factor : Fr) (n : Nat) :
    (p.dilate factor).padTo n = (p.padTo n).dilate factor := by
  apply toPoly_injective
  · simp only [padTo, List.length_append, List.length_replicate, length_dilate]
  · rw [toPoly_padTo, toPoly_dilate, toPoly_dilate, toPoly_padTo]

theorem contract_zero (p : Coeffs) : p.contract 0 = .error .divisionByZero := rfl

variable {factor : Fr} (h : factor ≠ 0)

include h

theorem contract_of_ne_zero (p : Coeffs) : p.contract factor = .ok (p.dilate factor⁻¹) := by
  rw [contract, Fr.inverse_of_ne_zero h]
  rfl

theorem contract_dilate (p : Coeffs) : (p.dilate factor).contract factor = .ok p := by
  rw [contract_of_ne_zero h, dilate_dilate, mul_inv_cancel₀ h, dilate_one]

theorem dilate_of_contract {p q : Coeffs} (hRun : p.contract factor = .ok q) :
    q.dilate factor = p := by
  rw [contract_of_ne_zero h] at hRun
  obtain rfl := Except.ok.inj hRun
  rw [dilate_dilate, inv_mul_cancel₀ h, dilate_one]

end Dilate

end Coeffs

namespace Domain

/-- What the transforms of a domain do on its cosets. The functions that are given the root do the
same where nothing has to be padded. -/
structure TransformsCosets (d : Domain) : Prop where
  exists_values : ∀ (c : Coeffs) (shift : Fr), c.length ≤ d.size →
    ∃ values, d.valuesOnCoset c shift = .ok values ∧ values.length = d.size ∧
      (∀ i < d.size, values[i]? = some (c.eval (shift * d.generator ^ i))) ∧
      (shift ≠ 0 → d.interpolateOnCoset values shift = .ok (c.padTo d.size))
  exists_coeffs : ∀ (values : List Fr) (shift : Fr), values.length = d.size → shift ≠ 0 →
    ∃ c, d.interpolateOnCoset values shift = .ok c ∧ d.valuesOnCoset c shift = .ok values
  interpolateOnCoset_zero : ∀ values : List Fr, values.length = d.size →
    d.interpolateOnCoset values 0 = .error .divisionByZero
  fftOnCoset_eq : ∀ (c : Coeffs) (shift : Fr), c.length = d.size →
    fftOnCoset c d.generator shift = d.valuesOnCoset c shift
  ifftOnCoset_eq : ∀ (values : List Fr) (shift : Fr), values.length = d.size →
    ifftOnCoset values d.generator shift = d.interpolateOnCoset values shift

theorem interpolateOnCoset_of_interpolate {d : Domain} {values : List Fr} {p : Coeffs}
    (h : d.interpolate values = .ok p) (shift : Fr) :
    d.interpolateOnCoset values shift = p.contract shift := by
  rw [interpolateOnCoset, h]
  rfl

section Built

variable {d : Domain} (hDomain : d.Built)

include hDomain

theorem Built.exists_valuesOnCoset {c : Coeffs} (h : c.length ≤ d.size) (shift : Fr) :
    ∃ values, d.valuesOnCoset c shift = .ok values ∧ values.length = d.size ∧
      (∀ i < d.size, values[i]? = some (c.eval (shift * d.generator ^ i))) ∧
      d.interpolate values = .ok ((c.padTo d.size).dilate shift) := by
  have hFits : (c.dilate shift).length ≤ d.size := by rwa [Coeffs.length_dilate]
  refine ⟨_, hDomain.valuesOf_eq hFits, by simp, ?_, ?_⟩
  · intro i hi
    rw [List.getElem?_map, List.getElem?_range hi, Option.map_some, Coeffs.eval_dilate]
  · rw [← Coeffs.padTo_dilate]
    exact hDomain.interpolate_of_valuesOf hFits (hDomain.valuesOf_eq hFits)

theorem Built.transformsCosets : d.TransformsCosets where
  exists_values c shift h := by
    obtain ⟨values, hRun, hCount, hEntries, hInverse⟩ := hDomain.exists_valuesOnCoset h shift
    refine ⟨values, hRun, hCount, hEntries, fun hShift => ?_⟩
    rw [interpolateOnCoset_of_interpolate hInverse, Coeffs.contract_dilate hShift]
  exists_coeffs values shift hLength hShift := by
    obtain ⟨p, hRun, -⟩ := hDomain.exists_interpolate hLength
    have hContract := Coeffs.contract_of_ne_zero hShift p
    refine ⟨_, (interpolateOnCoset_of_interpolate hRun shift).trans hContract, ?_⟩
    rw [valuesOnCoset, Coeffs.dilate_of_contract hShift hContract]
    exact hDomain.valuesOf_of_interpolate hRun
  interpolateOnCoset_zero values hLength := by
    obtain ⟨p, hRun, -⟩ := hDomain.exists_interpolate hLength
    rw [interpolateOnCoset_of_interpolate hRun, Coeffs.contract_zero]
  fftOnCoset_eq c shift hLength := by
    rw [fftOnCoset, valuesOnCoset, valuesOf_of_length_eq ((c.length_dilate shift).trans hLength)]
  ifftOnCoset_eq values shift hLength := by
    have hCount : d.checkCount values = .ok () := if_pos hLength
    rw [ifftOnCoset, interpolateOnCoset, interpolate, hCount]
    rfl

end Built

end Domain

/-- Cosets of every domain are transformed in both directions by the same shift. -/
theorem coset_transforms :
    (∀ d : Domain, d.Built → d.TransformsCosets) ∧
    ∀ (c : Coeffs) (shift : Fr), shift ≠ 0 →
      (c.dilate shift).contract shift = .ok c ∧
      ∃ q, c.contract shift = .ok q ∧ q.dilate shift = c := by
  refine ⟨fun d hDomain => hDomain.transformsCosets, fun c shift hShift => ?_⟩
  have hContract := Coeffs.contract_of_ne_zero hShift c
  exact ⟨Coeffs.contract_dilate hShift c, _, hContract,
    Coeffs.dilate_of_contract hShift hContract⟩

/-- Three coefficients on a domain of four elements that is not the canonical one. -/
theorem coset_transforms_otherGenerator :
    let d := Domain.cyclic (-Fr.canonicalRoot 2) 2
    d.Built ∧ (7 : Fr) ≠ 0 ∧
      (∃ values, d.valuesOnCoset [1, 2, 3] 7 = .ok values ∧
        d.interpolateOnCoset values 7 = .ok [1, 2, 3, 0]) ∧
      (∃ c, d.interpolateOnCoset [1, 2, 3, 4] 7 = .ok c ∧
        d.valuesOnCoset c 7 = .ok [1, 2, 3, 4]) ∧
      d.interpolateOnCoset [1, 2, 3, 4] 0 = .error .divisionByZero ∧
      fftOnCoset [1, 2, 3, 4] d.generator 7 = d.valuesOnCoset [1, 2, 3, 4] 7 ∧
      (Coeffs.dilate [1, 2, 3] 7).contract 7 = .ok [1, 2, 3] := by
  intro d
  have hRoot : IsPrimitiveRoot (-Fr.canonicalRoot 2) (2 ^ 2) :=
    (Fr.hasOrder_two_pow_iff _ 2).mp (by decide +kernel)
  have hDomain : d.Built := Domain.built_cyclic (by decide) hRoot
  have hShift : (7 : Fr) ≠ 0 := by decide
  have hCosets := coset_transforms.1 d hDomain
  obtain ⟨values, hRun, -, -, hInverse⟩ := hCosets.exists_values [1, 2, 3] 7 (by decide)
  exact ⟨hDomain, hShift, ⟨values, hRun, hInverse hShift⟩,
    hCosets.exists_coeffs [1, 2, 3, 4] 7 rfl hShift,
    hCosets.interpolateOnCoset_zero [1, 2, 3, 4] rfl,
    hCosets.fftOnCoset_eq [1, 2, 3, 4] 7 rfl, (coset_transforms.2 [1, 2, 3] 7 hShift).1⟩

end Kzg
