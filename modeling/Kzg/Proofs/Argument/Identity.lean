import Kzg.Proofs.Coefficients.Evaluation
import Kzg.Proofs.Fourier.Product
import Kzg.Argument.GrandProduct
import Kzg.Argument.Permutation.Basic

/-! # Identity polynomials

The identity polynomial of an argument is multiplied out by transforms. It is found exactly if there
are roots of unity for its products, and takes at every scalar the value that the check at a
challenge compares with the quotient. -/

namespace Kzg

namespace Coeffs

/-- There are roots of unity for the product, or nothing to multiply. -/
def FitsTransform (p q : Coeffs) : Prop :=
  p = [] ∨ q = [] ∨ p.length + q.length - 1 ≤ 2 ^ 28

section Product

variable {p q : Coeffs}

theorem fitsTransform_of_length_le (h : p.length + q.length - 1 ≤ maxSize) : p.FitsTransform q :=
  .inr (.inr (maxSize_eq ▸ h))

theorem fitsTransform_dilate_iff (factor : Fr) :
    (p.dilate factor).FitsTransform q ↔ p.FitsTransform q := by
  simp only [FitsTransform, ← List.length_eq_zero_iff, length_dilate]

theorem fastMul_of_fits (h : p.FitsTransform q) : p.fastMul q = .ok (p.mul q) := by
  rcases h with hp | hq | hLength
  · exact fastMul_of_eq_nil (.inl hp)
  · exact fastMul_of_eq_nil (.inr hq)
  · exact fastMul_eq_mul (maxSize_eq.symm ▸ hLength)

theorem exists_fastMul_error (h : ¬ p.FitsTransform q) :
    ∃ detail, p.fastMul q = .error (.transform detail) := by
  rw [FitsTransform, not_or, not_or, not_le] at h
  exact ⟨_, fastMul_eq_error h.1 h.2.1 (maxSize_eq.symm ▸ h.2.2)⟩

end Product

end Coeffs

/-- An identity polynomial is found exactly if its products fit a transform, and has the given value
at every scalar. -/
structure MultipliesOut (fits : Prop) (value : Fr → Fr) (answer : Except PolyError Coeffs) :
    Prop where
  exists_of_fits : fits → ∃ num, answer = .ok num ∧ ∀ x, num.eval x = value x
  exists_error : ¬ fits → ∃ detail, answer = .error (.transform detail)

namespace GrandProduct

variable {f t : Coeffs}

theorem identity_eq (h : f.FitsTransform t) (omega : Fr) :
    identity f t omega = .ok ((t.dilate omega).sub (f.mul t)) := by
  rw [identity, Coeffs.fastMul_of_fits h]
  rfl

theorem exists_identity_error (h : ¬ f.FitsTransform t) (omega : Fr) :
    ∃ detail, identity f t omega = .error (.transform detail) := by
  obtain ⟨detail, hError⟩ := Coeffs.exists_fastMul_error h
  refine ⟨detail, ?_⟩
  rw [identity, hError]
  rfl

theorem multipliesOut_identity (f t : Coeffs) (omega : Fr) :
    MultipliesOut (f.FitsTransform t) (fun x => t.eval (omega * x) - f.eval x * t.eval x)
      (identity f t omega) where
  exists_of_fits h := by
    refine ⟨_, identity_eq h omega, fun x => ?_⟩
    rw [Coeffs.eval_sub, Coeffs.eval_dilate, Coeffs.eval_mul]
  exists_error h := exists_identity_error h omega

end GrandProduct

namespace Permutation

variable {f0 f1 t : Coeffs}

theorem identity_eq (hNext : t.FitsTransform f1) (hHere : f0.FitsTransform t) (omega : Fr) :
    identity f0 f1 t omega = .ok (((t.dilate omega).mul f1).sub (f0.mul t)) := by
  have hDilated := (Coeffs.fitsTransform_dilate_iff omega).mpr hNext
  rw [identity, Coeffs.fastMul_of_fits hDilated, Coeffs.fastMul_of_fits hHere]
  rfl

/-- The product at the next element is multiplied out first and fails first. -/
theorem exists_identity_error (h : ¬ (t.FitsTransform f1 ∧ f0.FitsTransform t)) (omega : Fr) :
    ∃ detail, identity f0 f1 t omega = .error (.transform detail) := by
  by_cases hDilated : (t.dilate omega).FitsTransform f1
  · have hHere : ¬ f0.FitsTransform t := fun hHere =>
      h ⟨(Coeffs.fitsTransform_dilate_iff omega).mp hDilated, hHere⟩
    obtain ⟨detail, hError⟩ := Coeffs.exists_fastMul_error hHere
    refine ⟨detail, ?_⟩
    rw [identity, Coeffs.fastMul_of_fits hDilated, hError]
    rfl
  · obtain ⟨detail, hError⟩ := Coeffs.exists_fastMul_error hDilated
    refine ⟨detail, ?_⟩
    rw [identity, hError]
    rfl

theorem multipliesOut_identity (f0 f1 t : Coeffs) (omega : Fr) :
    MultipliesOut (t.FitsTransform f1 ∧ f0.FitsTransform t)
      (fun x => t.eval (omega * x) * f1.eval x - f0.eval x * t.eval x)
      (identity f0 f1 t omega) where
  exists_of_fits h := by
    refine ⟨_, identity_eq h.1 h.2 omega, fun x => ?_⟩
    rw [Coeffs.eval_sub, Coeffs.eval_mul, Coeffs.eval_mul, Coeffs.eval_dilate]
  exists_error h := exists_identity_error h omega

end Permutation

/-- Evaluation respects the arithmetic of coefficients, the product by rows in place among it, and
finds the values of the identity polynomials in those of their parts. -/
theorem evaluation_of_identities :
    (∀ x, Coeffs.RespectedAt x) ∧
    (∀ p q, Coeffs.mulInPlace p q = p.mul q) ∧
    (∀ (f t : Coeffs) (omega : Fr), MultipliesOut (f.FitsTransform t)
      (fun x => t.eval (omega * x) - f.eval x * t.eval x)
      (GrandProduct.identity f t omega)) ∧
    ∀ (f0 f1 t : Coeffs) (omega : Fr), MultipliesOut (t.FitsTransform f1 ∧ f0.FitsTransform t)
      (fun x => t.eval (omega * x) * f1.eval x - f0.eval x * t.eval x)
      (Permutation.identity f0 f1 t omega) :=
  ⟨Coeffs.respectedAt, Coeffs.mulInPlace_eq_mul, GrandProduct.multipliesOut_identity,
    Permutation.multipliesOut_identity⟩

/-- Parts of different lengths with zeros between and at the top, an empty part, and a product that
is too large by one. -/
theorem evaluation_of_identities_unevenLengths :
    Coeffs.mulInPlace [0, 2, 0] [3, 1] = [0, 6, 2, 0] ∧
    (∃ num, GrandProduct.identity [0, 2, 0] [3, 1] 5 = .ok num ∧ num.eval 7 = -102) ∧
    (∃ num, GrandProduct.identity [] [3, 1] 5 = .ok num ∧ num.eval 7 = 38) ∧
    (∃ num, Permutation.identity [0, 2, 0] [] [3, 1] 5 = .ok num ∧ num.eval 7 = -140) ∧
    ∃ detail, GrandProduct.identity (List.replicate (2 ^ 28) 1) [3, 1] 5 =
      .error (.transform detail) := by
  obtain ⟨-, hRows, hProduct, hPermutation⟩ := evaluation_of_identities
  refine ⟨?_, ?_, ?_, ?_, ?_⟩
  · rw [hRows]
    decide
  · obtain ⟨num, hRun, hValue⟩ :=
      (hProduct [0, 2, 0] [3, 1] 5).exists_of_fits (.inr (.inr (by decide)))
    exact ⟨num, hRun, (hValue 7).trans (by decide)⟩
  · obtain ⟨num, hRun, hValue⟩ := (hProduct [] [3, 1] 5).exists_of_fits (.inl rfl)
    exact ⟨num, hRun, (hValue 7).trans (by decide)⟩
  · obtain ⟨num, hRun, hValue⟩ := (hPermutation [0, 2, 0] [] [3, 1] 5).exists_of_fits
      ⟨.inr (.inl rfl), .inr (.inr (by decide))⟩
    exact ⟨num, hRun, (hValue 7).trans (by decide)⟩
  · apply (hProduct _ [3, 1] 5).exists_error
    rw [Coeffs.FitsTransform, ← List.length_eq_zero_iff, List.length_replicate]
    decide

end Kzg
