import Mathlib.Algebra.Polynomial.Div
import Kzg.Proofs.Domain.Values
import Kzg.Proofs.Coefficients.Division
import Kzg.Proofs.Commitment
import Kzg.Proofs.Transcript
import Kzg.Opening.Prove

/-! # What an opening is

The proof of an opening is the value at the secret of the quotient times the generator. The quotient
of a polynomial exists because the value that is opened is the right one, and on a domain it has a
value at every element. -/

namespace Kzg

open PointGroup (generator)
open SetupM (Responds)

section Quotient

open Polynomial

/-- The polynomial `(p(x) - p(z))/(x - z)`. -/
noncomputable def Coeffs.quotientAt (p : Coeffs) (z : Fr) : Fr[X] :=
  (p.toPoly - C (p.eval z)) /ₘ (X - C z)

namespace Coeffs

theorem quotientAt_mul (p : Coeffs) (z : Fr) :
    p.quotientAt z * (X - C z) = p.toPoly - C (p.eval z) := by
  rw [mul_comm, quotientAt, mul_divByMonic_eq_iff_isRoot, IsRoot, eval_sub, eval_C, eval_toPoly,
    sub_self]

theorem eval_quotientAt_mul (p : Coeffs) (z x : Fr) :
    (p.quotientAt z).eval x * (x - z) = p.eval x - p.eval z := by
  have h := congrArg (Polynomial.eval x) (p.quotientAt_mul z)
  simpa [eval_toPoly] using h

theorem degree_quotientAt_lt (p : Coeffs) (z : Fr) :
    (p.quotientAt z).degree < (p.degree : Nat) := by
  have hTop : p.toPoly.degree < (p.degree + 1 : Nat) := by
    rw [← length_trim_le_iff, Coeffs.degree]
    omega
  have hConstant : (C (p.eval z)).degree < (p.degree + 1 : Nat) :=
    degree_C_le.trans_lt (by exact_mod_cast Nat.succ_pos _)
  have hProduct : (p.quotientAt z * (X - C z)).degree < ((p.degree + 1 : Nat) : WithBot Nat) := by
    rw [quotientAt_mul]
    exact (degree_sub_le _ _).trans_lt (max_lt hTop hConstant)
  rw [degree_mul, degree_X_sub_C, Nat.cast_succ] at hProduct
  exact lt_of_add_lt_add_right hProduct

theorem toPoly_sub_value (p : Coeffs) (y : Fr) :
    ((p.padTo 1).sub [y]).toPoly = p.toPoly - C y := by
  rw [toPoly_sub, toPoly_padTo]
  simp

theorem divExact_quotientAt (p : Coeffs) (z : Fr) :
    ∃ quot, ((p.padTo 1).sub [p.eval z]).divExact [-z, 1] = .ok quot ∧
      quot.toPoly = p.quotientAt z := by
  apply divExact_of_mul_eq (toPoly_X_sub_ne_zero z)
  rw [toPoly_X_sub, quotientAt_mul, toPoly_sub_value]

/-- Only the value of `p` at `z` leaves a root there. -/
theorem divExact_of_eval_ne {p : Coeffs} {z y : Fr} (h : p.eval z ≠ y) :
    ((p.padTo 1).sub [y]).divExact [-z, 1] = .error .nonZeroRemainder := by
  apply divExact_of_not_dvd (toPoly_X_sub_ne_zero z)
  rw [toPoly_X_sub, toPoly_sub_value, dvd_iff_isRoot, IsRoot, eval_sub, eval_C, eval_toPoly]
  exact sub_ne_zero.mpr h

end Coeffs

end Quotient

variable {S G1 G2 : Type} [PointGroup G1] [SetupSource S G1 G2]

theorem responds_proveValue_of_ne {I : S → Prop} {p : Coeffs} {z y : Fr} (h : p.eval z ≠ y) :
    Responds I (proveValue p z y : SetupM S G1) (.error (.poly .nonZeroRemainder)) :=
  (SetupM.responds_lift_poly_error (Coeffs.divExact_of_eval_ne h)).bind_error _

variable [LawfulPointGroup G1] {I : S → Prop} {secret : Fr}

section Coefficients

variable {capacity : Nat} (hPowers : SuppliesPowers I secret capacity) {p : Coeffs}
  (hCapacity : p.degree ≤ capacity)

include hPowers hCapacity

theorem responds_proveValue (z : Fr) :
    Responds I (proveValue p z (p.eval z) : SetupM S G1)
      (.ok ((p.quotientAt z).eval secret • generator)) := by
  obtain ⟨quot, hDivision, hQuotient⟩ := p.divExact_quotientAt z
  have hLength : quot.trim.length ≤ capacity := by
    refine le_trans ?_ hCapacity
    rw [Coeffs.length_trim_le_iff, hQuotient]
    exact p.degree_quotientAt_lt z
  rw [← hQuotient, Coeffs.eval_toPoly]
  exact (SetupM.responds_lift_poly hDivision).bind (responds_commitCoeffs hPowers hLength)

theorem responds_openAt (z : Fr) :
    Responds I (openAt p z : SetupM S (Opening G1))
      (.ok ⟨z, p.eval z, (p.quotientAt z).eval secret • generator⟩) :=
  (responds_proveValue hPowers hCapacity z).bind (SetupM.responds_pure _)

end Coefficients

section Values

theorem quotientOnDomain_eq (d : Domain) {z : Fr} (hz : z ≠ 0) (evals : List Fr) (y : Fr) :
    quotientOnDomain d z evals y = .ok (((d.elements.zip evals).filter fun wv => wv.1 != z).map
      fun wv => (wv.2 - y) * wv.1 / ((z - wv.1) * z)).sum := by
  rw [quotientOnDomain, mapM_eq_ok (g := fun wv => (wv.2 - y) * wv.1 / ((z - wv.1) * z)),
    List.sum_eq_foldl]
  · rfl
  · rintro ⟨w, v⟩ hPair
    have hNe : w ≠ z := by simpa using (List.mem_filter.mp hPair).2
    exact Fr.divide_of_ne_zero _ (mul_ne_zero (sub_ne_zero.mpr hNe.symm) hz)

/-- The setup decides the proof only: the value and the quotient are found without it. -/
theorem responds_openEvalsAt {e : EvalForm} (hDomain : e.domain.Built) {z : Fr} {quot : List Fr}
    (hQuot : quotientEvals e z (Fr.dot (e.domain.lagrangeAt z) e.evals) = .ok quot)
    (hLength : quot.length = e.domain.size) {weights : List Fr}
    (hLagrange : SuppliesLagrange I e.domain weights) (hWeights : weights.length = e.domain.size) :
    Responds I (openEvalsAt e z : SetupM S (Opening G1))
      (.ok ⟨z, Fr.dot (e.domain.lagrangeAt z) e.evals, Fr.dot weights quot • generator⟩) := by
  have hForm : EvalForm.onDomain quot e.domain = .ok ⟨quot, e.domain, hLength⟩ := dif_pos hLength
  have hProof := responds_commitEvals (e := ⟨quot, e.domain, hLength⟩) hLagrange hWeights
  exact (SetupM.responds_lift_poly (hDomain.evalAt_eq e.length_evals z)).bind
    ((SetupM.responds_lift_poly hQuot).bind ((SetupM.responds_lift_poly hForm).bind
      (hProof.bind (SetupM.responds_pure _))))

omit [LawfulPointGroup G1] in
theorem responds_commitAndOpen [PointCodec G1] {e : EvalForm} {c : G1} {z : Fr} {o : Opening G1}
    (hCommit : Responds I (commitEvals e : SetupM S G1) (.ok c))
    (hChallenge : evaluationChallenge e.evals c = .ok z)
    (hOpen : Responds I (openEvalsAt e z : SetupM S (Opening G1)) (.ok o)) :
    Responds I (commitAndOpen e : SetupM S (G1 × Opening G1)) (.ok (c, o)) := by
  apply hCommit.bind
  rw [hChallenge]
  exact (SetupM.responds_lift _).bind (hOpen.bind (SetupM.responds_pure _))

end Values

end Kzg
