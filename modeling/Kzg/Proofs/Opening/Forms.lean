import Kzg.Proofs.Domain.Interpolation
import Kzg.Proofs.Opening.Exact

/-! # Commitments and openings from values

A setup that holds its secret commits to values as to the coefficients that they interpolate to,
and opens them in the same way, on every domain. The quotient of an opening is known on the domain
wherever its denominator is not zero. The entry that is left follows from the others, because a
polynomial without constant term that the domain has room for has values that add up to zero. -/

namespace Kzg

open PointGroup (generator)
open Polynomial
open SetupM (Responds)

section Quotient

namespace Domain

theorem lagrangeValue_zero (k : Nat) {w : Fr} (hw : w ≠ 0) :
    lagrangeValue (2 ^ k) 0 w = ((2 ^ k : Nat) : Fr)⁻¹ := by
  rw [lagrangeValue, zero_pow (Nat.two_pow_pos k).ne', if_neg zero_ne_one]
  field_simp
  simp

theorem Built.sum_eval_X_mul {d : Domain} (hDomain : d.Built) {f : Fr[X]}
    (hDegree : (X * f : Fr[X]).degree < d.size) :
    (d.elements.map fun w => w * f.eval w).sum = 0 := by
  have hInterpolates : d.Interpolates (d.elements.map (X * f : Fr[X]).eval) (X * f) :=
    ⟨hDegree, rfl⟩
  have hZero := hInterpolates.dot_lagrangeAt hDomain 0
  obtain ⟨k, hk, root, hRoot, rfl⟩ := hDomain.exists_root
  have hSum : Fr.dot ((cyclic root k).lagrangeAt 0)
      ((cyclic root k).elements.map (X * f : Fr[X]).eval) =
        ((2 ^ k : Nat) : Fr)⁻¹ * ((cyclic root k).elements.map fun w => w * f.eval w).sum := by
    rw [lagrangeAt_eq_map, Fr.dot, List.zipWith_map, List.zipWith_self, ← List.sum_map_mul_left]
    refine congrArg List.sum (List.map_congr_left ?_)
    intro w hw
    rw [lagrangeValue_zero k (hDomain.ne_zero_of_mem hw), eval_mul, eval_X]
  rw [hSum, eval_mul, eval_X, zero_mul] at hZero
  exact (mul_eq_zero.mp hZero).resolve_left (inv_ne_zero (Fr.two_pow_ne_zero hk))

theorem Interpolates.zip_elements {d : Domain} {p : Coeffs} {values : List Fr}
    (h : d.Interpolates values p.toPoly) :
    d.elements.zip values = d.elements.map fun w => (w, p.eval w) := by
  rw [← h.map_eval, ← List.map_prod_left_eq_zip]
  simp only [Coeffs.eval_toPoly]

end Domain

variable {d : Domain} (hDomain : d.Built) {p : Coeffs} {values : List Fr}
  (h : d.Interpolates values p.toPoly)

include hDomain h

theorem Domain.Interpolates.degree_X_mul_quotientAt_lt (z : Fr) :
    (X * p.quotientAt z : Fr[X]).degree < d.size := by
  have hProduct := (h.sub_C hDomain (p.eval z)).degree_lt
  rwa [← p.quotientAt_mul, degree_mul, degree_X_sub_C, ← degree_X (R := Fr), ← degree_mul,
    mul_comm] at hProduct

theorem Domain.Interpolates.quotientAt (z : Fr) :
    d.Interpolates (d.elements.map (p.quotientAt z).eval) (p.quotientAt z) where
  degree_lt := by
    have hProduct := h.degree_X_mul_quotientAt_lt hDomain z
    rw [mul_comm] at hProduct
    exact (degree_le_mul_left _ X_ne_zero).trans_lt hProduct
  map_eval := rfl

theorem quotientOnDomain_of_mem {z : Fr} (hz : z ∈ d.elements) :
    quotientOnDomain d z values (p.eval z) = .ok ((p.quotientAt z).eval z) := by
  have hNe := hDomain.ne_zero_of_mem hz
  have hTerm {w : Fr} (hw : w ≠ z) : (p.eval w - p.eval z) * w / ((z - w) * z) =
      -z⁻¹ * (w * (p.quotientAt z).eval w) := by
    have hSub : z - w ≠ 0 := sub_ne_zero.mpr hw.symm
    rw [← p.eval_quotientAt_mul]
    field_simp
    ring
  have hSum := List.sum_map_erase (fun w => w * (p.quotientAt z).eval w) hz
  rw [hDomain.sum_eval_X_mul (h.degree_X_mul_quotientAt_lt hDomain z),
    hDomain.nodup_elements.erase_eq_filter] at hSum
  have hOthers : ((d.elements.zip values).filter fun wv => wv.1 != z).map
      (fun wv => (wv.2 - p.eval z) * wv.1 / ((z - wv.1) * z)) =
        (d.elements.filter (· != z)).map fun w => -z⁻¹ * (w * (p.quotientAt z).eval w) := by
    rw [h.zip_elements, List.filter_map, List.map_map]
    apply List.map_congr_left
    intro w hw
    exact hTerm (by simpa using (List.mem_filter.mp hw).2)
  rw [quotientOnDomain_eq d hNe, hOthers, List.sum_map_mul_left, eq_neg_of_add_eq_zero_right hSum]
  congr 1
  field_simp

end Quotient

section Values

variable {e : EvalForm} (hDomain : e.domain.Built) {p : Coeffs}
  (h : e.domain.Interpolates e.evals p.toPoly)

include hDomain h

theorem quotientEvals_eq (z : Fr) :
    quotientEvals e z (p.eval z) = .ok (e.domain.elements.map (p.quotientAt z).eval) := by
  have hEntries : quotientEvals e z (p.eval z) = .ok
      ((e.domain.elements.map fun w => (w, p.eval w)).map fun wv =>
        (p.quotientAt z).eval wv.1) := by
    rw [quotientEvals, h.zip_elements]
    apply mapM_eq_ok
    intro wv hPair
    obtain ⟨w, hw, rfl⟩ := List.mem_map.mp hPair
    by_cases hEq : w - z = 0
    · simp only [hEq, if_true]
      rw [sub_eq_zero.mp hEq] at hw ⊢
      exact quotientOnDomain_of_mem hDomain h hw
    · simp only [hEq, if_false]
      rw [Fr.divide_of_ne_zero _ hEq, ← p.eval_quotientAt_mul, mul_div_cancel_right₀ _ hEq]
  rw [hEntries, List.map_map]
  rfl

variable {S G1 G2 : Type} [PointGroup G1] [SetupSource S G1 G2] [LawfulPointGroup G1]
  {I : S → Prop} {secret : Fr}
  (hLagrange : SuppliesLagrange I e.domain (e.domain.lagrangeAt secret))

include hLagrange

theorem responds_commitEvals_of_interpolates :
    Responds I (commitEvals e : SetupM S G1) (.ok (p.commitmentAt secret)) := by
  rw [Coeffs.commitmentAt, ← Coeffs.eval_toPoly, ← h.dot_lagrangeAt hDomain]
  exact responds_commitEvals hLagrange (hDomain.length_lagrangeAt secret)

theorem responds_openEvalsAt_of_interpolates (z : Fr) :
    Responds I (openEvalsAt e z : SetupM S (Opening G1)) (.ok (p.openingAt secret z)) := by
  have hQuotient := h.quotientAt hDomain z
  have hValue : Fr.dot (e.domain.lagrangeAt z) e.evals = p.eval z := by
    rw [h.dot_lagrangeAt hDomain, p.eval_toPoly]
  have hRun := responds_openEvalsAt hDomain (z := z) (by rw [hValue, quotientEvals_eq hDomain h])
    (hQuotient.length_eq hDomain) hLagrange (hDomain.length_lagrangeAt secret)
  rwa [hValue, hQuotient.dot_lagrangeAt hDomain] at hRun

end Values

section Index

variable {S G1 G2 : Type} [PointGroup G1] [SetupSource S G1 G2] {I : S → Prop} {e : EvalForm}
  (hDomain : e.domain.Built) {i : Nat}

include hDomain

theorem openEvalsAtIndex_of_lt (hi : i < e.domain.size) :
    (openEvalsAtIndex e i : SetupM S (Opening G1)) = openEvalsAt e (e.domain.generator ^ i) := by
  rw [openEvalsAtIndex, hDomain.element?_eq_some_iff.mpr ⟨hi, rfl⟩]

theorem responds_openEvalsAtIndex_of_le (hi : e.domain.size ≤ i) :
    Responds I (openEvalsAtIndex e i : SetupM S (Opening G1)) (.error .noSuchRoot) := by
  have hNone : e.domain.element? i = none := by
    rw [Option.eq_none_iff_forall_ne_some]
    intro x hx
    exact absurd (hDomain.element?_eq_some_iff.mp hx).1 hi.not_gt
  rw [openEvalsAtIndex, hNone]
  exact SetupM.responds_throw _

end Index

section Canonical

variable {G1 : Type} (G2 : Type) [PointGroup G1] [PointGroup G2]

/-- A setup that holds the secret commits to the values on their canonical domain with `c`. -/
def TrustedSetup.CommitsTo (secret : Fr) (values : List Fr) (c : G1) : Prop :=
  ∃ e, EvalForm.ofValues values = .ok e ∧
    Responds (Reached secret : TrustedSetup G1 G2 → Prop) (commitEvals e) (.ok c)

theorem TrustedSetup.commitsTo_of_interpolates [LawfulPointGroup G1] (secret : Fr) {k : Nat}
    (hk : k ≤ maxLogSize) {values : List Fr} {p : Coeffs}
    (h : (Domain.cyclic (Fr.canonicalRoot k) k).Interpolates values p.toPoly) :
    CommitsTo G2 secret values (p.commitmentAt secret : G1) := by
  have hDomain := Domain.built_canonical hk
  exact ⟨_, EvalForm.ofValues_two_pow hk (h.length_eq hDomain),
    responds_commitEvals_of_interpolates hDomain h (suppliesLagrange G1 G2 secret hDomain)⟩

end Canonical

section Agreement

variable (G1 G2 : Type) [PointGroup G1] [PointGroup G2] [LawfulPointGroup G1] (secret : Fr)
  {e : EvalForm} (hDomain : e.domain.Built)

include hDomain

/-- Both forms commit to the value at the secret of the interpolant, which may be one of the values
itself. -/
theorem commitEvals_eq_commitCoeffs :
    ∃ p, e.toCoeffs = .ok p ∧ p.toPoly = e.interpolant ∧
      Responds (TrustedSetup.Reached secret : TrustedSetup G1 G2 → Prop) (commitEvals e)
        (.ok (e.interpolant.eval secret • generator)) ∧
      Responds (TrustedSetup.Reached secret : TrustedSetup G1 G2 → Prop) (commitCoeffs p)
        (.ok (e.interpolant.eval secret • generator)) := by
  obtain ⟨p, hRun, hPoly, hInterpolant⟩ := EvalForm.exists_toCoeffs hDomain
  rw [← hPoly, p.eval_toPoly]
  exact ⟨p, hRun, rfl,
    responds_commitEvals_of_interpolates hDomain hInterpolant
      (TrustedSetup.suppliesLagrange G1 G2 secret hDomain),
    responds_commitmentAt (TrustedSetup.suppliesPowers G1 G2 secret) p⟩

omit hDomain in
/-- The secret is an element of a domain that is not the canonical one. -/
theorem commitEvals_eq_commitCoeffs_exponent :
    let secret : Fr := -Fr.canonicalRoot 2
    let e : EvalForm := ⟨[7, 0, 1, 5], Domain.cyclic secret 2, rfl⟩
    e.domain.Built ∧ ∃ p, e.toCoeffs = .ok p ∧ p.toPoly = e.interpolant ∧
      Responds (TrustedSetup.Reached secret : TrustedSetup (Exponent "G1") (Exponent "G2") → Prop)
        (commitEvals e) (.ok (e.interpolant.eval secret • generator)) ∧
      Responds (TrustedSetup.Reached secret : TrustedSetup (Exponent "G1") (Exponent "G2") → Prop)
        (commitCoeffs p) (.ok (e.interpolant.eval secret • generator)) := by
  intro secret e
  have hRoot : IsPrimitiveRoot secret (2 ^ 2) :=
    (Fr.hasOrder_two_pow_iff _ 2).mp (by decide +kernel)
  have hDomain : e.domain.Built := Domain.built_cyclic (by decide) hRoot
  exact ⟨hDomain, commitEvals_eq_commitCoeffs (Exponent "G1") (Exponent "G2") secret hDomain⟩

/-- Both forms open to the same point, value and proof, on the domain and off it. An element may be
given by its index, and there is none from the size of the domain on. -/
theorem openEvals_eq_openCoeffs :
    ∃ p, e.toCoeffs = .ok p ∧
      (∀ z, ∃ o : Opening G1, o.point = z ∧ o.value = e.interpolant.eval z ∧
        Responds (TrustedSetup.Reached secret : TrustedSetup G1 G2 → Prop) (openEvalsAt e z)
          (.ok o) ∧
        Responds (TrustedSetup.Reached secret : TrustedSetup G1 G2 → Prop) (openAt p z) (.ok o)) ∧
      (∀ i < e.domain.size, ∃ o : Opening G1,
        o.point = e.domain.generator ^ i ∧ e.evals[i]? = some o.value ∧
        Responds (TrustedSetup.Reached secret : TrustedSetup G1 G2 → Prop) (openEvalsAtIndex e i)
          (.ok o) ∧
        Responds (TrustedSetup.Reached secret : TrustedSetup G1 G2 → Prop)
          (openAt p (e.domain.generator ^ i)) (.ok o)) ∧
      ∀ i ≥ e.domain.size,
        Responds (TrustedSetup.Reached secret : TrustedSetup G1 G2 → Prop) (openEvalsAtIndex e i)
          (.error .noSuchRoot) := by
  obtain ⟨p, hRun, hPoly, hInterpolant⟩ := EvalForm.exists_toCoeffs hDomain
  rw [← hPoly]
  have hValues := responds_openEvalsAt_of_interpolates hDomain hInterpolant
    (TrustedSetup.suppliesLagrange G1 G2 secret hDomain)
  have hCoeffs := responds_openingAt (TrustedSetup.suppliesPowers G1 G2 secret) p
  refine ⟨p, hRun, ?_, ?_, ?_⟩
  · intro z
    exact ⟨_, rfl, (p.eval_toPoly z).symm, hValues z, hCoeffs z⟩
  · intro i hi
    refine ⟨_, rfl, ?_, ?_, hCoeffs _⟩
    · rw [hInterpolant.getElem?_eq hDomain hi, p.eval_toPoly]
      rfl
    · rw [openEvalsAtIndex_of_lt hDomain hi]
      exact hValues _
  · intro i hi
    exact responds_openEvalsAtIndex_of_le hDomain hi

omit hDomain in
/-- The point is an element, so that one entry of the quotient has no quotient of differences. -/
theorem openEvals_eq_openCoeffs_exponent :
    let z : Fr := -Fr.canonicalRoot 2
    let e : EvalForm := ⟨[7, 0, 1, 5], Domain.cyclic z 2, rfl⟩
    e.domain.Built ∧ ∃ (p : Coeffs) (o : Opening (Exponent "G1")), e.toCoeffs = .ok p ∧
      o.point = z ∧ o.value = e.interpolant.eval z ∧
      Responds (TrustedSetup.Reached 2 : TrustedSetup (Exponent "G1") (Exponent "G2") → Prop)
        (openEvalsAt e z) (.ok o) ∧
      Responds (TrustedSetup.Reached 2 : TrustedSetup (Exponent "G1") (Exponent "G2") → Prop)
        (openAt p z) (.ok o) ∧
      Responds (TrustedSetup.Reached 2 : TrustedSetup (Exponent "G1") (Exponent "G2") → Prop)
        (openEvalsAtIndex e 4) (.error .noSuchRoot) := by
  intro z e
  have hRoot : IsPrimitiveRoot z (2 ^ 2) := (Fr.hasOrder_two_pow_iff _ 2).mp (by decide +kernel)
  have hDomain : e.domain.Built := Domain.built_cyclic (by decide) hRoot
  obtain ⟨p, hRun, hOpen, -, hOutside⟩ :=
    openEvals_eq_openCoeffs (Exponent "G1") (Exponent "G2") 2 hDomain
  obtain ⟨o, hPoint, hValue, hValues, hCoeffs⟩ := hOpen z
  exact ⟨hDomain, p, o, hRun, hPoint, hValue, hValues, hCoeffs, hOutside 4 le_rfl⟩

end Agreement

end Kzg
