import Mathlib.Algebra.Polynomial.Roots
import Kzg.Proofs.Coefficients.Polynomial
import Kzg.Argument.Basic

/-! # Products carried around a subgroup

A polynomial `t` with `t(ωx)·f1 = f0·t` on the whole subgroup that starts at one carries the product
of `f0` over that of `f1` around the subgroup, and the two are equal where it is back at its start.
Nothing is divided, so that `f1` may vanish. If they are not equal, then a challenge that passes is
a root of the identity polynomial, which is not zero. -/

namespace Kzg.RunningProduct

open Finset (range)
open Polynomial

/-- The polynomial `t(ωx)·f1 - f0·t - q·(x^order - 1)`. -/
noncomputable def identityPoly (order : Nat) (omega : Fr) (f0 f1 t q : Fr[X]) : Fr[X] :=
  t.comp (C omega * X) * f1 - f0 * t - q * (X ^ order - 1)

variable {order : Nat} {omega : Fr} {f0 f1 t q : Fr[X]}

theorem eval_identityPoly_eq_zero_iff (r : Fr) :
    (identityPoly order omega f0 f1 t q).eval r = 0 ↔
      q.eval r * vanishingAt r order = t.eval (omega * r) * f1.eval r - f0.eval r * t.eval r := by
  simp only [identityPoly, eval_sub, eval_mul, eval_comp, eval_C, eval_X, eval_pow, eval_one,
    vanishingAt]
  rw [sub_eq_zero, eq_comm]

theorem natDegree_mul_X_pow_sub_one_le (q : Fr[X]) (order : Nat) :
    (q * (X ^ order - 1)).natDegree ≤ q.natDegree + order := by
  refine natDegree_mul_le.trans (Nat.add_le_add_left ?_ _)
  exact (natDegree_sub_le _ _).trans (by simp)

theorem natDegree_dilated_le (omega : Fr) (t : Fr[X]) :
    (t.comp (C omega * X)).natDegree ≤ t.natDegree := by
  calc
    (t.comp (C omega * X)).natDegree
      ≤ t.natDegree * (C omega * X).natDegree := natDegree_comp_le
    _ ≤ t.natDegree * 1 :=
      Nat.mul_le_mul_left _ ((natDegree_C_mul_le omega X).trans natDegree_X_le)
    _ = t.natDegree := Nat.mul_one _

theorem natDegree_identityPoly_le :
    (identityPoly order omega f0 f1 t q).natDegree ≤
      f0.natDegree + f1.natDegree + t.natDegree + q.natDegree + order := by
  have hNext : (t.comp (C omega * X) * f1).natDegree ≤ t.natDegree + f1.natDegree :=
    natDegree_mul_le.trans (Nat.add_le_add_right (natDegree_dilated_le omega t) _)
  have hProduct : (f0 * t).natDegree ≤ f0.natDegree + t.natDegree := natDegree_mul_le
  have hQuotient := natDegree_mul_X_pow_sub_one_le q order
  have hFirst := natDegree_sub_le (t.comp (C omega * X) * f1) (f0 * t)
  have hBoth := natDegree_sub_le (t.comp (C omega * X) * f1 - f0 * t) (q * (X ^ order - 1))
  rw [identityPoly]
  omega

section Subgroup

variable (hOrder : omega ^ order = 1) (hIdentity : identityPoly order omega f0 f1 t q = 0)

include hOrder hIdentity

theorem eval_step (i : Nat) :
    t.eval (omega ^ (i + 1)) * f1.eval (omega ^ i) =
      f0.eval (omega ^ i) * t.eval (omega ^ i) := by
  have hStep := (eval_identityPoly_eq_zero_iff (omega ^ i)).mp (by rw [hIdentity, eval_zero])
  have hVanishing : vanishingAt (omega ^ i) order = 0 := by
    rw [vanishingAt, ← pow_mul, mul_comm, pow_mul, hOrder, one_pow, sub_self]
  rw [hVanishing, mul_zero, eq_comm, sub_eq_zero, ← pow_succ'] at hStep
  exact hStep

theorem eval_pow_mul_prod (hStart : t.eval 1 = 1) (n : Nat) :
    t.eval (omega ^ n) * ∏ i ∈ range n, f1.eval (omega ^ i) =
      ∏ i ∈ range n, f0.eval (omega ^ i) := by
  induction n with
  | zero => simp [hStart]
  | succ n ih =>
    calc
      t.eval (omega ^ (n + 1)) * ∏ i ∈ range (n + 1), f1.eval (omega ^ i)
        = t.eval (omega ^ (n + 1)) * f1.eval (omega ^ n) *
            ∏ i ∈ range n, f1.eval (omega ^ i) := by
          rw [Finset.prod_range_succ]
          ring
      _ = f0.eval (omega ^ n) *
            (t.eval (omega ^ n) * ∏ i ∈ range n, f1.eval (omega ^ i)) := by
          rw [eval_step hOrder hIdentity, mul_assoc]
      _ = ∏ i ∈ range (n + 1), f0.eval (omega ^ i) := by
          rw [ih, Finset.prod_range_succ, mul_comm]

/-- Around the whole subgroup the running product is back at its start. -/
theorem prod_eq_of_identity (hStart : t.eval 1 = 1) :
    ∏ i ∈ range order, f1.eval (omega ^ i) = ∏ i ∈ range order, f0.eval (omega ^ i) := by
  rw [← eval_pow_mul_prod hOrder hIdentity hStart, hOrder, hStart, one_mul]

end Subgroup

theorem exists_finset_of_prod_ne (hOrder : omega ^ order = 1) (hStart : t.eval 1 = 1)
    (hProduct : ∏ i ∈ range order, f0.eval (omega ^ i) ≠
      ∏ i ∈ range order, f1.eval (omega ^ i)) :
    ∃ bad : Finset Fr,
      bad.card ≤ f0.natDegree + f1.natDegree + t.natDegree + q.natDegree + order ∧
        ∀ r, q.eval r * vanishingAt r order =
          t.eval (omega * r) * f1.eval r - f0.eval r * t.eval r → r ∈ bad := by
  have hNe : identityPoly order omega f0 f1 t q ≠ 0 :=
    fun hIdentity => hProduct (prod_eq_of_identity hOrder hIdentity hStart).symm
  obtain ⟨bad, hCard, hBad⟩ := Coeffs.exists_finset_roots hNe
  refine ⟨bad, hCard.trans natDegree_identityPoly_le, ?_⟩
  intro r hr
  exact hBad r ((eval_identityPoly_eq_zero_iff r).mpr hr)

end Kzg.RunningProduct
