import Kzg.Proofs.Argument.RunningProduct
import Kzg.Proofs.Coefficients.Division
import Kzg.Proofs.Domain.Interpolation

/-! # When an argument has a quotient

The quotient by `x^m - 1` exists exactly if the identity polynomial vanishes on the subgroup. For a
running product of quotients of rows this holds at every step but the last one by construction, and
at the last one, where it is back at its start, exactly if both sides have the same product. -/

namespace Kzg

open Finset (range)
open Polynomial

theorem runningProduct_eq_map (values : List Fr) : runningProduct values =
    (List.range (values.length + 1)).map fun n => (values.take n).prod := by
  have hGo (acc : Fr) : runningProduct.go acc values =
      (List.range (values.length + 1)).map fun n => acc * (values.take n).prod := by
    induction values generalizing acc with
    | nil => simp [runningProduct.go]
    | cons v values ih =>
      rw [runningProduct.go, ih, List.length_cons, List.range_succ_eq_map (n := values.length + 1),
        List.map_cons, List.map_map]
      simp [Function.comp_def, mul_assoc]
  rw [runningProduct, hGo]
  simp only [one_mul]

/-- On a subgroup the last value does not enter the running product any more. -/
theorem runningProduct_take {factors : List Fr} {n : Nat} (h : factors.length = n) (hPos : 0 < n) :
    runningProduct (factors.take (n - 1)) =
      (List.range n).map fun i => (factors.take i).prod := by
  have hCount : (factors.take (n - 1)).length + 1 = n := by
    rw [List.length_take]
    omega
  rw [runningProduct_eq_map, hCount]
  apply List.map_congr_left
  intro i hi
  have hLt := List.mem_range.mp hi
  rw [List.take_take, min_eq_left (by omega)]

theorem length_runningProduct_take {factors : List Fr} {k : Nat} (h : factors.length = 2 ^ k) :
    (runningProduct (factors.take (2 ^ k - 1))).length = 2 ^ k := by
  rw [runningProduct_take h (Nat.two_pow_pos k), List.length_map, List.length_range]

/-- The products of an argument about up to half of the largest size fit a transform. -/
theorem length_product_le_maxSize {k : Nat} (hk : k < maxLogSize) {p q : Coeffs}
    (hp : p.length = 2 ^ k) (hq : q.length = 2 ^ k) : p.length + q.length - 1 ≤ maxSize := by
  have hDouble : 2 * 2 ^ k ≤ maxSize := by
    rw [maxSize_eq, ← pow_succ']
    exact Nat.pow_le_pow_right two_pos hk
  omega

namespace Coeffs

variable {order : Nat} (hOrder : 0 < order) {num : Coeffs}

include hOrder

theorem toPoly_vanishing_ne_zero : toPoly (vanishing order) ≠ 0 := by
  rw [toPoly_vanishing]
  exact X_pow_sub_C_ne_zero hOrder 1

theorem divExact_vanishing_of_dvd (h : X ^ order - 1 ∣ num.toPoly) :
    ∃ quot : Coeffs, num.divExact (vanishing order) = .ok quot ∧
      num.toPoly = quot.toPoly * (X ^ order - 1) := by
  rw [← toPoly_vanishing] at h ⊢
  exact divExact_of_dvd (toPoly_vanishing_ne_zero hOrder) h

theorem divExact_vanishing_of_not_dvd (h : ¬ X ^ order - 1 ∣ num.toPoly) :
    num.divExact (vanishing order) = .error .nonZeroRemainder := by
  rw [← toPoly_vanishing] at h
  exact divExact_of_not_dvd (toPoly_vanishing_ne_zero hOrder) h

end Coeffs

namespace RunningProduct

/-- At every element of the subgroup `t` is the product of `f0` over that of `f1` at the elements
before. -/
def Carries (order : Nat) (omega : Fr) (f0 f1 t : Fr[X]) : Prop :=
  ∀ n < order, t.eval (omega ^ n) * ∏ i ∈ range n, f1.eval (omega ^ i) =
    ∏ i ∈ range n, f0.eval (omega ^ i)

theorem Carries.eval_one {order : Nat} (hOrder : 0 < order) {omega : Fr} {f0 f1 t : Fr[X]}
    (h : Carries order omega f0 f1 t) : t.eval 1 = 1 := by
  simpa using h 0 hOrder

section Root

variable {k : Nat} {root : Fr} (hRoot : IsPrimitiveRoot root (2 ^ k)) {f0 f1 t : Fr[X]}

include hRoot

theorem carries_of_interpolates (hk : k ≤ maxLogSize) {factors : List Fr}
    (hLength : factors.length = 2 ^ k)
    (hFactors : ∀ i < 2 ^ k, factors.getD i 0 * f1.eval (root ^ i) = f0.eval (root ^ i))
    (hProducts : (Domain.cyclic root k).Interpolates
      (runningProduct (factors.take (2 ^ k - 1))) t) :
    Carries (2 ^ k) root f0 f1 t := by
  intro n hn
  have hEntry := hProducts.getElem?_eq (Domain.built_cyclic hk hRoot) hn
  have hValue : t.eval (root ^ n) = (factors.take n).prod := by
    rw [runningProduct_take hLength (Nat.two_pow_pos k), List.getElem?_map,
      List.getElem?_range hn] at hEntry
    exact (Option.some.inj hEntry).symm
  have hProd : (factors.take n).prod = ∏ i ∈ range n, factors.getD i 0 := by
    obtain ⟨v, rfl⟩ := exists_eq_map_range hLength
    rw [← List.map_take, List.take_range, min_eq_left hn.le]
    refine congrArg List.prod (List.map_congr_left ?_)
    intro i hi
    have hLt : i < 2 ^ k := (List.mem_range.mp hi).trans hn
    simp [hLt]
  rw [hValue, hProd, ← Finset.prod_mul_distrib]
  apply Finset.prod_congr rfl
  intro i hi
  exact hFactors i ((Finset.mem_range.mp hi).trans hn)

variable (hCarries : Carries (2 ^ k) root f0 f1 t)

include hCarries

/-- The identity can only fail at the last step, back to the start. -/
theorem Carries.X_pow_sub_one_dvd_iff (hNe : ∀ i < 2 ^ k, f1.eval (root ^ i) ≠ 0) :
    X ^ 2 ^ k - 1 ∣ t.comp (C root * X) * f1 - f0 * t ↔
      ∏ i ∈ range (2 ^ k), f0.eval (root ^ i) = ∏ i ∈ range (2 ^ k), f1.eval (root ^ i) := by
  have hStart := hCarries.eval_one (Nat.two_pow_pos k)
  constructor
  · rintro ⟨q, hq⟩
    have hIdentity : identityPoly (2 ^ k) root f0 f1 t q = 0 := by
      rw [identityPoly, hq, mul_comm, sub_self]
    exact (prod_eq_of_identity hRoot.pow_eq_one hIdentity hStart).symm
  · intro hProduct
    have hNext (i : Nat) (hi : i < 2 ^ k) :
        t.eval (root ^ (i + 1)) * ∏ j ∈ range (i + 1), f1.eval (root ^ j) =
          ∏ j ∈ range (i + 1), f0.eval (root ^ j) := by
      rcases Nat.lt_or_eq_of_le (Nat.succ_le_of_lt hi) with hLt | hEq
      · exact hCarries (i + 1) hLt
      · rw [← Nat.succ_eq_add_one, hEq, hRoot.pow_eq_one, hStart, one_mul, hProduct]
    rw [Domain.X_pow_sub_one_dvd_iff hRoot]
    intro i hi
    have hBefore : ∏ j ∈ range i, f1.eval (root ^ j) ≠ 0 :=
      Finset.prod_ne_zero_iff.mpr fun j hj => hNe j ((Finset.mem_range.mp hj).trans hi)
    have hHere := hCarries i hi
    have hThere := hNext i hi
    rw [Finset.prod_range_succ, Finset.prod_range_succ] at hThere
    simp only [eval_sub, eval_mul, eval_comp, eval_C, eval_X]
    rw [← pow_succ']
    apply mul_right_cancel₀ hBefore
    linear_combination hThere - f0.eval (root ^ i) * hHere

end Root

end RunningProduct

end Kzg
