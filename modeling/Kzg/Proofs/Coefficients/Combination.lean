import Kzg.Proofs.Coefficients.Polynomial

/-! # Combinations of scalars

The sum of the products of two lists of scalars. Combining coefficients with the powers of a scalar
is evaluation. Combining them with any other weights depends on their polynomial only, and is
linear in it. -/

namespace Kzg

open Polynomial

def Fr.dot (xs ys : List Fr) : Fr :=
  (List.zipWith (· * ·) xs ys).sum

namespace Fr

@[simp] theorem dot_cons (x y : Fr) (xs ys : List Fr) :
    dot (x :: xs) (y :: ys) = x * y + dot xs ys := by
  simp [dot]

@[simp] theorem dot_nil_left (ys : List Fr) : dot [] ys = 0 := by
  simp [dot]

@[simp] theorem dot_nil_right (xs : List Fr) : dot xs [] = 0 := by
  simp [dot]

theorem dot_go (x y : Fr) (p : Coeffs) : dot (powers.go x p.length y) p = y * p.eval x := by
  induction p generalizing y with
  | nil => simp
  | cons c p ih =>
    rw [List.length_cons, powers.go, dot_cons, ih, Coeffs.eval_cons]
    ring

theorem dot_powers (x : Fr) (p : Coeffs) : dot (powers x p.length) p = p.eval x := by
  rw [powers, dot_go, one_mul]

theorem eq_of_dot_eq {xs ys : List Fr} (hLength : xs.length = ys.length)
    (h : ∀ zs : List Fr, zs.length = xs.length → dot xs zs = dot ys zs) : xs = ys := by
  induction xs generalizing ys with
  | nil => exact (List.length_eq_zero_iff.mp hLength.symm).symm
  | cons x xs ih =>
    obtain ⟨y, ys, rfl⟩ := List.exists_cons_of_length_eq_add_one hLength.symm
    have hTail : xs = ys := by
      apply ih (by simpa using hLength)
      intro zs hzs
      simpa using h (0 :: zs) (by simp [hzs])
    have hHead := h (1 :: List.replicate xs.length 0) (by simp)
    rw [hTail] at hHead ⊢
    simp only [dot_cons, mul_one, add_left_inj] at hHead
    rw [hHead]

theorem dot_eq_zero {xs : List Fr} (h : ∀ x ∈ xs, x = 0) (ys : List Fr) : dot xs ys = 0 := by
  induction xs generalizing ys with
  | nil => exact dot_nil_left ys
  | cons x xs ih =>
    rw [List.forall_mem_cons] at h
    cases ys with
    | nil => exact dot_nil_right _
    | cons y ys => rw [dot_cons, h.1, zero_mul, zero_add, ih h.2]

/-- The mark of the only place of `x` in a list picks the entry at that place. -/
theorem dot_mark {l : List Fr} {x : Fr} (hOnce : l.count x = 1) {i : Nat} (h : l[i]? = some x)
    (ys : List Fr) : dot (l.map fun w => if w = x then 1 else 0) ys = ys.getD i 0 := by
  induction l generalizing i ys with
  | nil => cases h
  | cons a l ih =>
    cases ys with
    | nil => simp
    | cons y ys =>
      rw [List.map_cons, dot_cons]
      cases i with
      | zero =>
        obtain rfl : a = x := Option.some.inj h
        have hRest : a ∉ l := by
          rw [List.count_cons_self] at hOnce
          exact List.count_eq_zero.mp (Nat.succ.inj hOnce)
        have hMarks : ∀ m ∈ l.map fun w => if w = a then (1 : Fr) else 0, m = 0 := by
          rw [List.forall_mem_map]
          intro w hw
          exact if_neg (ne_of_mem_of_not_mem hw hRest)
        rw [if_pos rfl, one_mul, dot_eq_zero hMarks, add_zero, List.getD_cons_zero]
      | succ i =>
        have hTail : 0 < l.count x := List.count_pos_iff.mpr (List.mem_of_getElem? h)
        have hNe : a ≠ x := by
          rintro rfl
          rw [List.count_cons_self] at hOnce
          omega
        rw [List.count_cons_of_ne hNe] at hOnce
        rw [if_neg hNe, zero_mul, zero_add, ih hOnce h, List.getD_cons_succ]

theorem dot_map_mul {α : Type} (f g : α → Fr) (l : List α) (ys : List Fr) :
    dot (l.map fun a => f a * g a) ys = dot (l.map f) (List.zipWith (· * ·) ys (l.map g)) := by
  induction l generalizing ys with
  | nil => simp
  | cons a l ih =>
    cases ys with
    | nil => simp
    | cons y ys =>
      simp only [List.map_cons, List.zipWith_cons_cons, dot_cons, ih]
      ring

end Fr

section Range

theorem exists_eq_map_range {α : Type} [Nonempty α] {n : Nat} {values : List α}
    (h : values.length = n) : ∃ v : Nat → α, values = (List.range n).map v := by
  refine ⟨fun i => values.getD i (Classical.arbitrary α), List.ext_getElem (by simp [h]) ?_⟩
  intro i hi _
  simp [hi]

theorem Fr.dot_map_range (u v : Nat → Fr) (n : Nat) :
    dot ((List.range n).map u) ((List.range n).map v) = ∑ i ∈ Finset.range n, u i * v i := by
  rw [dot, List.zipWith_map, List.zipWith_self]
  rfl

theorem Coeffs.eval_map_range (v : Nat → Fr) (n : Nat) (x : Fr) :
    eval ((List.range n).map v) x = ∑ i ∈ Finset.range n, x ^ i * v i := by
  rw [← Fr.dot_powers, List.length_map, List.length_range, Fr.powers_eq_map, Fr.dot_map_range]

theorem Coeffs.eval_eq_sum (p : Coeffs) (x : Fr) :
    p.eval x = ∑ i ∈ Finset.range p.length, p.getD i 0 * x ^ i := by
  obtain ⟨n, hn⟩ : ∃ n, p.length = n := ⟨_, rfl⟩
  obtain ⟨v, rfl⟩ := exists_eq_map_range hn
  rw [eval_map_range, hn]
  apply Finset.sum_congr rfl
  intro i hi
  simp [Finset.mem_range.mp hi, mul_comm]

end Range

section Weights

/-- The sum of the coefficients of a polynomial, that of `x^i` taken `weights i` times. -/
noncomputable def weightedSum (weights : Nat → Fr) : Fr[X] →ₗ[Fr] Fr :=
  lsum fun i => LinearMap.mulLeft Fr (weights i)

theorem weightedSum_toPoly (weights : Nat → Fr) (p : Coeffs) :
    weightedSum weights p.toPoly = Fr.dot ((List.range p.length).map weights) p := by
  obtain ⟨n, hn⟩ : ∃ n, p.length = n := ⟨_, rfl⟩
  have hSupport : p.toPoly.support ⊆ Finset.range n := by
    intro i hi
    rw [Finset.mem_range, ← hn]
    by_contra hNot
    rw [mem_support_iff, Coeffs.coeff_toPoly, List.getD_eq_default _ _ (not_lt.mp hNot)] at hi
    exact hi rfl
  rw [weightedSum, lsum_apply, sum_eq_of_subset _ (fun i => map_zero _) hSupport, hn]
  obtain ⟨v, rfl⟩ := exists_eq_map_range hn
  rw [Fr.dot_map_range]
  apply Finset.sum_congr rfl
  intro i hi
  simp [Coeffs.coeff_toPoly, Finset.mem_range.mp hi]

theorem weightedSum_X_pow (weights : Nat → Fr) (i : Nat) :
    weightedSum weights (X ^ i) = weights i := by
  rw [weightedSum, lsum_apply, X_pow_eq_monomial, sum_monomial_index]
  · exact mul_one (weights i)
  · exact map_zero _

theorem weightedSum_pow (x : Fr) (f : Fr[X]) : weightedSum (x ^ ·) f = f.eval x := by
  rw [weightedSum, lsum_apply, eval_eq_sum]
  simp only [LinearMap.mulLeft_apply, mul_comm]

end Weights

end Kzg
