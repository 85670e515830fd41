import Mathlib.Algebra.Polynomial.Roots
import Mathlib.Data.List.GetD
import Mathlib.Tactic.LinearCombination
import Kzg.Proofs.Field.Scalar
import Kzg.Coefficients.Basic

/-! # The polynomial of a list of coefficients

Every operation on coefficients is an operation on the polynomials that the lists denote. Two lists
denote one polynomial exactly when they are equal up to zeros at the top. -/

namespace Kzg.Coeffs

open Polynomial

/-- The polynomial with the given coefficients, by Horner's rule. -/
noncomputable def toPoly (p : Coeffs) : Fr[X] :=
  p.foldr (fun c acc => acc * X + C c) 0

@[simp] theorem toPoly_nil : toPoly [] = 0 := rfl

@[simp] theorem toPoly_cons (c : Fr) (p : Coeffs) : toPoly (c :: p) = toPoly p * X + C c := rfl

@[simp] theorem eval_nil (x : Fr) : eval [] x = 0 := rfl

@[simp] theorem eval_cons (c : Fr) (p : Coeffs) (x : Fr) : eval (c :: p) x = eval p x * x + c := rfl

theorem eval_toPoly (p : Coeffs) (x : Fr) : (toPoly p).eval x = p.eval x := by
  induction p with
  | nil => simp
  | cons c p ih => simp [ih]

theorem coeff_toPoly (p : Coeffs) (i : Nat) : (toPoly p).coeff i = p.getD i 0 := by
  induction p generalizing i with
  | nil => simp
  | cons c p ih =>
    cases i with
    | zero => simp
    | succ i => simp [ih]

theorem degree_toPoly_lt (p : Coeffs) : (toPoly p).degree < p.length := by
  rw [degree_lt_iff_coeff_zero]
  intro i hi
  rw [coeff_toPoly, List.getD_eq_default _ _ hi]

theorem natDegree_toPoly_le (p : Coeffs) : (toPoly p).natDegree ≤ p.length :=
  natDegree_le_iff_degree_le.mpr (degree_toPoly_lt p).le

theorem toPoly_append (p q : Coeffs) : toPoly (p ++ q) = toPoly p + X ^ p.length * toPoly q := by
  induction p with
  | nil => simp
  | cons c p ih =>
    simp only [List.cons_append, toPoly_cons, List.length_cons, ih]
    ring

@[simp] theorem toPoly_replicate_zero (n : Nat) : toPoly (List.replicate n 0) = 0 := by
  induction n with
  | zero => rfl
  | succ n ih => rw [List.replicate_succ, toPoly_cons, ih, C_0, zero_mul, add_zero]

@[simp] theorem toPoly_padTo (p : Coeffs) (n : Nat) : toPoly (p.padTo n) = toPoly p := by
  rw [padTo, toPoly_append, toPoly_replicate_zero, mul_zero, add_zero]

theorem length_padTo {p : Coeffs} {n : Nat} (h : p.length ≤ n) : (p.padTo n).length = n := by
  rw [padTo, List.length_append, List.length_replicate]
  omega

theorem toPoly_injective {p q : Coeffs} (hLength : p.length = q.length)
    (h : toPoly p = toPoly q) : p = q := by
  apply List.ext_getElem hLength
  intro i hp hq
  have hCoeff := congrArg (fun f => f.coeff i) h
  simpa [coeff_toPoly, hp, hq] using hCoeff

theorem toPoly_eq_zero_iff_forall (p : Coeffs) : toPoly p = 0 ↔ ∀ c ∈ p, c = 0 := by
  constructor
  · intro h c hc
    obtain ⟨i, hi, rfl⟩ := List.getElem_of_mem hc
    have hCoeff := coeff_toPoly p i
    rwa [h, coeff_zero, List.getD_eq_getElem _ _ hi, eq_comm] at hCoeff
  · intro h
    rw [List.eq_replicate_of_mem h, toPoly_replicate_zero]

section Trim

theorem trim_cons (c : Fr) (p : Coeffs) :
    trim (c :: p) = if trim p = [] ∧ c = 0 then [] else c :: trim p := by
  simp only [trim, Bool.and_eq_true, List.isEmpty_iff, decide_eq_true_eq]

@[simp] theorem toPoly_trim (p : Coeffs) : toPoly p.trim = toPoly p := by
  induction p with
  | nil => rfl
  | cons c p ih =>
    rw [trim_cons]
    split
    · rename_i h
      rw [toPoly_cons, ← ih, h.1, h.2]
      simp
    · rw [toPoly_cons, toPoly_cons, ih]

theorem getLast_trim_ne_zero (p : Coeffs) (h : p.trim ≠ []) : p.trim.getLast h ≠ 0 := by
  induction p with
  | nil => exact absurd rfl h
  | cons c p ih =>
    have hCons := trim_cons c p
    split at hCons
    · exact absurd hCons h
    · rename_i hKeep
      simp only [hCons]
      by_cases hp : trim p = []
      · simpa [hp] using hKeep
      · rw [List.getLast_cons hp]
        exact ih hp

theorem degree_toPoly_trim {p : Coeffs} (h : p.trim ≠ []) :
    (toPoly p).degree = (p.trim.length - 1 : Nat) := by
  have hPos : 0 < p.trim.length := List.length_pos_iff.mpr h
  apply le_antisymm
  · rw [← toPoly_trim, degree_le_iff_coeff_zero]
    intro i hi
    rw [Nat.cast_lt] at hi
    rw [coeff_toPoly, List.getD_eq_default _ _ (by omega)]
  · apply le_degree_of_ne_zero
    rw [← toPoly_trim, coeff_toPoly, List.getD_eq_getElem _ _ (by omega),
      ← List.getLast_eq_getElem h]
    exact getLast_trim_ne_zero p h

theorem toPoly_eq_zero_iff (p : Coeffs) : toPoly p = 0 ↔ p.trim = [] := by
  constructor
  · intro h
    by_contra hTrim
    have hDegree := degree_toPoly_trim hTrim
    rw [h, degree_zero] at hDegree
    exact absurd hDegree.symm (WithBot.coe_ne_bot)
  · intro h
    rw [← toPoly_trim, h, toPoly_nil]

theorem trim_ne_nil {p : Coeffs} (h : toPoly p ≠ 0) : p.trim ≠ [] :=
  mt (toPoly_eq_zero_iff p).mpr h

theorem length_trim_le_iff (p : Coeffs) (n : Nat) : p.trim.length ≤ n ↔ (toPoly p).degree < n := by
  by_cases h : p.trim = []
  · simp [h, (toPoly_eq_zero_iff p).mpr h]
  · have hPos : 0 < p.trim.length := List.length_pos_iff.mpr h
    rw [degree_toPoly_trim h, Nat.cast_lt]
    omega

theorem length_trim_le (p : Coeffs) : p.trim.length ≤ p.length :=
  (length_trim_le_iff p _).mpr (degree_toPoly_lt p)

theorem trim_eq_of_toPoly_eq {p q : Coeffs} (h : p.toPoly = q.toPoly) : p.trim = q.trim := by
  apply toPoly_injective
  · apply le_antisymm
    · rw [length_trim_le_iff, h, ← length_trim_le_iff]
    · rw [length_trim_le_iff, ← h, ← length_trim_le_iff]
  · rw [toPoly_trim, toPoly_trim, h]

end Trim

section Arithmetic

theorem toPoly_map_neg (q : Coeffs) : toPoly (q.map (-·)) = -toPoly q := by
  induction q with
  | nil => simp
  | cons b q ih =>
    simp only [List.map_cons, toPoly_cons, ih, C_neg]
    ring

theorem toPoly_add (p q : Coeffs) : toPoly (p.add q) = toPoly p + toPoly q := by
  fun_induction add p q with
  | case1 => simp
  | case2 => simp
  | case3 a p b q ih =>
    simp only [toPoly_cons, ih, C_add]
    ring

theorem toPoly_sub (p q : Coeffs) : toPoly (p.sub q) = toPoly p - toPoly q := by
  fun_induction sub p q with
  | case1 => simp [toPoly_map_neg]
  | case2 => simp
  | case3 a p b q ih =>
    simp only [toPoly_cons, ih, C_sub]
    ring

theorem toPoly_scaleBy (p : Coeffs) (c : Fr) : toPoly (p.scaleBy c) = toPoly p * C c := by
  induction p with
  | nil => simp [scaleBy]
  | cons a p ih =>
    rw [scaleBy] at ih ⊢
    simp only [List.map_cons, toPoly_cons, ih, C_mul]
    ring

theorem toPoly_map_mul (c : Fr) (p : Coeffs) : toPoly (p.map (c * ·)) = C c * toPoly p := by
  rw [mul_comm, ← toPoly_scaleBy, scaleBy]
  simp only [mul_comm]

theorem toPoly_mul (p q : Coeffs) : toPoly (p.mul q) = toPoly p * toPoly q := by
  induction p with
  | nil => simp [mul]
  | cons a p ih =>
    rw [mul]
    split
    · rename_i hq
      rw [List.isEmpty_iff] at hq
      simp [hq]
    · simp only [toPoly_add, toPoly_cons, toPoly_map_mul, ih, C_0]
      ring

theorem length_trim_add_le (p q : Coeffs) :
    (p.add q).trim.length ≤ max p.trim.length q.trim.length := by
  rw [length_trim_le_iff, toPoly_add]
  have hp := (length_trim_le_iff p _).mp (le_max_left _ q.trim.length)
  have hq := (length_trim_le_iff q _).mp (le_max_right p.trim.length _)
  exact (degree_add_le _ _).trans_lt (max_lt hp hq)

theorem length_trim_sub_le (p q : Coeffs) :
    (p.sub q).trim.length ≤ max p.trim.length q.trim.length := by
  rw [length_trim_le_iff, toPoly_sub]
  have hp := (length_trim_le_iff p _).mp (le_max_left _ q.trim.length)
  have hq := (length_trim_le_iff q _).mp (le_max_right p.trim.length _)
  exact (degree_sub_le _ _).trans_lt (max_lt hp hq)

theorem length_trim_scaleBy_le (p : Coeffs) (c : Fr) :
    (p.scaleBy c).trim.length ≤ p.trim.length := by
  rw [length_trim_le_iff, toPoly_scaleBy, mul_comm, ← smul_eq_C_mul]
  exact (degree_smul_le c _).trans_lt ((length_trim_le_iff p _).mp le_rfl)

theorem length_add (p q : Coeffs) : (p.add q).length = max p.length q.length := by
  fun_induction add p q with
  | case1 => simp
  | case2 => simp
  | case3 a p b q ih => simp [ih]

theorem length_sub (p q : Coeffs) : (p.sub q).length = max p.length q.length := by
  fun_induction sub p q with
  | case1 => simp
  | case2 => simp
  | case3 a p b q ih => simp [ih]

theorem mul_nil (p : Coeffs) : p.mul [] = [] := by
  cases p with
  | nil => rfl
  | cons a p => rfl

theorem length_mul {p q : Coeffs} (hp : p ≠ []) (hq : q ≠ []) :
    (p.mul q).length = p.length + q.length - 1 := by
  have hPos : 0 < q.length := List.length_pos_iff.mpr hq
  induction p with
  | nil => exact absurd rfl hp
  | cons a p ih =>
    rw [mul, if_neg (by simpa using hq), length_add, List.length_map, List.length_cons,
      List.length_cons]
    by_cases hTail : p = []
    · simp only [hTail, mul, List.length_nil]
      omega
    · have hTailPos : 0 < p.length := List.length_pos_iff.mpr hTail
      rw [ih hTail]
      omega

theorem toPoly_dilate_go (p : Coeffs) (factor power : Fr) :
    toPoly (dilate.go factor power p) = C power * (toPoly p).comp (C factor * X) := by
  induction p generalizing power with
  | nil => simp [dilate.go]
  | cons c p ih =>
    simp only [dilate.go, toPoly_cons, ih, add_comp, mul_comp, X_comp, C_comp, C_mul]
    ring

theorem toPoly_dilate (p : Coeffs) (factor : Fr) :
    toPoly (p.dilate factor) = (toPoly p).comp (C factor * X) := by
  rw [dilate, toPoly_dilate_go, C_1, one_mul]

theorem length_dilate (p : Coeffs) (factor : Fr) : (p.dilate factor).length = p.length := by
  have hGo (power : Fr) : (dilate.go factor power p).length = p.length := by
    induction p generalizing power with
    | nil => rfl
    | cons c p ih => rw [dilate.go, List.length_cons, ih, List.length_cons]
  exact hGo 1

theorem toPoly_vanishing (n : Nat) : toPoly (vanishing n) = X ^ n - 1 := by
  rw [vanishing, toPoly_sub, toPoly_append, toPoly_replicate_zero]
  simp

theorem length_vanishing (n : Nat) : (vanishing n).length = n + 1 := by
  rw [vanishing, length_sub]
  simp

theorem trim_X_sub (z : Fr) : trim [-z, 1] = [-z, 1] := by
  simp [trim]

theorem toPoly_X_sub (z : Fr) : toPoly [-z, 1] = X - C z := by
  simp [sub_eq_add_neg]

theorem toPoly_X_sub_ne_zero (z : Fr) : toPoly [-z, 1] ≠ 0 := by
  rw [toPoly_X_sub]
  exact X_sub_C_ne_zero z

end Arithmetic

section Roots

theorem exists_finset_roots {f : Fr[X]} (h : f ≠ 0) :
    ∃ bad : Finset Fr, bad.card ≤ f.natDegree ∧ ∀ x, f.eval x = 0 → x ∈ bad := by
  refine ⟨f.roots.toFinset, (Multiset.toFinset_card_le _).trans f.card_roots', ?_⟩
  intro x hx
  rwa [Multiset.mem_toFinset, mem_roots h]

/-- Fewer roots than coefficients, unless all of them are zero. -/
theorem exists_finset_of_eval_eq_zero {p : Coeffs} (h : ∃ c ∈ p, c ≠ 0) :
    ∃ bad : Finset Fr, bad.card ≤ p.length - 1 ∧ ∀ x, p.eval x = 0 → x ∈ bad := by
  have hNe : toPoly p ≠ 0 := by
    rw [Ne, toPoly_eq_zero_iff_forall]
    simpa using h
  obtain ⟨bad, hCard, hBad⟩ := exists_finset_roots hNe
  have hDegree := (natDegree_lt_iff_degree_lt hNe).mpr (degree_toPoly_lt p)
  refine ⟨bad, by omega, ?_⟩
  intro x hx
  exact hBad x (by rw [eval_toPoly, hx])

theorem eval_eq_zero_of_forall {p : Coeffs} (h : ∀ c ∈ p, c = 0) (x : Fr) : p.eval x = 0 := by
  rw [← eval_toPoly, (toPoly_eq_zero_iff_forall p).mpr h, eval_zero]

end Roots

end Kzg.Coeffs
