import Mathlib.Algebra.Polynomial.BigOperators
import Kzg.Proofs.Coefficients.Division

/-! # Products of linear factors

The product over a list of roots is monic, has one coefficient more than there are roots and
vanishes at these only. Division by a linear factor leaves the value at its root. So it takes one
occurrence of a root out of the product, and is not exact where there is none. -/

namespace Kzg.Coeffs

open Polynomial

section Product

theorem ofRoots_append (roots : List Fr) (r : Fr) :
    ofRoots (roots ++ [r]) = (ofRoots roots).mul [-r, 1] := by
  rw [ofRoots, List.foldl_append]
  rfl

theorem length_ofRoots (roots : List Fr) : (ofRoots roots).length = roots.length + 1 := by
  induction roots using List.reverseRecOn with
  | nil => rfl
  | append_singleton roots r ih =>
    have hNe : ofRoots roots ≠ [] := List.ne_nil_of_length_eq_add_one ih
    rw [ofRoots_append, length_mul hNe (List.cons_ne_nil _ _), ih, List.length_append]
    rfl

theorem toPoly_ofRoots (roots : List Fr) :
    toPoly (ofRoots roots) = (roots.map fun r => X - C r).prod := by
  induction roots using List.reverseRecOn with
  | nil => simp [ofRoots]
  | append_singleton roots r ih =>
    rw [ofRoots_append, toPoly_mul, ih, toPoly_X_sub, List.map_append, List.prod_append]
    simp

theorem monic_ofRoots (roots : List Fr) : (toPoly (ofRoots roots)).Monic := by
  rw [toPoly_ofRoots, ← Multiset.prod_coe, ← Multiset.map_coe]
  exact monic_multiset_prod_of_monic _ _ fun r _ => monic_X_sub_C r

theorem natDegree_ofRoots (roots : List Fr) :
    (toPoly (ofRoots roots)).natDegree = roots.length := by
  rw [toPoly_ofRoots, ← Multiset.prod_coe, ← Multiset.map_coe,
    natDegree_multiset_prod_X_sub_C_eq_card, Multiset.coe_card]

theorem getLast?_ofRoots (roots : List Fr) : (ofRoots roots).getLast? = some 1 := by
  have hTop : roots.length < (ofRoots roots).length := by
    rw [length_ofRoots]
    exact Nat.lt_succ_self _
  have hLeading := (monic_ofRoots roots).coeff_natDegree
  rw [natDegree_ofRoots, coeff_toPoly, List.getD_eq_getElem _ _ hTop] at hLeading
  rw [List.getLast?_eq_getElem?, length_ofRoots, Nat.add_sub_cancel, List.getElem?_eq_getElem hTop,
    hLeading]

theorem eval_ofRoots (roots : List Fr) (x : Fr) :
    (ofRoots roots).eval x = (roots.map (x - ·)).prod := by
  rw [← eval_toPoly, toPoly_ofRoots, eval_list_prod, List.map_map]
  simp [Function.comp_def]

theorem eval_ofRoots_eq_zero_iff (roots : List Fr) (x : Fr) :
    (ofRoots roots).eval x = 0 ↔ x ∈ roots := by
  rw [eval_ofRoots, List.prod_eq_zero_iff]
  simp [sub_eq_zero]

end Product

section Factor

theorem exists_divRem_X_sub (num : Coeffs) (r : Fr) :
    ∃ quot, divRem num [-r, 1] = .ok (quot, [num.eval r]) ∧
      IsDivision num [-r, 1] quot [num.eval r] := by
  obtain ⟨quot, rem, hRun, hDivision⟩ := exists_divRem (toPoly_X_sub_ne_zero r) num
  obtain ⟨c, rfl⟩ : ∃ c, rem = [c] := by
    apply List.length_eq_one_iff.mp
    rw [hDivision.length_rem, trim_X_sub]
    rfl
  have hValue := congrArg (Polynomial.eval r) hDivision.identity
  rw [toPoly_trim, toPoly_X_sub, eval_toPoly] at hValue
  simp only [eval_add, eval_mul, eval_sub, eval_X, eval_C, sub_self, mul_zero, zero_add,
    toPoly_cons, toPoly_nil, zero_mul] at hValue
  rw [hValue]
  exact ⟨quot, hRun, hDivision⟩

variable {roots : List Fr} {r : Fr} (h : r ∈ roots)

include h

theorem isDivision_ofRoots_erase :
    IsDivision (ofRoots roots) [-r, 1] (ofRoots (roots.erase r)) [0] where
  identity := by
    rw [toPoly_trim, toPoly_X_sub, toPoly_ofRoots, toPoly_ofRoots,
      ← List.prod_map_erase (fun s => X - C s) h]
    simp [mul_comm]
  length_quot := by
    have hPos : 0 < roots.length := List.length_pos_of_mem h
    rw [length_ofRoots, length_ofRoots, List.length_erase_of_mem h, trim_X_sub, List.length_cons,
      List.length_singleton]
    omega
  length_rem := by rw [trim_X_sub]; rfl

theorem divRem_ofRoots_of_mem :
    divRem (ofRoots roots) [-r, 1] = .ok (ofRoots (roots.erase r), [0]) := by
  obtain ⟨quot, hRun, hDivision⟩ := exists_divRem_X_sub (ofRoots roots) r
  obtain ⟨hQuot, hRem⟩ := hDivision.unique (toPoly_X_sub_ne_zero r) (isDivision_ofRoots_erase h)
  rw [hRun, hQuot, hRem]

theorem divExact_ofRoots_of_mem :
    divExact (ofRoots roots) [-r, 1] = .ok (ofRoots (roots.erase r)) := by
  rw [divExact_of_divRem (divRem_ofRoots_of_mem h)]
  simp

end Factor

/-- What division by `x - r` makes of the product over `roots`. -/
structure TakesOut (roots : List Fr) (r : Fr) (quot rem : Coeffs) : Prop where
  rem_eq : rem = [(roots.map (r - ·)).prod]
  rem_eq_zero_iff : rem = [0] ↔ r ∈ roots
  quot_eq : r ∈ roots → quot = ofRoots (roots.erase r)

theorem exists_takesOut (roots : List Fr) (r : Fr) :
    ∃ quot rem, divRem (ofRoots roots) [-r, 1] = .ok (quot, rem) ∧ TakesOut roots r quot rem := by
  obtain ⟨quot, hRun, -⟩ := exists_divRem_X_sub (ofRoots roots) r
  refine ⟨quot, _, hRun, ?_, ?_, ?_⟩
  · rw [eval_ofRoots]
  · rw [← eval_ofRoots_eq_zero_iff, List.cons.injEq, and_iff_left rfl]
  · intro h
    rw [divRem_ofRoots_of_mem h] at hRun
    exact (congrArg Prod.fst (Except.ok.inj hRun)).symm

end Kzg.Coeffs
