import Kzg.Proofs.Coefficients.Combination

/-! # Evaluation respects the arithmetic of coefficients

At every scalar the operations on lists of coefficients, whatever their lengths, are those of the
scalars. A product may as well be added up in place, row by row: the row of a coefficient that is
zero adds nothing and is skipped, and no row reaches beyond the end. -/

namespace Kzg.Coeffs

open Polynomial

section Arithmetic

variable (p q : Coeffs) (x : Fr)

protected theorem eval_add : (p.add q).eval x = p.eval x + q.eval x := by
  rw [← eval_toPoly, toPoly_add, eval_add, eval_toPoly, eval_toPoly]

protected theorem eval_sub : (p.sub q).eval x = p.eval x - q.eval x := by
  rw [← eval_toPoly, toPoly_sub, eval_sub, eval_toPoly, eval_toPoly]

protected theorem eval_mul : (p.mul q).eval x = p.eval x * q.eval x := by
  rw [← eval_toPoly, toPoly_mul, eval_mul, eval_toPoly, eval_toPoly]

theorem eval_scaleBy (c : Fr) : (p.scaleBy c).eval x = p.eval x * c := by
  rw [← eval_toPoly, toPoly_scaleBy, eval_mul, eval_C, eval_toPoly]

theorem eval_dilate (factor : Fr) : (p.dilate factor).eval x = p.eval (factor * x) := by
  rw [← eval_toPoly, toPoly_dilate, eval_comp, eval_mul, eval_C, eval_X, eval_toPoly]

end Arithmetic

/-- Evaluation at `x` is the sum over the powers of `x` and takes every operation on coefficients
to the one on scalars. -/
structure RespectedAt (x : Fr) : Prop where
  eval_eq_sum : ∀ p : Coeffs, p.eval x = ∑ i ∈ Finset.range p.length, p.getD i 0 * x ^ i
  eval_add : ∀ p q : Coeffs, (p.add q).eval x = p.eval x + q.eval x
  eval_sub : ∀ p q : Coeffs, (p.sub q).eval x = p.eval x - q.eval x
  eval_mul : ∀ p q : Coeffs, (p.mul q).eval x = p.eval x * q.eval x
  eval_scaleBy : ∀ (p : Coeffs) (c : Fr), (p.scaleBy c).eval x = p.eval x * c
  eval_dilate : ∀ (p : Coeffs) (factor : Fr), (p.dilate factor).eval x = p.eval (factor * x)

theorem respectedAt (x : Fr) : RespectedAt x where
  eval_eq_sum p := p.eval_eq_sum x
  eval_add p q := p.eval_add q x
  eval_sub p q := p.eval_sub q x
  eval_mul p q := p.eval_mul q x
  eval_scaleBy p c := p.eval_scaleBy x c
  eval_dilate p factor := p.eval_dilate x factor

section Rows

/-- Adds a row to the entries from index `i` on. A row that reaches beyond the end makes the list
longer. -/
def addRow (i : Nat) (row out : Coeffs) : Coeffs :=
  out.take i ++ add (out.drop i) row

/-- Adds the rows of a product, that of the first coefficient at index `i`. -/
def addRows (q : Coeffs) : Coeffs → Nat → Coeffs → Coeffs
  | [], _, out => out
  | a :: p, i, out => addRows q p (i + 1) (if a = 0 then out else addRow i (q.map (a * ·)) out)

/-- The product added up in a list of its final length. -/
def mulInPlace (p q : Coeffs) : Coeffs :=
  if p.isEmpty || q.isEmpty then []
  else addRows q p 0 (List.replicate (p.length + q.length - 1) 0)

theorem length_addRow {i : Nat} {row out : Coeffs} (h : i + row.length ≤ out.length) :
    (addRow i row out).length = out.length := by
  rw [addRow, List.length_append, length_add, List.length_take, List.length_drop]
  omega

theorem toPoly_addRow {i : Nat} {out : Coeffs} (h : i ≤ out.length) (row : Coeffs) :
    toPoly (addRow i row out) = toPoly out + X ^ i * toPoly row := by
  have hTake : (out.take i).length = i := by rw [List.length_take, min_eq_left h]
  have hSplit := toPoly_append (out.take i) (out.drop i)
  rw [List.take_append_drop, hTake] at hSplit
  rw [addRow, toPoly_append, toPoly_add, hTake, hSplit]
  ring

section Step

variable {q out : Coeffs} {i : Nat} (h : i + q.length ≤ out.length) (a : Fr)

include h

/-- A row that is skipped would have added nothing. -/
theorem toPoly_step : toPoly (if a = 0 then out else addRow i (q.map (a * ·)) out) =
    toPoly out + X ^ i * (C a * toPoly q) := by
  split
  · rename_i hZero
    rw [hZero, C_0, zero_mul, mul_zero, add_zero]
  · rw [toPoly_addRow (by omega), toPoly_map_mul]

theorem length_step :
    (if a = 0 then out else addRow i (q.map (a * ·)) out).length = out.length := by
  split
  · rfl
  · exact length_addRow (by rwa [List.length_map])

end Step

/-- The list keeps its length, and the rows from `i` on add their part of the product. -/
theorem addRows_invariant (p q : Coeffs) (i : Nat) (out : Coeffs)
    (h : i + p.length + q.length ≤ out.length + 1) :
    (addRows q p i out).length = out.length ∧
      toPoly (addRows q p i out) = toPoly out + X ^ i * (toPoly p * toPoly q) := by
  induction p generalizing i out with
  | nil => simp [addRows]
  | cons a p ih =>
    rw [List.length_cons] at h
    have hRow : i + q.length ≤ out.length := by omega
    have hLength := length_step hRow a
    obtain ⟨hRestLength, hRest⟩ := ih (i + 1) _ (by rw [hLength]; omega)
    constructor
    · rw [addRows, hRestLength, hLength]
    · rw [addRows, hRest, toPoly_step hRow, toPoly_cons]
      ring

theorem mulInPlace_eq_mul (p q : Coeffs) : mulInPlace p q = p.mul q := by
  by_cases hNil : p = [] ∨ q = []
  · rw [mulInPlace, if_pos (by simpa using hNil)]
    cases hNil with
    | inl hp => rw [hp, mul]
    | inr hq => rw [hq, mul_nil]
  · obtain ⟨hp, hq⟩ := not_or.mp hNil
    have hPos : 0 < p.length := List.length_pos_iff.mpr hp
    have hFits : 0 + p.length + q.length ≤
        (List.replicate (p.length + q.length - 1) (0 : Fr)).length + 1 := by
      rw [List.length_replicate]
      omega
    obtain ⟨hLength, hPoly⟩ := addRows_invariant p q 0 _ hFits
    rw [mulInPlace, if_neg (by simpa using hNil)]
    apply toPoly_injective
    · rw [hLength, List.length_replicate, length_mul hp hq]
    · rw [hPoly, toPoly_replicate_zero, toPoly_mul, pow_zero, one_mul, zero_add]

end Rows

end Kzg.Coeffs
