import Mathlib.LinearAlgebra.Lagrange
import Kzg.Proofs.Traversal
import Kzg.Proofs.Coefficients.Evaluation
import Kzg.Proofs.Coefficients.Roots
import Kzg.Coefficients.Interpolation

/-! # Interpolation through any points

Lagrange's polynomial of a point vanishes at all other points, and the inverse of its value at the
point itself scales it to one there. A point that is repeated is one of the others as well: its
polynomial has the value zero there, which inverts to zero and takes the point out of the sum, and
the polynomials of the others vanish there as they do at any point. -/

namespace Kzg.Coeffs

open Polynomial

section Sums

theorem eval_foldl_add (ps : List Coeffs) (ws : List Fr) (p : Coeffs) (x : Fr) :
    eval ((List.zipWith scaleBy ps ws).foldl add p) x =
      p.eval x + Fr.dot (ps.map (eval · x)) ws := by
  induction ps generalizing ws p with
  | nil => simp
  | cons q ps ih =>
    cases ws with
    | nil => simp
    | cons w ws =>
      rw [List.zipWith_cons_cons, List.foldl_cons, ih, Coeffs.eval_add, eval_scaleBy, List.map_cons,
        Fr.dot_cons, add_assoc]

theorem length_foldl_add {ps : List Coeffs} (ws : List Fr) {p : Coeffs}
    (h : ∀ q ∈ ps, q.length ≤ p.length) :
    ((List.zipWith scaleBy ps ws).foldl add p).length = p.length := by
  induction ps generalizing ws p with
  | nil => simp
  | cons q ps ih =>
    cases ws with
    | nil => simp
    | cons w ws =>
      rw [List.forall_mem_cons] at h
      have hStep : (p.add (q.scaleBy w)).length = p.length := by
        rw [length_add, scaleBy, List.length_map, max_eq_left h.1]
      rw [List.zipWith_cons_cons, List.foldl_cons, ih, hStep]
      simpa only [hStep] using h.2

end Sums

/-- The value at `a` of Lagrange's polynomial of the point `x`, which is zero for a point that is
repeated. -/
def basisValue (xs : List Fr) (a x : Fr) : Fr :=
  (ofRoots (xs.erase x)).eval a * ((ofRoots (xs.erase x)).eval x)⁻¹

section Basis

variable {xs : List Fr} {a : Fr}

theorem basisValue_eq_zero {x : Fr} (h : a ∈ xs.erase x) : basisValue xs a x = 0 := by
  rw [basisValue, (eval_ofRoots_eq_zero_iff _ _).mpr h, zero_mul]

theorem basisValue_of_count_eq_one (hOnce : xs.count a = 1) (x : Fr) :
    basisValue xs a x = if x = a then 1 else 0 := by
  by_cases hEq : x = a
  · subst hEq
    have hOthers : x ∉ xs.erase x := by
      rw [← List.count_eq_zero, List.count_erase_self, hOnce]
    rw [if_pos rfl, basisValue, mul_inv_cancel₀]
    rwa [Ne, eval_ofRoots_eq_zero_iff]
  · have hMem : a ∈ xs := List.count_pos_iff.mp (hOnce ▸ Nat.one_pos)
    rw [if_neg hEq, basisValue_eq_zero ((List.mem_erase_of_ne (Ne.symm hEq)).mpr hMem)]

theorem basisValue_of_one_lt_count (hRepeated : 1 < xs.count a) (x : Fr) :
    basisValue xs a x = 0 := by
  apply basisValue_eq_zero
  rw [← List.count_pos_iff, List.count_erase]
  split <;> omega

end Basis

section Run

variable {xs ys : List Fr} (hLength : xs.length = ys.length)

include hLength

/-- Division takes one occurrence of a point out of the product and never leaves a remainder. -/
theorem interpolate_eq : interpolate xs ys =
    .ok ((List.zipWith scaleBy (xs.map fun x => ofRoots (xs.erase x))
      (List.zipWith (· * ·) ys (xs.map fun x => ((ofRoots (xs.erase x)).eval x)⁻¹))).foldl add
        (List.replicate xs.length 0)) := by
  have hNumerators : (xs.mapM fun x => divExact (ofRoots xs) [-x, 1]) =
      .ok (xs.map fun x => ofRoots (xs.erase x)) := mapM_eq_ok fun x => divExact_ofRoots_of_mem
  have hDenominators : List.zipWith eval (xs.map fun x => ofRoots (xs.erase x)) xs =
      xs.map fun x => (ofRoots (xs.erase x)).eval x := by
    rw [List.zipWith_map_left, List.zipWith_self]
  rw [interpolate, if_neg (not_not.mpr hLength)]
  simp only [hNumerators, hDenominators, Fr.invertAll_eq_map, List.map_map, bind, Except.bind]
  rfl

theorem exists_interpolate : ∃ p, interpolate xs ys = .ok p ∧ p.length = xs.length ∧
    ∀ a, p.eval a = Fr.dot (xs.map (basisValue xs a)) ys := by
  refine ⟨_, interpolate_eq hLength, ?_, fun a => ?_⟩
  · rw [length_foldl_add, List.length_replicate]
    rw [List.forall_mem_map]
    intro x hx
    have hPos : 0 < xs.length := List.length_pos_of_mem hx
    rw [length_ofRoots, List.length_erase_of_mem hx, List.length_replicate]
    omega
  · rw [eval_foldl_add, eval_eq_zero_of_forall (by simp), zero_add, List.map_map]
    exact (Fr.dot_map_mul _ _ xs ys).symm

end Run

/-- As many coefficients as there are points, the value of a point that occurs once and zero at a
point that is repeated. -/
structure PassesThrough (xs ys : List Fr) (p : Coeffs) : Prop where
  length_eq : p.length = xs.length
  eval_of_count_eq_one : ∀ i (hi : i < xs.length), xs.count xs[i] = 1 →
    ys[i]? = some (p.eval xs[i])
  eval_of_one_lt_count : ∀ x, 1 < xs.count x → p.eval x = 0

section Points

variable {xs ys : List Fr}

theorem exists_passesThrough (hLength : xs.length = ys.length) :
    ∃ p, interpolate xs ys = .ok p ∧ PassesThrough xs ys p := by
  obtain ⟨p, hRun, hSize, hEval⟩ := exists_interpolate hLength
  refine ⟨p, hRun, hSize, ?_, ?_⟩
  · intro i hi hOnce
    have hMarks : xs.map (basisValue xs xs[i]) = xs.map fun x => if x = xs[i] then 1 else 0 :=
      List.map_congr_left fun x _ => basisValue_of_count_eq_one hOnce x
    rw [hEval, hMarks, Fr.dot_mark hOnce (List.getElem?_eq_getElem hi),
      List.getD_eq_getElem _ _ (hLength ▸ hi), List.getElem?_eq_getElem]
  · intro x hRepeated
    rw [hEval]
    apply Fr.dot_eq_zero
    rw [List.forall_mem_map]
    exact fun a _ => basisValue_of_one_lt_count hRepeated a

/-- Distinct points are too many to be roots of the difference. -/
theorem eq_of_map_eval_eq (hNodup : xs.Nodup) {f g : Fr[X]} (hf : f.degree < xs.length)
    (hg : g.degree < xs.length) (h : xs.map f.eval = xs.map g.eval) : f = g := by
  rw [← List.toFinset_card_of_nodup hNodup] at hf hg
  apply eq_of_degrees_lt_of_eval_finset_eq xs.toFinset hf hg
  intro x hx
  exact List.map_inj_left.mp h x (List.mem_toFinset.mp hx)

namespace PassesThrough

variable {p : Coeffs} (h : PassesThrough xs ys p)

include h

theorem degree_lt : p.toPoly.degree < xs.length := by
  rw [← h.length_eq]
  exact p.degree_toPoly_lt

variable (hLength : xs.length = ys.length) (hNodup : xs.Nodup)

include hLength hNodup

theorem map_eval : xs.map p.toPoly.eval = ys := by
  apply List.ext_getElem
  · rw [List.length_map, hLength]
  · intro i _ hi
    have hOnce := List.count_eq_one_of_mem hNodup (xs.getElem_mem (hLength ▸ hi))
    have hEntry := h.eval_of_count_eq_one i (hLength ▸ hi) hOnce
    rw [List.getElem?_eq_getElem hi, Option.some.injEq] at hEntry
    rw [List.getElem_map, eval_toPoly, hEntry]

theorem unique_iff (f : Fr[X]) :
    f.degree < xs.length ∧ xs.map f.eval = ys ↔ f = p.toPoly := by
  have hValues := h.map_eval hLength hNodup
  constructor
  · rintro ⟨hDegree, hf⟩
    exact eq_of_map_eval_eq hNodup hDegree h.degree_lt (hf.trans hValues.symm)
  · rintro rfl
    exact ⟨h.degree_lt, hValues⟩

end PassesThrough

end Points

end Kzg.Coeffs
