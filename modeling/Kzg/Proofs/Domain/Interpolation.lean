import Mathlib.LinearAlgebra.Lagrange
import Kzg.Proofs.Domain.Values
import Kzg.Poly

/-! # The polynomial through the values on a domain

There is one polynomial of degree below the size of a domain with given values on it. The inverse
transform finds its coefficients, and the combination of the values with the Lagrange vector at a
point is its value there. -/

namespace Kzg

open Finset (range)
open Polynomial

namespace Domain

theorem interpolate_eq_ok_iff (d : Domain) (values : List Fr) (p : Coeffs) :
    d.interpolate values = .ok p ↔ values.length = d.size ∧ ifft values d.generator = .ok p := by
  rw [interpolate, seq_eq_ok_iff, checkCount]
  simp

/-- `f` is the polynomial of degree below the size of the domain that takes the values on it. -/
structure Interpolates (d : Domain) (values : List Fr) (f : Fr[X]) : Prop where
  degree_lt : f.degree < d.size
  map_eval : d.elements.map f.eval = values

theorem interpolates_cyclic_iff (root : Fr) (k : Nat) (values : List Fr) (f : Fr[X]) :
    (cyclic root k).Interpolates values f ↔ f.degree < (2 ^ k : Nat) ∧
      (List.range (2 ^ k)).map (fun i => f.eval (root ^ i)) = values := by
  have hValues : (cyclic root k).elements.map f.eval =
      (List.range (2 ^ k)).map fun i => f.eval (root ^ i) := by
    rw [elements_cyclic, List.map_map]
    rfl
  rw [← hValues]
  exact ⟨fun h => ⟨h.degree_lt, h.map_eval⟩, fun h => ⟨h.1, h.2⟩⟩

theorem Interpolates.prod_eval {root : Fr} {k : Nat} {values : List Fr} {f : Fr[X]}
    (h : (cyclic root k).Interpolates values f) :
    ∏ i ∈ range (2 ^ k), f.eval (root ^ i) = values.prod := by
  rw [interpolates_cyclic_iff] at h
  rw [← h.2]
  rfl

section Root

variable {k : Nat} {root : Fr} (hRoot : IsPrimitiveRoot root (2 ^ k))

include hRoot

theorem injOn_pow : Set.InjOn (root ^ ·) (range (2 ^ k) : Set Nat) := by
  intro i hi j hj h
  rw [Finset.mem_coe, Finset.mem_range] at hi hj
  exact hRoot.pow_inj hi hj h

/-- The remainder has the values of `f` on the subgroup, and is determined by them. -/
theorem X_pow_sub_one_dvd_iff (f : Fr[X]) :
    X ^ 2 ^ k - 1 ∣ f ↔ ∀ i < 2 ^ k, f.eval (root ^ i) = 0 := by
  have hMonic : (X ^ 2 ^ k - 1 : Fr[X]).Monic := monic_X_pow_sub_C 1 (Nat.two_pow_pos k).ne'
  have hRemainder (i : Nat) : (f %ₘ (X ^ 2 ^ k - 1)).eval (root ^ i) = f.eval (root ^ i) := by
    conv_rhs => rw [← modByMonic_add_div f (X ^ 2 ^ k - 1)]
    simp [pow_pow_size hRoot i]
  constructor
  · intro h i _
    rw [← hRemainder, (modByMonic_eq_zero_iff_dvd hMonic).mpr h, eval_zero]
  · intro h
    rw [← modByMonic_eq_zero_iff_dvd hMonic]
    refine eq_zero_of_degree_lt_of_eval_index_eq_zero (range (2 ^ k)) (injOn_pow hRoot) ?_ ?_
    · rw [Finset.card_range]
      exact (degree_modByMonic_lt f hMonic).trans_eq
        (degree_X_pow_sub_C (Nat.two_pow_pos k) (1 : Fr))
    · intro i hi
      rw [hRemainder, h i (Finset.mem_range.mp hi)]

variable {values : List Fr} (hLength : values.length = 2 ^ k)

include hLength

/-- At an element the Lagrange vector is the mark of its index. -/
theorem dot_lagrangeAt_pow {i : Nat} (hi : i < 2 ^ k) :
    Fr.dot ((cyclic root k).lagrangeAt (root ^ i)) values = values.getD i 0 := by
  have hOne := pow_pow_size hRoot i
  obtain ⟨v, rfl⟩ := exists_eq_map_range hLength
  rw [lagrangeAt_eq_map, elements_cyclic, List.map_map, Fr.dot_map_range, Finset.sum_eq_single i]
  · simp [lagrangeValue, hOne, hi]
  · intro j hj hNe
    have hPow : root ^ j ≠ root ^ i := fun h => hNe (hRoot.pow_inj (Finset.mem_range.mp hj) hi h)
    rw [Function.comp_apply, lagrangeValue, if_pos hOne, if_neg hPow, zero_mul]
  · intro h
    exact absurd (Finset.mem_range.mpr hi) h

variable (hk : k ≤ maxLogSize)

include hk

theorem interpolate_cyclic :
    (cyclic root k).interpolate values = .ok (Fourier.inverseEntries root k values) := by
  have hCount : (cyclic root k).checkCount values = .ok () := if_pos hLength
  rw [interpolate, hCount]
  exact ifft_eq hRoot hLength hk

/-- The inverse transform may as well be applied to the powers of `x` as to the values. -/
theorem eval_inverseEntries (x : Fr) :
    Coeffs.eval (Fourier.inverseEntries root k values) x =
      Fr.dot ((cyclic root k).lagrangeAt x) values := by
  rw [lagrangeAt_cyclic hk hRoot,
    Fourier.dot_inverseEntries_comm root (Fr.length_powers x _) hLength, ← Fr.dot_powers,
    Fourier.length_inverseEntries]

end Root

section Built

variable {d : Domain} (hDomain : d.Built) {values : List Fr}

include hDomain

theorem Built.size_pos : 0 < d.size := by
  obtain ⟨k, -, root, -, rfl⟩ := hDomain.exists_root
  exact Nat.two_pow_pos k

theorem Built.exists_interpolate (hLength : values.length = d.size) :
    ∃ p, d.interpolate values = .ok p ∧ p.length = d.size ∧ d.Interpolates values p.toPoly ∧
      ∀ x, p.eval x = Fr.dot (d.lagrangeAt x) values := by
  obtain ⟨k, hk, root, hRoot, rfl⟩ := hDomain.exists_root
  have hEval := eval_inverseEntries hRoot hLength hk
  refine ⟨_, interpolate_cyclic hRoot hLength hk, Fourier.length_inverseEntries root k values, ?_,
    hEval⟩
  rw [interpolates_cyclic_iff]
  constructor
  · simpa using Coeffs.degree_toPoly_lt (Fourier.inverseEntries root k values)
  · apply List.ext_getElem
    · rw [List.length_map, List.length_range, hLength]
      rfl
    · intro i hi hi'
      rw [List.length_map, List.length_range] at hi
      rw [List.getElem_map, List.getElem_range, Coeffs.eval_toPoly, hEval,
        dot_lagrangeAt_pow hRoot hLength hi, List.getD_eq_getElem _ _ hi']

theorem Built.interpolates_of_interpolate {p : Coeffs} (h : d.interpolate values = .ok p) :
    p.length = d.size ∧ d.Interpolates values p.toPoly := by
  have hLength := ((interpolate_eq_ok_iff d values p).mp h).1
  obtain ⟨q, hRun, hSize, hInterpolates, -⟩ := hDomain.exists_interpolate hLength
  obtain rfl : p = q := Except.ok.inj (h.symm.trans hRun)
  exact ⟨hSize, hInterpolates⟩

namespace Interpolates

variable {f g : Fr[X]} (h : d.Interpolates values f)

include h

theorem unique (hg : d.Interpolates values g) : f = g := by
  obtain ⟨k, -, root, hRoot, rfl⟩ := hDomain.exists_root
  rw [interpolates_cyclic_iff] at h hg
  refine eq_of_degrees_lt_of_eval_index_eq (range (2 ^ k)) (injOn_pow hRoot)
    (by simpa using h.1) (by simpa using hg.1) ?_
  intro i hi
  exact List.map_inj_left.mp (h.2.trans hg.2.symm) i (by simpa using hi)

theorem length_eq : values.length = d.size := by
  rw [← h.map_eval, List.length_map, hDomain.length_elements]

theorem getElem?_eq {i : Nat} (hi : i < d.size) :
    values[i]? = some (f.eval (d.generator ^ i)) := by
  rw [← h.map_eval, List.getElem?_map]
  exact congrArg (Option.map f.eval) (hDomain.element?_eq_some_iff.mpr ⟨hi, rfl⟩)

theorem dot_lagrangeAt (x : Fr) : Fr.dot (d.lagrangeAt x) values = f.eval x := by
  obtain ⟨p, -, -, hInterpolates, hEval⟩ := hDomain.exists_interpolate (h.length_eq hDomain)
  rw [← hEval, ← Coeffs.eval_toPoly, hInterpolates.unique hDomain h]

theorem interpolate_eq : ∃ p, d.interpolate values = .ok p ∧ p.length = d.size ∧ p.toPoly = f := by
  obtain ⟨p, hRun, hSize, hInterpolates, -⟩ := hDomain.exists_interpolate (h.length_eq hDomain)
  exact ⟨p, hRun, hSize, hInterpolates.unique hDomain h⟩

theorem sub_C (c : Fr) : d.Interpolates (values.map (· - c)) (f - C c) where
  degree_lt := by
    have hConstant : (C c).degree < (d.size : WithBot Nat) :=
      degree_C_le.trans_lt (by exact_mod_cast hDomain.size_pos)
    exact (degree_sub_le _ _).trans_lt (max_lt h.degree_lt hConstant)
  map_eval := by
    rw [← h.map_eval, List.map_map]
    simp only [eval_sub, eval_C]
    rfl

omit hDomain in
theorem scale_sub {values' : List Fr} (hg : d.Interpolates values' g) (c : Fr) :
    d.Interpolates (List.zipWith (fun v v' => v * c - v') values values') (f * C c - g) where
  degree_lt := by
    have hScaled : (f * C c).degree < (d.size : WithBot Nat) := by
      rw [mul_comm, ← smul_eq_C_mul]
      exact (degree_smul_le c f).trans_lt h.degree_lt
    exact (degree_sub_le _ _).trans_lt (max_lt hScaled hg.degree_lt)
  map_eval := by
    rw [← h.map_eval, ← hg.map_eval, List.zipWith_map, List.zipWith_self]
    simp only [eval_sub, eval_mul, eval_C]

end Interpolates

/-- Whether the values are read off and summed up or transformed first makes no difference. The sum
alone has a denominator for each element and fails at these. -/
theorem evalAt_eq_eval_interpolate (hLength : values.length = d.size) :
    ∃ p, d.interpolate values = .ok p ∧ d.Interpolates values p.toPoly ∧ ∀ x,
      d.evalAt values x = .ok (p.eval x) ∧
      (x ∉ d.elements → Coeffs.barycentric x d.elements values = .ok (p.eval x)) ∧
      (Coeffs.barycentric x d.elements values = .error .divisionByZero ↔ x ∈ d.elements) := by
  obtain ⟨p, hRun, -, hInterpolates, hEval⟩ := hDomain.exists_interpolate hLength
  have hCount : d.elements.length = values.length := hDomain.length_elements.trans hLength.symm
  have hOff {x : Fr} (hx : x ∉ d.elements) :
      Coeffs.barycentric x d.elements values = .ok (p.eval x) := by
    rw [hEval, hDomain.barycentric_eq hLength hx]
  refine ⟨p, hRun, hInterpolates, fun x => ⟨?_, hOff, ?_, Coeffs.barycentric_of_mem hCount⟩⟩
  · rw [hEval, hDomain.evalAt_eq hLength]
  · intro hError
    by_contra hx
    rw [hOff hx] at hError
    cases hError

omit hDomain in
/-- At an element of a domain that is not the canonical one, and at a point off it. -/
theorem evalAt_eq_eval_interpolate_otherGenerator :
    let root : Fr := -Fr.canonicalRoot 2
    let d := cyclic root 2
    d.Built ∧ ∃ p, d.interpolate [7, 0, 1, 5] = .ok p ∧
      d.evalAt [7, 0, 1, 5] root = .ok (p.eval root) ∧
      Coeffs.barycentric root d.elements [7, 0, 1, 5] = .error .divisionByZero ∧
      d.evalAt [7, 0, 1, 5] 2 = .ok (p.eval 2) ∧
      Coeffs.barycentric 2 d.elements [7, 0, 1, 5] = .ok (p.eval 2) := by
  intro root d
  have hRoot : IsPrimitiveRoot root (2 ^ 2) := (Fr.hasOrder_two_pow_iff _ 2).mp (by decide +kernel)
  have hDomain : d.Built := built_cyclic (by decide) hRoot
  have hCount : ([7, 0, 1, 5] : List Fr).length = d.size := rfl
  obtain ⟨p, hRun, -, hValues⟩ := evalAt_eq_eval_interpolate hDomain hCount
  have hOn : root ∈ d.elements := (mem_elements_cyclic_iff hRoot root).mpr hRoot.pow_eq_one
  have hOff : 2 ∉ d.elements := by
    rw [mem_elements_cyclic_iff hRoot]
    decide
  exact ⟨hDomain, p, hRun, (hValues root).1, (hValues root).2.2.mpr hOn, (hValues 2).1,
    (hValues 2).2.1 hOff⟩

/-- The entries are the values of Lagrange's polynomials, each of which marks one element. -/
theorem Built.lagrangeAt_eq_map_basis (x : Fr) : d.lagrangeAt x =
    (List.range d.size).map fun i =>
      (Lagrange.basis (range d.size) (fun j => d.generator ^ j) i).eval x := by
  obtain ⟨v, hv⟩ := exists_eq_map_range (hDomain.length_lagrangeAt x)
  rw [hv]
  apply List.map_congr_left
  intro i hi
  rw [List.mem_range] at hi
  have hBasis : d.Interpolates ((List.range d.size).map fun j => if j = i then 1 else 0)
      (Lagrange.basis (range d.size) (fun j => d.generator ^ j) i) := by
    obtain ⟨k, -, root, hRoot, rfl⟩ := hDomain.exists_root
    have hMem : i ∈ range (2 ^ k) := Finset.mem_range.mpr hi
    rw [interpolates_cyclic_iff]
    constructor
    · refine (Lagrange.degree_basis (injOn_pow hRoot) hMem).trans_lt ?_
      rw [Finset.card_range]
      exact_mod_cast Nat.sub_one_lt (Nat.two_pow_pos k).ne'
    · apply List.map_congr_left
      intro j hj
      by_cases hEq : j = i
      · rw [if_pos hEq, hEq]
        exact Lagrange.eval_basis_self (injOn_pow hRoot) hMem
      · rw [if_neg hEq]
        exact Lagrange.eval_basis_of_ne (Ne.symm hEq) (Finset.mem_range.mpr (List.mem_range.mp hj))
  have hDot := hBasis.dot_lagrangeAt hDomain x
  rw [hv, Fr.dot_map_range, Finset.sum_eq_single i] at hDot
  · simpa using hDot
  · intro j _ hNe
    rw [if_neg hNe, mul_zero]
  · intro hNot
    exact absurd (Finset.mem_range.mpr hi) hNot

end Built

end Domain

namespace EvalForm

theorem ofValues_two_pow {k : Nat} (hk : k ≤ maxLogSize) {values : List Fr}
    (hLength : values.length = 2 ^ k) :
    ofValues values = .ok ⟨values, Domain.cyclic (Fr.canonicalRoot k) k, hLength⟩ := by
  rw [ofValues, hLength, Domain.ofSize_two_pow hk]
  exact dif_pos hLength

/-- Lagrange's polynomial through the values at the powers of the generator. -/
noncomputable def interpolant (e : EvalForm) : Fr[X] :=
  Lagrange.interpolate (range e.domain.size) (fun i => e.domain.generator ^ i)
    fun i => e.evals.getD i 0

theorem interpolates_interpolant {e : EvalForm} (hDomain : e.domain.Built) :
    e.domain.Interpolates e.evals e.interpolant := by
  obtain ⟨evals, d, hLength⟩ := e
  obtain ⟨k, -, root, hRoot, rfl⟩ := hDomain.exists_root
  have hNodes := Domain.injOn_pow hRoot
  rw [Domain.interpolates_cyclic_iff]
  constructor
  · have hDegree := Lagrange.degree_interpolate_lt (fun i => evals.getD i 0) hNodes
    rwa [Finset.card_range] at hDegree
  · apply List.ext_getElem
    · rw [List.length_map, List.length_range, hLength]
      rfl
    · intro i hi hi'
      rw [List.length_map, List.length_range] at hi
      rw [List.getElem_map, List.getElem_range, ← List.getD_eq_getElem _ 0 hi']
      exact Lagrange.eval_interpolate_at_node (fun i => evals.getD i 0) hNodes
        (Finset.mem_range.mpr hi)

theorem eval_eq {e : EvalForm} (hDomain : e.domain.Built) (x : Fr) :
    e.eval x = .ok (e.interpolant.eval x) := by
  rw [eval, hDomain.evalAt_eq e.length_evals,
    (interpolates_interpolant hDomain).dot_lagrangeAt hDomain]

/-- The coefficients of values are those of the interpolant. -/
theorem exists_toCoeffs {e : EvalForm} (hDomain : e.domain.Built) :
    ∃ p, e.toCoeffs = .ok p ∧ p.toPoly = e.interpolant ∧
      e.domain.Interpolates e.evals p.toPoly := by
  have hInterpolant := interpolates_interpolant hDomain
  obtain ⟨p, hRun, -, hPoly⟩ := hInterpolant.interpolate_eq hDomain
  exact ⟨p, hRun, hPoly, hPoly ▸ hInterpolant⟩

end EvalForm

end Kzg
