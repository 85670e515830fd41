import Kzg.Proofs.Traversal
import Kzg.Proofs.Coefficients.Combination
import Kzg.Proofs.Domain.Lagrange

/-! # Evaluation from the values on a domain

At every point, in the domain or not, evaluation gives the combination of the values with the
Lagrange vector at the point, and does not fail. -/

namespace Kzg

namespace Fr

theorem dot_map_left {α : Type} (f : α → Fr) (l : List α) (ys : List Fr) :
    dot (l.map f) ys = ((l.zip ys).map fun ay => f ay.1 * ay.2).sum := by
  induction l generalizing ys with
  | nil => simp
  | cons a l ih =>
    cases ys with
    | nil => simp
    | cons y ys => simp [ih]

end Fr

/-- One of the denominators is zero, and there is no other cause to fail. -/
theorem Coeffs.barycentric_of_mem {roots values : List Fr} (hLength : roots.length = values.length)
    {x : Fr} (hx : x ∈ roots) : barycentric x roots values = .error .divisionByZero := by
  rw [← List.map_fst_zip hLength.le, List.mem_map] at hx
  rw [barycentric, if_neg (not_not.mpr hLength), mapM_eq_error (e := .divisionByZero)]
  · cases hWidth : (Fr.ofNat roots.length).inverse with
    | error e =>
      rw [Fr.eq_divisionByZero_of_inverse_eq_error hWidth]
      rfl
    | ok widthInverse => rfl
  · rintro ⟨w, y⟩ - e hTerm
    cases hInverse : (x - w).inverse with
    | error e' =>
      simp only [hInverse] at hTerm
      cases hTerm
      exact Fr.eq_divisionByZero_of_inverse_eq_error hInverse
    | ok i =>
      simp only [hInverse] at hTerm
      cases hTerm
  · obtain ⟨⟨w, y⟩, hPair, rfl⟩ := hx
    refine ⟨(w, y), hPair, ?_⟩
    simp only [sub_self]
    rfl

namespace Domain

variable {k : Nat} (hk : k ≤ maxLogSize) {root : Fr} (hRoot : IsPrimitiveRoot root (2 ^ k))

include hk hRoot

theorem barycentric_cyclic {x : Fr} (hx : x ^ 2 ^ k ≠ 1) {values : List Fr}
    (hLength : values.length = (cyclic root k).size) :
    Coeffs.barycentric x (cyclic root k).elements values =
      .ok (Fr.dot ((cyclic root k).lagrangeAt x) values) := by
  have hElements : (cyclic root k).elements.length = 2 ^ k := length_elements_cyclic root k
  have hInverse : (Fr.ofNat (2 ^ k)).inverse = .ok ((2 ^ k : Nat) : Fr)⁻¹ :=
    Fr.inverse_of_ne_zero (Fr.two_pow_ne_zero hk)
  have hTerm (wy : Fr × Fr) (hPair : wy ∈ (cyclic root k).elements.zip values) :
      (x - wy.1).inverse = .ok (x - wy.1)⁻¹ := by
    have hw := (mem_elements_cyclic_iff hRoot wy.1).mp (List.of_mem_zip hPair).1
    apply Fr.inverse_of_ne_zero
    intro hZero
    rw [sub_eq_zero.mp hZero] at hx
    exact hx hw
  have hSum : (x ^ 2 ^ k - 1) * ((2 ^ k : Nat) : Fr)⁻¹ *
      (((cyclic root k).elements.zip values).map fun wy => wy.2 * wy.1 * (x - wy.1)⁻¹).foldl
        (· + ·) 0 = Fr.dot ((cyclic root k).lagrangeAt x) values := by
    rw [← List.sum_eq_foldl, ← List.sum_map_mul_left, lagrangeAt_eq_map, Fr.dot_map_left]
    congr 1
    apply List.map_congr_left
    rintro ⟨w, y⟩ -
    rw [lagrangeValue, if_neg hx, mul_inv]
    ring
  have hLengths : ¬ (cyclic root k).elements.length ≠ values.length :=
    not_not.mpr (hElements.trans hLength.symm)
  rw [Coeffs.barycentric, if_neg hLengths, hElements, hInverse, ← hSum,
    mapM_eq_ok (g := fun wy => wy.2 * wy.1 * (x - wy.1)⁻¹)]
  · rfl
  · intro wy hPair
    simp only [hTerm wy hPair]
    rfl

theorem evalAt_cyclic {values : List Fr} (hLength : values.length = (cyclic root k).size) (x : Fr) :
    (cyclic root k).evalAt values x = .ok (Fr.dot ((cyclic root k).lagrangeAt x) values) := by
  have hCount : (cyclic root k).checkCount values = .ok () := if_pos hLength
  rw [evalAt, hCount]
  cases hIndex : (cyclic root k).indexOf? x with
  | some i =>
    have hMem : x ∈ (cyclic root k).elements := by
      rw [← List.isSome_idxOf?]
      exact Option.isSome_of_eq_some hIndex
    have hOne := (mem_elements_cyclic_iff hRoot x).mp hMem
    have hMark : lagrangeValue (2 ^ k) x = fun w => if w = x then 1 else 0 := by
      funext w
      rw [lagrangeValue, if_pos hOne]
    have hOnce := List.count_eq_one_of_mem (nodup_elements_cyclic hRoot) hMem
    obtain ⟨hi, hEntry, -⟩ := List.idxOf?_eq_some_iff.mp hIndex
    rw [lagrangeAt_eq_map, hMark,
      Fr.dot_mark hOnce (List.getElem?_eq_some_iff.mpr ⟨hi, hEntry⟩)]
    rfl
  | none =>
    have hNot : x ∉ (cyclic root k).elements := List.idxOf?_eq_none_iff.mp hIndex
    rw [mem_elements_cyclic_iff hRoot] at hNot
    exact barycentric_cyclic hk hRoot hNot hLength

omit hk hRoot in
theorem Built.evalAt_eq {d : Domain} (h : d.Built) {values : List Fr}
    (hLength : values.length = d.size) (x : Fr) :
    d.evalAt values x = .ok (Fr.dot (d.lagrangeAt x) values) := by
  obtain ⟨k, hk, root, hRoot, rfl⟩ := h.exists_root
  exact evalAt_cyclic hk hRoot hLength x

omit hk hRoot in
theorem Built.barycentric_eq {d : Domain} (h : d.Built) {values : List Fr}
    (hLength : values.length = d.size) {x : Fr} (hx : x ∉ d.elements) :
    Coeffs.barycentric x d.elements values = .ok (Fr.dot (d.lagrangeAt x) values) := by
  obtain ⟨k, hk, root, hRoot, rfl⟩ := h.exists_root
  rw [mem_elements_cyclic_iff hRoot] at hx
  exact barycentric_cyclic hk hRoot hx hLength

end Domain

end Kzg
