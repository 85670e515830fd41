import Kzg.Proofs.Curve.Compressed

/-! # Only the written form of a point is read

A coordinate is read from one string only, and what is found as a root is one. So the string of an
affine point is fixed: its flag tells the two solutions of the equation apart, which are different
on a curve without points that are their own negatives. Only the point at infinity has more than one
string. -/

namespace Kzg

/-- What is read is what would be written, and roots square to what they are roots of. -/
class CanonicalCoordinate (K : Type) [Zero K] [Neg K] [Mul K] [Coordinate K] : Prop
    extends LawfulCoordinate K where
  toBytes_of_ofBytes? {bytes : List UInt8} {a : K} : bytes.length = Coordinate.byteSize K →
    Coordinate.ofBytes? bytes = some a → Coordinate.toBytes a = bytes
  mul_self_of_sqrt? {a root : K} : Coordinate.sqrt? a = some root → root * root = a
  neg_mul_neg (a : K) : -a * -a = a * a

namespace Fq

theorem toBytes_of_ofBytes? {bytes : List UInt8} (hLength : bytes.length = byteSize) {a : Fq}
    (h : ofBytes? bytes = some a) : toBytes a = bytes := by
  rw [toBytes, Residue.ofNat?_eq_some_iff.mp h, ← hLength, bytesLE_natOfLE]

instance : CanonicalCoordinate Fq where
  toBytes_of_ofBytes? hLength h := toBytes_of_ofBytes? hLength h
  mul_self_of_sqrt? := mul_self_of_sqrt?
  neg_mul_neg a := neg_mul_neg a a

end Fq

namespace Fq2

/-- The ways in which a root is found. -/
theorem sqrt?_cases {a root : Fq2} (h : sqrt? a = some root) :
    (a.c1 = 0 ∧ ∃ x, Fq.sqrt? a.c0 = some x ∧ root = ⟨x, 0⟩) ∨
    (a.c1 = 0 ∧ ∃ y, Fq.sqrt? (-a.c0) = some y ∧ root = ⟨0, y⟩) ∨
    (a.c1 ≠ 0 ∧ ∃ s x, Fq.sqrt? a.norm = some s ∧
      (Fq.sqrt? ((a.c0 + s) * (Fq.ofNat 2)⁻¹) = some x ∨
        Fq.sqrt? ((a.c0 - s) * (Fq.ofNat 2)⁻¹) = some x) ∧
      root = ⟨x, a.c1 * (Fq.ofNat 2)⁻¹ * x⁻¹⟩) := by
  rw [sqrt?] at h
  split at h
  · rename_i hReal
    cases hRoot : Fq.sqrt? a.c0 with
    | some x =>
      rw [hRoot] at h
      exact .inl ⟨hReal, x, rfl, (Option.some.inj h).symm⟩
    | none =>
      rw [hRoot] at h
      obtain ⟨y, hy, hEq⟩ := Option.map_eq_some_iff.mp h
      exact .inr (.inl ⟨hReal, y, hy, hEq.symm⟩)
  · rename_i hImaginary
    obtain ⟨s, hs, hRest⟩ := Option.bind_eq_some_iff.mp h
    obtain ⟨x, hx, hEq⟩ := Option.bind_eq_some_iff.mp hRest
    rw [Option.orElse_eq_some] at hx
    exact .inr (.inr ⟨hImaginary, s, x, hs, hx.imp_right And.right, (Option.some.inj hEq).symm⟩)

/-- With `s` a root of the norm, `(c0 + s)/2` is the square of the first part. It is not zero, as
the second coordinate is not. -/
theorem mul_self_of_parts {a : Fq2} (ha : a.c1 ≠ 0) {s x : Fq} (hs : s * s = a.norm)
    (hx : x * x = (a.c0 + s) * (Fq.ofNat 2)⁻¹) :
    (⟨x, a.c1 * (Fq.ofNat 2)⁻¹ * x⁻¹⟩ : Fq2) * ⟨x, a.c1 * (Fq.ofNat 2)⁻¹ * x⁻¹⟩ = a := by
  obtain ⟨c0, c1⟩ := a
  simp only [norm] at hs hx ha ⊢
  have hHalf := Fq.two_mul_half
  generalize (Fq.ofNat 2)⁻¹ = half at hx hHalf ⊢
  have hx0 : x ≠ 0 := by
    rintro rfl
    have hSum : c0 + s = 0 := by linear_combination -2 * hx - (c0 + s) * hHalf
    exact ha (mul_self_eq_zero.mp (by linear_combination (s - c0) * hSum - hs))
  have hInverse := mul_inv_cancel₀ hx0
  rw [mul_self_eq]
  refine congrArg₂ Fq2.mk ?_ ?_
  · linear_combination (1 + (s - c0) * half * x⁻¹ * x⁻¹) * hx + half * half * x⁻¹ * x⁻¹ * hs -
      (s - c0) * half * (x * x⁻¹ + 1) * hInverse + c0 * hHalf
  · linear_combination 2 * c1 * half * hInverse + c1 * hHalf

theorem mul_self_of_sqrt? {a root : Fq2} (h : sqrt? a = some root) : root * root = a := by
  obtain ⟨hReal, x, hx, rfl⟩ | ⟨hReal, y, hy, rfl⟩ | ⟨hImaginary, s, x, hs, hx, rfl⟩ :=
    sqrt?_cases h
  · rw [mul_self_eq, Fq.mul_self_of_sqrt? hx, mul_zero, mul_zero, zero_mul, sub_zero, add_zero]
    exact congrArg (Fq2.mk a.c0) hReal.symm
  · rw [mul_self_eq, Fq.mul_self_of_sqrt? hy, mul_zero, zero_mul, mul_zero, zero_sub, neg_neg,
      add_zero]
    exact congrArg (Fq2.mk a.c0) hReal.symm
  · have hNorm := Fq.mul_self_of_sqrt? hs
    obtain hx | hx := hx
    · exact mul_self_of_parts hImaginary hNorm (Fq.mul_self_of_sqrt? hx)
    · have hNegative : -s * -s = a.norm := (neg_mul_neg s s).trans hNorm
      have hSquare := Fq.mul_self_of_sqrt? hx
      rw [sub_eq_add_neg] at hSquare
      exact mul_self_of_parts hImaginary hNegative hSquare

theorem toBytes_of_ofBytes? {bytes : List UInt8} (hLength : bytes.length = 2 * Fq.byteSize)
    {a : Fq2} (h : ofBytes? bytes = some a) : toBytes a = bytes := by
  obtain ⟨c0, h0, hRest⟩ := Option.bind_eq_some_iff.mp h
  obtain ⟨c1, h1, hEq⟩ := Option.bind_eq_some_iff.mp hRest
  cases hEq
  have hFirst : (bytes.take Fq.byteSize).length = Fq.byteSize := by
    rw [List.length_take, hLength]
    rfl
  have hSecond : (bytes.drop Fq.byteSize).length = Fq.byteSize := by
    rw [List.length_drop, hLength]
    rfl
  rw [toBytes, Fq.toBytes_of_ofBytes? hFirst h0, Fq.toBytes_of_ofBytes? hSecond h1,
    List.take_append_drop]

instance : CanonicalCoordinate Fq2 where
  toBytes_of_ofBytes? hLength h := toBytes_of_ofBytes? hLength h
  mul_self_of_sqrt? := mul_self_of_sqrt?
  neg_mul_neg a := by
    obtain ⟨x, y⟩ := a
    have hNeg : -(⟨x, y⟩ : Fq2) = ⟨-x, -y⟩ := rfl
    rw [hNeg, mul_self_eq, mul_self_eq]
    simp only [neg_mul_neg]

end Fq2

namespace Compressed

section Flags

variable {bytes : List UInt8} (hNonempty : bytes ≠ [])

include hNonempty

theorem length_splitFlags : (splitFlags bytes).2.length = bytes.length := by
  have := List.length_pos_iff.mpr hNonempty
  simp only [splitFlags, List.length_append, List.length_dropLast, List.length_singleton]
  omega

/-- Without the flag of infinity the other one is all that has been taken out of the bytes. -/
theorem setFlags_splitFlags {greater : Bool} (h : (splitFlags bytes).1 = (greater, false)) :
    setFlags (if greater then greaterFlag else 0) (splitFlags bytes).2 = bytes := by
  have hAll : ∀ n < 256, UInt8.ofNat n &&& infinityFlag = 0 →
      UInt8.ofNat n &&& 0x3f |||
        (if UInt8.ofNat n &&& greaterFlag != 0 then greaterFlag else 0) = UInt8.ofNat n := by
    decide +kernel
  have hLast := hAll (bytes.getLastD 0).toNat (bytes.getLastD 0).toNat_lt
  rw [UInt8.ofNat_toNat] at hLast
  simp only [splitFlags, Prod.mk.injEq, bne_eq_false_iff_eq] at h
  obtain ⟨rfl, hInfinity⟩ := h
  simp only [setFlags, splitFlags, List.getLastD_concat, List.dropLast_concat, hLast hInfinity]
  rw [List.getLastD_eq_getLast?, List.getLast?_eq_some_getLast hNonempty, Option.getD_some,
    List.dropLast_append_getLast]

end Flags

open LawfulCoordinate CanonicalCoordinate

variable {K : Type} [Zero K] [Add K] [Neg K] [Mul K] [Coordinate K]

omit [Zero K] in
theorem decode?_cases {b : K} {inSubgroup : Point K → Bool} {bytes : List UInt8} {p : Point K}
    (h : decode? b inSubgroup bytes = some p) :
    ∃ x, Coordinate.ofBytes? (splitFlags bytes).2 = some x ∧
      ((splitFlags bytes).1 = (false, true) ∧ p = .infinity ∨
        ∃ greater, (splitFlags bytes).1 = (greater, false) ∧ lift? b x greater = some p ∧
          inSubgroup p = true) := by
  rw [decode?] at h
  obtain ⟨⟨⟨greater, infinite⟩, rest⟩, hSplit⟩ : ∃ parts, splitFlags bytes = parts := ⟨_, rfl⟩
  rw [hSplit] at h ⊢
  dsimp only at h ⊢
  split at h
  · cases h
  · rename_i hFlags
    obtain ⟨x, hx, hRest⟩ := Option.bind_eq_some_iff.mp h
    refine ⟨x, hx, ?_⟩
    cases infinite with
    | true =>
      cases greater with
      | true => simp at hFlags
      | false => exact .inl ⟨rfl, (Option.some.inj hRest).symm⟩
    | false =>
      obtain ⟨q, hLift, hq⟩ := Option.bind_eq_some_iff.mp hRest
      split at hq
      · rename_i hSubgroup
        cases hq
        exact .inr ⟨greater, rfl, hLift, hSubgroup⟩
      · cases hq

omit [Zero K] in
theorem eq_infinity_iff_of_decode? {b : K} {inSubgroup : Point K → Bool} {bytes : List UInt8}
    {p : Point K} (h : decode? b inSubgroup bytes = some p) :
    p = .infinity ↔ (splitFlags bytes).1.2 = true := by
  obtain ⟨x, -, ⟨hFlags, rfl⟩ | ⟨greater, hFlags, hLift, -⟩⟩ := decode?_cases h
  · simp [hFlags]
  · obtain ⟨root, -, hp⟩ := Option.bind_eq_some_iff.mp hLift
    cases hp
    simp [hFlags]

variable [CanonicalCoordinate K]

/-- What is lifted is on the curve, on the side that was asked for if the sides are different. -/
theorem exists_of_lift? {b x : K} {greater : Bool} {p : Point K}
    (h : lift? b x greater = some p) :
    ∃ y, p = .affine x y ∧ y * y = x * x * x + b ∧
      (-y ≠ y → Coordinate.lt (-y) y = greater) := by
  obtain ⟨root, hRoot, hp⟩ := Option.bind_eq_some_iff.mp h
  cases hp
  have hSquare := mul_self_of_sqrt? hRoot
  by_cases hSide : Coordinate.lt (-root) root = greater
  · exact ⟨root, by rw [if_pos hSide], hSquare, fun _ => hSide⟩
  · refine ⟨-root, by rw [if_neg hSide], (neg_mul_neg root).trans hSquare, fun hNe => ?_⟩
    rw [neg_involutive root] at hNe ⊢
    rw [lt_swap hNe.symm, Bool.not_eq]
    exact hSide

theorem valid_of_decode? [DecidableEq K] {b : K} {inSubgroup : Point K → Bool}
    {bytes : List UInt8} {p : Point K} (h : decode? b inSubgroup bytes = some p) :
    p = .infinity ∨ p.satisfies b = true ∧ inSubgroup p = true := by
  obtain ⟨x, -, ⟨-, rfl⟩ | ⟨greater, -, hLift, hSubgroup⟩⟩ := decode?_cases h
  · exact .inl rfl
  · obtain ⟨y, rfl, hCurve, -⟩ := exists_of_lift? hLift
    exact .inr ⟨decide_eq_true hCurve, hSubgroup⟩

/-- On a curve without points that are their own negatives the flag of an affine point is the one
that would be written. -/
theorem encode_of_decode? {b : K} (hTorsion : ∀ x y : K, y * y = x * x * x + b → -y ≠ y)
    {inSubgroup : Point K → Bool} {bytes : List UInt8}
    (hLength : bytes.length = Coordinate.byteSize K) {p : Point K}
    (h : decode? b inSubgroup bytes = some p) (hp : p ≠ .infinity) : encode p = bytes := by
  have hNonempty : bytes ≠ [] := by
    rw [← List.length_pos_iff, hLength]
    exact byteSize_pos
  obtain ⟨x, hx, ⟨-, rfl⟩ | ⟨greater, hFlags, hLift, -⟩⟩ := decode?_cases h
  · exact absurd rfl hp
  · obtain ⟨y, rfl, hCurve, hSide⟩ := exists_of_lift? hLift
    have hRest := toBytes_of_ofBytes? ((length_splitFlags hNonempty).trans hLength) hx
    rw [encode, hSide (hTorsion x y hCurve), hRest, setFlags_splitFlags hNonempty hFlags]

end Compressed

end Kzg
