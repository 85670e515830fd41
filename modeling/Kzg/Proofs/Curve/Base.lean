import Mathlib.NumberTheory.LegendreSymbol.Basic
import Kzg.Proofs.Bytes
import Kzg.Proofs.Curve.Prime
import Kzg.Proofs.Field.Scalar

/-! # Laws of coordinates

Coordinates are read back from their written form, and one of the two roots is found for every
square. In the base field the power to a quarter of one more than the order is a root, and `-1` has
none. A square of the quadratic extension is taken apart by its norm. -/

namespace Kzg

/-- Of the order only that it tells two different coordinates apart is needed. -/
class LawfulCoordinate (K : Type) [Zero K] [Neg K] [Mul K] [Coordinate K] : Prop where
  byteSize_pos : 0 < Coordinate.byteSize K
  length_toBytes (a : K) : (Coordinate.toBytes a).length = Coordinate.byteSize K
  ofBytes?_toBytes (a : K) : Coordinate.ofBytes? (Coordinate.toBytes a) = some a
  toBytes_zero : Coordinate.toBytes (0 : K) = List.replicate (Coordinate.byteSize K) 0
  getLastD_toBytes_lt (a : K) : (Coordinate.toBytes a).getLastD 0 < 64
  lt_swap {a b : K} : a ≠ b → Coordinate.lt b a = !Coordinate.lt a b
  neg_involutive : Function.Involutive (Neg.neg : K → K)
  exists_sqrt? (a : K) : ∃ root, Coordinate.sqrt? (a * a) = some root ∧ (root = a ∨ root = -a)

namespace Fq

instance : Field Fq where
  inv := (·⁻¹)
  div := (· / ·)
  div_eq_mul_inv _ _ := rfl
  exists_pair_ne := ⟨0, 1, by decide⟩
  mul_inv_cancel _ := Residue.mul_inv_of_ne_zero
  inv_zero := by decide +kernel
  nnqsmul := _
  nnqsmul_def := fun _ _ => rfl
  qsmul := _
  qsmul_def := fun _ _ => rfl

theorem two_mul_half : 2 * (ofNat 2)⁻¹ = (1 : Fq) := by
  have hTwo : ofNat 2 = (2 : Fq) := (Residue.ofNat_eq_cast 2).trans Nat.cast_ofNat
  have hNe : ofNat 2 ≠ 0 := by decide
  rw [← hTwo, Residue.mul_inv_of_ne_zero hNe]

theorem mul_self_of_sqrt? {a root : Fq} (h : sqrt? a = some root) : root * root = a := by
  rw [sqrt?] at h
  split at h
  · cases h
    assumption
  · cases h

theorem exists_sqrt? (a : Fq) : ∃ root, sqrt? (a * a) = some root ∧ (root = a ∨ root = -a) := by
  have hRoot : (a * a) ^ ((baseOrder + 1) / 4) * (a * a) ^ ((baseOrder + 1) / 4) = a * a := by
    have hExponent : 2 * ((baseOrder + 1) / 4 + (baseOrder + 1) / 4) = baseOrder + 1 := by decide
    rw [← pow_add, ← sq, ← pow_mul, hExponent, pow_succ, Residue.pow_modulus, sq]
  exact ⟨_, if_pos hRoot, mul_self_eq_mul_self_iff.mp hRoot⟩

theorem sqrt?_neg_mul_self {a : Fq} (ha : a ≠ 0) : sqrt? (-(a * a)) = none := by
  cases h : sqrt? (-(a * a)) with
  | none => rfl
  | some root =>
    have hSquare := congrArg Residue.toZMod (mul_self_of_sqrt? h)
    simp only [← sq, Residue.toZMod_neg, Residue.toZMod_pow] at hSquare
    exact absurd (by decide)
      (ZMod.mod_four_ne_three_of_sq_eq_neg_sq' (Residue.toZMod_ne_zero ha) hSquare)

theorem ofBytes?_toBytes (a : Fq) : ofBytes? (toBytes a) = some a := by
  have hBound : a.val < 256 ^ byteSize := a.val_lt.trans (by decide)
  rw [ofBytes?, toBytes, natOfLE_bytesLE hBound, Residue.ofNat?_val]

theorem val_div_lt (a : Fq) : a.val / 256 ^ 31 < 64 :=
  Nat.div_lt_of_lt_mul (a.val_lt.trans (by decide))

instance : LawfulCoordinate Fq where
  byteSize_pos := by decide
  length_toBytes a := length_bytesLE byteSize a.val
  ofBytes?_toBytes := ofBytes?_toBytes
  toBytes_zero := bytesLE_zero byteSize
  getLastD_toBytes_lt a := by
    have hLast : (Coordinate.toBytes a).getLastD 0 = UInt8.ofNat (a.val / 256 ^ 31) :=
      getLastD_bytesLE 31 a.val
    rw [hLast, UInt8.lt_iff_toNat_lt, UInt8.toNat_ofNat']
    exact (Nat.mod_le _ _).trans_lt a.val_div_lt
  lt_swap {a b} h := by
    have hVal : a.val ≠ b.val := fun hEq => h (Residue.ext hEq)
    simp only [Coordinate.lt]
    grind
  neg_involutive := neg_neg
  exists_sqrt? := exists_sqrt?

end Fq

namespace Fq2

section Square

variable (x y : Fq)

theorem mul_self_eq : (⟨x, y⟩ : Fq2) * ⟨x, y⟩ = ⟨x * x - y * y, x * y + y * x⟩ := rfl

theorem exists_sqrt?_real :
    ∃ root, sqrt? ⟨x * x, 0⟩ = some root ∧ (root = ⟨x, 0⟩ ∨ root = -⟨x, 0⟩) := by
  obtain ⟨root, hRoot, hEq⟩ := Fq.exists_sqrt? x
  refine ⟨⟨root, 0⟩, ?_, ?_⟩
  · rw [sqrt?, if_pos rfl, hRoot]
  · obtain rfl | rfl := hEq
    · exact .inl rfl
    · exact .inr (congrArg (Fq2.mk (-x)) neg_zero.symm)

variable {y} (hy : y ≠ 0)

include hy

theorem exists_sqrt?_imaginary :
    ∃ root, sqrt? ⟨-(y * y), 0⟩ = some root ∧ (root = ⟨0, y⟩ ∨ root = -⟨0, y⟩) := by
  obtain ⟨root, hRoot, hEq⟩ := Fq.exists_sqrt? y
  refine ⟨⟨0, root⟩, ?_, ?_⟩
  · rw [sqrt?, if_pos rfl, Fq.sqrt?_neg_mul_self hy, neg_neg, hRoot]
    rfl
  · obtain rfl | rfl := hEq
    · exact .inl rfl
    · exact .inr (congrArg (Fq2.mk · (-y)) neg_zero.symm)

/-- The norm of the square is the square of the norm, so one of the two candidates is the square of
`x` and the other one the negative of that of `y`. -/
theorem exists_root_of_parts :
    ∃ s, Fq.sqrt? (norm ⟨x * x - y * y, x * y + y * x⟩) = some s ∧
      ∃ root, (Fq.sqrt? ((x * x - y * y + s) * (Fq.ofNat 2)⁻¹) <|>
        Fq.sqrt? ((x * x - y * y - s) * (Fq.ofNat 2)⁻¹)) = some root ∧
        (root = x ∨ root = -x) := by
  have hNorm : norm ⟨x * x - y * y, x * y + y * x⟩ = (x * x + y * y) * (x * x + y * y) := by
    rw [norm]
    ring
  obtain ⟨s, hs, hEq⟩ := Fq.exists_sqrt? (x * x + y * y)
  obtain ⟨root, hRoot, hx⟩ := Fq.exists_sqrt? x
  refine ⟨s, by rw [hNorm, hs], root, ?_, hx⟩
  obtain rfl | rfl := hEq
  · have hFirst : (x * x - y * y + (x * x + y * y)) * (Fq.ofNat 2)⁻¹ = x * x := by
      linear_combination (x * x) * Fq.two_mul_half
    rw [hFirst, hRoot]
    rfl
  · have hFirst : (x * x - y * y + -(x * x + y * y)) * (Fq.ofNat 2)⁻¹ = -(y * y) := by
      linear_combination -(y * y) * Fq.two_mul_half
    have hSecond : (x * x - y * y - -(x * x + y * y)) * (Fq.ofNat 2)⁻¹ = x * x := by
      linear_combination (x * x) * Fq.two_mul_half
    rw [hFirst, hSecond, Fq.sqrt?_neg_mul_self hy, hRoot]
    rfl

end Square

theorem sqrt?_of_ne {a : Fq2} (h : a.c1 ≠ 0) {s root : Fq} (hs : Fq.sqrt? a.norm = some s)
    (hRoot : (Fq.sqrt? ((a.c0 + s) * (Fq.ofNat 2)⁻¹) <|>
      Fq.sqrt? ((a.c0 - s) * (Fq.ofNat 2)⁻¹)) = some root) :
    sqrt? a = some ⟨root, a.c1 * (Fq.ofNat 2)⁻¹ * root⁻¹⟩ := by
  -- One rewrite after the other: the kernel must not run the powers to compare the two sides.
  rw [sqrt?, if_neg h, hs]
  dsimp only
  rw [Option.bind_eq_bind, Option.bind_some, hRoot]
  rfl

theorem exists_sqrt? (a : Fq2) :
    ∃ root, sqrt? (a * a) = some root ∧ (root = a ∨ root = -a) := by
  obtain ⟨x, y⟩ := a
  rw [mul_self_eq]
  -- The square is in the base field exactly where one of the parts of the root is zero.
  by_cases hy : y = 0
  · simpa [hy] using exists_sqrt?_real x
  by_cases hx : x = 0
  · simpa [hx] using exists_sqrt?_imaginary hy
  have hImaginary : x * y + y * x ≠ 0 := by
    intro h
    have hProduct : x * y = 0 := by
      linear_combination (Fq.ofNat 2)⁻¹ * h - x * y * Fq.two_mul_half
    exact (mul_ne_zero hx hy) hProduct
  obtain ⟨s, hs, root, hRoot, hEq⟩ := exists_root_of_parts x hy
  have hInverse := mul_inv_cancel₀ hx
  refine ⟨_, sqrt?_of_ne hImaginary hs hRoot, ?_⟩
  obtain rfl | rfl := hEq
  · have hPart : (root * y + y * root) * (Fq.ofNat 2)⁻¹ * root⁻¹ = y := by
      linear_combination y * hInverse + root * y * root⁻¹ * Fq.two_mul_half
    exact .inl (congrArg (Fq2.mk root) hPart)
  · have hPart : (x * y + y * x) * (Fq.ofNat 2)⁻¹ * (-x)⁻¹ = -y := by
      rw [inv_neg]
      linear_combination -y * hInverse - x * y * x⁻¹ * Fq.two_mul_half
    exact .inr (congrArg (Fq2.mk (-x)) hPart)

instance : LawfulCoordinate Fq2 where
  byteSize_pos := by decide
  length_toBytes a := by
    have hParts : (toBytes a).length = Fq.byteSize + Fq.byteSize := by
      simp only [toBytes, Fq.toBytes, List.length_append, length_bytesLE]
    exact hParts.trans (Nat.two_mul Fq.byteSize).symm
  ofBytes?_toBytes a := by
    have hLength : (Fq.toBytes a.c0).length = Fq.byteSize := length_bytesLE _ _
    have hRead : ofBytes? (toBytes a) = some a := by
      rw [ofBytes?, toBytes, List.take_left' hLength, List.drop_left' hLength,
        Fq.ofBytes?_toBytes, Fq.ofBytes?_toBytes]
      rfl
    exact hRead
  toBytes_zero := by
    have hParts : toBytes 0 = List.replicate (Fq.byteSize + Fq.byteSize) 0 := by
      rw [List.replicate_add, ← bytesLE_zero]
      rfl
    exact hParts
  getLastD_toBytes_lt a := by
    have hNe : Fq.toBytes a.c1 ≠ [] := List.cons_ne_nil _ _
    have hLast : (toBytes a).getLastD 0 = (Fq.toBytes a.c1).getLastD 0 := by
      rw [toBytes, List.getLastD_eq_getLast?, List.getLast?_append_of_ne_nil _ hNe,
        List.getLastD_eq_getLast?]
    exact hLast.trans_lt (LawfulCoordinate.getLastD_toBytes_lt a.c1)
  lt_swap {a b} h := by
    have hVal : a.c0.val ≠ b.c0.val ∨ a.c1.val ≠ b.c1.val := by
      by_contra! hBoth
      exact h (congrArg₂ Fq2.mk (Residue.ext hBoth.1) (Residue.ext hBoth.2))
    simp only [Coordinate.lt, lt]
    grind [Residue.ext]
  neg_involutive a := congrArg₂ Fq2.mk (neg_neg a.c0) (neg_neg a.c1)
  exists_sqrt? := exists_sqrt?

end Fq2

end Kzg
