import Kzg.Proofs.Curve.Base
import Kzg.Curve.Compressed

/-! # Compressed points can be read back

The flags stand in two bits that a coordinate leaves clear, so both are found again. The equation of
the curve has two solutions for a first coordinate, and the flag tells which one was written. -/

namespace Kzg.Compressed

section Flags

variable {last flags : UInt8} (hLast : last < 64)
  (hFlags : flags ∈ [0, greaterFlag, infinityFlag])

include hLast hFlags

theorem or_and_flags : (last ||| flags) &&& greaterFlag = flags &&& greaterFlag ∧
    (last ||| flags) &&& infinityFlag = flags &&& infinityFlag ∧
    (last ||| flags) &&& 0x3f = last := by
  have hAll : ∀ n < 64, ∀ flags ∈ [0, greaterFlag, infinityFlag],
      (UInt8.ofNat n ||| flags) &&& greaterFlag = flags &&& greaterFlag ∧
      (UInt8.ofNat n ||| flags) &&& infinityFlag = flags &&& infinityFlag ∧
      (UInt8.ofNat n ||| flags) &&& 0x3f = UInt8.ofNat n := by decide +kernel
  have h := hAll last.toNat (UInt8.lt_iff_toNat_lt.mp hLast) flags hFlags
  rwa [UInt8.ofNat_toNat] at h

theorem splitFlags_setFlags {bytes : List UInt8} (hNonempty : bytes ≠ [])
    (hEnd : bytes.getLastD 0 = last) : splitFlags (setFlags flags bytes) =
      ((flags &&& greaterFlag != 0, flags &&& infinityFlag != 0), bytes) := by
  obtain ⟨hGreater, hInfinity, hRest⟩ := or_and_flags hLast hFlags
  have hBytes : bytes.dropLast ++ [last] = bytes := by
    rw [← hEnd, List.getLastD_eq_getLast?, List.getLast?_eq_some_getLast hNonempty,
      Option.getD_some, List.dropLast_append_getLast]
  simp only [splitFlags, setFlags, hEnd, List.getLastD_concat, List.dropLast_concat, hGreater,
    hInfinity, hRest, hBytes]

end Flags

@[simp] theorem length_setFlags (flags : UInt8) {bytes : List UInt8} (hNonempty : bytes ≠ []) :
    (setFlags flags bytes).length = bytes.length := by
  have := List.length_pos_iff.mpr hNonempty
  simp only [setFlags, List.length_append, List.length_dropLast, List.length_singleton]
  omega

open LawfulCoordinate

variable {K : Type} [Zero K] [Neg K] [Mul K] [Coordinate K] [LawfulCoordinate K]

theorem toBytes_ne_nil (a : K) : Coordinate.toBytes a ≠ [] := by
  rw [← List.length_pos_iff, length_toBytes]
  exact byteSize_pos

theorem splitFlags_toBytes (a : K) {flags : UInt8}
    (hFlags : flags ∈ [0, greaterFlag, infinityFlag]) :
    splitFlags (setFlags flags (Coordinate.toBytes a)) =
      ((flags &&& greaterFlag != 0, flags &&& infinityFlag != 0), Coordinate.toBytes a) :=
  splitFlags_setFlags (getLastD_toBytes_lt a) hFlags (toBytes_ne_nil a) rfl

theorem encode_infinity :
    encode (.infinity : Point K) = setFlags infinityFlag (Coordinate.toBytes (0 : K)) := by
  rw [encode, toBytes_zero]

theorem length_encode (p : Point K) : (encode p).length = Coordinate.byteSize K := by
  cases p with
  | infinity => rw [encode_infinity, length_setFlags _ (toBytes_ne_nil _), length_toBytes]
  | affine x y => rw [encode, length_setFlags _ (toBytes_ne_nil x), length_toBytes]

variable [Add K]

/-- The root that is found is `y` or its negative. If it is the negative, the order of the two is
the other one, so that it is taken back, unless both are the same. -/
theorem lift?_of_curve {b x y : K} (h : y * y = x * x * x + b) :
    lift? b x (Coordinate.lt (-y) y) = some (.affine x y) := by
  obtain ⟨root, hRoot, hEq⟩ := exists_sqrt? y
  rw [lift?, ← h, hRoot]
  obtain rfl | rfl := hEq
  · simp
  · by_cases hSelf : -y = y
    · simp [hSelf]
    · simp [neg_involutive y, lt_swap hSelf]

/-- Infinity is read back whatever the test of the subgroup says of it. -/
theorem decode?_encode [DecidableEq K] {b : K} {inSubgroup : Point K → Bool} {p : Point K}
    (h : p = .infinity ∨ p.satisfies b = true ∧ inSubgroup p = true) :
    decode? b inSubgroup (encode p) = some p := by
  cases p with
  | infinity =>
    have hMarks : (infinityFlag &&& greaterFlag != 0, infinityFlag &&& infinityFlag != 0) =
        (false, true) := by decide
    rw [decode?, encode_infinity, splitFlags_toBytes 0 (by decide), hMarks]
    simp [ofBytes?_toBytes]
  | affine x y =>
    obtain ⟨hCurve, hSubgroup⟩ := h.resolve_left (by simp)
    have hLift := lift?_of_curve (of_decide_eq_true hCurve)
    rw [decode?, encode]
    cases hGreater : Coordinate.lt (-y) y with
    | true =>
      rw [hGreater] at hLift
      have hMarks : (greaterFlag &&& greaterFlag != 0, greaterFlag &&& infinityFlag != 0) =
          (true, false) := by decide
      rw [if_pos rfl, splitFlags_toBytes x (by decide), hMarks]
      simp [ofBytes?_toBytes, hLift, hSubgroup]
    | false =>
      rw [hGreater] at hLift
      rw [if_neg (by simp), splitFlags_toBytes x (by decide)]
      simp [ofBytes?_toBytes, hLift, hSubgroup]

end Kzg.Compressed
