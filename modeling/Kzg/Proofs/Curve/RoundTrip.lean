import Kzg.Proofs.Curve.Canonical
import Kzg.Proofs.Curve.Groups
import Kzg.Proofs.Group.Reading

/-! # Points and their written forms

On both curves no point is its own negative: the second coordinate would be zero and the constant of
the curve the negative of a cube, which it is not, for the second curve by the norm. So a valid
point other than the identity has exactly one string from which it is read. -/

namespace Kzg

namespace Fq

theorem neg_ne_self {y : Fq} (hy : y ≠ 0) : -y ≠ y := by
  intro h
  exact hy (by linear_combination -(ofNat 2)⁻¹ * h - y * two_mul_half)

/-- The power to a third of one less than the order tells the cubes. -/
theorem mul_self_mul_ne {c : Fq} (hc : c ≠ 0) (hPower : c ^ ((baseOrder - 1) / 3) ≠ 1) (x : Fq) :
    x * x * x ≠ c := by
  rintro rfl
  have hx : x ≠ 0 := right_ne_zero_of_mul hc
  have hExponent : 3 * ((baseOrder - 1) / 3) + 1 = baseOrder := by decide
  have hFermat : x ^ (3 * ((baseOrder - 1) / 3)) * x = 1 * x := by
    rw [← pow_succ, hExponent, Residue.pow_modulus, one_mul]
  have hCube : x * x * x = x ^ 3 := by ring
  rw [hCube, ← pow_mul] at hPower
  exact hPower (mul_right_cancel₀ hx hFermat)

end Fq

namespace Fq2

theorem norm_mul (a b : Fq2) : norm (a * b) = norm a * norm b := by
  have hParts : norm (a * b) = (a.c0 * b.c0 - a.c1 * b.c1) * (a.c0 * b.c0 - a.c1 * b.c1) +
      (a.c0 * b.c1 + a.c1 * b.c0) * (a.c0 * b.c1 + a.c1 * b.c0) := rfl
  rw [hParts, norm, norm]
  ring

theorem norm_eq_of_add_eq_zero {a b : Fq2} (h : a + b = 0) : norm a = norm b := by
  have h0 : a.c0 + b.c0 = 0 := congrArg c0 h
  have h1 : a.c1 + b.c1 = 0 := congrArg c1 h
  rw [norm, norm]
  linear_combination (a.c0 - b.c0) * h0 + (a.c1 - b.c1) * h1

theorem neg_ne_self {y : Fq2} (hy : y ≠ 0) : -y ≠ y := by
  intro h
  have h0 : y.c0 = 0 := by
    by_contra hNe
    exact Fq.neg_ne_self hNe (congrArg c0 h)
  have h1 : y.c1 = 0 := by
    by_contra hNe
    exact Fq.neg_ne_self hNe (congrArg c1 h)
  exact hy (congrArg₂ Fq2.mk h0 h1)

/-- The norm of a cube is a cube. -/
theorem mul_self_mul_add_ne {c : Fq2} (hc : norm c ≠ 0)
    (hPower : norm c ^ ((baseOrder - 1) / 3) ≠ 1) (x : Fq2) : x * x * x + c ≠ 0 := by
  intro h
  have hNorm := norm_eq_of_add_eq_zero h
  rw [norm_mul, norm_mul] at hNorm
  exact Fq.mul_self_mul_ne hc hPower (norm x) hNorm

end Fq2

namespace Bn254

theorem G1.neg_ne_self_of_curve {x y : Fq} (h : y * y = x * x * x + G1.constant) : -y ≠ y := by
  apply Fq.neg_ne_self
  rintro rfl
  have hNe : -G1.constant ≠ 0 := by decide +kernel
  have hPower : (-G1.constant) ^ ((baseOrder - 1) / 3) ≠ 1 := by decide +kernel
  exact Fq.mul_self_mul_ne hNe hPower x (by linear_combination -h)

theorem G2.neg_ne_self_of_curve {x y : Fq2} (h : y * y = x * x * x + G2.constant) : -y ≠ y := by
  apply Fq2.neg_ne_self
  rintro rfl
  have hNe : G2.constant.norm ≠ 0 := by decide +kernel
  have hPower : G2.constant.norm ^ ((baseOrder - 1) / 3) ≠ 1 := by decide +kernel
  have hZero : (0 : Fq2) * 0 = 0 := by decide +kernel
  exact Fq2.mul_self_mul_add_ne hNe hPower x (h.symm.trans hZero)

instance : CanonicalPointReader G1 where
  checkPoint_of_decode? {_ p} h := (checkPoint_passes_iff p).mpr (Compressed.valid_of_decode? h)
  encode_of_decode? hLength h hp :=
    Compressed.encode_of_decode? (fun _ _ => G1.neg_ne_self_of_curve) hLength h hp

instance : CanonicalPointReader G2 where
  checkPoint_of_decode? {_ p} h := (checkPoint_passes_iff p).mpr (Compressed.valid_of_decode? h)
  encode_of_decode? hLength h hp :=
    Compressed.encode_of_decode? (fun _ _ => G2.neg_ne_self_of_curve) hLength h hp

end Bn254

/-- The flags are in the first byte of a string. -/
def marksIdentity (bytes : List UInt8) : Bool :=
  bytes.headD 0 &&& Compressed.infinityFlag != 0

theorem splitFlags_reverse (bytes : List UInt8) :
    (Compressed.splitFlags bytes.reverse).1.2 = marksIdentity bytes := by
  simp [Compressed.splitFlags, marksIdentity, List.getLastD_eq_getLast?, List.headD_eq_head?_getD]

/-- Reading points of a written size from any strings. Two strings are read as the same point only
where both mark the identity. -/
structure ReadsExactly (G : Type) [PointGroup G] [PointCodec G] (size : Nat) : Prop where
  error_of_length {bytes : List UInt8} : bytes.length ≠ size →
    (readPoint bytes : Except PointReadError G) =
      .error (.invalidData s!"expected {size} bytes, got {bytes.length}")
  valid {bytes : List UInt8} {p : G} : readPoint bytes = .ok p → checkPoint p = .ok ()
  rewritten {bytes : List UInt8} {p : G} : readPoint bytes = .ok p → p ≠ 0 → pointBytes p = bytes
  identity_iff {bytes : List UInt8} {p : G} : readPoint bytes = .ok p →
    (p = 0 ↔ marksIdentity bytes = true)
  shared {bytes bytes' : List UInt8} {p : G} : readPoint bytes = .ok p →
    readPoint bytes' = .ok p → bytes ≠ bytes' →
      marksIdentity bytes = true ∧ marksIdentity bytes' = true

theorem readsExactly_of_identity_iff {G : Type} [PointGroup G] [PointCodec G]
    [CanonicalPointReader G] (h : ∀ {bytes : List UInt8} {p : G}, readPoint bytes = .ok p →
      (p = 0 ↔ marksIdentity bytes = true)) : ReadsExactly G (PointCodec.byteSize G) where
  error_of_length := readPoint_of_length_ne
  valid := checkPoint_of_readPoint
  rewritten := pointBytes_of_readPoint
  identity_iff := h
  shared {bytes bytes' p} hRead hRead' hNe := by
    have hIdentity : p = 0 := by
      by_contra hp
      exact hNe ((pointBytes_of_readPoint hRead hp).symm.trans (pointBytes_of_readPoint hRead' hp))
    exact ⟨(h hRead).mp hIdentity, (h hRead').mp hIdentity⟩

namespace Bn254

theorem G1.readsExactly : ReadsExactly G1 32 := by
  refine readsExactly_of_identity_iff fun {bytes p} h => ?_
  rw [← splitFlags_reverse]
  exact Compressed.eq_infinity_iff_of_decode? (readPoint_eq_ok_iff.mp h).2

theorem G2.readsExactly : ReadsExactly G2 64 := by
  refine readsExactly_of_identity_iff fun {bytes p} h => ?_
  rw [← splitFlags_reverse]
  exact Compressed.eq_infinity_iff_of_decode? (readPoint_eq_ok_iff.mp h).2

/-- Every valid point is read back from its written form, and no other string is read as a point,
but for those with the mark of the identity. Of the first group every point on the curve is valid.
-/
theorem readPoint_round_trip :
    (∀ p : G1, PointGroup.onCurve p = true →
      (pointBytes p).length = 32 ∧ readPoint (pointBytes p) = .ok p) ∧
    (∀ p : G2, PointGroup.onCurve p = true → PointGroup.inSubgroup p = true →
      (pointBytes p).length = 64 ∧ readPoint (pointBytes p) = .ok p) ∧
    ReadsExactly G1 32 ∧ ReadsExactly G2 64 := by
  refine ⟨?_, ?_, G1.readsExactly, G2.readsExactly⟩
  · intro p hCurve
    have hValid : checkPoint p = .ok () := (checkPoint_passes_iff p).mpr (.inr ⟨hCurve, rfl⟩)
    exact ⟨length_pointBytes p, readPoint_pointBytes hValid⟩
  · intro p hCurve hSubgroup
    have hValid : checkPoint p = .ok () := (checkPoint_passes_iff p).mpr (.inr ⟨hCurve, hSubgroup⟩)
    exact ⟨length_pointBytes p, readPoint_pointBytes hValid⟩

/-- The greater of the two points with coordinate one, the generator of the second group, and two
strings of the identity, one of them with a coordinate beside the mark. -/
theorem readPoint_round_trip_identity :
    let p : G1 := .affine (Fq.ofNat 1) (-Fq.ofNat 2)
    let marked : List UInt8 := 0x40 :: List.replicate 31 0
    let beside : List UInt8 := 0x40 :: List.replicate 30 0 ++ [5]
    (readPoint (pointBytes p) = .ok p ∧ pointBytes p = 0x80 :: List.replicate 30 0 ++ [1]) ∧
    ((pointBytes G2.generator).length = 64 ∧
      readPoint (pointBytes G2.generator) = .ok G2.generator) ∧
    (readPoint marked = .ok (0 : G1) ∧ readPoint beside = .ok (0 : G1) ∧ marked ≠ beside ∧
      marksIdentity marked = true ∧ marksIdentity beside = true) ∧
    (readPoint [] : Except PointReadError G2) =
      .error (.invalidData "expected 64 bytes, got 0") := by
  intro p marked beside
  obtain ⟨hFirst, hSecond, hReadsFirst, hReadsSecond⟩ := readPoint_round_trip
  have hMarked : readPoint marked = .ok (0 : G1) := by decide +kernel
  have hBeside : readPoint beside = .ok (0 : G1) := by decide +kernel
  have hNe : marked ≠ beside := by decide
  have hBytes : readPoint (0x80 :: List.replicate 30 0 ++ [1]) = .ok p := by decide +kernel
  have hRewritten := hReadsFirst.rewritten hBytes (by decide)
  refine ⟨⟨(hFirst p (by decide +kernel)).2, hRewritten⟩,
    hSecond G2.generator (by decide +kernel) (by decide +kernel),
    ⟨hMarked, hBeside, hNe, hReadsFirst.shared hMarked hBeside hNe⟩,
    hReadsSecond.error_of_length (by decide)⟩

end Bn254

end Kzg
