import Mathlib.GroupTheory.OrderOfElement
import Kzg.Proofs.Field.Scalar
import Kzg.Group.Basic

/-! # What is assumed of the curve

The two groups have prime order and are generated by the given points, and the pairing is bilinear
and not trivial. Under these laws a statement about points is one about the scalars by which they
are multiples of the generators. -/

namespace Kzg

open PointGroup (generator)

theorem checkPoint_passes_iff {G : Type} [PointGroup G] (p : G) : checkPoint p = .ok () ↔
    p = 0 ∨ PointGroup.onCurve p = true ∧ PointGroup.inSubgroup p = true := by
  rw [checkPoint]
  by_cases hZero : p = 0
  · simp [hZero]
  · cases PointGroup.onCurve p <;> cases PointGroup.inSubgroup p <;> simp [hZero]

/-- The valid points are the multiples of the generator, a different one for each scalar, and the
operations on them are those of the scalars. Nothing is said of other points. -/
class LawfulPointGroup (G : Type) [PointGroup G] : Prop where
  valid_iff (p : G) : (PointGroup.onCurve p = true ∧ PointGroup.inSubgroup p = true) ↔
    ∃ s : Fr, p = s • generator
  smul_injective : Function.Injective fun s : Fr => s • (generator : G)
  zero_smul_generator : (0 : Fr) • (generator : G) = 0
  one_smul_generator : (1 : Fr) • (generator : G) = generator
  add_smul_generator (s t : Fr) : (s + t) • (generator : G) = s • generator + t • generator
  neg_smul_generator (s : Fr) : (-s) • (generator : G) = -(s • generator)
  mul_smul_generator (s t : Fr) : (s * t) • (generator : G) = s • t • generator

namespace LawfulPointGroup

variable {G : Type} [PointGroup G] [LawfulPointGroup G]

theorem smul_inj {s t : Fr} : s • (generator : G) = t • generator ↔ s = t :=
  smul_injective.eq_iff

theorem sub_smul_generator (s t : Fr) :
    (s - t) • (generator : G) = s • generator - t • generator := by
  rw [sub_eq_add_neg, add_smul_generator, neg_smul_generator]
  rfl

theorem checkPoint_eq_ok_iff (p : G) : checkPoint p = .ok () ↔ ∃ s : Fr, p = s • generator := by
  rw [checkPoint_passes_iff, valid_iff, or_iff_right_iff_imp]
  rintro rfl
  exact ⟨0, zero_smul_generator.symm⟩

@[simp] theorem checkPoint_smul (s : Fr) : checkPoint (s • (generator : G)) = .ok () :=
  (checkPoint_eq_ok_iff _).mpr ⟨s, rfl⟩

@[simp] theorem checkPoint_generator : checkPoint (generator : G) = .ok () := by
  rw [← one_smul_generator]
  exact checkPoint_smul 1

end LawfulPointGroup

class LawfulPointCodec (G : Type) [PointCodec G] : Prop where
  length_encode (p : G) : (PointCodec.encode p).length = PointCodec.byteSize G

/-- Valid points can be read back from their written form, which is never empty. -/
class LawfulPointReader (G : Type) [PointGroup G] [PointCodec G] : Prop
    extends LawfulPointCodec G where
  byteSize_pos : 0 < PointCodec.byteSize G
  decode?_encode {p : G} : checkPoint p = .ok () →
    PointCodec.decode? (PointCodec.encode p) = some p

theorem LawfulPointReader.encode_inj {G : Type} [PointGroup G] [PointCodec G] [LawfulPointReader G]
    {p q : G} (hp : checkPoint p = .ok ()) (hq : checkPoint q = .ok ()) :
    PointCodec.encode p = PointCodec.encode q ↔ p = q := by
  refine ⟨fun h => ?_, congrArg PointCodec.encode⟩
  have hRead := decode?_encode hp
  rwa [h, decode?_encode hq, Option.some.injEq, eq_comm] at hRead

/-- A map into a commutative group that is additive in both arguments on valid points, and that
tells the pair of generators from the identity. -/
structure BilinearPairing (G1 G2 T : Type) [PointGroup G1] [PointGroup G2] [CommGroup T] where
  pair : G1 → G2 → T
  add_left {p p' : G1} {q : G2} : checkPoint p = .ok () → checkPoint p' = .ok () →
    checkPoint q = .ok () → pair (p + p') q = pair p q * pair p' q
  add_right {p : G1} {q q' : G2} : checkPoint p = .ok () → checkPoint q = .ok () →
    checkPoint q' = .ok () → pair p (q + q') = pair p q * pair p q'
  nondegenerate : pair generator generator ≠ 1

class LawfulPairing (G1 G2 : Type) [PointGroup G1] [PointGroup G2] [Pairing G1 G2] : Prop where
  exists_pairing : ∃ (T : Type) (_ : CommGroup T) (e : BilinearPairing G1 G2 T),
    ∀ pairs : List (G1 × G2),
      (∀ pq ∈ pairs, checkPoint pq.1 = .ok () ∧ checkPoint pq.2 = .ok ()) →
      (Pairing.productIsOne pairs = true ↔ (pairs.map fun pq => e.pair pq.1 pq.2).prod = 1)

section Pairing

open LawfulPointGroup

variable {G1 G2 : Type} [PointGroup G1] [PointGroup G2] [LawfulPointGroup G1]
  [LawfulPointGroup G2]

namespace BilinearPairing

variable {T : Type} [CommGroup T] (e : BilinearPairing G1 G2 T)

theorem pair_zero_left (t : Fr) :
    e.pair ((0 : Fr) • generator) (t • generator) = 1 := by
  have h := e.add_left (checkPoint_smul 0) (checkPoint_smul 0) (checkPoint_smul t)
  rwa [← add_smul_generator, add_zero, left_eq_mul] at h

theorem pair_zero_right (s : Fr) :
    e.pair (s • generator) ((0 : Fr) • generator) = 1 := by
  have h := e.add_right (checkPoint_smul s) (checkPoint_smul 0) (checkPoint_smul 0)
  rwa [← add_smul_generator, add_zero, left_eq_mul] at h

theorem pair_cast_left (n : Nat) (t : Fr) :
    e.pair ((n : Fr) • generator) (t • generator) = e.pair generator (t • generator) ^ n := by
  induction n with
  | zero => rw [Nat.cast_zero, pair_zero_left, pow_zero]
  | succ n ih =>
    rw [Nat.cast_succ, add_smul_generator, one_smul_generator,
      e.add_left (checkPoint_smul _) checkPoint_generator (checkPoint_smul t), ih, pow_succ]

theorem pair_cast_right (n : Nat) :
    e.pair generator ((n : Fr) • generator) = e.pair generator generator ^ n := by
  induction n with
  | zero =>
    rw [Nat.cast_zero, pow_zero, ← one_smul_generator (G := G1), pair_zero_right]
  | succ n ih =>
    rw [Nat.cast_succ, add_smul_generator, one_smul_generator,
      e.add_right checkPoint_generator (checkPoint_smul _) checkPoint_generator, ih, pow_succ]

theorem pair_smul (s t : Fr) :
    e.pair (s • generator) (t • generator) = e.pair generator generator ^ (s.val * t.val) := by
  rw [← Residue.cast_val s, pair_cast_left, ← Residue.cast_val t, pair_cast_right, ← pow_mul,
    mul_comm]
  simp only [Residue.cast_val]

/-- The pair of generators has the order of the groups in the target. -/
theorem pair_pow_eq_one_iff (n : Nat) : e.pair generator generator ^ n = 1 ↔ (n : Fr) = 0 := by
  have hOrder : e.pair generator generator ^ scalarOrder = 1 := by
    rw [← pair_cast_right, (Fr.cast_eq_zero_iff scalarOrder).mpr dvd_rfl,
      ← one_smul_generator (G := G1),
      pair_zero_right]
  rw [← orderOf_dvd_iff_pow_eq_one, orderOf_eq_prime hOrder e.nondegenerate, Fr.cast_eq_zero_iff]

end BilinearPairing

variable [Pairing G1 G2] [LawfulPairing G1 G2]

variable (G1 G2) in
theorem productIsOne_smul_iff (pairs : List (Fr × Fr)) :
    Pairing.productIsOne
        (pairs.map fun st => (st.1 • (generator : G1), st.2 • (generator : G2))) = true ↔
      (pairs.map fun st => st.1 * st.2).sum = 0 := by
  obtain ⟨T, _, e, hProduct⟩ := @LawfulPairing.exists_pairing G1 G2 _ _ _ _
  have hPower (l : List (Fr × Fr)) :
      (l.map fun st => e.pair (st.1 • generator) (st.2 • generator)).prod =
        e.pair generator generator ^ (l.map fun st => st.1.val * st.2.val).sum := by
    induction l with
    | nil => simp
    | cons st l ih =>
      rw [List.map_cons, List.prod_cons, List.map_cons, List.sum_cons, ih, e.pair_smul, pow_add]
  have hSum (l : List (Fr × Fr)) :
      (((l.map fun st => st.1.val * st.2.val).sum : Nat) : Fr) =
        (l.map fun st => st.1 * st.2).sum := by
    induction l with
    | nil => simp
    | cons st l ih => simp [ih, Residue.cast_val]
  rw [hProduct, List.map_map]
  · exact (Eq.congr_left (hPower pairs)).trans ((e.pair_pow_eq_one_iff _).trans (by rw [hSum]))
  · intro pq hpq
    obtain ⟨st, -, rfl⟩ := List.mem_map.mp hpq
    exact ⟨checkPoint_smul _, checkPoint_smul _⟩

variable (G1 G2) in
theorem pairingsEqual_smul_iff (a b c d : Fr) :
    pairingsEqual (a • (generator : G1)) (b • (generator : G2)) (c • generator) (d • generator) =
      true ↔ a * b = c * d := by
  have h := productIsOne_smul_iff G1 G2 [(a, b), (-c, d)]
  simp only [List.map_cons, List.map_nil, List.sum_cons, List.sum_nil, add_zero, neg_mul,
    neg_smul_generator, add_neg_eq_zero] at h
  exact h

theorem pairingsEqual_smul_generator_iff (a b c : Fr) :
    pairingsEqual (a • (generator : G1)) (b • (generator : G2)) (c • generator) generator = true ↔
      a * b = c := by
  have h := pairingsEqual_smul_iff G1 G2 a b c 1
  rwa [one_smul_generator, mul_one] at h

end Pairing

end Kzg
