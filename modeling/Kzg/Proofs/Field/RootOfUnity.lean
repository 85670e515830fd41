import Mathlib.RingTheory.RootsOfUnity.PrimitiveRoots
import Mathlib.GroupTheory.OrderOfElement
import Kzg.Proofs.Field.Scalar
import Kzg.Field.RootOfUnity

/-! # Roots of unity of two-power order

The test of an order, the canonical roots and the table of powers of a root are tied to primitive
roots of unity. -/

namespace Kzg

theorem maxSize_eq : maxSize = 2 ^ maxLogSize :=
  Nat.one_shiftLeft maxLogSize

theorem isPowerOfTwo_iff (n : Nat) : isPowerOfTwo n = true ↔ ∃ k, n = 2 ^ k := by
  rw [isPowerOfTwo, beq_iff_eq, Nat.one_shiftLeft]
  constructor
  · intro h
    exact ⟨n.log2, h⟩
  · rintro ⟨k, rfl⟩
    rw [Nat.log2_two_pow]

@[simp] theorem isPowerOfTwo_two_pow (k : Nat) : isPowerOfTwo (2 ^ k) = true :=
  (isPowerOfTwo_iff _).mpr ⟨k, rfl⟩

/-- The least power of two that is large enough. -/
theorem exists_ceilPowerOfTwo (n : Nat) :
    ∃ j, ceilPowerOfTwo n = 2 ^ j ∧ ∀ m, n ≤ 2 ^ m ↔ j ≤ m := by
  rw [ceilPowerOfTwo]
  by_cases hn : n ≤ 1
  · refine ⟨0, if_pos hn, ?_⟩
    intro m
    simp only [Nat.zero_le, iff_true]
    exact hn.trans Nat.one_le_two_pow
  · refine ⟨(n - 1).log2 + 1, by rw [if_neg hn, Nat.one_shiftLeft], ?_⟩
    intro m
    rw [Nat.succ_le_iff, Nat.log2_lt (by omega)]
    omega

namespace Fr

theorem hasOrder_two_pow_iff (x : Fr) (k : Nat) :
    x.hasOrder (2 ^ k) = true ↔ IsPrimitiveRoot x (2 ^ k) := by
  cases k with
  | zero => simp [hasOrder, IsPrimitiveRoot.iff_def]
  | succ k =>
    have hLarge : ¬ 2 ^ (k + 1) ≤ 1 := by
      have := Nat.one_lt_two_pow (Nat.succ_ne_zero k)
      omega
    have hHalf : 2 ^ (k + 1) / 2 = 2 ^ k := by rw [pow_succ, Nat.mul_div_cancel _ two_pos]
    simp only [hasOrder, hLarge, hHalf, decide_false, Bool.false_or, Bool.and_eq_true,
      beq_iff_eq, bne_iff_ne]
    constructor
    · rintro ⟨hOne, hNe⟩
      rw [← orderOf_eq_prime_pow hNe hOne]
      exact IsPrimitiveRoot.orderOf x
    · intro h
      exact ⟨h.pow_eq_one, h.pow_ne_one_of_pos_of_lt (by positivity)
        (Nat.pow_lt_pow_right one_lt_two (Nat.lt_succ_self k))⟩

theorem rootOfMaxOrder_primitive : IsPrimitiveRoot rootOfMaxOrder (2 ^ maxLogSize) :=
  (hasOrder_two_pow_iff _ _).mp (by decide +kernel)

theorem canonicalRoot_primitive {k : Nat} (hk : k ≤ maxLogSize) :
    IsPrimitiveRoot (canonicalRoot k) (2 ^ k) := by
  rw [canonicalRoot, Nat.one_shiftLeft]
  apply rootOfMaxOrder_primitive.pow (by positivity)
  rw [← pow_add, Nat.sub_add_cancel hk]

/-- There are no roots of larger two-power order in the field. -/
theorem le_maxLogSize_of_primitive {k : Nat} {x : Fr} (h : IsPrimitiveRoot x (2 ^ k)) :
    k ≤ maxLogSize := by
  have hNe : x ≠ 0 := h.ne_zero (Nat.two_pow_pos k).ne'
  have hOne : x ^ (scalarOrder - 1) = 1 := by
    apply mul_left_cancel₀ hNe
    rw [← pow_succ', mul_one]
    exact Residue.pow_modulus x
  by_contra hLarge
  have hDvd : 2 ^ (maxLogSize + 1) ∣ scalarOrder - 1 :=
    (pow_dvd_pow 2 (not_le.mp hLarge)).trans (h.dvd_of_pow_eq_one _ hOne)
  exact absurd hDvd (by decide)

theorem rootOfOrder_two_pow {k : Nat} (hk : k ≤ maxLogSize) :
    rootOfOrder? (2 ^ k) = some (canonicalRoot k) := by
  simp [rootOfOrder?, Nat.log2_two_pow, hk]

theorem rootOfOrder_eq_none {k : Nat} (hk : maxLogSize < k) : rootOfOrder? (2 ^ k) = none := by
  simp [rootOfOrder?, Nat.log2_two_pow, hk]

theorem squaringsToOne_of_primitive {limit k : Nat} (hk : k ≤ limit) {x : Fr}
    (hx : IsPrimitiveRoot x (2 ^ k)) : squaringsToOne? limit x = some k := by
  induction limit generalizing k x with
  | zero =>
    obtain rfl : k = 0 := Nat.le_zero.mp hk
    rw [squaringsToOne?, if_pos (by simpa using hx)]
  | succ limit ih =>
    cases k with
    | zero => rw [squaringsToOne?, if_pos (by simpa using hx)]
    | succ k =>
      have hNe : x ≠ 1 := hx.ne_one (Nat.one_lt_two_pow (Nat.succ_ne_zero k))
      have hSquare : IsPrimitiveRoot (x * x) (2 ^ k) := by
        rw [← sq]
        exact hx.pow (by positivity) (pow_succ' 2 k)
      rw [squaringsToOne?, if_neg hNe, ih (Nat.le_of_succ_le_succ hk) hSquare]
      rfl

theorem squaringsToOne_of_pow_ne_one {limit : Nat} {x : Fr} (h : x ^ 2 ^ limit ≠ 1) :
    squaringsToOne? limit x = none := by
  induction limit generalizing x with
  | zero => rw [squaringsToOne?, if_neg (by simpa using h)]
  | succ limit ih =>
    have hNe : x ≠ 1 := by
      rintro rfl
      exact h (one_pow _)
    have hSquare : (x * x) ^ 2 ^ limit ≠ 1 := by rwa [← sq, ← pow_mul, ← pow_succ']
    rw [squaringsToOne?, if_neg hNe, ih hSquare]
    rfl

/-- The order of a root of unity of supported order is a power of two. -/
theorem exists_primitive_of_pow_eq_one {x : Fr} (h : x ^ maxSize = 1) :
    ∃ k ≤ maxLogSize, IsPrimitiveRoot x (2 ^ k) := by
  rw [maxSize_eq] at h
  obtain ⟨k, hk, hOrder⟩ := (Nat.dvd_prime_pow Nat.prime_two).mp (orderOf_dvd_of_pow_eq_one h)
  exact ⟨k, hk, hOrder ▸ IsPrimitiveRoot.orderOf x⟩

theorem cycle_of_pow_ne_one {x : Fr} (h : x ^ maxSize ≠ 1) :
    x.cycle = .error .notARootOfUnity := by
  rw [maxSize_eq] at h
  rw [cycle, squaringsToOne_of_pow_ne_one h]

theorem cycle_of_primitive {k : Nat} (hk : k ≤ maxLogSize) {x : Fr}
    (hx : IsPrimitiveRoot x (2 ^ k)) : x.cycle = .ok (powers x (2 ^ k + 1)) := by
  rw [cycle, squaringsToOne_of_primitive hk hx, ← Nat.one_shiftLeft]

theorem two_pow_lt_scalarOrder {k : Nat} (hk : k ≤ maxLogSize) : 2 ^ k < scalarOrder :=
  lt_of_le_of_lt (Nat.pow_le_pow_right two_pos hk) (by decide)

theorem two_pow_ne_zero {k : Nat} (hk : k ≤ maxLogSize) : ((2 ^ k : Nat) : Fr) ≠ 0 :=
  cast_ne_zero (by positivity) (two_pow_lt_scalarOrder hk)

end Fr

end Kzg
