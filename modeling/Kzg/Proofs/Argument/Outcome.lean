import Kzg.Proofs.Argument.Quotient
import Kzg.Proofs.Fourier.Product

/-! # What a search for a witness can end in

A witness about values on a subgroup is found in three steps: the values are interpolated on the
canonical domain of as many elements, the identity polynomial is multiplied out by a transform of
about twice the size, and it is divided by `x^m - 1`. Each step has a failure of its own. The number
of values decides on the first two and the values themselves on the last one. -/

namespace Kzg

/-- There are roots of unity for the values, but not for the product of two polynomials through
them. -/
theorem exists_fastMul_eq_error {p q : Coeffs} (hp : p.length = 2 ^ maxLogSize)
    (hq : q.length = 2 ^ maxLogSize) : ∃ detail, p.fastMul q = .error (.transform detail) := by
  have hPos : 1 < 2 ^ maxLogSize := Nat.one_lt_two_pow (by decide)
  have hLarge : maxSize < p.length + q.length - 1 := by
    rw [maxSize_eq, hp, hq]
    omega
  exact ⟨_, Coeffs.fastMul_eq_error (List.ne_nil_of_length_pos (by omega))
    (List.ne_nil_of_length_pos (by omega)) hLarge⟩

theorem size_cases (length : Nat) : (∀ k ≤ maxLogSize, length ≠ 2 ^ k) ∨
    length = 2 ^ maxLogSize ∨ ∃ k < maxLogSize, length = 2 ^ k := by
  rcases Classical.em (∃ k ≤ maxLogSize, length = 2 ^ k) with ⟨k, hk, hLength⟩ | hSize
  · rcases Nat.lt_or_eq_of_le hk with hLt | rfl
    · exact .inr (.inr ⟨k, hLt, hLength⟩)
    · exact .inr (.inl hLength)
  · exact .inl fun k hk hLength => hSize ⟨k, hk, hLength⟩

/-- The answer to a list of `length` values, for which there is a witness if `holds`. -/
structure WitnessOutcome {W : Type} (length : Nat) (holds : Prop) (IsWitness : W → Prop)
    (answer : Except PolyError W) : Prop where
  dimensionMismatch_iff : (∃ detail, answer = .error (.dimensionMismatch detail)) ↔
    ∀ k ≤ 28, length ≠ 2 ^ k
  transform_iff : (∃ detail, answer = .error (.transform detail)) ↔ length = 2 ^ 28
  nonZeroRemainder_iff : answer = .error .nonZeroRemainder ↔
    (∃ k < 28, length = 2 ^ k) ∧ ¬ holds
  exists_witness : (∃ k < 28, length = 2 ^ k) → holds → ∃ w, answer = .ok w ∧ IsWitness w

namespace WitnessOutcome

variable {W : Type} {length : Nat} {holds : Prop} {IsWitness : W → Prop}
  {answer : Except PolyError W}

/-- The sizes exclude each other, and so do the answers. -/
theorem of_cases
    (hNone : (∀ k ≤ maxLogSize, length ≠ 2 ^ k) →
      ∃ detail, answer = .error (.dimensionMismatch detail))
    (hLargest : length = 2 ^ maxLogSize → ∃ detail, answer = .error (.transform detail))
    (hFalse : ∀ k < maxLogSize, length = 2 ^ k → ¬ holds → answer = .error .nonZeroRemainder)
    (hTrue : ∀ k < maxLogSize, length = 2 ^ k → holds → ∃ w, answer = .ok w ∧ IsWitness w) :
    WitnessOutcome length holds IsWitness answer := by
  rcases size_cases length with hSize | rfl | ⟨k, hk, rfl⟩
  · obtain ⟨detail, rfl⟩ := hNone hSize
    have hNotSmaller : ¬ ∃ k < 28, length = 2 ^ k := fun ⟨k, hk, hLength⟩ =>
      hSize k (le_of_lt hk) hLength
    exact {
      dimensionMismatch_iff := iff_of_true ⟨detail, rfl⟩ hSize
      transform_iff := iff_of_false (by simp) (hSize 28 le_rfl)
      nonZeroRemainder_iff := iff_of_false (by simp) fun h => hNotSmaller h.1
      exists_witness := fun h => absurd h hNotSmaller }
  · obtain ⟨detail, rfl⟩ := hLargest rfl
    have hNotSmaller : ¬ ∃ k < 28, 2 ^ maxLogSize = 2 ^ k := fun ⟨k, hk, hEq⟩ =>
      hk.ne' (Nat.pow_right_injective le_rfl hEq)
    exact {
      dimensionMismatch_iff := iff_of_false (by simp) fun h => h 28 le_rfl rfl
      transform_iff := iff_of_true ⟨detail, rfl⟩ rfl
      nonZeroRemainder_iff := iff_of_false (by simp) fun h => hNotSmaller h.1
      exists_witness := fun h => absurd h hNotSmaller }
  · have hNotLargest : 2 ^ k ≠ 2 ^ 28 := (Nat.pow_lt_pow_right one_lt_two hk).ne
    have hSome : ¬ ∀ j ≤ 28, 2 ^ k ≠ 2 ^ j := fun h => h k (le_of_lt hk) rfl
    by_cases hHolds : holds
    · obtain ⟨w, rfl, hWitness⟩ := hTrue k hk rfl hHolds
      exact {
        dimensionMismatch_iff := iff_of_false (by simp) hSome
        transform_iff := iff_of_false (by simp) hNotLargest
        nonZeroRemainder_iff := iff_of_false (by simp) fun h => h.2 hHolds
        exists_witness := fun _ _ => ⟨w, rfl, hWitness⟩ }
    · obtain rfl := hFalse k hk rfl hHolds
      exact {
        dimensionMismatch_iff := iff_of_false (by simp) hSome
        transform_iff := iff_of_false (by simp) hNotLargest
        nonZeroRemainder_iff := iff_of_true rfl ⟨⟨k, hk, rfl⟩, hHolds⟩
        exists_witness := fun _ h => absurd h hHolds }

theorem ne_divisionByZero (h : WitnessOutcome length holds IsWitness answer) :
    answer ≠ .error .divisionByZero := by
  rintro rfl
  rcases size_cases length with hSize | hSize | hSize
  · obtain ⟨detail, hEq⟩ := h.dimensionMismatch_iff.mpr hSize
    cases hEq
  · obtain ⟨detail, hEq⟩ := h.transform_iff.mpr hSize
    cases hEq
  · by_cases hHolds : holds
    · obtain ⟨w, hEq, -⟩ := h.exists_witness hSize hHolds
      cases hEq
    · cases h.nonZeroRemainder_iff.mpr ⟨hSize, hHolds⟩

end WitnessOutcome

end Kzg
