import Kzg.Proofs.Argument.GrandProduct.Complete
import Kzg.Proofs.Argument.Outcome

/-! # Witnesses of a grand product

There is a witness exactly for values on a subgroup, of at most half the largest order, that
multiply to one. Its polynomials take the values and their running product on the subgroup, and with
the quotient the identity holds at every scalar, the elements of the subgroup included. -/

namespace Kzg.GrandProduct

open Polynomial

/-- The polynomials of a witness take the values and their running product on the canonical
subgroup, and the quotient is exact. -/
structure IsWitness (values : List Fr) (w : Witness) : Prop where
  ofSize_eq : Domain.ofSize values.length = .ok w.domain
  valuesOf_f : w.domain.valuesOf w.f = .ok values
  valuesOf_t : w.domain.valuesOf w.t =
    .ok ((List.range values.length).map fun i => (values.take i).prod)
  identity : w.t.toPoly.comp (C w.domain.generator * X) - w.f.toPoly * w.t.toPoly =
    w.q.toPoly * (X ^ values.length - 1)
  holdsAt (r : Fr) : w.HoldsAt r

namespace Witness

theorem interpolate_of_ofValues {values : List Fr} {w : Witness} (h : ofValues values = .ok w) :
    w.domain.interpolate values = .ok w.f ∧
      w.domain.interpolate (runningProduct (values.take (w.domain.size - 1))) = .ok w.t := by
  simp only [ofValues, bind_eq_ok_iff] at h
  obtain ⟨d, -, f, hF, t, hT, num, -, q, -, hWitness⟩ := h
  cases hWitness
  exact ⟨hF, hT⟩

theorem Certifies.domain_built {k : Nat} (hk : k ≤ maxLogSize) {values : List Fr} {w : Witness}
    (h : w.Certifies k values) : w.domain.Built := by
  rw [h.domain_eq]
  exact Domain.built_canonical hk

theorem Certifies.holdsAt {k : Nat} {values : List Fr} {w : Witness} (h : w.Certifies k values)
    (r : Fr) : w.HoldsAt r := by
  rw [HoldsAt, ← eval_identityPoly_eq_zero_iff, h.identity, eval_zero]

theorem Certifies.isWitness {k : Nat} (hk : k ≤ maxLogSize) {values : List Fr}
    (hLength : values.length = 2 ^ k) {w : Witness} (hRun : ofValues values = .ok w)
    (h : w.Certifies k values) : IsWitness values w := by
  obtain ⟨hF, hT⟩ := interpolate_of_ofValues hRun
  have hDomain := h.domain_built hk
  have hIdentity := h.identity
  rw [h.size_eq, runningProduct_take hLength (Nat.two_pow_pos k), ← hLength] at hT
  rw [identityPoly, h.size_eq, ← hLength, sub_eq_zero] at hIdentity
  constructor
  case ofSize_eq => rw [hLength, Domain.ofSize_two_pow hk, h.domain_eq]
  case valuesOf_f => exact hDomain.valuesOf_of_interpolate hF
  case valuesOf_t => exact hDomain.valuesOf_of_interpolate hT
  case identity => exact hIdentity
  case holdsAt => exact h.holdsAt

theorem ofValues_of_ne {values : List Fr} (h : ∀ k ≤ maxLogSize, values.length ≠ 2 ^ k) :
    ofValues values = .error (.domainSize values.length maxSize) := by
  rw [ofValues, Domain.ofSize_of_ne h]
  rfl

theorem exists_ofValues_eq_error {values : List Fr} (h : values.length = 2 ^ maxLogSize) :
    ∃ detail, ofValues values = .error (.transform detail) := by
  obtain ⟨f, t, hFLength, hTLength, hRun, -⟩ := exists_interpolated le_rfl h
  obtain ⟨detail, hProduct⟩ := exists_fastMul_eq_error hFLength hTLength
  refine ⟨detail, ?_⟩
  rw [hRun, GrandProduct.identity, hProduct]
  rfl

/-- The failures do not overlap, and there is no other one. -/
theorem ofValues_outcome (values : List Fr) :
    WitnessOutcome values.length (values.prod = 1) (IsWitness values) (ofValues values) := by
  apply WitnessOutcome.of_cases
  · intro hSize
    exact ⟨_, ofValues_of_ne hSize⟩
  · exact exists_ofValues_eq_error
  · intro k hk hLength hProduct
    exact ofValues_of_prod_ne_one hk hLength hProduct
  · intro k hk hLength hProduct
    obtain ⟨w, hRun, hWitness⟩ := ofValues_of_prod_eq_one hk hLength hProduct
    exact ⟨w, hRun, hWitness.isWitness hk.le hLength hRun⟩

/-- The trivial subgroup, a zero that spoils the product, three values and as many as there are
roots of unity. -/
theorem ofValues_outcome_smallestAndLargest :
    (∃ w, ofValues [1] = .ok w ∧ IsWitness [1] w) ∧
    ofValues [0, 1] = .error .nonZeroRemainder ∧
    (∃ detail, ofValues [1, 1, 1] = .error (.dimensionMismatch detail)) ∧
    ∃ detail, ofValues (List.replicate (2 ^ 28) 1) = .error (.transform detail) := by
  refine ⟨?_, ?_, ?_, ?_⟩
  · exact (ofValues_outcome [1]).exists_witness ⟨0, by decide, rfl⟩ (by decide)
  · exact (ofValues_outcome [0, 1]).nonZeroRemainder_iff.mpr ⟨⟨1, by decide, rfl⟩, by decide⟩
  · exact (ofValues_outcome [1, 1, 1]).dimensionMismatch_iff.mpr (by decide)
  · exact (ofValues_outcome _).transform_iff.mpr List.length_replicate

end Witness

end Kzg.GrandProduct
