import Kzg.Proofs.Argument.Permutation.Complete
import Kzg.Proofs.Argument.Outcome

/-! # Witnesses of a permutation

Rows of different lengths and a zero row below the line are refused before there is a domain. For
all others there is a witness exactly if they are rows of a subgroup, of at most half the largest
order, and both sides have the same product. The running product is that of the quotients of the
rows, and with the quotient by `x^m - 1` the identity holds at every scalar. -/

namespace Kzg.Permutation

open Polynomial

/-- The polynomials of a witness take the rows of both sides and the products of their quotients on
the canonical subgroup, and the quotient is exact. -/
structure IsWitness (rows0 rows1 : List Fr) (w : Witness) : Prop where
  ofSize_eq : Domain.ofSize rows1.length = .ok w.domain
  valuesOf_f0 : w.domain.valuesOf w.f0 = .ok rows0
  valuesOf_f1 : w.domain.valuesOf w.f1 = .ok rows1
  start : w.t.eval 1 = 1
  eval_t : ∀ i < rows1.length,
    w.t.eval (w.domain.generator ^ i) = ((List.zipWith (· / ·) rows0 rows1).take i).prod
  identity : w.t.toPoly.comp (C w.domain.generator * X) * w.f1.toPoly -
    w.f0.toPoly * w.t.toPoly = w.q.toPoly * (X ^ rows1.length - 1)
  holdsAt (r : Fr) : w.HoldsAt r

namespace Witness

theorem interpolate_of_ofRows {rows0 rows1 : List Fr} {w : Witness}
    (h : ofRows rows0 rows1 = .ok w) :
    w.domain.interpolate rows0 = .ok w.f0 ∧ w.domain.interpolate rows1 = .ok w.f1 := by
  simp only [ofRows, bind_eq_ok_iff] at h
  obtain ⟨quotients, -, d, -, f0, hF0, f1, hF1, t, -, num, -, q, -, hWitness⟩ := h
  cases hWitness
  exact ⟨hF0, hF1⟩

theorem Certifies.domain_built {k : Nat} (hk : k ≤ maxLogSize) {rows0 rows1 : List Fr}
    {w : Witness} (h : w.Certifies k rows0 rows1) : w.domain.Built := by
  rw [h.domain_eq]
  exact Domain.built_canonical hk

theorem Certifies.isWitness {k : Nat} (hk : k ≤ maxLogSize) {rows0 rows1 : List Fr}
    (h0 : rows0.length = 2 ^ k) (h1 : rows1.length = 2 ^ k) {w : Witness}
    (hRun : ofRows rows0 rows1 = .ok w) (h : w.Certifies k rows0 rows1) :
    IsWitness rows0 rows1 w := by
  obtain ⟨hF0, hF1⟩ := interpolate_of_ofRows hRun
  have hDomain := h.domain_built hk
  have hQuotients : (List.zipWith (· / ·) rows0 rows1).length = 2 ^ k := by
    rw [List.length_zipWith, h0, h1, min_self]
  have hProducts := h.interpolates_t
  rw [h.size_eq, runningProduct_take hQuotients (Nat.two_pow_pos k)] at hProducts
  have hIdentity := h.identity
  rw [RunningProduct.identityPoly, h.size_eq, ← h1, sub_eq_zero] at hIdentity
  constructor
  case ofSize_eq => rw [h1, Domain.ofSize_two_pow hk, h.domain_eq]
  case valuesOf_f0 => exact hDomain.valuesOf_of_interpolate hF0
  case valuesOf_f1 => exact hDomain.valuesOf_of_interpolate hF1
  case start => exact h.start
  case eval_t =>
    intro i hi
    have hLt : i < w.domain.size := by rwa [h.size_eq, ← h1]
    have hEntry := hProducts.getElem?_eq hDomain hLt
    rw [List.getElem?_map, List.getElem?_range (h1 ▸ hi), Coeffs.eval_toPoly] at hEntry
    exact (Option.some.inj hEntry).symm
  case identity => exact hIdentity
  case holdsAt => exact h.holdsAt_self

theorem exists_ofRows_of_length_ne {rows0 rows1 : List Fr} (h : rows0.length ≠ rows1.length) :
    ∃ detail, ofRows rows0 rows1 = .error (.dimensionMismatch detail) := by
  have hRatio : ratio rows0 rows1 = .error (.rowCounts rows0.length rows1.length) := by
    rw [ratio, if_pos h]
    rfl
  exact ⟨_, ofRows_of_ratio_eq_error hRatio⟩

section Lengths

variable {rows0 rows1 : List Fr} (hLengths : rows0.length = rows1.length) (hNe : 0 ∉ rows1)

include hLengths hNe

theorem ofRows_of_ne (h : ∀ k ≤ maxLogSize, rows1.length ≠ 2 ^ k) :
    ofRows rows0 rows1 = .error (.domainSize rows1.length maxSize) := by
  have hQuotients : (List.zipWith (· / ·) rows0 rows1).length = rows1.length := by
    rw [List.length_zipWith, hLengths, min_self]
  rw [ofRows, ratio_of_zero_not_mem hLengths hNe]
  simp only [bind, Except.bind, hQuotients, Domain.ofSize_of_ne h]

theorem exists_ofRows_eq_error (h : rows1.length = 2 ^ maxLogSize) :
    ∃ detail, ofRows rows0 rows1 = .error (.transform detail) := by
  obtain ⟨f0, f1, t, -, hF1Length, hTLength, hRun, -⟩ :=
    exists_interpolated (hLengths.trans h) h le_rfl hNe
  obtain ⟨detail, hProduct⟩ := exists_fastMul_eq_error
    ((t.length_dilate (Fr.canonicalRoot maxLogSize)).trans hTLength) hF1Length
  refine ⟨detail, ?_⟩
  rw [hRun, Permutation.identity, hProduct]
  rfl

theorem ofRows_outcome_of_length_eq :
    WitnessOutcome rows1.length (rows0.prod = rows1.prod) (IsWitness rows0 rows1)
      (ofRows rows0 rows1) := by
  apply WitnessOutcome.of_cases
  · intro hSize
    exact ⟨_, ofRows_of_ne hLengths hNe hSize⟩
  · exact exists_ofRows_eq_error hLengths hNe
  · intro k hk h1 hProduct
    exact ofRows_of_prod_ne (hLengths.trans h1) h1 hk hNe hProduct
  · intro k hk h1 hProduct
    obtain ⟨w, hRun, hWitness⟩ := ofRows_of_prod_eq (hLengths.trans h1) h1 hk hNe hProduct
    exact ⟨w, hRun, hWitness.isWitness hk.le (hLengths.trans h1) h1 hRun⟩

end Lengths

/-- The checks of the rows come first, in this order, and a zero above the line is no failure. -/
theorem ofRows_outcome (rows0 rows1 : List Fr) :
    (rows0.length ≠ rows1.length →
      ∃ detail, ofRows rows0 rows1 = .error (.dimensionMismatch detail)) ∧
    (rows0.length = rows1.length →
      (ofRows rows0 rows1 = .error .divisionByZero ↔ 0 ∈ rows1) ∧
      (0 ∉ rows1 → WitnessOutcome rows1.length (rows0.prod = rows1.prod) (IsWitness rows0 rows1)
        (ofRows rows0 rows1))) := by
  refine ⟨exists_ofRows_of_length_ne, fun hLengths => ⟨⟨?_, ?_⟩, ?_⟩⟩
  · intro hError
    by_contra hNe
    exact (ofRows_outcome_of_length_eq hLengths hNe).ne_divisionByZero hError
  · intro hZero
    exact ofRows_of_ratio_eq_error (ratio_of_zero_mem hLengths hZero)
  · exact ofRows_outcome_of_length_eq hLengths

/-- Two rows in the other order, and a zero above the line and one below it. Three rows are refused
for the zero before they are refused for their number. -/
theorem ofRows_outcome_reordered :
    (∃ w, ofRows [2, 3] [3, 2] = .ok w ∧ IsWitness [2, 3] [3, 2] w) ∧
    ofRows [0, 3] [3, 2] = .error .nonZeroRemainder ∧
    ofRows [1, 1, 1] [1, 0, 1] = .error .divisionByZero ∧
    (∃ detail, ofRows [1, 1, 1] [1, 1, 1] = .error (.dimensionMismatch detail)) ∧
    ∃ detail, ofRows [1, 1] [1] = .error (.dimensionMismatch detail) := by
  have hTwo : ∃ k < 28, ([3, 2] : List Fr).length = 2 ^ k := ⟨1, by decide, rfl⟩
  refine ⟨?_, ?_, ?_, ?_, ?_⟩
  · exact (((ofRows_outcome [2, 3] [3, 2]).2 rfl).2 (by decide)).exists_witness hTwo (by decide)
  · exact (((ofRows_outcome [0, 3] [3, 2]).2 rfl).2 (by decide)).nonZeroRemainder_iff.mpr
      ⟨hTwo, by decide⟩
  · exact ((ofRows_outcome [1, 1, 1] [1, 0, 1]).2 rfl).1.mpr (by decide)
  · exact (((ofRows_outcome [1, 1, 1] [1, 1, 1]).2 rfl).2 (by decide)).dimensionMismatch_iff.mpr
      (by decide)
  · exact (ofRows_outcome [1, 1] [1]).1 (by decide)

end Witness

end Kzg.Permutation
