import Mathlib.Algebra.Polynomial.Div
import Kzg.Proofs.Coefficients.Polynomial
import Kzg.Coefficients.Division

/-! # Long division is division with remainder

Each step keeps the identity between the coefficients read so far, the digits and the window. The
digits that the quotient leaves out belong to powers that the numerator does not reach. Quotient and
remainder are the only lists of their lengths with the identity of a division, and the division is
exact exactly if there is a quotient at all. -/

namespace Kzg.Coeffs

open Polynomial

/-- What a division by `low + lead·x^d` has established once it has read the coefficients `read`. -/
structure DivisionInvariant (low : Coeffs) (lead : Fr) (read : Coeffs) (acc : Coeffs × Coeffs) :
    Prop where
  digits : acc.1.length = read.length
  window : acc.2.length = low.length
  identity : toPoly read =
    toPoly acc.1 * (toPoly low + C lead * X ^ low.length) + toPoly acc.2

theorem toPoly_zipWith_sub_mul {row low : Coeffs} (h : row.length = low.length) (digit : Fr) :
    toPoly (List.zipWith (fun r d => r - digit * d) row low) =
      toPoly row - C digit * toPoly low := by
  induction low generalizing row with
  | nil =>
    obtain rfl := List.length_eq_zero_iff.mp h
    simp
  | cons d low ih =>
    obtain ⟨r, row, rfl⟩ := List.exists_cons_of_length_eq_add_one h
    rw [List.zipWith_cons_cons, toPoly_cons, ih (by simpa using h)]
    simp only [toPoly_cons, C_sub, C_mul]
    ring

theorem toPoly_clearTop (low row : Coeffs) (digit : Fr) (h : row.length = low.length + 1) :
    toPoly (List.zipWith (fun r d => r - digit * d) row low) =
      toPoly row - C (row.getLastD 0) * X ^ low.length - C digit * toPoly low := by
  obtain ⟨rest, top, rfl⟩ : ∃ rest top, row = rest ++ [top] :=
    (List.eq_nil_or_concat' row).resolve_left (List.ne_nil_of_length_eq_add_one h)
  have hRest : rest.length = low.length := by simpa using h
  have hTop : List.zipWith (fun r d => r - digit * d) (rest ++ [top]) (low ++ []) =
      List.zipWith (fun r d => r - digit * d) rest low := by
    rw [List.zipWith_append hRest, List.zipWith_nil_right, List.append_nil]
  rw [List.append_nil] at hTop
  rw [hTop, toPoly_zipWith_sub_mul hRest, List.getLastD_concat, toPoly_append, hRest]
  simp only [toPoly_cons, toPoly_nil]
  ring

theorem DivisionInvariant.step {low : Coeffs} {lead : Fr} (hLead : lead ≠ 0) {read : Coeffs}
    {acc : Coeffs × Coeffs} (h : DivisionInvariant low lead read acc) (c : Fr) :
    DivisionInvariant low lead (c :: read) (divisionStep low lead⁻¹ c acc) where
  digits := by simp [divisionStep, h.digits]
  window := by simp [divisionStep, h.window]
  identity := by
    have hRow : (c :: acc.2).length = low.length + 1 := by rw [List.length_cons, h.window]
    have hDigit (top : Fr) : C top = C (top * lead⁻¹) * C lead := by
      rw [← C_mul, mul_assoc, inv_mul_cancel₀ hLead, mul_one]
    rw [divisionStep, toPoly_clearTop low _ _ hRow, hDigit ((c :: acc.2).getLastD 0)]
    simp only [toPoly_cons, h.identity]
    ring

theorem divisionInvariant_foldr (low : Coeffs) {lead : Fr} (hLead : lead ≠ 0) (num : Coeffs) :
    DivisionInvariant low lead num
      (num.foldr (divisionStep low lead⁻¹) ([], List.replicate low.length 0)) := by
  induction num with
  | nil => exact ⟨rfl, by simp, by simp⟩
  | cons c num ih => exact ih.step hLead c

theorem toPoly_take_of_degree_lt (p : Coeffs) {n : Nat} (h : (toPoly p).degree < n) :
    toPoly (p.take n) = toPoly p := by
  ext i
  rw [coeff_toPoly, List.getD_eq_getElem?_getD, List.getElem?_take]
  split
  · rw [coeff_toPoly, List.getD_eq_getElem?_getD]
  · rename_i hi
    have hZero := (degree_lt_iff_coeff_zero _ _).mp h i (not_lt.mp hi)
    rw [hZero, Option.getD_none]

/-- The product of the digits and the divisor cannot have more degrees than the numerator, since
the remainder has fewer than the divisor. -/
theorem DivisionInvariant.degree_lt {low : Coeffs} {lead : Fr} (hLead : lead ≠ 0) {read : Coeffs}
    {acc : Coeffs × Coeffs} (h : DivisionInvariant low lead read acc) :
    (toPoly acc.1).degree < (read.length - low.length : Nat) := by
  by_cases hZero : toPoly acc.1 = 0
  · rw [hZero, degree_zero]
    exact WithBot.bot_lt_coe _
  have hDivisor : (toPoly low + C lead * X ^ low.length).degree = (low.length : WithBot Nat) := by
    rw [degree_add_eq_right_of_degree_lt, degree_C_mul_X_pow _ hLead]
    rw [degree_C_mul_X_pow _ hLead]
    exact degree_toPoly_lt low
  have hProduct : (toPoly acc.1 * (toPoly low + C lead * X ^ low.length)).degree =
      (((toPoly acc.1).natDegree + low.length : Nat) : WithBot Nat) := by
    rw [degree_mul, hDivisor, degree_eq_natDegree hZero, Nat.cast_add]
  have hRemainder : (toPoly acc.2).degree < (low.length : WithBot Nat) := by
    rw [← h.window]
    exact degree_toPoly_lt acc.2
  have hRead := degree_toPoly_lt read
  rw [h.identity, degree_add_eq_left_of_degree_lt, hProduct, Nat.cast_lt] at hRead
  · rw [degree_eq_natDegree hZero, Nat.cast_lt]
    omega
  · rw [hProduct]
    exact hRemainder.trans_le (Nat.cast_le.mpr (Nat.le_add_left _ _))

theorem toPoly_dropLast_add (p : Coeffs) (h : p ≠ []) :
    toPoly p = toPoly p.dropLast + C (p.getLast h) * X ^ p.dropLast.length := by
  calc
    toPoly p = toPoly (p.dropLast ++ [p.getLast h]) := by rw [List.dropLast_append_getLast h]
    _ = toPoly p.dropLast + C (p.getLast h) * X ^ p.dropLast.length := by
      rw [toPoly_append, toPoly_cons, toPoly_nil, zero_mul, zero_add, mul_comm]

theorem divRem_eq (num den : Coeffs) (hTrim : den.trim ≠ []) :
    divRem num den =
      let low := den.trim.dropLast
      let acc := num.foldr (divisionStep low (den.trim.getLast hTrim)⁻¹)
        ([], List.replicate low.length 0)
      .ok (acc.1.take (num.length - low.length), acc.2) := by
  rw [divRem, List.getLast?_eq_some_getLast hTrim]
  simp only [Fr.inverse_of_ne_zero (getLast_trim_ne_zero den hTrim)]
  rfl

/-- The identity of a division with remainder, by lists with an entry for each degree that the
quotient and the remainder may have. -/
structure IsDivision (num den quot rem : Coeffs) : Prop where
  identity : toPoly num = toPoly quot * toPoly den.trim + toPoly rem
  length_quot : quot.length = num.length + 1 - den.trim.length
  length_rem : rem.length = den.trim.length - 1

/-- A remainder of smaller degree than the divisor leaves no choice. -/
theorem eq_and_eq_of_mul_add_eq {d q q' r r' : Fr[X]} (hr : r.degree < d.degree)
    (hr' : r'.degree < d.degree) (h : q * d + r = q' * d + r') : q = q' ∧ r = r' := by
  have hDivisor : d ≠ 0 := by
    rintro rfl
    exact not_lt_bot (degree_zero (R := Fr) ▸ hr)
  have hMultiple : r' - r = (q - q') * d := by linear_combination -h
  have hRem : r' - r = 0 := by
    apply eq_zero_of_dvd_of_degree_lt (Dvd.intro_left _ hMultiple.symm)
    exact (degree_sub_le _ _).trans_lt (max_lt hr' hr)
  rw [hRem, eq_comm, mul_eq_zero, or_iff_left hDivisor, sub_eq_zero] at hMultiple
  exact ⟨hMultiple, (sub_eq_zero.mp hRem).symm⟩

section Division

variable {num den quot rem : Coeffs} (hDen : toPoly den ≠ 0)

include hDen

theorem exists_divRem (num : Coeffs) :
    ∃ quot rem, divRem num den = .ok (quot, rem) ∧ IsDivision num den quot rem := by
  have hTrim := trim_ne_nil hDen
  have hLead := getLast_trim_ne_zero den hTrim
  have hInvariant := divisionInvariant_foldr den.trim.dropLast hLead num
  refine ⟨_, _, divRem_eq num den hTrim, ?_⟩
  constructor
  case identity =>
    rw [toPoly_take_of_degree_lt _ (hInvariant.degree_lt hLead), hInvariant.identity,
      ← toPoly_dropLast_add den.trim hTrim]
  case length_quot =>
    have hPos : 0 < den.trim.length := List.length_pos_iff.mpr hTrim
    rw [List.length_take, hInvariant.digits, List.length_dropLast]
    omega
  case length_rem => rw [hInvariant.window, List.length_dropLast]

theorem IsDivision.degree_rem_lt (h : IsDivision num den quot rem) :
    (toPoly rem).degree < (toPoly den).degree := by
  have hTrim := trim_ne_nil hDen
  rw [degree_toPoly_trim hTrim, ← h.length_rem]
  exact degree_toPoly_lt rem

theorem IsDivision.unique {quot' rem' : Coeffs} (h : IsDivision num den quot rem)
    (h' : IsDivision num den quot' rem') : quot = quot' ∧ rem = rem' := by
  have hIdentities := h.identity.symm.trans h'.identity
  rw [toPoly_trim] at hIdentities
  obtain ⟨hQuot, hRem⟩ :=
    eq_and_eq_of_mul_add_eq (h.degree_rem_lt hDen) (h'.degree_rem_lt hDen) hIdentities
  exact ⟨toPoly_injective (h.length_quot.trans h'.length_quot.symm) hQuot,
    toPoly_injective (h.length_rem.trans h'.length_rem.symm) hRem⟩

end Division

theorem divRem_eq_error_iff (num den : Coeffs) :
    divRem num den = .error .divisionByZero ↔ ∀ c ∈ den, c = 0 := by
  rw [← toPoly_eq_zero_iff_forall]
  constructor
  · intro h
    by_contra hDen
    obtain ⟨quot, rem, hRun, -⟩ := exists_divRem hDen num
    rw [hRun] at h
    cases h
  · intro h
    rw [divRem, (toPoly_eq_zero_iff den).mp h]
    rfl

section Exact

variable {num den : Coeffs}

theorem all_eq_zero_iff (p : Coeffs) : p.all (· = 0) = true ↔ toPoly p = 0 := by
  simp only [List.all_eq_true, decide_eq_true_eq, toPoly_eq_zero_iff_forall]

theorem divExact_of_divRem {quot rem : Coeffs} (h : divRem num den = .ok (quot, rem)) :
    divExact num den = if toPoly rem = 0 then .ok quot else .error .nonZeroRemainder := by
  rw [divExact, h]
  simp only [bind, Except.bind, all_eq_zero_iff]
  rfl

/-- An exact division finds the quotient that there is. -/
theorem exists_divExact_of_mul_eq (hDen : toPoly den ≠ 0) {q : Fr[X]}
    (h : toPoly num = q * toPoly den) :
    ∃ quot, divExact num den = .ok quot ∧ toPoly quot = q ∧
      quot.length = num.length + 1 - den.trim.length := by
  obtain ⟨quot, rem, hRun, hDivision⟩ := exists_divRem hDen num
  have hIdentities : toPoly quot * toPoly den + toPoly rem = q * toPoly den + 0 := by
    rw [add_zero, ← h, hDivision.identity, toPoly_trim]
  obtain ⟨hQuot, hRem⟩ := eq_and_eq_of_mul_add_eq (hDivision.degree_rem_lt hDen)
    (by rwa [degree_zero, bot_lt_iff_ne_bot, Ne, degree_eq_bot]) hIdentities
  exact ⟨quot, (divExact_of_divRem hRun).trans (if_pos hRem), hQuot, hDivision.length_quot⟩

theorem divExact_of_mul_eq (hDen : toPoly den ≠ 0) {q : Fr[X]}
    (h : toPoly num = q * toPoly den) : ∃ quot, divExact num den = .ok quot ∧ toPoly quot = q := by
  obtain ⟨quot, hRun, hQuot, -⟩ := exists_divExact_of_mul_eq hDen h
  exact ⟨quot, hRun, hQuot⟩

theorem divExact_of_dvd (hDen : toPoly den ≠ 0) (h : toPoly den ∣ toPoly num) :
    ∃ quot : Coeffs, divExact num den = .ok quot ∧ toPoly num = quot.toPoly * toPoly den := by
  obtain ⟨q, hq⟩ := exists_eq_mul_left_of_dvd h
  obtain ⟨quot, hRun, hQuot⟩ := divExact_of_mul_eq hDen hq
  exact ⟨quot, hRun, by rw [hQuot, hq]⟩

theorem divExact_of_not_dvd (hDen : toPoly den ≠ 0) (h : ¬ toPoly den ∣ toPoly num) :
    divExact num den = .error .nonZeroRemainder := by
  obtain ⟨quot, rem, hRun, hDivision⟩ := exists_divRem hDen num
  have hRem : ¬ toPoly rem = 0 := by
    intro hRem
    rw [hDivision.identity, hRem, add_zero, toPoly_trim] at h
    exact h (dvd_mul_left _ _)
  exact (divExact_of_divRem hRun).trans (if_neg hRem)

end Exact

end Kzg.Coeffs
