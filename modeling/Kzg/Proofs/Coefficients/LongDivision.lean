import Kzg.Proofs.Traversal
import Kzg.Proofs.Coefficients.Division

/-! # Long division in place

A division may as well be carried out in a copy of the numerator. From the top down each digit takes
its multiple of the divisor off the entries that the divisor then stands over, which clears the last
one of them. A digit that is zero takes nothing off and is skipped, and a numerator shorter than the
divisor is the remainder as it is. After each step the digits found and the entries that are not
cleared yet make up the numerator, so that the identity of a division holds in the end. -/

namespace Kzg.Coeffs

open Polynomial

/-- Takes a multiple of an entry of the divisor off the entry that it stands over. -/
def takeOffAt (digit : Fr) (i : Nat) (rem : Coeffs) (entry : Fr × Nat) : Option Coeffs := do
  store rem (i + entry.2) ((← rem[i + entry.2]?) - digit * entry.1)

/-- The same for the whole divisor, which stands over the entries from index `i` on. -/
def takeOff (den : Coeffs) (digit : Fr) (i : Nat) (rem : Coeffs) : Option Coeffs :=
  den.zipIdx.foldlM (takeOffAt digit i) rem

def digitStep (den : Coeffs) (leadInverse : Fr) (acc : Coeffs × Coeffs) (i : Nat) :
    Option (Coeffs × Coeffs) := do
  let digit := (← acc.2[i + (den.length - 1)]?) * leadInverse
  let quot ← store acc.1 i digit
  if digit = 0 then return (quot, acc.2)
  return (quot, ← takeOff den digit i acc.2)

/-- The division in place. There are no lists in the answer if a position is ever outside of one. -/
def divRemInPlace (num den : Coeffs) : Except PolyError (Option (Coeffs × Coeffs)) :=
  match (trim den).getLast? with
  | none => .error .divisionByZero
  | some lead => do
    let leadInverse ← lead.inverse
    let remLength := (trim den).length - 1
    if num.length < (trim den).length then return some ([], num.padTo remLength)
    let quotLength := num.length - (trim den).length + 1
    let acc := (List.range quotLength).reverse.foldlM (digitStep (trim den) leadInverse)
      (List.replicate quotLength 0, num)
    return acc.map fun acc => (acc.1, acc.2.take remLength)

section Step

variable (digit : Fr) {i : Nat}

theorem takeOffAt_append {front : Coeffs} {j : Nat} (hFront : i + j = front.length) (d r : Fr)
    (rest : Coeffs) : takeOffAt digit i (front ++ r :: rest) (d, j) =
      some (front ++ (r - digit * d) :: rest) := by
  simp only [takeOffAt, getElem?_append_cons hFront, store_append hFront, bind, Option.bind]

/-- The loop over the entries of the divisor from the `j`-th one on. -/
theorem foldlM_takeOffAt {den row : Coeffs} (hRow : row.length = den.length) {front : Coeffs}
    {j : Nat} (hFront : i + j = front.length) (rest : Coeffs) :
    (den.zipIdx j).foldlM (takeOffAt digit i) (front ++ (row ++ rest)) =
      some (front ++ (List.zipWith (fun r d => r - digit * d) row den ++ rest)) := by
  induction den generalizing row front j with
  | nil =>
    obtain rfl := List.length_eq_zero_iff.mp hRow
    rfl
  | cons d den ih =>
    obtain ⟨r, row, rfl⟩ := List.exists_cons_of_length_eq_add_one hRow
    have hNext : i + (j + 1) = (front ++ [r - digit * d]).length := by
      rw [List.length_append, List.length_singleton, ← hFront, Nat.add_assoc]
    have hRest := ih (by simpa using hRow) hNext
    rw [List.append_assoc, List.singleton_append] at hRest
    rw [List.cons_append, List.zipIdx_cons, List.foldlM_cons, takeOffAt_append digit hFront,
      Option.bind_eq_bind, Option.bind_some, hRest, List.append_assoc]
    rfl

section Top

variable {low row front : Coeffs} (hRow : row.length = low.length) (hFront : i = front.length)
  {lead : Fr} (hLead : lead ≠ 0)

include hRow hFront hLead

/-- The entry under the top of the divisor is cleared. -/
theorem takeOff_append (top : Fr) (rest : Coeffs) :
    takeOff (low ++ [lead]) (top * lead⁻¹) i (front ++ (row ++ top :: rest)) =
      some (front ++ (List.zipWith (fun r d => r - top * lead⁻¹ * d) row low ++ 0 :: rest)) := by
  have hWhole : (row ++ [top]).length = (low ++ [lead]).length := by simp [hRow]
  have hLoop := foldlM_takeOffAt (top * lead⁻¹) hWhole (j := 0) hFront rest
  rwa [List.zipWith_append hRow, List.zipWith_cons_cons, List.zipWith_nil_left,
    inv_mul_cancel_right₀ hLead, sub_self, List.append_assoc, List.append_assoc,
    List.singleton_append, List.singleton_append] at hLoop

/-- Skipped entries are those that nothing would have been taken off: the digit is zero only if
the top entry is. -/
theorem digitStep_append (top : Fr) (digits rest : Coeffs) :
    digitStep (low ++ [lead]) lead⁻¹
        (List.replicate (i + 1) 0 ++ digits, front ++ (row ++ top :: rest)) i =
      some (List.replicate i 0 ++ top * lead⁻¹ :: digits,
        front ++ (List.zipWith (fun r d => r - top * lead⁻¹ * d) row low ++ 0 :: rest)) := by
  have hTop : i + ((low ++ [lead]).length - 1) = (front ++ row).length := by
    rw [List.length_append, List.length_append, List.length_singleton, hFront, hRow,
      Nat.add_sub_cancel]
  have hRead : (front ++ (row ++ top :: rest))[i + ((low ++ [lead]).length - 1)]? = some top := by
    rw [← List.append_assoc, getElem?_append_cons hTop]
  have hStore : store (List.replicate (i + 1) 0 ++ digits) i (top * lead⁻¹) =
      some (List.replicate i 0 ++ top * lead⁻¹ :: digits) := by
    rw [List.replicate_succ', List.append_assoc, List.singleton_append]
    exact store_append (List.length_replicate).symm 0 digits _
  simp only [digitStep, hRead, hStore, takeOff_append hRow hFront hLead, bind, Option.bind]
  split
  · rename_i hZero
    have hNothing : List.zipWith (fun r d => r - top * lead⁻¹ * d) row low = row := by
      simp only [hZero, zero_mul, sub_zero]
      rw [← List.map_uncurry_zip_eq_zipWith]
      exact List.map_fst_zip hRow.le
    have hTopZero : top = 0 := (mul_eq_zero.mp hZero).resolve_right (inv_ne_zero hLead)
    rw [hNothing, hTopZero]
    rfl
  · rfl

end Top

end Step

/-- The digits from `i` on are found, and the entries that are not cleared yet are kept. -/
structure LeavesOver (num den : Coeffs) (i : Nat) (digits kept : Coeffs) : Prop where
  length_kept : kept.length + 1 = i + den.length
  length_digits : digits.length + kept.length = num.length
  identity : toPoly num = toPoly digits * toPoly den * X ^ i + toPoly kept

/-- The two lists with the digits that are not found yet and the entries that are cleared. -/
def inPlace (i : Nat) (digits kept : Coeffs) : Coeffs × Coeffs :=
  (List.replicate i 0 ++ digits, kept ++ List.replicate digits.length 0)

theorem LeavesOver.start {num den : Coeffs} (h : den.length ≤ num.length) :
    LeavesOver num den (num.length - den.length + 1) [] num where
  length_kept := by omega
  length_digits := Nat.zero_add _
  identity := by simp

theorem LeavesOver.isDivision {num den digits kept : Coeffs}
    (h : LeavesOver num den.trim 0 digits kept) : IsDivision num den digits kept := by
  have hKept := h.length_kept
  have hDigits := h.length_digits
  constructor
  case identity => rw [h.identity, pow_zero, mul_one]
  case length_quot => omega
  case length_rem => omega

section Run

variable {num low : Coeffs} {lead : Fr} (hLead : lead ≠ 0)

/-- The divisor stands over the last of the entries that are kept. -/
theorem LeavesOver.exists_row {i : Nat} {digits kept : Coeffs}
    (h : LeavesOver num (low ++ [lead]) (i + 1) digits kept) : ∃ front row top,
      kept = front ++ (row ++ [top]) ∧ i = front.length ∧ row.length = low.length := by
  have hKept := h.length_kept
  have hRow : (kept.drop i).length = low.length + 1 := by
    rw [List.length_append, List.length_singleton] at hKept
    rw [List.length_drop]
    omega
  obtain ⟨row, top, hSplit⟩ := (List.eq_nil_or_concat' (kept.drop i)).resolve_left
    (List.ne_nil_of_length_eq_add_one hRow)
  rw [hSplit, List.length_append, List.length_singleton] at hRow
  refine ⟨kept.take i, row, top, ?_, ?_, Nat.add_right_cancel hRow⟩
  · rw [← hSplit, List.take_append_drop]
  · rw [List.length_take]
    omega

include hLead

/-- A row is the multiple of the divisor that clears its top and what that leaves of it. -/
theorem toPoly_row {row : Coeffs} (hRow : row.length = low.length) (top : Fr) :
    toPoly (row ++ [top]) = C (top * lead⁻¹) * toPoly (low ++ [lead]) +
      toPoly (List.zipWith (fun r d => r - top * lead⁻¹ * d) row low) := by
  have hTop : C top = C (top * lead⁻¹) * C lead := by
    rw [← C_mul, inv_mul_cancel_right₀ hLead]
  rw [toPoly_zipWith_sub_mul hRow, toPoly_append, toPoly_append, hRow]
  simp only [toPoly_cons, toPoly_nil, hTop]
  ring

theorem LeavesOver.exists_step {i : Nat} {digits kept : Coeffs}
    (h : LeavesOver num (low ++ [lead]) (i + 1) digits kept) : ∃ digit kept',
      digitStep (low ++ [lead]) lead⁻¹ (inPlace (i + 1) digits kept) i =
        some (inPlace i (digit :: digits) kept') ∧
      LeavesOver num (low ++ [lead]) i (digit :: digits) kept' := by
  obtain ⟨front, row, top, rfl, hFront, hRow⟩ := h.exists_row
  have hDigits := h.length_digits
  refine ⟨top * lead⁻¹, front ++ List.zipWith (fun r d => r - top * lead⁻¹ * d) row low, ?_, ?_⟩
  · simp only [inPlace, List.append_assoc, List.singleton_append, List.length_cons]
    rw [digitStep_append hRow hFront hLead]
    rfl
  · constructor
    case length_kept => simp [hRow, ← hFront, Nat.add_assoc]
    case length_digits =>
      simp only [List.length_append, List.length_cons, List.length_nil, List.length_zipWith, hRow,
        min_self] at hDigits ⊢
      omega
    case identity =>
      rw [h.identity, toPoly_append front, toPoly_append front, toPoly_row hLead hRow, toPoly_cons,
        ← hFront]
      ring

/-- The digits come one after the other from the top down. -/
theorem LeavesOver.exists_run {i : Nat} {digits kept : Coeffs}
    (h : LeavesOver num (low ++ [lead]) i digits kept) : ∃ digits' kept',
      (List.range i).reverse.foldlM (digitStep (low ++ [lead]) lead⁻¹) (inPlace i digits kept) =
        some (inPlace 0 digits' kept') ∧
      LeavesOver num (low ++ [lead]) 0 digits' kept' := by
  induction i generalizing digits kept with
  | zero => exact ⟨digits, kept, rfl, h⟩
  | succ i ih =>
    obtain ⟨digit, kept', hStep, hNext⟩ := h.exists_step hLead
    obtain ⟨digits', kept'', hRun, hEnd⟩ := ih hNext
    refine ⟨digits', kept'', ?_, hEnd⟩
    rw [List.range_succ, List.reverse_append, List.reverse_singleton, List.singleton_append,
      List.foldlM_cons, hStep]
    exact hRun

end Run

theorem exists_divRemInPlace {den : Coeffs} (hDen : toPoly den ≠ 0) (num : Coeffs) :
    ∃ quot rem, divRemInPlace num den = .ok (some (quot, rem)) ∧ IsDivision num den quot rem := by
  have hTrim := trim_ne_nil hDen
  have hLead := getLast_trim_ne_zero den hTrim
  rw [divRemInPlace, List.getLast?_eq_some_getLast hTrim]
  simp only [Fr.inverse_of_ne_zero hLead, bind, Except.bind, pure, Except.pure]
  by_cases hShort : num.length < den.trim.length
  · refine ⟨[], num.padTo (den.trim.length - 1), if_pos hShort, ?_⟩
    constructor
    case identity => simp
    case length_quot =>
      rw [List.length_nil]
      omega
    case length_rem => exact length_padTo (by omega)
  · have hStart := LeavesOver.start (Nat.le_of_not_lt hShort)
    rw [← List.dropLast_append_getLast hTrim] at hStart
    obtain ⟨digits, kept, hRun, hEnd⟩ := hStart.exists_run hLead
    rw [List.dropLast_append_getLast hTrim] at hRun hEnd
    have hKept : kept.length = den.trim.length - 1 := hEnd.isDivision.length_rem
    simp only [inPlace, List.append_nil, List.length_nil, List.replicate_zero,
      List.nil_append] at hRun
    refine ⟨digits, kept, ?_, hEnd.isDivision⟩
    rw [if_neg hShort, hRun, Option.map_some, List.take_left' hKept]

theorem divRemInPlace_eq (num den : Coeffs) :
    divRemInPlace num den = (divRem num den).map some := by
  by_cases hDen : toPoly den = 0
  · rw [divRemInPlace, divRem, (toPoly_eq_zero_iff den).mp hDen]
    rfl
  · obtain ⟨quot, rem, hRun, hDivision⟩ := exists_divRem hDen num
    obtain ⟨quot', rem', hInPlace, hDivision'⟩ := exists_divRemInPlace hDen num
    obtain ⟨rfl, rfl⟩ := hDivision.unique hDen hDivision'
    rw [hRun, hInPlace]
    rfl

/-- Both forms of the division give the same. Only a denominator without a nonzero entry is refused.
For any other one the identity and the lengths determine what the division returns, and an exact
division finds the quotient or there is none. -/
theorem division_unique_and_exact (num den : Coeffs) :
    divRemInPlace num den = (divRem num den).map some ∧
    (divRem num den = .error .divisionByZero ↔ ∀ c ∈ den, c = 0) ∧
    ((∃ c ∈ den, c ≠ 0) →
      (∃ quot rem, divRem num den = .ok (quot, rem) ∧ IsDivision num den quot rem ∧
        ∀ quot' rem', IsDivision num den quot' rem' → quot' = quot ∧ rem' = rem) ∧
      (∀ q : Fr[X], q * toPoly den = toPoly num →
        ∃ quot, divExact num den = .ok quot ∧ toPoly quot = q ∧
          quot.length = num.length + 1 - den.trim.length) ∧
      (divExact num den = .error .nonZeroRemainder ↔
        ¬ ∃ q : Fr[X], q * toPoly den = toPoly num)) := by
  refine ⟨divRemInPlace_eq num den, divRem_eq_error_iff num den, fun hEntry => ?_⟩
  have hDen : toPoly den ≠ 0 := by
    rw [Ne, toPoly_eq_zero_iff_forall]
    simpa using hEntry
  have hExact (q : Fr[X]) (hq : q * toPoly den = toPoly num) :=
    exists_divExact_of_mul_eq hDen hq.symm
  refine ⟨?_, hExact, ?_⟩
  · obtain ⟨quot, rem, hRun, hDivision⟩ := exists_divRem hDen num
    exact ⟨quot, rem, hRun, hDivision, fun quot' rem' h => h.unique hDen hDivision⟩
  · constructor
    · rintro hError ⟨q, hq⟩
      obtain ⟨quot, hRun, -⟩ := hExact q hq
      rw [hError] at hRun
      cases hRun
    · intro hNone
      apply divExact_of_not_dvd hDen
      rintro ⟨q, hq⟩
      exact hNone ⟨q, by rw [hq, mul_comm]⟩

/-- Zeros at the top of both operands, and a numerator that is one off a multiple. -/
theorem division_unique_and_exact_zerosAtTop :
    (∃ c ∈ [2, 1, 0], c ≠ (0 : Fr)) ∧
    (∃ quot rem, divRem [7, 5, 1, 0] [2, 1, 0] = .ok (quot, rem) ∧
      IsDivision [7, 5, 1, 0] [2, 1, 0] quot rem) ∧
    (∃ quot, divExact [6, 5, 1, 0] [2, 1, 0] = .ok quot ∧ toPoly quot = toPoly [3, 1] ∧
      quot.length = 3) ∧
    divRem [7, 5, 1, 0] [0, 0] = .error .divisionByZero := by
  have hEntry : ∃ c ∈ [2, 1, 0], c ≠ (0 : Fr) := ⟨2, by decide, by decide⟩
  obtain ⟨quot, rem, hRun, hDivision, -⟩ :=
    ((division_unique_and_exact [7, 5, 1, 0] [2, 1, 0]).2.2 hEntry).1
  refine ⟨hEntry, ⟨quot, rem, hRun, hDivision⟩, ?_, ?_⟩
  · apply ((division_unique_and_exact [6, 5, 1, 0] [2, 1, 0]).2.2 hEntry).2.1
    have hProduct : mul [3, 1] [2, 1, 0] = [6, 5, 1, 0] := by decide
    rw [← toPoly_mul, hProduct]
  · exact (division_unique_and_exact [7, 5, 1, 0] [0, 0]).2.1.mpr (by decide)

end Kzg.Coeffs
