import Kzg.Proofs.Fourier.Product

/-! # Conversions between the forms

Coefficients and values on a domain denote a polynomial in `x`. A conversion fails or keeps it,
whatever domains lie on the way, and with it the value at every point and the coefficients up to
the leading one. Only values on a domain that is too small cannot be had. -/

namespace Kzg

open Polynomial

namespace Coeffs

section OnDomain

variable {d : Domain}

theorem toEvalsOn_of_lt {p : Coeffs} (h : d.size < p.trim.length) :
    p.toEvalsOn d = .error (.tooManyCoefficients p.trim.length d.size) := by
  rw [toEvalsOn, Domain.valuesOf, if_pos h]
  rfl

theorem exists_toEvalsOn (hDomain : d.Built) {p : Coeffs} (h : p.trim.length ≤ d.size) :
    ∃ e, p.toEvalsOn d = .ok e ∧ e.domain = d ∧ e.interpolant = p.toPoly := by
  have hValues := hDomain.valuesOf_eq h
  simp only [← eval_toPoly, toPoly_trim] at hValues
  obtain ⟨k, -, root, -, rfl⟩ := hDomain.exists_root
  have hInterpolates : (Domain.cyclic root k).Interpolates
      ((List.range (2 ^ k)).map fun i => p.toPoly.eval (root ^ i)) p.toPoly :=
    (Domain.interpolates_cyclic_iff ..).mpr ⟨(length_trim_le_iff ..).mp h, rfl⟩
  have hLength := hInterpolates.length_eq hDomain
  let e : EvalForm := ⟨_, Domain.cyclic root k, hLength⟩
  refine ⟨e, ?_, rfl, (EvalForm.interpolates_interpolant (e := e) hDomain).unique hDomain
    hInterpolates⟩
  rw [toEvalsOn, hValues]
  exact dif_pos hLength

theorem exists_toEvalsOn_error_iff (hDomain : d.Built) (p : Coeffs) :
    (∃ e, p.toEvalsOn d = .error e) ↔ d.size < p.trim.length := by
  constructor
  · intro h
    by_contra hLength
    obtain ⟨e, hRun, -⟩ := exists_toEvalsOn hDomain (not_lt.mp hLength)
    exact exists_error_iff.mp h ⟨e, hRun⟩
  · intro h
    exact ⟨_, toEvalsOn_of_lt h⟩

theorem interpolant_of_toEvalsOn (hDomain : d.Built) {p : Coeffs} {e : EvalForm}
    (h : p.toEvalsOn d = .ok e) : e.domain.Built ∧ e.interpolant = p.toPoly := by
  have hFits : p.trim.length ≤ d.size := by
    rw [← not_lt, ← exists_toEvalsOn_error_iff hDomain, exists_error_iff, not_not]
    exact ⟨e, h⟩
  obtain ⟨e', hRun, rfl, hPoly⟩ := exists_toEvalsOn hDomain hFits
  cases hRun.symm.trans h
  exact ⟨hDomain, hPoly⟩

end OnDomain

/-- The size that is chosen is the least power of two for the stored coefficients, so that only the
limit on sizes is left to fail. -/
theorem exists_toEvals_error_iff (p : Coeffs) :
    ∃ k, IsLeast {k | max p.length 1 ≤ 2 ^ k} k ∧
      ((∃ e, p.toEvals = .error e) ↔ 2 ^ 28 < 2 ^ k) := by
  obtain ⟨k, hSize, hLeast⟩ := exists_ceilPowerOfTwo (max p.length 1)
  refine ⟨k, ⟨(hLeast k).mpr le_rfl, fun m hm => (hLeast m).mp hm⟩, ?_⟩
  rw [Nat.pow_lt_pow_iff_right one_lt_two, toEvals, hSize]
  constructor
  · intro h
    by_contra hk
    have hDomain := Domain.built_cyclic (not_lt.mp hk) (Fr.canonicalRoot_primitive (not_lt.mp hk))
    have hFits : p.trim.length ≤ 2 ^ k :=
      p.length_trim_le.trans ((le_max_left _ _).trans ((hLeast k).mpr le_rfl))
    rw [Domain.ofSize_two_pow (not_lt.mp hk)] at h
    exact hFits.not_gt ((exists_toEvalsOn_error_iff hDomain p).mp h)
  · intro hk
    have hSize (j : Nat) (hj : j ≤ maxLogSize) : 2 ^ k ≠ 2 ^ j := by
      intro hEq
      exact absurd (Nat.pow_right_injective le_rfl hEq) (hj.trans_lt hk).ne'
    rw [Domain.ofSize_of_ne hSize]
    exact ⟨_, rfl⟩

end Coeffs

namespace Poly

/-- Values are on a domain that can be built. -/
def Valid : Poly → Prop
  | coeffs _ => True
  | evals e => e.domain.Built

/-- The polynomial in `x` of a form. -/
noncomputable def meaning : Poly → Fr[X]
  | coeffs p => p.toPoly
  | evals e => e.interpolant

/-- The coefficients up to the leading one. -/
def trimmedCoeffs (p : Poly) : Except PolyError Coeffs :=
  return (← p.toCoeffs).trim

section Meaning

variable {p : Poly} (h : p.Valid)

include h

theorem eval_eq_eval_meaning (x : Fr) : p.eval x = .ok (p.meaning.eval x) := by
  cases p with
  | coeffs c => exact congrArg Except.ok (c.eval_toPoly x).symm
  | evals e => exact EvalForm.eval_eq h x

theorem exists_toCoeffs : ∃ c, p.toCoeffs = .ok c ∧ c.toPoly = p.meaning := by
  cases p with
  | coeffs c => exact ⟨c, rfl, rfl⟩
  | evals e =>
    obtain ⟨c, hRun, hPoly, -⟩ := EvalForm.exists_toCoeffs h
    exact ⟨c, hRun, hPoly⟩

end Meaning

/-- What a polynomial in either form can be converted by. -/
inductive Conversion
  | trim
  | intoCoeffs
  | intoEvals
  | intoEvalsOn (domain : Domain) (built : domain.Built)

namespace Conversion

def perform : Conversion → Poly → Except PolyError Poly
  | trim, p => p.trim
  | intoCoeffs, p => p.intoCoeffs
  | intoEvals, p => p.intoEvals
  | intoEvalsOn domain _, p => p.intoEvalsOn domain

theorem valid_of_perform {conversion : Conversion} {p q : Poly} (h : p.Valid)
    (hRun : conversion.perform p = .ok q) : q.Valid ∧ q.meaning = p.meaning := by
  cases conversion with
  | trim =>
    cases p with
    | coeffs c =>
      cases hRun
      exact ⟨trivial, c.toPoly_trim⟩
    | evals e => cases hRun
  | intoCoeffs =>
    obtain ⟨c, hCoeffs, hPoly⟩ := exists_toCoeffs h
    rw [perform, Poly.intoCoeffs, hCoeffs] at hRun
    cases hRun
    exact ⟨trivial, hPoly⟩
  | intoEvals =>
    cases p with
    | coeffs c =>
      have hForm : (do return evals (← c.toEvals) : Except PolyError Poly) = .ok q := hRun
      obtain ⟨e, hEvals, hq⟩ := bind_eq_ok_iff.mp hForm
      obtain ⟨d, hSize, hOn⟩ := bind_eq_ok_iff.mp hEvals
      cases hq
      exact Coeffs.interpolant_of_toEvalsOn (.ofSize hSize) hOn
    | evals e => cases hRun
  | intoEvalsOn d built =>
    cases p with
    | coeffs c =>
      have hForm : (do return evals (← c.toEvalsOn d) : Except PolyError Poly) = .ok q := hRun
      obtain ⟨e, hOn, hq⟩ := bind_eq_ok_iff.mp hForm
      cases hq
      exact Coeffs.interpolant_of_toEvalsOn built hOn
    | evals e => cases hRun

end Conversion

/-- A conversion that fails leaves the polynomial as it is. -/
def attempt (p : Poly) (conversion : Conversion) : Poly :=
  match conversion.perform p with
  | .ok q => q
  | .error _ => p

def convert (p : Poly) (conversions : List Conversion) : Poly :=
  conversions.foldl attempt p

section Convert

variable {p : Poly} (h : p.Valid)

include h

theorem valid_attempt (conversion : Conversion) :
    (p.attempt conversion).Valid ∧ (p.attempt conversion).meaning = p.meaning := by
  rw [attempt]
  cases hRun : conversion.perform p with
  | ok q => exact conversion.valid_of_perform h hRun
  | error e => exact ⟨h, rfl⟩

theorem valid_convert (conversions : List Conversion) :
    (p.convert conversions).Valid ∧ (p.convert conversions).meaning = p.meaning := by
  induction conversions generalizing p with
  | nil => exact ⟨h, rfl⟩
  | cons conversion conversions ih =>
    obtain ⟨hStep, hMeaning⟩ := valid_attempt h conversion
    obtain ⟨hRest, hSame⟩ := ih hStep
    exact ⟨hRest, hSame.trans hMeaning⟩

end Convert

/-- Everything that can be asked of a polynomial in either form has the same answer. -/
structure Agrees (p q : Poly) : Prop where
  eval : ∀ x, ∃ v, p.eval x = .ok v ∧ q.eval x = .ok v
  trimmedCoeffs : ∃ c, p.trimmedCoeffs = .ok c ∧ q.trimmedCoeffs = .ok c

theorem agrees_of_meaning_eq {p q : Poly} (hp : p.Valid) (hq : q.Valid)
    (h : q.meaning = p.meaning) : p.Agrees q where
  eval x := by
    refine ⟨p.meaning.eval x, eval_eq_eval_meaning hp x, ?_⟩
    rw [eval_eq_eval_meaning hq, h]
  trimmedCoeffs := by
    obtain ⟨c, hRun, hPoly⟩ := exists_toCoeffs hp
    obtain ⟨c', hRun', hPoly'⟩ := exists_toCoeffs hq
    have hTrim : c'.trim = c.trim := Coeffs.trim_eq_of_toPoly_eq (by rw [hPoly, hPoly', h])
    refine ⟨c.trim, ?_, ?_⟩
    · rw [Poly.trimmedCoeffs, hRun]
      rfl
    · rw [Poly.trimmedCoeffs, hRun', ← hTrim]
      rfl

theorem convert_append (p : Poly) (conversions : List Conversion) (next : Conversion) :
    p.convert (conversions ++ [next]) = (p.convert conversions).attempt next :=
  List.foldl_append

/-- After any conversions the polynomial answers as before them, and so it does after one more,
which fails and changes nothing or succeeds. Values are only refused for the size of the domain. -/
theorem convert_agrees {p : Poly} (h : p.Valid) (conversions : List Conversion) :
    p.Agrees (p.convert conversions) ∧
    (∀ next : Conversion,
      (∃ e, next.perform (p.convert conversions) = .error e ∧
        p.convert (conversions ++ [next]) = p.convert conversions) ∨
      ∃ q, next.perform (p.convert conversions) = .ok q ∧
        p.convert (conversions ++ [next]) = q ∧ p.Agrees q) ∧
    (∀ (c : Coeffs) (d : Domain) (built : d.Built),
      (∃ e, (Conversion.intoEvalsOn d built).perform (coeffs c) = .error e) ↔
        d.size < c.trim.length) ∧
    ∀ c : Coeffs, ∃ k, IsLeast {k | max c.length 1 ≤ 2 ^ k} k ∧
      ((∃ e, Conversion.intoEvals.perform (coeffs c) = .error e) ↔ 2 ^ 28 < 2 ^ k) := by
  obtain ⟨hValid, hMeaning⟩ := valid_convert h conversions
  refine ⟨agrees_of_meaning_eq h hValid hMeaning, ?_, ?_, ?_⟩
  · intro next
    rw [convert_append, attempt]
    cases hRun : next.perform (p.convert conversions) with
    | error e => exact .inl ⟨e, rfl, rfl⟩
    | ok q =>
      obtain ⟨hNext, hSame⟩ := next.valid_of_perform hValid hRun
      exact .inr ⟨q, rfl, rfl, agrees_of_meaning_eq h hNext (hSame.trans hMeaning)⟩
  · intro c d built
    have hForm : (Conversion.intoEvalsOn d built).perform (coeffs c) =
        (evals <$> c.toEvalsOn d) := rfl
    rw [hForm, exists_error_map_iff, Coeffs.exists_toEvalsOn_error_iff built]
  · intro c
    have hForm : Conversion.intoEvals.perform (coeffs c) = (evals <$> c.toEvals) := rfl
    rw [hForm, exists_error_map_iff]
    exact c.exists_toEvals_error_iff

/-- Values move between two domains of the same size. Trimming fails on them, and the last domain is
too small for the three coefficients. -/
theorem convert_agrees_otherGenerator :
    let d := Domain.cyclic (-Fr.canonicalRoot 2) 2
    let canonical := Domain.cyclic (Fr.canonicalRoot 2) 2
    let half := Domain.cyclic (Fr.canonicalRoot 1) 1
    let p := evals ⟨[3, 4, 3, 4], d, rfl⟩
    ∃ (hCanonical : canonical.Built) (hHalf : half.Built),
      p.Valid ∧
      p.Agrees (p.convert [.intoCoeffs, .intoEvalsOn canonical hCanonical, .trim, .intoCoeffs,
        .intoEvalsOn half hHalf]) ∧
      ∃ e, (Conversion.intoEvalsOn half hHalf).perform (coeffs [1, 0, 2, 0]) = .error e := by
  intro d canonical half p
  have hRoot : IsPrimitiveRoot (-Fr.canonicalRoot 2) (2 ^ 2) :=
    (Fr.hasOrder_two_pow_iff _ 2).mp (by decide +kernel)
  have hCanonical : canonical.Built :=
    Domain.built_cyclic (by decide) (Fr.canonicalRoot_primitive (by decide))
  have hHalf : half.Built :=
    Domain.built_cyclic (by decide) (Fr.canonicalRoot_primitive (by decide))
  have hValid : p.Valid := Domain.built_cyclic (k := 2) (by decide) hRoot
  obtain ⟨hAgrees, -, hFails, -⟩ := convert_agrees hValid [.intoCoeffs,
    .intoEvalsOn canonical hCanonical, .trim, .intoCoeffs, .intoEvalsOn half hHalf]
  exact ⟨hCanonical, hHalf, hValid, hAgrees,
    (hFails [1, 0, 2, 0] half hHalf).mpr (by decide +kernel)⟩

end Poly

end Kzg
