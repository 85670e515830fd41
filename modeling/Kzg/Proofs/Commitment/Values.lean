import Kzg.Proofs.Commitment.Linear
import Kzg.Proofs.Domain.Interpolation

/-! # Commitments to values

Values are committed to over the inverse transform of the points of a source, coefficients over the
points themselves. What is transformed makes no difference to the result, since the matrix of the
transform is symmetric, and so it makes none whether the points belong to a secret. -/

namespace Kzg

open PointGroup (generator)
open SetupM (Responds)

variable {G1 G2 : Type} [PointGroup G1] [PointGroup G2] [LawfulPointGroup G1]

theorem exists_interpolate_linearCombination {points : List G1}
    (hPoints : ∀ p ∈ points, checkPoint p = .ok ()) {k : Nat} (hk : k ≤ maxLogSize)
    (hLength : points.length = 2 ^ k) :
    ∃ d lagrange, Domain.ofSize points.length = .ok d ∧ ifftPoints points = .ok lagrange ∧
      ∀ values : List Fr, values.length = points.length → ∃ p c,
        d.interpolate values = .ok p ∧ linearCombination lagrange values = .ok c ∧
          linearCombination points p = .ok c := by
  obtain ⟨lagrange, hTransform, hCombine⟩ := linearCombination_ifftPoints hk hPoints hLength
  refine ⟨_, lagrange, hLength ▸ Domain.ofSize_two_pow hk, hTransform, fun values hValues => ?_⟩
  rw [hLength] at hValues
  obtain ⟨c, hLagrange, hMonomial⟩ := hCombine values hValues
  exact ⟨_, c, Domain.interpolate_cyclic (Fr.canonicalRoot_primitive hk) hValues hk, hLagrange,
    hMonomial⟩

namespace PublicSetup

variable {setup : PublicSetup G1 G2}

theorem suppliesLagrange {weights : Nat → Fr}
    (hPoints : setup.g1 = generatorMultiples ((List.range setup.g1.length).map weights))
    {d : Domain} {k : Nat} (hk : k ≤ maxLogSize) (hSize : d.size = 2 ^ k)
    (hFits : d.size ≤ setup.g1.length) :
    SuppliesLagrange (· = setup) d
      (Fourier.inverseEntries (Fr.canonicalRoot k) k ((List.range (2 ^ k)).map weights)) := by
  apply SetupM.responds_read
  rw [lagrange_eq_ifftPoints hFits, hPoints, take_generatorMultiples, ← List.map_take,
    List.take_range, min_eq_left hFits, hSize]
  exact ifftPoints_generatorMultiples hk (by simp)

theorem exists_responds_commit (hValid : ∀ p ∈ setup.g1, checkPoint p = .ok ()) {e : EvalForm}
    (hCanonical : Domain.ofSize e.domain.size = .ok e.domain)
    (hFits : e.domain.size ≤ setup.g1.length) : ∃ p c, e.toCoeffs = .ok p ∧
      Responds (· = setup) (commitEvals e) (.ok c) ∧
      Responds (· = setup) (commitCoeffs p) (.ok c) := by
  obtain ⟨weights, hMultiples, hPoints⟩ := exists_suppliesMultiples hValid
  obtain ⟨k, hk, hSize, hDomain⟩ := (Domain.ofSize_eq_ok_iff e.domain.size e.domain).mp hCanonical
  have hLength : e.evals.length = 2 ^ k := e.length_evals.trans hSize
  let p : Coeffs := Fourier.inverseEntries (Fr.canonicalRoot k) k e.evals
  have hToCoeffs : e.toCoeffs = .ok p := by
    rw [EvalForm.toCoeffs, hDomain]
    exact Domain.interpolate_cyclic (Fr.canonicalRoot_primitive hk) hLength hk
  have hRoom : p.trim.length ≤ setup.g1.length := by
    refine (Coeffs.length_trim_le p).trans ?_
    rwa [Fourier.length_inverseEntries, ← hSize]
  have hCommit := responds_commitCoeffs_weightedSum hMultiples (Nat.cast_le.mpr hRoom)
  -- Up to here the values are transformed, from here on the weights of the points.
  rw [weightedSum_toPoly, Fourier.length_inverseEntries,
    ← Fourier.dot_inverseEntries_comm _ (by simp) hLength] at hCommit
  exact ⟨p, _, hToCoeffs, responds_commitEvals (suppliesLagrange hPoints hk hSize hFits)
    (by simp [hSize]), hCommit⟩

end PublicSetup

variable (G1 G2) in
/-- The points may be transformed or the values back, whatever the points are. Lengths that are not
powers of two are refused. -/
theorem ifftPoints_transposes_interpolate :
    (∀ points : List G1, (∀ p ∈ points, checkPoint p = .ok ()) →
      ∀ k ≤ 28, points.length = 2 ^ k → ∃ d lagrange,
        Domain.ofSize points.length = .ok d ∧ ifftPoints points = .ok lagrange ∧
          ∀ values : List Fr, values.length = points.length → ∃ p c,
            d.interpolate values = .ok p ∧ linearCombination lagrange values = .ok c ∧
              linearCombination points p = .ok c) ∧
    (∀ setup : PublicSetup G1 G2, (∀ p ∈ setup.g1, checkPoint p = .ok ()) →
      ∀ e : EvalForm, Domain.ofSize e.domain.size = .ok e.domain →
        e.domain.size ≤ setup.g1.length → ∃ p c, e.toCoeffs = .ok p ∧
          Responds (· = setup) (commitEvals e) (.ok c) ∧
          Responds (· = setup) (commitCoeffs p) (.ok c)) ∧
    ∀ points : List G1, (∀ k, points.length ≠ 2 ^ k) →
      ifftPoints points = .error .groupTransformLength :=
  ⟨fun _ hPoints _ => exists_interpolate_linearCombination hPoints,
    fun _ hValid _ => PublicSetup.exists_responds_commit hValid,
    fun _ => ifftPoints_of_ne⟩

/-- The points `1`, `5`, `7` and `0` are not the powers of anything, and three points are one too
few. -/
theorem ifftPoints_transposes_interpolate_exponent :
    let points : List (Exponent "G1") := [.valid 1, .valid 5, .valid 7, .valid 0]
    let setup : PublicSetup (Exponent "G1") (Exponent "G2") :=
      ⟨points, [.valid 1, .valid 4], rfl, rfl, le_rfl⟩
    let e : EvalForm := ⟨[7, 0, 1, 5], Domain.cyclic (Fr.canonicalRoot 2) 2, rfl⟩
    (∃ lagrange p c, ifftPoints points = .ok lagrange ∧ e.toCoeffs = .ok p ∧
      linearCombination lagrange e.evals = .ok c ∧ linearCombination points p = .ok c) ∧
    (∃ p c, e.toCoeffs = .ok p ∧ Responds (· = setup) (commitEvals e) (.ok c) ∧
      Responds (· = setup) (commitCoeffs p) (.ok c)) ∧
    ifftPoints (points.take 3) = .error .groupTransformLength := by
  intro points setup e
  have hValid : ∀ p ∈ points, checkPoint p = .ok () := by decide +kernel
  have hCanonical : Domain.ofSize 4 = .ok e.domain := Domain.ofSize_two_pow (k := 2) (by decide)
  obtain ⟨hTransposes, hCommits, hLengths⟩ :=
    ifftPoints_transposes_interpolate (Exponent "G1") (Exponent "G2")
  refine ⟨?_, hCommits setup hValid e hCanonical le_rfl, hLengths (points.take 3) ?_⟩
  · obtain ⟨d, lagrange, hSize, hTransform, hValues⟩ := hTransposes points hValid 2 (by decide) rfl
    obtain rfl : e.domain = d := Except.ok.inj (hCanonical.symm.trans hSize)
    obtain ⟨p, c, hRun, hLagrange, hMonomial⟩ := hValues e.evals rfl
    exact ⟨lagrange, p, c, hTransform, hRun, hLagrange, hMonomial⟩
  · intro k hk
    have hPower : isPowerOfTwo 3 = true := (isPowerOfTwo_iff 3).mpr ⟨k, hk⟩
    cases hPower

end Kzg
