import Kzg.Proofs.Argument.Permutation.Complete

/-! # Completeness with labels

A value and its label fold to `p·γ - seq`, and the rows of the folded values are plain ones. So
pairs in another order have rows of the same product, and the polynomials through the values and
through the labels fold to that through the folded values. The verifier commits to the labels over
a published setup and the prover by their coefficients, with the same points. -/

namespace Kzg.Permutation

open Polynomial
open SetupM (Responds)

section Rows

def foldedValues (p labels : List Fr) (gamma : Fr) : List Fr :=
  (p.zip labels).map (foldLabel gamma)

variable {p labels : List Fr}

theorem foldedValues_eq_zipWith (p labels : List Fr) (gamma : Fr) :
    foldedValues p labels gamma = List.zipWith (fun x s => x * gamma - s) p labels := by
  rw [foldedValues, List.map_zip_eq_zipWith]
  rfl

theorem length_foldedValues {n : Nat} (hValues : p.length = n) (hLabels : labels.length = n)
    (gamma : Fr) : (foldedValues p labels gamma).length = n := by
  rw [foldedValues_eq_zipWith, List.length_zipWith, hValues, hLabels, min_self]

theorem prescribedRows_eq_plainRows (h : p.length = labels.length) (gamma theta : Fr) :
    prescribedRows p labels gamma theta =
      .ok (plainRows (foldedValues p labels gamma) theta) := by
  rw [prescribedRows, if_neg (not_not.mpr h), plainRows, foldedValues_eq_zipWith, List.map_zipWith]

theorem interpolates_foldedValues {d : Domain} {f g : Fr[X]} (hValues : d.Interpolates p f)
    (hLabels : d.Interpolates labels g) (gamma : Fr) :
    d.Interpolates (foldedValues p labels gamma) (f * C gamma - g) := by
  rw [foldedValues_eq_zipWith]
  exact hValues.scale_sub hLabels gamma

theorem exists_witness_of_perm {k : Nat} (hk : k < maxLogSize) {p0 p1 labels0 labels1 : List Fr}
    (h0 : p0.length = 2 ^ k) (h1 : p1.length = 2 ^ k) (hLabels0 : labels0.length = 2 ^ k)
    (hLabels1 : labels1.length = 2 ^ k) {gamma theta : Fr}
    (hPerm : (p1.zip labels1).Perm (p0.zip labels0))
    (hTheta : theta ∉ foldedValues p1 labels1 gamma) :
    ∃ w, Witness.ofRows (plainRows (foldedValues p0 labels0 gamma) theta)
        (plainRows (foldedValues p1 labels1 gamma) theta) = .ok w ∧
      w.Certifies k (plainRows (foldedValues p0 labels0 gamma) theta)
        (plainRows (foldedValues p1 labels1 gamma) theta) := by
  have hProduct : (plainRows (foldedValues p0 labels0 gamma) theta).prod =
      (plainRows (foldedValues p1 labels1 gamma) theta).prod :=
    ((hPerm.map (foldLabel gamma)).map (· - theta)).prod_eq.symm
  apply Witness.ofRows_of_prod_eq _ _ hk _ hProduct
  · rw [length_plainRows, length_foldedValues h0 hLabels0]
  · rw [length_plainRows, length_foldedValues h1 hLabels1]
  · rwa [zero_mem_plainRows_iff]

end Rows

section Wiring

variable {G1 G2 : Type} [PointGroup G1] [PointGroup G2] [LawfulPointGroup G1]

/-- A published setup with room for the labels commits to them as a prover does that has their
coefficients. -/
theorem Wiring.ofValues_of_interpolates {setup : PublicSetup G1 G2} {secret : Fr}
    (hSetup : setup.PublishedFrom secret) {k : Nat} (hk : k ≤ maxLogSize)
    (hCapacity : 2 ^ k ≤ setup.g1.length) {labels0 labels1 : List Fr} {seq0 seq1 : Coeffs}
    (h0 : (Domain.cyclic (Fr.canonicalRoot k) k).Interpolates labels0 seq0.toPoly)
    (h1 : (Domain.cyclic (Fr.canonicalRoot k) k).Interpolates labels1 seq1.toPoly) :
    Wiring.ofValues setup labels0 labels1 =
      .ok ⟨seq0.commitmentAt secret, seq1.commitmentAt secret⟩ := by
  have hDomain := Domain.built_canonical hk
  have hLength0 : labels0.length = 2 ^ k := h0.length_eq hDomain
  have hLength1 : labels1.length = 2 ^ k := h1.length_eq hDomain
  have hLagrange := hSetup.lagrange_eq (d := Domain.cyclic (Fr.canonicalRoot k) k) hk rfl hCapacity
  have hCommit {labels : List Fr} {seq : Coeffs}
      (h : (Domain.cyclic (Fr.canonicalRoot k) k).Interpolates labels seq.toPoly) :
      linearCombination (generatorMultiples
        ((Domain.cyclic (Fr.canonicalRoot k) k).lagrangeAt secret) : List G1) labels =
          .ok (seq.commitmentAt secret) := by
    have hLength := (hDomain.length_lagrangeAt secret).trans (h.length_eq hDomain).symm
    rw [linearCombination_generatorMultiples hLength, h.dot_lagrangeAt hDomain, seq.eval_toPoly]
    rfl
  rw [Wiring.ofValues, if_neg (not_not.mpr (hLength0.trans hLength1.symm)), hLength0]
  refine bind_eq_ok_iff.mpr ⟨_, lift_eq_ok_iff.mpr (Domain.ofSize_two_pow hk), ?_⟩
  refine bind_eq_ok_iff.mpr ⟨_, hLagrange, ?_⟩
  exact bind_eq_ok_iff.mpr ⟨_, hCommit h0, bind_eq_ok_iff.mpr ⟨_, hCommit h1, rfl⟩⟩

end Wiring

section Prover

variable {S G1 G2 : Type} [PointGroup G1] [SetupSource S G1 G2] [LawfulPointGroup G1]
  {I : S → Prop} {secret : Fr} (hPowers : ∀ capacity, SuppliesPowers I secret capacity)

include hPowers

theorem responds_openValues {d : Domain} {values : List Fr} {seq : Coeffs}
    (h : d.interpolate values = .ok seq) (r : Fr) :
    Responds I (openValues d values r : SetupM S (G1 × Opening G1))
      (.ok (exactLabels seq secret r)) :=
  (SetupM.responds_lift_poly h).bind (responds_openedLabels hPowers seq r)

theorem responds_provePrescribed {p0 p1 labels0 labels1 : List Fr} {gamma theta r : Fr}
    (hLengths0 : p0.length = labels0.length) (hLengths1 : p1.length = labels1.length) {w : Witness}
    (hWitness : Witness.ofRows (plainRows (foldedValues p0 labels0 gamma) theta)
      (plainRows (foldedValues p1 labels1 gamma) theta) = .ok w)
    (hr : r ^ w.domain.size ≠ 1) {p0Coeffs p1Coeffs seq0 seq1 : Coeffs}
    (h0 : w.domain.interpolate p0 = .ok p0Coeffs) (h1 : w.domain.interpolate p1 = .ok p1Coeffs)
    (hSeq0 : w.domain.interpolate labels0 = .ok seq0)
    (hSeq1 : w.domain.interpolate labels1 = .ok seq1) :
    Responds I (provePrescribed p0 p1 labels0 labels1 gamma theta r : SetupM S (Proof G1))
      (.ok (exactProof (.prescribed (some (exactLabels seq0 secret r))
        (some (exactLabels seq1 secret r))) w.domain.size w.domain.generator p0Coeffs p1Coeffs w.t
          w.q secret r)) := by
  apply (SetupM.responds_lift_poly (prescribedRows_eq_plainRows hLengths0 gamma theta)).bind
  apply (SetupM.responds_lift_poly (prescribedRows_eq_plainRows hLengths1 gamma theta)).bind
  apply responds_prover hWitness hr
  apply (responds_openValues hPowers hSeq0 r).bind
  apply (responds_openValues hPowers hSeq1 r).bind
  exact (SetupM.responds_lift_poly h0).bind ((SetupM.responds_lift_poly h1).bind
    (responds_openedProof hPowers w.domain.size w.domain.generator _ p0Coeffs p1Coeffs w.t w.q r))

end Prover

variable {G1 G2 : Type} [PointGroup G1] [PointGroup G2] [PointCodec G1] [Pairing G1 G2]
  [LawfulPointGroup G1] [LawfulPointGroup G2] [LawfulPointCodec G1] [LawfulPairing G1 G2]
  {setup : PublicSetup G1 G2} {secret : Fr} (hSetup : setup.PublishedFrom secret)

include hSetup

theorem verifyPrescribed_exactProof {k : Nat} (hk : k ≤ maxLogSize)
    {p0 p1 seq0 seq1 t q : Coeffs} {gamma theta r : Fr} (hr : r ^ 2 ^ k ≠ 1)
    (hStart : t.eval 1 = 1)
    (hHolds : HoldsAt r (2 ^ k) (p0.eval r * gamma - seq0.eval r - theta)
      (p1.eval r * gamma - seq1.eval r - theta) (t.eval r) (t.eval (Fr.canonicalRoot k * r))
      (q.eval r)) :
    verifyPrescribed setup (2 ^ k) (p0.commitmentAt secret) (p1.commitmentAt secret)
        ⟨seq0.commitmentAt secret, seq1.commitmentAt secret⟩
        (exactProof (.prescribed (some (exactLabels seq0 secret r))
          (some (exactLabels seq1 secret r))) (2 ^ k) (Fr.canonicalRoot k) p0 p1 t q secret r)
        gamma theta r = .ok true :=
  (verifyPrescribed_eq_ok_true_iff ..).mpr ⟨_, _, rfl, ⟨rfl, rfl⟩,
    (verifyRows_exactProof_iff hSetup hk _ p0 p1 t q [(seq0, r), (seq1, r)] _ _ r).mpr
      ⟨hr, hStart, hHolds⟩⟩

/-- Labelled values in another order on the second side are proved wherever none of its rows is zero
and the challenge is outside of the subgroup. The proof carries the labels that any published setup
with room for them commits to, and the verifier accepts it with these. -/
theorem prescribed_complete {k : Nat} (hk : k < maxLogSize) {p0 p1 labels0 labels1 : List Fr}
    (h0 : p0.length = 2 ^ k) (h1 : p1.length = 2 ^ k) (hLabels0 : labels0.length = 2 ^ k)
    (hLabels1 : labels1.length = 2 ^ k) (hPerm : (p1.zip labels1).Perm (p0.zip labels0))
    {gamma theta : Fr} (hRows : ∀ ps ∈ p1.zip labels1, ps.1 * gamma - ps.2 - theta ≠ 0) {r : Fr}
    (hr : r ^ p0.length ≠ 1) :
    ∃ (proof : Proof G1) (wiring : Wiring G1) (o0 o1 : Opening G1)
        (p0Commitment p1Commitment : G1),
      Responds (TrustedSetup.Reached secret : TrustedSetup G1 G2 → Prop)
        (provePrescribed p0 p1 labels0 labels1 gamma theta r) (.ok proof) ∧
      proof.rows = .prescribed (some (wiring.seq0, o0)) (some (wiring.seq1, o1)) ∧
      (∀ published : PublicSetup G1 G2, published.PublishedFrom secret →
        p0.length ≤ published.g1.length →
          Wiring.ofValues published labels0 labels1 = .ok wiring) ∧
      TrustedSetup.CommitsTo G2 secret p0 p0Commitment ∧
      TrustedSetup.CommitsTo G2 secret p1 p1Commitment ∧
      verifyPrescribed setup p0.length p0Commitment p1Commitment wiring proof gamma theta r =
        .ok true := by
  have hDomain := Domain.built_cyclic hk.le (Fr.canonicalRoot_primitive hk.le)
  have hTheta : theta ∉ foldedValues p1 labels1 gamma := by
    intro hMem
    obtain ⟨ps, hPair, hFold⟩ := List.mem_map.mp hMem
    exact hRows ps hPair (sub_eq_zero.mpr hFold)
  obtain ⟨w, hRun, hWitness⟩ :=
    exists_witness_of_perm hk h0 h1 hLabels0 hLabels1 hPerm hTheta
  obtain ⟨p0Coeffs, hRun0, -, hValues0, -⟩ := hDomain.exists_interpolate h0
  obtain ⟨p1Coeffs, hRun1, -, hValues1, -⟩ := hDomain.exists_interpolate h1
  obtain ⟨seq0, hRunSeq0, -, hSeq0, -⟩ := hDomain.exists_interpolate hLabels0
  obtain ⟨seq1, hRunSeq1, -, hSeq1, -⟩ := hDomain.exists_interpolate hLabels1
  -- The verifier folds the openings, which are values of the folded polynomials.
  have hHolds := hWitness.holdsAt hk.le
    ((interpolates_foldedValues hValues0 hSeq0 gamma).sub_C hDomain theta)
    ((interpolates_foldedValues hValues1 hSeq1 gamma).sub_C hDomain theta) r
  simp only [eval_sub, eval_mul, eval_C, Coeffs.eval_toPoly] at hHolds
  rw [← hWitness.domain_eq] at hRun0 hRun1 hRunSeq0 hRunSeq1
  rw [h0, ← hWitness.size_eq] at hr
  have hProof := responds_provePrescribed (TrustedSetup.suppliesPowers G1 G2 secret)
    (h0.trans hLabels0.symm) (h1.trans hLabels1.symm) hRun hr hRun0 hRun1 hRunSeq0 hRunSeq1
  rw [hWitness.size_eq] at hr hProof
  rw [hWitness.domain_eq] at hProof
  refine ⟨_, ⟨seq0.commitmentAt secret, seq1.commitmentAt secret⟩, seq0.openingAt secret r,
    seq1.openingAt secret r, p0Coeffs.commitmentAt secret, p1Coeffs.commitmentAt secret,
    hProof, rfl, ?_, TrustedSetup.commitsTo_of_interpolates G2 secret hk.le hValues0,
    TrustedSetup.commitsTo_of_interpolates G2 secret hk.le hValues1, ?_⟩
  · intro published hPublished hCapacity
    rw [h0] at hCapacity
    exact Wiring.ofValues_of_interpolates hPublished hk.le hCapacity hSeq0 hSeq1
  · rw [h0]
    exact verifyPrescribed_exactProof hSetup hk.le hr hWitness.start hHolds

omit hSetup in
/-- One with label five and two with label six, and the same in the other order. -/
theorem prescribed_complete_exponent :
    let setup : PublicSetup (Exponent "G1") (Exponent "G2") := PublicSetup.ofPowers 7 1 0
    setup.PublishedFrom 7 ∧
    ∃ (proof : Proof (Exponent "G1")) (wiring : Wiring (Exponent "G1"))
        (p0Commitment p1Commitment : Exponent "G1"),
      Responds (TrustedSetup.Reached 7 : TrustedSetup (Exponent "G1") (Exponent "G2") → Prop)
        (provePrescribed [1, 2] [2, 1] [5, 6] [6, 5] 3 4 3) (.ok proof) ∧
      Wiring.ofValues setup [5, 6] [6, 5] = .ok wiring ∧
      verifyPrescribed setup 2 p0Commitment p1Commitment wiring proof 3 4 3 = .ok true := by
  intro setup
  have hSetup : setup.PublishedFrom 7 := PublicSetup.publishedFrom_ofPowers (by decide) 1 0
  have hk : 1 < maxLogSize := by decide
  have hLength (v w : Fr) : [v, w].length = 2 ^ 1 := rfl
  have hRows : ∀ ps ∈ ([2, 1] : List Fr).zip [6, 5], ps.1 * 3 - ps.2 - 4 ≠ 0 := by decide +kernel
  have hOutside : (3 : Fr) ^ ([1, 2] : List Fr).length ≠ 1 := by decide +kernel
  obtain ⟨proof, wiring, -, -, p0Commitment, p1Commitment, hProof, -, hWiring, -, -, hVerify⟩ :=
    prescribed_complete hSetup hk (hLength 1 2) (hLength 2 1) (hLength 5 6) (hLength 6 5)
      (.swap (1, 5) (2, 6) []) hRows hOutside
  exact ⟨hSetup, proof, wiring, p0Commitment, p1Commitment, hProof, hWiring setup hSetup le_rfl,
    hVerify⟩

end Kzg.Permutation
