import Kzg.Proofs.Argument.Permutation.Collisions
import Kzg.Proofs.Argument.RunningProduct
import Kzg.Proofs.Argument.Subgroup
import Kzg.Proofs.Opening.Exact
import Kzg.Argument.Permutation.Verify

/-! # Soundness of the permutation verifiers

The rows at the challenge are the values of two polynomials, `p - θ` or `p·γ - seq - θ`. If `γ`
keeps different pairs apart and `θ` is no collision, then the products of the rows over the subgroup
differ, and the challenges that pass are roots of the identity polynomial. -/

namespace Kzg.Permutation

open Finset (range)
open Polynomial
open SetupM (Responds)

section Verify

variable {G1 G2 : Type} [PointGroup G1] [PointGroup G2] [PointCodec G1] [Pairing G1 G2]
  (setup : PublicSetup G1 G2) (order : Nat) (p0Commitment p1Commitment : G1) (proof : Proof G1)

theorem verifyRows_eq_ok_true_iff (labels : List (G1 × Opening G1)) (f0 f1 r : Fr) :
    verifyRows setup order p0Commitment p1Commitment proof labels f0 f1 r = .ok true ↔
      ∃ omega, subgroupFor order r = .ok omega ∧
        (proof.order = order ∧ proof.p0Commitment = p0Commitment ∧
          proof.p1Commitment = p1Commitment) ∧
        (proof.PlacedAt omega r ∧ proof.tAtOne.value = 1) ∧
        verifyOpenings setup (labels ++ proof.openings) = .ok true ∧
        HoldsAt r order f0 f1 proof.tAtR.value proof.tAtOmegaR.value proof.qAtR.value := by
  simp only [verifyRows, bind_eq_ok_iff, guard_eq_ok_true_iff, decide_eq_ok_true_iff,
    exists_passed_iff, not_or, not_not, ne_eq]

theorem verify_eq_ok_true_iff (theta r : Fr) :
    verify setup order p0Commitment p1Commitment proof theta r = .ok true ↔
      proof.rows = .plain ∧
        verifyRows setup order p0Commitment p1Commitment proof [] (proof.p0AtR.value - theta)
          (proof.p1AtR.value - theta) r = .ok true := by
  rw [verify]
  cases proof.rows with
  | plain => simp
  | prescribed _ _ => simp

theorem verifyPrescribed_eq_ok_true_iff (wiring : Wiring G1) (gamma theta r : Fr) :
    verifyPrescribed setup order p0Commitment p1Commitment wiring proof gamma theta r = .ok true ↔
      ∃ o0 o1, proof.rows = .prescribed (some (wiring.seq0, o0)) (some (wiring.seq1, o1)) ∧
        (o0.point = r ∧ o1.point = r) ∧
        verifyRows setup order p0Commitment p1Commitment proof
          [(wiring.seq0, o0), (wiring.seq1, o1)] (proof.p0AtR.value * gamma - o0.value - theta)
          (proof.p1AtR.value * gamma - o1.value - theta) r = .ok true := by
  rw [verifyPrescribed]
  constructor
  · intro h
    split at h
    · rename_i c0 o0 c1 o1 hRows
      obtain ⟨hWiring, hRest⟩ := guard_eq_ok_true_iff.mp h
      obtain ⟨hPoints, hVerify⟩ := guard_eq_ok_true_iff.mp hRest
      simp only [not_or, not_not, ne_eq] at hWiring hPoints
      obtain ⟨rfl, rfl⟩ := hWiring
      exact ⟨o0, o1, hRows, hPoints, hVerify⟩
    · cases h
  · rintro ⟨o0, o1, hRows, ⟨hPoint0, hPoint1⟩, h⟩
    simp only [hRows, ne_eq, not_true_eq_false, or_self, if_false, hPoint0, hPoint1, h]

end Verify

section Prover

variable {S G1 G2 : Type} [PointGroup G1] [SetupSource S G1 G2]

/-- The proof about any four polynomials with their true openings. -/
def openedProof (rows : Rows G1) (order : Nat) (omega : Fr) (p0 p1 t q : Coeffs) (r : Fr) :
    SetupM S (Proof G1) := do
  return {
    rows
    order
    p0Commitment := ← commitCoeffs p0
    p1Commitment := ← commitCoeffs p1
    tCommitment := ← commitCoeffs t
    qCommitment := ← commitCoeffs q
    tAtOne := ← openAt t 1
    tAtR := ← openAt t r
    tAtOmegaR := ← openAt t (omega * r)
    p0AtR := ← openAt p0 r
    p1AtR := ← openAt p1 r
    qAtR := ← openAt q r }

def openedLabels (seq : Coeffs) (r : Fr) : SetupM S (G1 × Opening G1) :=
  return (← commitCoeffs seq, ← openAt seq r)

/-- The same with any labels of both sides. -/
def openedPrescribedProof (order : Nat) (omega : Fr) (p0 p1 seq0 seq1 t q : Coeffs) (r : Fr) :
    SetupM S (Proof G1) := do
  let labels0 ← openedLabels seq0 r
  let labels1 ← openedLabels seq1 r
  openedProof (.prescribed (some labels0) (some labels1)) order omega p0 p1 t q r

theorem prove_eq_openedProof (p0 p1 : List Fr) (theta r : Fr) :
    (prove p0 p1 theta r : SetupM S (Proof G1)) = (do
      let w ← Witness.ofRows (plainRows p0 theta) (plainRows p1 theta)
      checkOutsideSubgroup r w.domain.size
      let p0 ← w.domain.interpolate p0
      let p1 ← w.domain.interpolate p1
      openedProof .plain w.domain.size w.domain.generator p0 p1 w.t w.q r) :=
  rfl

noncomputable def exactProof (rows : Rows G1) (order : Nat) (omega : Fr) (p0 p1 t q : Coeffs)
    (secret r : Fr) : Proof G1 where
  rows := rows
  order := order
  p0Commitment := p0.commitmentAt secret
  p1Commitment := p1.commitmentAt secret
  tCommitment := t.commitmentAt secret
  qCommitment := q.commitmentAt secret
  tAtOne := t.openingAt secret 1
  tAtR := t.openingAt secret r
  tAtOmegaR := t.openingAt secret (omega * r)
  p0AtR := p0.openingAt secret r
  p1AtR := p1.openingAt secret r
  qAtR := q.openingAt secret r

noncomputable def exactLabels (seq : Coeffs) (secret r : Fr) : G1 × Opening G1 :=
  (seq.commitmentAt secret, seq.openingAt secret r)

variable [LawfulPointGroup G1] {I : S → Prop} {secret : Fr}
  (hPowers : ∀ capacity, SuppliesPowers I secret capacity) (order : Nat) (omega : Fr)

include hPowers

theorem responds_openedProof (rows : Rows G1) (p0 p1 t q : Coeffs) (r : Fr) :
    Responds I (openedProof rows order omega p0 p1 t q r : SetupM S (Proof G1))
      (.ok (exactProof rows order omega p0 p1 t q secret r)) := by
  have hCommit := responds_commitmentAt hPowers
  have hOpen := responds_openingAt hPowers
  exact (hCommit p0).bind ((hCommit p1).bind ((hCommit t).bind ((hCommit q).bind
    ((hOpen t 1).bind ((hOpen t r).bind ((hOpen t (omega * r)).bind ((hOpen p0 r).bind
      ((hOpen p1 r).bind ((hOpen q r).bind (SetupM.responds_pure _))))))))))

theorem responds_openedLabels (seq : Coeffs) (r : Fr) :
    Responds I (openedLabels seq r : SetupM S (G1 × Opening G1))
      (.ok (exactLabels seq secret r)) :=
  (responds_commitmentAt hPowers seq).bind ((responds_openingAt hPowers seq r).bind
    (SetupM.responds_pure _))

theorem responds_openedPrescribedProof (p0 p1 seq0 seq1 t q : Coeffs) (r : Fr) :
    Responds I (openedPrescribedProof order omega p0 p1 seq0 seq1 t q r : SetupM S (Proof G1))
      (.ok (exactProof (.prescribed (some (exactLabels seq0 secret r))
        (some (exactLabels seq1 secret r))) order omega p0 p1 t q secret r)) :=
  (responds_openedLabels hPowers seq0 r).bind ((responds_openedLabels hPowers seq1 r).bind
    (responds_openedProof hPowers order omega _ p0 p1 t q r))

end Prover

section Rows

variable {G1 G2 : Type} [PointGroup G1] [PointGroup G2] [PointCodec G1] [Pairing G1 G2]

/-- The rows of the polynomials `g0` and `g1` for a `θ` that is no collision of their values. -/
theorem exists_finset_of_verifyRows (setup : PublicSetup G1 G2) (secret : Fr) {order : Nat}
    {omega : Fr} (hOmega : Domain.canonicalGenerator order = .ok omega) {g0 g1 : Fr[X]}
    {theta : Fr} (hValues : valuesAlong order omega g0.eval ≠ valuesAlong order omega g1.eval)
    (hTheta : theta ∉ collisions (valuesAlong order omega g0.eval)
      (valuesAlong order omega g1.eval)) (t q : Coeffs) :
    ∃ bad : Finset Fr,
      bad.card ≤ g0.natDegree + g1.natDegree + t.length + q.length + order ∧
        ∀ (p0 p1 : Coeffs) (rows : Rows G1) (labels : List (G1 × Opening G1)) (r : Fr),
          verifyRows setup order (p0.commitmentAt secret) (p1.commitmentAt secret)
            (exactProof rows order omega p0 p1 t q secret r) labels (g0.eval r - theta)
            (g1.eval r - theta) r = .ok true → r ∈ bad := by
  obtain ⟨k, hk, rfl, rfl⟩ := (Domain.canonicalGenerator_eq_ok_iff order omega).mp hOmega
  have hOrder := (Fr.canonicalRoot_primitive hk).pow_eq_one
  have hProduct : ∏ i ∈ range (2 ^ k), (g0 - C theta).eval (Fr.canonicalRoot k ^ i) ≠
      ∏ i ∈ range (2 ^ k), (g1 - C theta).eval (Fr.canonicalRoot k ^ i) := by
    rw [mem_collisions_iff (by simp) hValues, map_valuesAlong, map_valuesAlong, prod_valuesAlong,
      prod_valuesAlong] at hTheta
    simpa only [eval_sub, eval_C] using hTheta
  -- A running product that does not start at one fails for every challenge.
  by_cases hStart : t.eval 1 = 1
  · obtain ⟨bad, hCard, hBad⟩ := RunningProduct.exists_finset_of_prod_ne (q := q.toPoly) hOrder
      (by rw [Coeffs.eval_toPoly, hStart]) hProduct
    refine ⟨bad, ?_, ?_⟩
    · have hT := t.natDegree_toPoly_le
      have hQ := q.natDegree_toPoly_le
      rw [natDegree_sub_C, natDegree_sub_C] at hCard
      omega
    · intro p0 p1 rows labels r hr
      obtain ⟨-, -, -, -, -, hHolds⟩ := (verifyRows_eq_ok_true_iff ..).mp hr
      apply hBad r
      simp only [eval_sub, eval_C, Coeffs.eval_toPoly]
      exact hHolds
  · refine ⟨∅, Nat.zero_le _, ?_⟩
    intro p0 p1 rows labels r hr
    obtain ⟨-, -, -, ⟨-, hOne⟩, -⟩ := (verifyRows_eq_ok_true_iff ..).mp hr
    exact absurd hOne hStart

theorem natDegree_labelled_le (p seq : Coeffs) (gamma : Fr) :
    (p.toPoly * C gamma - seq.toPoly).natDegree ≤ p.length + seq.length := by
  have hP := (natDegree_mul_C_le p.toPoly gamma).trans p.natDegree_toPoly_le
  have hSeq := seq.natDegree_toPoly_le
  have hDifference := natDegree_sub_le (p.toPoly * C gamma) seq.toPoly
  omega

variable [LawfulPointGroup G1]

variable (G1 G2) in
/-- A prover that commits to any polynomials after `θ`, and opens all of them truly, passes for few
challenges if the two sides have different values and `θ` is no collision of them. -/
theorem plain_sound {order : Nat} {omega : Fr}
    (hOmega : Domain.canonicalGenerator order = .ok omega) (p0 p1 : Coeffs)
    (hValues : valuesAlong order omega p0.eval ≠ valuesAlong order omega p1.eval) :
    (collisions (valuesAlong order omega p0.eval) (valuesAlong order omega p1.eval)).card ≤
        order - 1 ∧
      ∀ (setup : PublicSetup G1 G2) (secret theta : Fr),
        theta ∉ collisions (valuesAlong order omega p0.eval) (valuesAlong order omega p1.eval) →
        ∀ t q : Coeffs, ∃ (p0Commitment p1Commitment : G1) (proofAt : Fr → Proof G1),
          Responds (TrustedSetup.Reached secret : TrustedSetup G1 G2 → Prop) (commitCoeffs p0)
            (.ok p0Commitment) ∧
          Responds (TrustedSetup.Reached secret : TrustedSetup G1 G2 → Prop) (commitCoeffs p1)
            (.ok p1Commitment) ∧
          (∀ r, Responds (TrustedSetup.Reached secret : TrustedSetup G1 G2 → Prop)
            (openedProof .plain order omega p0 p1 t q r) (.ok (proofAt r))) ∧
          ∃ bad : Finset Fr,
            bad.card ≤ p0.length + p1.length + t.length + q.length + order ∧
              ∀ r, verify setup order p0Commitment p1Commitment (proofAt r) theta r = .ok true →
                r ∈ bad := by
  have hEval (p : Coeffs) : p.toPoly.eval = p.eval := funext p.eval_toPoly
  refine ⟨(card_collisions_le (by simp)).trans_eq (by simp), ?_⟩
  intro setup secret theta hTheta t q
  have hPowers := TrustedSetup.suppliesPowers G1 G2 secret
  rw [← hEval p0, ← hEval p1] at hValues hTheta
  obtain ⟨bad, hCard, hBad⟩ :=
    exists_finset_of_verifyRows setup secret hOmega hValues hTheta t q
  refine ⟨_, _, exactProof .plain order omega p0 p1 t q secret, responds_commitmentAt hPowers p0,
    responds_commitmentAt hPowers p1, responds_openedProof hPowers order omega .plain p0 p1 t q,
    bad, ?_, ?_⟩
  · have hP0 := p0.natDegree_toPoly_le
    have hP1 := p1.natDegree_toPoly_le
    omega
  · intro r hr
    obtain ⟨-, hRows⟩ := (verify_eq_ok_true_iff ..).mp hr
    apply hBad p0 p1 .plain [] r
    rw [Coeffs.eval_toPoly, Coeffs.eval_toPoly]
    exact hRows

/-- The values two and two against one and minus one. -/
theorem plain_sound_exponent :
    (0 : Fr) ∉ collisions (valuesAlong 2 (Fr.canonicalRoot 1) (Coeffs.eval [2]))
      (valuesAlong 2 (Fr.canonicalRoot 1) (Coeffs.eval [0, 1])) ∧
    ∃ (p0Commitment p1Commitment : Exponent "G1") (proofAt : Fr → Proof (Exponent "G1"))
        (bad : Finset Fr),
      (∀ r, Responds
        (TrustedSetup.Reached 2 : TrustedSetup (Exponent "G1") (Exponent "G2") → Prop)
        (openedProof .plain 2 (Fr.canonicalRoot 1) [2] [0, 1] [1] [3] r) (.ok (proofAt r))) ∧
      bad.card ≤ 1 + 2 + 1 + 1 + 2 ∧
      ∀ r, verify (PublicSetup.ofPowers 2 0 0 : PublicSetup _ (Exponent "G2")) 2 p0Commitment
        p1Commitment (proofAt r) 0 r = .ok true → r ∈ bad := by
  have hOmega := Domain.canonicalGenerator_two_pow (by decide : 1 ≤ maxLogSize)
  have hValues : valuesAlong 2 (Fr.canonicalRoot 1) (Coeffs.eval [2]) ≠
      valuesAlong 2 (Fr.canonicalRoot 1) (Coeffs.eval [0, 1]) := by decide +kernel
  have hTheta : (0 : Fr) ∉ collisions (valuesAlong 2 (Fr.canonicalRoot 1) (Coeffs.eval [2]))
      (valuesAlong 2 (Fr.canonicalRoot 1) (Coeffs.eval [0, 1])) := by
    rw [mem_collisions_iff (by simp) hValues]
    decide +kernel
  refine ⟨hTheta, ?_⟩
  obtain ⟨p0Commitment, p1Commitment, proofAt, -, -, hProof, bad, hCard, hBad⟩ :=
    (plain_sound (Exponent "G1") (Exponent "G2") hOmega [2] [0, 1] hValues).2
      (PublicSetup.ofPowers 2 0 0) 2 0 hTheta [1] [3]
  exact ⟨p0Commitment, p1Commitment, proofAt, bad, hProof, hCard, hBad⟩

variable (G1 G2) in
/-- With labels on both sides, `γ` has to keep different pairs apart before `θ` is chosen. -/
theorem prescribed_sound {order : Nat} {omega : Fr}
    (hOmega : Domain.canonicalGenerator order = .ok omega) (p0 p1 seq0 seq1 : Coeffs)
    (hPairs : labelledAlong order omega p0 seq0 ≠ labelledAlong order omega p1 seq1) :
    (labelCollisions (labelledAlong order omega p0 seq0)
        (labelledAlong order omega p1 seq1)).card ≤ order * (2 * order - 1) ∧
      ∀ gamma ∉ labelCollisions (labelledAlong order omega p0 seq0)
          (labelledAlong order omega p1 seq1),
        (collisions ((labelledAlong order omega p0 seq0).map (foldLabel gamma))
            ((labelledAlong order omega p1 seq1).map (foldLabel gamma))).card ≤ order - 1 ∧
          ∀ (setup : PublicSetup G1 G2) (secret theta : Fr),
            theta ∉ collisions ((labelledAlong order omega p0 seq0).map (foldLabel gamma))
              ((labelledAlong order omega p1 seq1).map (foldLabel gamma)) →
            ∀ t q : Coeffs, ∃ (p0Commitment p1Commitment : G1) (wiring : Wiring G1)
                (proofAt : Fr → Proof G1),
              Responds (TrustedSetup.Reached secret : TrustedSetup G1 G2 → Prop) (commitCoeffs p0)
                (.ok p0Commitment) ∧
              Responds (TrustedSetup.Reached secret : TrustedSetup G1 G2 → Prop) (commitCoeffs p1)
                (.ok p1Commitment) ∧
              Responds (TrustedSetup.Reached secret : TrustedSetup G1 G2 → Prop)
                (commitCoeffs seq0) (.ok wiring.seq0) ∧
              Responds (TrustedSetup.Reached secret : TrustedSetup G1 G2 → Prop)
                (commitCoeffs seq1) (.ok wiring.seq1) ∧
              (∀ r, Responds (TrustedSetup.Reached secret : TrustedSetup G1 G2 → Prop)
                (openedPrescribedProof order omega p0 p1 seq0 seq1 t q r) (.ok (proofAt r))) ∧
              ∃ bad : Finset Fr,
                bad.card ≤ p0.length + p1.length + seq0.length + seq1.length + t.length +
                  q.length + order ∧
                  ∀ r, verifyPrescribed setup order p0Commitment p1Commitment wiring (proofAt r)
                    gamma theta r = .ok true → r ∈ bad := by
  have hEval (p seq : Coeffs) (gamma : Fr) :
      (labelledAlong order omega p seq).map (foldLabel gamma) =
        valuesAlong order omega (p.toPoly * C gamma - seq.toPoly).eval := by
    rw [labelledAlong, map_valuesAlong]
    congr 1
    funext x
    simp only [foldLabel, eval_sub, eval_mul, eval_C, Coeffs.eval_toPoly]
  refine ⟨(card_labelCollisions_le (by simp)).trans_eq (by simp), ?_⟩
  intro gamma hGamma
  refine ⟨(card_collisions_le (by simp)).trans_eq (by simp), ?_⟩
  intro setup secret theta hTheta t q
  have hPowers := TrustedSetup.suppliesPowers G1 G2 secret
  have hRowValues := map_foldLabel_ne hPairs hGamma
  rw [hEval, hEval] at hRowValues hTheta
  obtain ⟨bad, hCard, hBad⟩ :=
    exists_finset_of_verifyRows setup secret hOmega hRowValues hTheta t q
  refine ⟨_, _, ⟨seq0.commitmentAt secret, seq1.commitmentAt secret⟩, _,
    responds_commitmentAt hPowers p0, responds_commitmentAt hPowers p1,
    responds_commitmentAt hPowers seq0, responds_commitmentAt hPowers seq1,
    responds_openedPrescribedProof hPowers order omega p0 p1 seq0 seq1 t q, bad, ?_, ?_⟩
  · have hSide0 := natDegree_labelled_le p0 seq0 gamma
    have hSide1 := natDegree_labelled_le p1 seq1 gamma
    omega
  · intro r hr
    obtain ⟨o0, o1, hLabels, -, hRows⟩ := (verifyPrescribed_eq_ok_true_iff ..).mp hr
    simp only [exactProof, exactLabels, Rows.prescribed.injEq, Option.some.injEq, Prod.mk.injEq,
      true_and] at hLabels
    obtain ⟨rfl, rfl⟩ := hLabels
    apply hBad p0 p1 _ _ r
    simp only [eval_sub, eval_mul, eval_C, Coeffs.eval_toPoly]
    exact hRows

/-- Both sides have the values one and minus one, the second with its labels exchanged. -/
theorem prescribed_sound_exponent :
    (2 : Fr) ∉ labelCollisions (labelledAlong 2 (Fr.canonicalRoot 1) [0, 1] [0, 1])
      (labelledAlong 2 (Fr.canonicalRoot 1) [0, 1] [0, -1]) ∧
    (0 : Fr) ∉ collisions
      ((labelledAlong 2 (Fr.canonicalRoot 1) [0, 1] [0, 1]).map (foldLabel 2))
      ((labelledAlong 2 (Fr.canonicalRoot 1) [0, 1] [0, -1]).map (foldLabel 2)) ∧
    ∃ (p0Commitment p1Commitment : Exponent "G1") (wiring : Wiring (Exponent "G1"))
        (proofAt : Fr → Proof (Exponent "G1")) (bad : Finset Fr),
      (∀ r, Responds
        (TrustedSetup.Reached 2 : TrustedSetup (Exponent "G1") (Exponent "G2") → Prop)
        (openedPrescribedProof 2 (Fr.canonicalRoot 1) [0, 1] [0, 1] [0, 1] [0, -1] [1] [3] r)
        (.ok (proofAt r))) ∧
      bad.card ≤ 2 + 2 + 2 + 2 + 1 + 1 + 2 ∧
      ∀ r, verifyPrescribed (PublicSetup.ofPowers 2 0 0 : PublicSetup _ (Exponent "G2")) 2
        p0Commitment p1Commitment wiring (proofAt r) 2 0 r = .ok true → r ∈ bad := by
  have hOmega := Domain.canonicalGenerator_two_pow (by decide : 1 ≤ maxLogSize)
  have hPairs : labelledAlong 2 (Fr.canonicalRoot 1) [0, 1] [0, 1] ≠
      labelledAlong 2 (Fr.canonicalRoot 1) [0, 1] [0, -1] := by decide +kernel
  have hGamma : (2 : Fr) ∉ labelCollisions (labelledAlong 2 (Fr.canonicalRoot 1) [0, 1] [0, 1])
      (labelledAlong 2 (Fr.canonicalRoot 1) [0, 1] [0, -1]) := by decide +kernel
  have hTheta : (0 : Fr) ∉ collisions
      ((labelledAlong 2 (Fr.canonicalRoot 1) [0, 1] [0, 1]).map (foldLabel 2))
      ((labelledAlong 2 (Fr.canonicalRoot 1) [0, 1] [0, -1]).map (foldLabel 2)) := by
    rw [mem_collisions_iff (by simp) (map_foldLabel_ne hPairs hGamma)]
    decide +kernel
  refine ⟨hGamma, hTheta, ?_⟩
  obtain ⟨p0Commitment, p1Commitment, wiring, proofAt, -, -, -, -, hProof, bad, hCard, hBad⟩ :=
    ((prescribed_sound (Exponent "G1") (Exponent "G2") hOmega [0, 1] [0, 1] [0, 1] [0, -1]
      hPairs).2 2 hGamma).2 (PublicSetup.ofPowers 2 0 0) 2 0 hTheta [1] [3]
  exact ⟨p0Commitment, p1Commitment, wiring, proofAt, bad, hProof, hCard, hBad⟩

end Rows

end Kzg.Permutation
