import Kzg.Proofs.Opening.Verify
import Kzg.Opening.Batch

/-! # A batch is as good as its claims

Over the scalars of its points a batch is verified by the value at the weight of the polynomial
whose coefficients are the defects of the claims. It is zero if all claims hold, and otherwise it
has fewer roots than there are claims. -/

namespace Kzg

open PointGroup (generator)
open LawfulPointGroup

section Claims

variable {G : Type}

structure Batch.Aligned (b : Batch G) : Prop where
  points : b.points.length = b.commitments.length
  values : b.values.length = b.commitments.length
  proofs : b.proofs.length = b.commitments.length

/-- The claims one after the other, each with its commitment. -/
def Batch.claims (b : Batch G) : List (G × Opening G) :=
  ((b.commitments.zip b.points).zip (b.values.zip b.proofs)).map fun ((c, z), (y, proof)) =>
    (c, ⟨z, y, proof⟩)

theorem Batch.length_claims {b : Batch G} (h : b.Aligned) :
    b.claims.length = b.commitments.length := by
  simp [claims, h.points, h.values, h.proofs]

theorem Batch.ofOpenings_claims {b : Batch G} (h : b.Aligned) : ofOpenings b.claims = b := by
  obtain ⟨hPoints, hValues, hProofs⟩ := h
  obtain ⟨commitments, points, values, proofs⟩ := b
  simp only at hPoints hValues hProofs
  simp only [ofOpenings, claims, Batch.mk.injEq, List.map_map]
  refine ⟨?_, ?_, ?_, ?_⟩
  all_goals
    apply List.ext_getElem
    · simp [hPoints, hValues, hProofs]
    · simp

def defect (secret : Fr) (claim : Fr × Opening Fr) : Fr :=
  claim.1 - claim.2.value - claim.2.proof * (secret - claim.2.point)

def liftClaim [PointGroup G] (claim : Fr × Opening Fr) : G × Opening G :=
  (claim.1 • generator, ⟨claim.2.point, claim.2.value, claim.2.proof • generator⟩)

theorem Batch.ofOpenings_liftClaim [PointGroup G] (claims : List (Fr × Opening Fr)) :
    ofOpenings (claims.map (liftClaim (G := G))) = {
      commitments := generatorMultiples (claims.map fun claim => claim.1)
      points := claims.map fun claim => claim.2.point
      values := claims.map fun claim => claim.2.value
      proofs := generatorMultiples (claims.map fun claim => claim.2.proof) } := by
  simp only [ofOpenings, generatorMultiples, List.map_map]
  rfl

/-- The folded equation is the combination of the defects with the weights. -/
theorem folded_eq (secret : Fr) (claims : List (Fr × Opening Fr)) (weights : List Fr) :
    Fr.dot (claims.map fun claim => claim.1) weights +
        Fr.dot (claims.map fun claim => claim.2.proof)
          (List.zipWith (· * ·) weights (claims.map fun claim => claim.2.point)) -
        Fr.dot weights (claims.map fun claim => claim.2.value) -
        Fr.dot (claims.map fun claim => claim.2.proof) weights * secret =
      Fr.dot weights (claims.map (defect secret)) := by
  induction claims generalizing weights with
  | nil => simp
  | cons claim claims ih =>
    cases weights with
    | nil => simp
    | cons weight weights =>
      simp only [List.map_cons, List.zipWith_cons_cons, Fr.dot_cons, ← ih weights, defect]
      ring

end Claims

variable {G1 G2 : Type} [PointGroup G1] [PointGroup G2]

theorem Batch.check_eq_ok_iff (b : Batch G1) : b.check = .ok () ↔
    b.commitments ≠ [] ∧ b.Aligned ∧ (∀ c ∈ b.commitments, checkPoint c = .ok ()) ∧
      ∀ proof ∈ b.proofs, checkPoint proof = .ok () := by
  rw [check]
  split
  · rename_i hLengths
    constructor
    · intro h
      cases h
    · rintro ⟨hNonempty, ⟨hPoints, hValues, hProofs⟩, -⟩
      simp [hNonempty, hPoints, hValues, hProofs] at hLengths
  · rename_i hLengths
    simp only [ne_eq, decide_not, Bool.or_eq_true, decide_eq_true_eq, Bool.not_eq_true',
      decide_eq_false_iff_not, not_or, not_not, List.length_eq_zero_iff] at hLengths
    obtain ⟨⟨⟨hNonempty, hPoints⟩, hValues⟩, hProofs⟩ := hLengths
    rw [seq_eq_ok_iff, forM_eq_ok_iff, forM_eq_ok_iff]
    exact ⟨fun h => ⟨hNonempty, ⟨hPoints, hValues, hProofs⟩, h⟩, fun h => h.2.2⟩

theorem Batch.aligned_ofOpenings {G : Type} (openings : List (G × Opening G)) :
    (ofOpenings openings).Aligned := by
  constructor <;> simp [ofOpenings]

theorem Batch.check_ofOpenings_eq_ok_iff {openings : List (G1 × Opening G1)}
    (hNonempty : openings ≠ []) :
    (ofOpenings openings).check = .ok () ↔
      ∀ co ∈ openings, checkPoint co.1 = .ok () ∧ checkPoint co.2.proof = .ok () := by
  have hCommitments : (ofOpenings openings).commitments ≠ [] := by
    simpa [ofOpenings] using hNonempty
  rw [check_eq_ok_iff, and_iff_right hCommitments, and_iff_right (aligned_ofOpenings openings)]
  simp only [ofOpenings, List.forall_mem_map, forall_and]

theorem Batch.valid_of_mem_claims {b : Batch G1} (h : b.check = .ok ()) :
    ∀ co ∈ b.claims, checkPoint co.1 = .ok () ∧ checkPoint co.2.proof = .ok () := by
  intro co hco
  obtain ⟨-, hAligned, -⟩ := (check_eq_ok_iff b).mp h
  rw [← ofOpenings_claims hAligned] at h
  exact (check_ofOpenings_eq_ok_iff (List.ne_nil_of_mem hco)).mp h co hco

section Verify

variable [LawfulPointGroup G1] [LawfulPointGroup G2] [Pairing G1 G2] [LawfulPairing G1 G2]
  {setup : PublicSetup G1 G2} {t : Fr} (hTau : setup.g2Tau = t • generator)

include hTau

theorem verify_liftClaim (claim : Fr × Opening Fr) :
    (liftClaim claim : G1 × Opening G1).2.verify setup (liftClaim claim).1 =
      .ok (decide (defect t claim = 0)) := by
  rw [Opening.verify, liftClaim, verifyValue_smul hTau]
  simp only [defect, sub_eq_zero]

theorem Batch.verifyWith_liftClaim {claims : List (Fr × Opening Fr)} (hNonempty : claims ≠ [])
    (r : Fr) :
    verifyWith setup (ofOpenings (claims.map liftClaim)) r =
      .ok (decide (Coeffs.eval (claims.map (defect t)) r = 0)) := by
  have hCheck : (ofOpenings (claims.map (liftClaim (G := G1)))).check = .ok () := by
    rw [check_ofOpenings_eq_ok_iff (by simpa using hNonempty)]
    intro co hco
    obtain ⟨claim, -, rfl⟩ := List.mem_map.mp hco
    exact ⟨checkPoint_smul _, checkPoint_smul _⟩
  have hWeights (f : Fr × Opening Fr → Fr) :
      (claims.map f).length = (Fr.powers r claims.length).length := by simp
  have hProof := linearCombination_generatorMultiples (G := G1)
    (hWeights fun claim => claim.2.proof)
  have hAtPoints := linearCombination_generatorMultiples (G := G1)
    (show (claims.map fun claim => claim.2.proof).length = (List.zipWith (· * ·)
      (Fr.powers r claims.length) (claims.map fun claim => claim.2.point)).length by simp)
  have hCommitment := linearCombination_generatorMultiples (G := G1)
    (hWeights fun claim => claim.1)
  have hValue : (List.zipWith (· * ·) (Fr.powers r claims.length)
      (claims.map fun claim => claim.2.value)).foldl (· + ·) 0 =
        Fr.dot (Fr.powers r claims.length) (claims.map fun claim => claim.2.value) :=
    List.sum_eq_foldl.symm
  rw [verifyWith, hCheck, hTau, checkPoint_smul, ofOpenings_liftClaim]
  simp only [length_generatorMultiples, List.length_map, hProof, hAtPoints, hCommitment, hValue,
    bind, Except.bind, pure, Except.pure]
  have hHorner : Fr.dot (Fr.powers r claims.length) (claims.map (defect t)) =
      Coeffs.eval (claims.map (defect t)) r := by
    rw [← Fr.dot_powers, List.length_map]
  congr 1
  -- Both sides pair multiples of the generators, so the equation is one between scalars.
  rw [Bool.eq_iff_iff, decide_eq_true_eq, ← add_smul_generator, ← sub_smul_generator,
    pairingsEqual_smul_generator_iff, eq_comm, ← sub_eq_zero, folded_eq, hHorner]

end Verify

section Equivalence

variable [LawfulPointGroup G1] [LawfulPointGroup G2] [Pairing G1 G2] [LawfulPairing G1 G2]
  (setup : PublicSetup G1 G2)

omit [PointGroup G2] [LawfulPointGroup G2] [Pairing G1 G2] [LawfulPairing G1 G2] in
theorem exists_map_liftClaim_eq {openings : List (G1 × Opening G1)}
    (h : ∀ co ∈ openings, checkPoint co.1 = .ok () ∧ checkPoint co.2.proof = .ok ()) :
    ∃ claims : List (Fr × Opening Fr), claims.map liftClaim = openings := by
  induction openings with
  | nil => exact ⟨[], rfl⟩
  | cons co openings ih =>
    obtain ⟨⟨hCommitment, hProof⟩, hRest⟩ := List.forall_mem_cons.mp h
    obtain ⟨c, hc⟩ := (checkPoint_eq_ok_iff _).mp hCommitment
    obtain ⟨q, hq⟩ := (checkPoint_eq_ok_iff _).mp hProof
    obtain ⟨claims, rfl⟩ := ih hRest
    refine ⟨(c, ⟨co.2.point, co.2.value, q⟩) :: claims, ?_⟩
    rw [List.map_cons, liftClaim, ← hc, ← hq]

theorem Batch.exists_verifyWith_eq_ok_iff {openings : List (G1 × Opening G1)}
    (hNonempty : openings ≠ []) (r : Fr) :
    (∃ v, verifyWith setup (ofOpenings openings) r = .ok v) ↔
      ∀ co ∈ openings, ∃ v, co.2.verify setup co.1 = .ok v := by
  simp only [Opening.verify, exists_verifyValue_eq_ok_iff]
  constructor
  · rintro ⟨v, h⟩ co hco
    rw [verifyWith, seq_eq_ok_iff, seq_eq_ok_iff, check_ofOpenings_eq_ok_iff hNonempty] at h
    exact ⟨(h.1 co hco).1, (h.1 co hco).2, h.2.1⟩
  · intro h
    obtain ⟨co, hco⟩ := List.exists_mem_of_ne_nil openings hNonempty
    obtain ⟨t, hTau⟩ := (checkPoint_eq_ok_iff _).mp (h co hco).2.2
    obtain ⟨claims, rfl⟩ := exists_map_liftClaim_eq fun co hco => ⟨(h co hco).1, (h co hco).2.1⟩
    exact ⟨_, verifyWith_liftClaim hTau (by simpa using hNonempty) r⟩

theorem Batch.exists_defects {openings : List (G1 × Opening G1)} (hNonempty : openings ≠ [])
    (h : ∀ co ∈ openings, ∃ v, co.2.verify setup co.1 = .ok v) :
    ∃ (defects : Coeffs), defects.length = openings.length ∧
      (∀ r, verifyWith setup (ofOpenings openings) r = .ok (decide (defects.eval r = 0))) ∧
      ((∀ co ∈ openings, co.2.verify setup co.1 = .ok true) ↔ ∀ c ∈ defects, c = 0) := by
  simp only [Opening.verify, exists_verifyValue_eq_ok_iff] at h
  obtain ⟨co, hco⟩ := List.exists_mem_of_ne_nil openings hNonempty
  obtain ⟨t, hTau⟩ := (checkPoint_eq_ok_iff _).mp (h co hco).2.2
  obtain ⟨claims, rfl⟩ := exists_map_liftClaim_eq fun co hco => ⟨(h co hco).1, (h co hco).2.1⟩
  refine ⟨claims.map (defect t), by simp, ?_, ?_⟩
  · exact verifyWith_liftClaim hTau (by simpa using hNonempty)
  · simp only [List.forall_mem_map, verify_liftClaim hTau, Except.ok.injEq, decide_eq_true_eq]

/-- A batch fails with one of its claims, passes when they all do, and when one does not it passes
for fewer weights than it has claims. -/
theorem batch_equivalence {b : Batch G1} (hAligned : b.Aligned) (hNonempty : b.commitments ≠ []) :
    (∀ r, (∃ e, b.verifyWith setup r = .error e) ↔
      ∃ co ∈ b.claims, ∃ e, co.2.verify setup co.1 = .error e) ∧
    ((∀ co ∈ b.claims, co.2.verify setup co.1 = .ok true) →
      ∀ r, b.verifyWith setup r = .ok true) ∧
    ((∀ co ∈ b.claims, ∃ v, co.2.verify setup co.1 = .ok v) →
      (∃ co ∈ b.claims, co.2.verify setup co.1 = .ok false) →
        ∃ bad : Finset Fr, bad.card ≤ b.commitments.length - 1 ∧
          ∀ r, b.verifyWith setup r = .ok true → r ∈ bad) := by
  have hLength := Batch.length_claims hAligned
  have hClaims : b.claims ≠ [] := by
    rw [← List.length_pos_iff, hLength]
    exact List.length_pos_iff.mpr hNonempty
  have hBatch (r : Fr) :
      b.verifyWith setup r = Batch.verifyWith setup (Batch.ofOpenings b.claims) r := by
    rw [Batch.ofOpenings_claims hAligned]
  simp only [hBatch]
  refine ⟨?_, ?_, ?_⟩
  · intro r
    rw [exists_error_iff, Batch.exists_verifyWith_eq_ok_iff setup hClaims]
    simp only [exists_error_iff, not_forall, exists_prop]
  · intro hTrue r
    obtain ⟨defects, -, hRun, hAll⟩ :=
      Batch.exists_defects setup hClaims fun co hco => ⟨true, hTrue co hco⟩
    rw [hRun, Coeffs.eval_eq_zero_of_forall (hAll.mp hTrue), decide_eq_true rfl]
  · rintro hAnswered ⟨co, hco, hFalse⟩
    obtain ⟨defects, hDefects, hRun, hAll⟩ := Batch.exists_defects setup hClaims hAnswered
    have hSome : ∃ c ∈ defects, c ≠ 0 := by
      by_contra hNone
      push Not at hNone
      have hTrue := hAll.mpr hNone co hco
      rw [hFalse] at hTrue
      cases hTrue
    obtain ⟨bad, hCard, hBad⟩ := Coeffs.exists_finset_of_eval_eq_zero hSome
    refine ⟨bad, by rwa [hDefects, hLength] at hCard, ?_⟩
    intro r hr
    rw [hRun, Except.ok.injEq, decide_eq_true_eq] at hr
    exact hBad r hr

end Equivalence

/-- The first of the two claims holds and the second one does not. -/
theorem batch_equivalence_exponent :
    let setup : PublicSetup (Exponent "G1") (Exponent "G2") := PublicSetup.ofPowers 2 0 0
    let b : Batch (Exponent "G1") :=
      ⟨[.valid 5, .valid 7], [1, 3], [4, 1], [.valid 1, .valid 2]⟩
    (∃ bad : Finset Fr, bad.card ≤ 1 ∧ ∀ r, b.verifyWith setup r = .ok true → r ∈ bad) ∧
      ∀ r, ¬ ∃ e, b.verifyWith setup r = .error e := by
  intro setup b
  have hFirst : Opening.verify setup (.valid 5) ⟨1, 4, .valid 1⟩ = .ok true := by decide +kernel
  have hSecond : Opening.verify setup (.valid 7) ⟨3, 1, .valid 2⟩ = .ok false := by decide +kernel
  have hAnswered : ∀ co ∈ b.claims, ∃ v, co.2.verify setup co.1 = .ok v := by
    simp only [b, Batch.claims, List.zip_cons_cons, List.zip_nil_left, List.map_cons, List.map_nil,
      List.forall_mem_cons]
    exact ⟨⟨true, hFirst⟩, ⟨false, hSecond⟩, by simp⟩
  have hAligned : b.Aligned := ⟨rfl, rfl, rfl⟩
  obtain ⟨hError, -, hSound⟩ := batch_equivalence setup hAligned (List.cons_ne_nil _ _)
  refine ⟨hSound hAnswered ⟨_, List.mem_cons_of_mem _ List.mem_cons_self, hSecond⟩, ?_⟩
  intro r
  rw [hError]
  rintro ⟨co, hco, hFails⟩
  exact exists_error_iff.mp hFails (hAnswered co hco)

end Kzg
