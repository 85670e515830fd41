import Kzg.Proofs.Opening.Batch
import Kzg.Proofs.Opening.Exact

/-! # Openings under the weight that they derive

On valid points a batch always derives a weight. So openings that are right one by one pass
together, and openings that pass together are right one by one unless the derived weight is one of
the few with which the batch passes all the same. -/

namespace Kzg

namespace Batch

variable {G : Type} [PointCodec G]

def claimBytes (claim : G × Opening G) : List UInt8 :=
  PointCodec.encode claim.1 ++ claim.2.point.toBytes ++ claim.2.value.toBytes ++
    PointCodec.encode claim.2.proof

theorem entries_eq_flatMap (b : Batch G) : b.entries = b.claims.flatMap claimBytes := by
  rw [claims, List.flatMap_map]
  rfl

variable [LawfulPointCodec G]

theorem length_claimBytes (claim : G × Opening G) :
    (claimBytes claim).length = 2 * PointCodec.byteSize G + 2 * Fr.byteSize := by
  simp only [claimBytes, List.length_append, LawfulPointCodec.length_encode, Fr.length_toBytes]
  ring

theorem length_transcript {b : Batch G} (h : b.Aligned) :
    b.transcript.length = batchLabel.length + 8 +
      b.commitments.length * (2 * PointCodec.byteSize G + 2 * Fr.byteSize) := by
  have hEntries : b.entries.length =
      b.commitments.length * (2 * PointCodec.byteSize G + 2 * Fr.byteSize) := by
    simp only [entries_eq_flatMap, List.length_flatMap, length_claimBytes, List.map_const',
      List.sum_replicate, length_claims h, smul_eq_mul]
  rw [transcript, List.length_append, List.length_append, length_countBytes, hEntries]

theorem challenge_eq [PointGroup G] {b : Batch G} (hAligned : b.Aligned)
    (hCheck : b.check = .ok ()) : b.challenge = .ok (hashToScalar b.transcript) := by
  rw [challenge, hCheck]
  exact if_pos (length_transcript hAligned)

theorem challenge_eq_map_check [PointGroup G] (b : Batch G) :
    b.challenge = b.check.map fun _ => hashToScalar b.transcript := by
  cases hCheck : b.check with
  | error e =>
    rw [challenge, hCheck]
    rfl
  | ok _ =>
    rw [challenge_eq ((check_eq_ok_iff b).mp hCheck).2.1 hCheck]
    rfl

end Batch

variable {G1 G2 : Type} [PointGroup G1] [PointGroup G2] [PointCodec G1] [Pairing G1 G2]
  {setup : PublicSetup G1 G2} {openings : List (G1 × Opening G1)}

/-- The openings are right one by one, or the derived weight is one of fewer than there are openings
with which they pass all the same. -/
def PassUpToWeight (setup : PublicSetup G1 G2) (openings : List (G1 × Opening G1)) : Prop :=
  (∀ co ∈ openings, co.2.verify setup co.1 = .ok true) ∨
    ∃ lucky : Finset Fr, lucky.card ≤ openings.length - 1 ∧
      (∀ c, (Batch.ofOpenings openings).verifyWith setup c = .ok true ↔ c ∈ lucky) ∧
      ∃ c ∈ lucky, (Batch.ofOpenings openings).challenge = .ok c

omit [PointCodec G1] in
theorem Batch.check_of_verifyWith {b : Batch G1} {weight : Fr} {v : Bool}
    (h : b.verifyWith setup weight = .ok v) : b.check = .ok () := by
  rw [Batch.verifyWith, seq_eq_ok_iff] at h
  exact h.1

theorem verifyOpenings_eq_ok_true_iff :
    verifyOpenings setup openings = .ok true ↔ (Batch.ofOpenings openings).check = .ok () ∧
      ∃ c, (Batch.ofOpenings openings).challenge = .ok c ∧
        (Batch.ofOpenings openings).verifyWith setup c = .ok true := by
  rw [verifyOpenings, Batch.verify, seq_eq_ok_iff, bind_eq_ok_iff]

variable [LawfulPointGroup G1] [LawfulPointGroup G2] [LawfulPairing G1 G2]

omit [PointCodec G1] in
theorem Batch.verifyWith_of_forall (hNonempty : openings ≠ [])
    (h : ∀ co ∈ openings, co.2.verify setup co.1 = .ok true) (weight : Fr) :
    (ofOpenings openings).verifyWith setup weight = .ok true := by
  obtain ⟨defects, -, hRun, hAll⟩ :=
    exists_defects setup hNonempty fun co hco => ⟨true, h co hco⟩
  rw [hRun, Coeffs.eval_eq_zero_of_forall (hAll.mp h), decide_eq_true rfl]

theorem verifyOpenings_of_forall [LawfulPointCodec G1] (hNonempty : openings ≠ [])
    (h : ∀ co ∈ openings, co.2.verify setup co.1 = .ok true) :
    verifyOpenings setup openings = .ok true := by
  have hPass := Batch.verifyWith_of_forall hNonempty h
  have hCheck := Batch.check_of_verifyWith (hPass 0)
  exact verifyOpenings_eq_ok_true_iff.mpr
    ⟨hCheck, _, Batch.challenge_eq (Batch.aligned_ofOpenings openings) hCheck, hPass _⟩

/-- The true opening of `p` against the commitment to `c` instead. -/
noncomputable def Coeffs.claimAt (p : Coeffs) (secret z c : Fr) : Fr × Opening Fr :=
  (c, ⟨z, p.eval z, (p.quotientAt z).eval secret⟩)

theorem defect_claimAt (p : Coeffs) (secret z c : Fr) :
    defect secret (p.claimAt secret z c) = c - p.eval secret := by
  have hQuotient := p.eval_quotientAt_mul z secret
  rw [defect, Coeffs.claimAt]
  linear_combination -hQuotient

/-- On valid points the derived weight exists, and decides by the defects. -/
theorem verifyOpenings_liftClaim [LawfulPointCodec G1] {t : Fr}
    (hTau : setup.g2Tau = t • PointGroup.generator) {claims : List (Fr × Opening Fr)}
    (hNonempty : claims ≠ []) :
    ∃ c, (Batch.ofOpenings (claims.map (liftClaim (G := G1)))).challenge = .ok c ∧
      (verifyOpenings setup (claims.map liftClaim) = .ok true ↔
        Coeffs.eval (claims.map (defect t)) c = 0) := by
  have hPass := Batch.verifyWith_liftClaim hTau hNonempty
  have hCheck := Batch.check_of_verifyWith (hPass 0)
  have hChallenge := Batch.challenge_eq
    (Batch.aligned_ofOpenings (claims.map (liftClaim (G := G1)))) hCheck
  refine ⟨_, hChallenge, ?_⟩
  rw [verifyOpenings_eq_ok_true_iff]
  constructor
  · rintro ⟨-, c, hDerived, hAccepts⟩
    rw [hChallenge, Except.ok.injEq] at hDerived
    rwa [hPass, ← hDerived, Except.ok.injEq, decide_eq_true_eq] at hAccepts
  · intro hZero
    exact ⟨hCheck, _, hChallenge, by rw [hPass, decide_eq_true hZero]⟩

section Exact

variable {secret : Fr} (hTau : setup.g2Tau = secret • PointGroup.generator)
  {polys : List (Coeffs × Fr)} (hNonempty : polys ≠ [])

include hTau hNonempty

omit [PointCodec G1] in
theorem Batch.verifyWith_exactOpenings (weight : Fr) :
    (ofOpenings (exactOpenings secret polys)).verifyWith setup weight = .ok true :=
  verifyWith_of_forall (by simpa [exactOpenings] using hNonempty)
    (fun _ => verify_of_mem_exactOpenings hTau) weight

theorem verifyOpenings_exactOpenings [LawfulPointCodec G1] :
    verifyOpenings setup (exactOpenings secret polys) = .ok true :=
  verifyOpenings_of_forall (by simpa [exactOpenings] using hNonempty)
    fun _ => verify_of_mem_exactOpenings hTau

end Exact

end Kzg
