import Kzg.Proofs.Curve.Groups
import Kzg.Proofs.Opening.DerivedWeight

/-! # Transcripts tell their inputs apart

All parts of a transcript are written in a fixed number of bytes, and valid points can be read back.
So two batches that pass the check, and two vectors with their valid commitments, share a transcript
only if they are equal, and the labels keep the two kinds apart. The check of the length of a
transcript never fails. -/

namespace Kzg

open PointGroup (generator)

variable {G : Type} [PointCodec G]

theorem transcript_ne_evaluationTranscript (b : Batch G) (evals : List Fr) (c : G) :
    b.transcript ≠ evaluationTranscript evals c := by
  intro h
  rw [Batch.transcript, evaluationTranscript, List.append_assoc, List.append_assoc,
    List.append_assoc] at h
  have hLabels := (List.append_inj h (by decide +kernel)).1
  exact absurd hLabels (by decide +kernel)

section Reader

variable [PointGroup G] [LawfulPointReader G]

namespace Batch

theorem claimBytes_inj {claim claim' : G × Opening G}
    (hValid : checkPoint claim.1 = .ok () ∧ checkPoint claim.2.proof = .ok ())
    (hValid' : checkPoint claim'.1 = .ok () ∧ checkPoint claim'.2.proof = .ok ())
    (h : claimBytes claim = claimBytes claim') : claim = claim' := by
  obtain ⟨c, z, y, proof⟩ := claim
  obtain ⟨c', z', y', proof'⟩ := claim'
  obtain ⟨h, hProof⟩ := List.append_inj' h (by simp only [LawfulPointCodec.length_encode])
  obtain ⟨h, hValue⟩ := List.append_inj' h (by simp only [Fr.length_toBytes])
  obtain ⟨hCommitment, hPoint⟩ := List.append_inj' h (by simp only [Fr.length_toBytes])
  cases (LawfulPointReader.encode_inj hValid.1 hValid'.1).mp hCommitment
  cases (LawfulPointReader.encode_inj hValid.2 hValid'.2).mp hProof
  cases Fr.toBytes_injective hPoint
  cases Fr.toBytes_injective hValue
  rfl

theorem transcript_inj {b b' : Batch G} (h : b.check = .ok ()) (h' : b'.check = .ok ()) :
    b.transcript = b'.transcript ↔ b = b' := by
  refine ⟨fun hEq => ?_, congrArg transcript⟩
  have hPrefix : (batchLabel ++ countBytes b.commitments.length).length =
      (batchLabel ++ countBytes b'.commitments.length).length := by
    simp only [List.length_append, length_countBytes]
  have hEntries := (List.append_inj hEq hPrefix).2
  rw [entries_eq_flatMap, entries_eq_flatMap] at hEntries
  have hPositive : 0 < 2 * PointCodec.byteSize G + 2 * Fr.byteSize := by
    have := LawfulPointReader.byteSize_pos (G := G)
    omega
  have hClaims : b.claims = b'.claims :=
    eq_of_flatMap_eq hPositive length_claimBytes (fun co hco co' hco' =>
      claimBytes_inj (valid_of_mem_claims h co hco) (valid_of_mem_claims h' co' hco')) hEntries
  rw [← ofOpenings_claims ((check_eq_ok_iff b).mp h).2.1, hClaims,
    ofOpenings_claims ((check_eq_ok_iff b').mp h').2.1]

end Batch

theorem evaluationTranscript_inj {evals evals' : List Fr} {c c' : G} (h : checkPoint c = .ok ())
    (h' : checkPoint c' = .ok ()) :
    evaluationTranscript evals c = evaluationTranscript evals' c' ↔ evals = evals' ∧ c = c' := by
  constructor
  · intro hEq
    obtain ⟨hPrefix, hCommitment⟩ :=
      List.append_inj' hEq (by simp only [LawfulPointCodec.length_encode])
    have hValues := (List.append_inj hPrefix (by simp only [List.length_append,
      length_countBytes])).2
    exact ⟨eq_of_flatMap_eq (by decide) Fr.length_toBytes
      (fun _ _ _ _ hBytes => Fr.toBytes_injective hBytes) hValues,
      (LawfulPointReader.encode_inj h h').mp hCommitment⟩
  · rintro ⟨rfl, rfl⟩
    rfl

end Reader

/-- On the first group of the curve the challenges depend on nothing but their whole input, and fail
only on batches and commitments that fail the check. -/
theorem transcripts_bind :
    (∀ b b' : Batch Bn254.G1, b.check = .ok () → b'.check = .ok () →
      b.transcript = b'.transcript → b = b') ∧
    (∀ (evals evals' : List Fr) (c c' : Bn254.G1),
      checkPoint c = .ok () → checkPoint c' = .ok () →
      evaluationTranscript evals c = evaluationTranscript evals' c' → evals = evals' ∧ c = c') ∧
    (∀ (b : Batch Bn254.G1) (evals : List Fr) (c : Bn254.G1),
      b.transcript ≠ evaluationTranscript evals c) ∧
    (∀ b : Batch Bn254.G1, b.challenge = b.check.map fun _ => hashToScalar b.transcript) ∧
    (∀ b : Batch Bn254.G1, b.check = .ok () ↔
      b.commitments ≠ [] ∧ b.Aligned ∧ (∀ c ∈ b.commitments, checkPoint c = .ok ()) ∧
        ∀ proof ∈ b.proofs, checkPoint proof = .ok ()) ∧
    ∀ (evals : List Fr) (c : Bn254.G1), evaluationChallenge evals c =
      (checkPoint c).map fun _ => hashToScalar (evaluationTranscript evals c) := by
  refine ⟨?_, ?_, ?_, ?_, ?_, ?_⟩
  · intro b b' h h'
    exact (Batch.transcript_inj h h').mp
  · intro evals evals' c c' h h'
    exact (evaluationTranscript_inj h h').mp
  · exact transcript_ne_evaluationTranscript
  · exact Batch.challenge_eq_map_check
  · exact Batch.check_eq_ok_iff
  · exact evaluationChallenge_eq_map_checkPoint

/-- The same claims in another order, one of them on the identity. -/
theorem transcripts_bind_swapped :
    let b : Batch Bn254.G1 := ⟨[generator, 0], [1, 2], [3, 4], [0, generator]⟩
    let b' : Batch Bn254.G1 := ⟨[0, generator], [2, 1], [4, 3], [generator, 0]⟩
    b.check = .ok () ∧ b'.check = .ok () ∧ b.transcript ≠ b'.transcript ∧
      (∃ r, b.challenge = .ok r) ∧
      evaluationTranscript [3, 4] (generator : Bn254.G1) ≠
        evaluationTranscript [3, 4, 0] (generator : Bn254.G1) := by
  intro b b'
  obtain ⟨hBatch, hEvals, -, hChallenge, hCheck, -⟩ := transcripts_bind
  have hGenerator : checkPoint (generator : Bn254.G1) = .ok () :=
    (checkPoint_passes_iff _).mpr (.inr ⟨by decide +kernel, rfl⟩)
  have hZero : checkPoint (0 : Bn254.G1) = .ok () := (checkPoint_passes_iff _).mpr (.inl rfl)
  have hFirst : b.check = .ok () :=
    (hCheck b).mpr ⟨by simp [b], ⟨rfl, rfl, rfl⟩, by simp [b, hGenerator, hZero],
      by simp [b, hGenerator, hZero]⟩
  have hSecond : b'.check = .ok () :=
    (hCheck b').mpr ⟨by simp [b'], ⟨rfl, rfl, rfl⟩, by simp [b', hGenerator, hZero],
      by simp [b', hGenerator, hZero]⟩
  refine ⟨hFirst, hSecond, ?_, ?_, ?_⟩
  · intro h
    have hPoints := congrArg Batch.points (hBatch b b' hFirst hSecond h)
    exact absurd hPoints (by decide)
  · rw [hChallenge, hFirst]
    exact ⟨_, rfl⟩
  · intro h
    obtain ⟨hLists, -⟩ := hEvals _ _ _ _ hGenerator hGenerator h
    exact absurd hLists (by decide)

end Kzg
