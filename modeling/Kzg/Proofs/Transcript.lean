import Kzg.Proofs.Bytes
import Kzg.Proofs.Group.Laws
import Kzg.Transcript

/-! # Challenges of valid points

A transcript has the length that its parts announce, so a challenge fails only on points that are
not valid. -/

namespace Kzg

variable {G : Type} [PointCodec G] [LawfulPointCodec G]

theorem length_evaluationTranscript (evals : List Fr) (commitment : G) :
    (evaluationTranscript evals commitment).length =
      evaluationLabel.length + 8 + evals.length * Fr.byteSize + PointCodec.byteSize G := by
  have hValues : (evals.flatMap Fr.toBytes).length = evals.length * Fr.byteSize := by
    induction evals with
    | nil => simp
    | cons v evals ih => simp [ih, Nat.add_mul, Nat.add_comm]
  simp only [evaluationTranscript, List.length_append, hValues, length_countBytes,
    LawfulPointCodec.length_encode]

theorem evaluationChallenge_eq [PointGroup G] {commitment : G}
    (hCommitment : checkPoint commitment = .ok ()) (evals : List Fr) :
    evaluationChallenge evals commitment =
      .ok (hashToScalar (evaluationTranscript evals commitment)) := by
  rw [evaluationChallenge, hCommitment]
  exact if_pos (length_evaluationTranscript evals commitment)

theorem evaluationChallenge_eq_map_checkPoint [PointGroup G] (evals : List Fr) (c : G) :
    evaluationChallenge evals c =
      (checkPoint c).map fun _ => hashToScalar (evaluationTranscript evals c) := by
  cases hCheck : checkPoint c with
  | error e =>
    rw [evaluationChallenge, hCheck]
    rfl
  | ok _ =>
    rw [evaluationChallenge_eq hCheck]
    rfl

theorem exists_evaluationChallenge [PointGroup G] [LawfulPointGroup G] (evals : List Fr) (s : Fr) :
    ∃ z, evaluationChallenge evals (s • (PointGroup.generator : G)) = .ok z :=
  ⟨_, evaluationChallenge_eq (LawfulPointGroup.checkPoint_smul s) evals⟩

end Kzg
