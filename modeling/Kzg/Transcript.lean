import Kzg.Group.Basic
import Kzg.Hash.Sha256

/-! # Transcripts

A challenge is the hash of a byte string that fixes everything the challenge must depend on. Each
kind of transcript starts with its own label and counts its entries, so that neither two kinds nor
two lists of different length share a string. -/

namespace Kzg

def hashToScalar (message : List UInt8) : Fr :=
  Fr.ofNat (natOfBE (Sha256.digest message))

def evaluationLabel : List UInt8 := asciiBytes "POLYCOMMIT_FSEVALVERIFY_"

def batchLabel : List UInt8 := asciiBytes "POLYCOMMIT_RCKZGBATCH_V1"

variable {G : Type} [PointCodec G]

def evaluationTranscript (evals : List Fr) (commitment : G) : List UInt8 :=
  evaluationLabel ++ countBytes evals.length ++ evals.flatMap Fr.toBytes ++
    PointCodec.encode commitment

structure Batch (G : Type) where
  commitments : List G
  points : List Fr
  values : List Fr
  proofs : List G

def Batch.entries (b : Batch G) : List UInt8 :=
  ((b.commitments.zip b.points).zip (b.values.zip b.proofs)).flatMap fun ((c, z), (y, proof)) =>
    PointCodec.encode c ++ z.toBytes ++ y.toBytes ++ PointCodec.encode proof

def Batch.transcript (b : Batch G) : List UInt8 :=
  batchLabel ++ countBytes b.commitments.length ++ b.entries

/-- Hashes a transcript whose length is the one its parts announce. -/
def hashTranscript (length : Nat) (transcript : List UInt8) : Except KzgError Fr :=
  if transcript.length = length then .ok (hashToScalar transcript) else .error .inputLength

def evaluationChallenge [PointGroup G] (evals : List Fr) (commitment : G) :
    Except KzgError Fr := do
  checkPoint commitment
  let length := evaluationLabel.length + 8 + evals.length * Fr.byteSize + PointCodec.byteSize G
  hashTranscript length (evaluationTranscript evals commitment)

/-- As many points, values and proofs as commitments, at least one, and only valid points. -/
def Batch.check [PointGroup G] (b : Batch G) : Except KzgError Unit := do
  let n := b.commitments.length
  if n = 0 || b.points.length ≠ n || b.values.length ≠ n || b.proofs.length ≠ n then
    throw .inputLength
  b.commitments.forM checkPoint
  b.proofs.forM checkPoint

def Batch.challenge [PointGroup G] (b : Batch G) : Except KzgError Fr := do
  b.check
  let entrySize := 2 * PointCodec.byteSize G + 2 * Fr.byteSize
  hashTranscript (batchLabel.length + 8 + b.commitments.length * entrySize) b.transcript

end Kzg
