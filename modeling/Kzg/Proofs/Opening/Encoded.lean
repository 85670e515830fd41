import Kzg.Curve.Pairing
import Kzg.Opening.Batch
import Kzg.Proofs.Bytes
import Kzg.Proofs.Curve.Groups
import Kzg.Proofs.Group.Reading
import Kzg.Proofs.Traversal

/-! # Claims that come in writing

Written claims are read field by field, in a batch all fields of one kind before those of the next,
and then verified as they are. A cause that names a field comes from the reading alone, as no check
on points and lists reports one, so it names the first kind that cannot be read. -/

namespace Kzg

def readsPoint (G : Type) [PointCodec G] (bytes : List UInt8) : Bool :=
  (readPoint bytes : Except PointReadError G).isOk

def readsScalar (bytes : List UInt8) : Bool :=
  (Fr.ofBytes bytes).isOk

theorem readsScalar_iff (bytes : List UInt8) :
    readsScalar bytes = true ↔ bytes.length = Fr.byteSize ∧ natOfBE bytes < scalarOrder :=
  isOk_iff.trans (Fr.exists_ofBytes_iff bytes)

/-- The fields stand in the order in which they are read, each with whether it can be. -/
def NamesFirst (fields : List (String × Bool)) (detail : String) : Prop :=
  ∃ field, (fields.find? fun f => !f.2).map Prod.fst = some field ∧
    detail = s!"Failed to deserialize {field}"

section Fields

variable {α β : Type} {fields : List (String × Bool)} {detail : String}

@[simp] theorem namesFirst_nil : ¬ NamesFirst [] detail := by
  simp [NamesFirst]

@[simp] theorem namesFirst_cons_true (field : String) :
    NamesFirst ((field, true) :: fields) detail ↔ NamesFirst fields detail := by
  simp [NamesFirst]

@[simp] theorem namesFirst_cons_false (field : String) :
    NamesFirst ((field, false) :: fields) detail ↔ detail = s!"Failed to deserialize {field}" := by
  simp [NamesFirst]

/-- One field is read, and what follows is left to name the others. -/
theorem readField_bind_eq_serialization_iff {x : Except PointReadError α}
    {f : α → Except KzgError β} (field : String)
    (h : ∀ a, f a = .error (.serialization detail) ↔ NamesFirst fields detail) :
    (readField field x >>= f) = .error (.serialization detail) ↔
      NamesFirst ((field, x.isOk) :: fields) detail := by
  cases x with
  | error e =>
    have hNamed : (readField field (.error e) >>= f) = .error (.badField field) := rfl
    rw [hNamed, KzgError.badField, Except.error.injEq, KzgError.serialization.injEq]
    exact eq_comm.trans (namesFirst_cons_false field).symm
  | ok a => exact (h a).trans (namesFirst_cons_true field).symm

theorem mapM_readField (field : String) (read : α → Except PointReadError β) (l : List α) :
    (l.mapM fun a => readField field (read a)) = readField field (l.mapM read) := by
  induction l with
  | nil => rfl
  | cons a l ih =>
    rw [List.mapM_cons, List.mapM_cons, ih]
    cases read a with
    | error e => rfl
    | ok b => cases l.mapM read <;> rfl

end Fields

/-- What is written in such a way that it can be read back is read back as a whole. -/
theorem mapM_map_eq_ok {α : Type} {write : α → List UInt8}
    {read : List UInt8 → Except PointReadError α} {l : List α}
    (h : ∀ a ∈ l, read (write a) = .ok a) : (l.map write).mapM read = .ok l := by
  have hRead : l.mapM (read ∘ write) = .ok (l.map id) := mapM_eq_ok h
  rw [List.mapM_map, hRead, List.map_id]

/-! ## Checks that name no field -/

section Checks

variable {G : Type} [PointGroup G] {detail : String}

theorem checkPoint_ne_serialization (p : G) : checkPoint p ≠ .error (.serialization detail) := by
  rw [checkPoint]
  split_ifs <;> simp [KzgError.offCurve, KzgError.outsideSubgroup]

theorem linearCombination_ne_serialization (points : List G) (scalars : List Fr) :
    linearCombination points scalars ≠ .error (.serialization detail) := by
  rw [linearCombination]
  split_ifs <;> simp [KzgError.termCounts]

theorem Batch.check_ne_serialization (b : Batch G) : b.check ≠ .error (.serialization detail) := by
  have hPoints : (do b.commitments.forM checkPoint; b.proofs.forM checkPoint) ≠
      Except.error (KzgError.serialization detail) :=
    bind_ne_error (forM_ne_error checkPoint_ne_serialization _) fun _ =>
      forM_ne_error checkPoint_ne_serialization _
  rw [Batch.check]
  split_ifs
  · exact fun h => by cases h
  · exact hPoints

theorem Batch.challenge_ne_serialization [PointCodec G] (b : Batch G) :
    b.challenge ≠ .error (.serialization detail) := by
  refine bind_ne_error b.check_ne_serialization fun _ => ?_
  rw [hashTranscript]
  split_ifs <;> simp

variable {G1 G2 : Type} [PointGroup G1] [PointGroup G2] [Pairing G1 G2]
  (setup : PublicSetup G1 G2)

theorem verifyValue_ne_serialization (commitment proof : G1) (z y : Fr) :
    verifyValue setup commitment proof z y ≠ .error (.serialization detail) := by
  refine bind_ne_error ?_ fun _ => pure_ne_error _
  refine bind_ne_error (checkPoint_ne_serialization commitment) fun _ => ?_
  exact bind_ne_error (checkPoint_ne_serialization proof) fun _ => checkPoint_ne_serialization _

theorem Batch.verify_ne_serialization [PointCodec G1] (b : Batch G1) :
    b.verify setup ≠ .error (.serialization detail) := by
  refine bind_ne_error b.check_ne_serialization fun _ => ?_
  refine bind_ne_error b.challenge_ne_serialization fun weight => ?_
  refine bind_ne_error b.check_ne_serialization fun _ => ?_
  refine bind_ne_error (checkPoint_ne_serialization _) fun _ => ?_
  refine bind_ne_error (linearCombination_ne_serialization _ _) fun _ => ?_
  refine bind_ne_error (linearCombination_ne_serialization _ _) fun _ => ?_
  exact bind_ne_error (linearCombination_ne_serialization _ _) fun _ => pure_ne_error _

end Checks

section Written

variable {G1 G2 : Type} [PointGroup G1] [PointGroup G2] [Pairing G1 G2] [PointCodec G1]

/-- Verifying written claims is verifying what they say, and fails for its own reason only where
they say nothing. -/
structure VerifiesWritten (setup : PublicSetup G1 G2) : Prop where
  value_eq {commitment proof : G1} (z y : Fr) :
    checkPoint commitment = .ok () → checkPoint proof = .ok () →
      verifyValueBytes setup (pointBytes commitment) (pointBytes proof) z.toBytes y.toBytes =
        verifyValue setup commitment proof z y
  batch_eq (b : Batch G1) :
    (∀ p ∈ b.commitments, checkPoint p = .ok ()) → (∀ p ∈ b.proofs, checkPoint p = .ok ()) →
      verifyBatchBytes setup (b.commitments.map pointBytes) (b.points.map Fr.toBytes)
        (b.values.map Fr.toBytes) (b.proofs.map pointBytes) = b.verify setup
  value_error_iff (commitment proof z y : List UInt8) (detail : String) :
    verifyValueBytes setup commitment proof z y = .error (.serialization detail) ↔
      NamesFirst [("commitment", readsPoint G1 commitment), ("proof", readsPoint G1 proof),
        ("z_fr", readsScalar z), ("value_fr", readsScalar y)] detail
  batch_error_iff (commitments points values proofs : List (List UInt8)) (detail : String) :
    verifyBatchBytes setup commitments points values proofs = .error (.serialization detail) ↔
      NamesFirst [("commitment", commitments.all (readsPoint G1)),
        ("proof", proofs.all (readsPoint G1)), ("z", points.all readsScalar),
        ("y", values.all readsScalar)] detail

variable (setup : PublicSetup G1 G2)

/-- All fields of one kind are read at once. -/
theorem verifyBatchBytes_eq (commitments points values proofs : List (List UInt8)) :
    verifyBatchBytes setup commitments points values proofs = (do
      let commitments ← readField "commitment" (commitments.mapM readPoint)
      let proofs ← readField "proof" (proofs.mapM readPoint)
      let points ← readField "z" (points.mapM Fr.ofBytes)
      let values ← readField "y" (values.mapM Fr.ofBytes)
      Batch.verify setup { commitments, points, values, proofs }) := by
  rw [verifyBatchBytes, Batch.ofBytes]
  simp only [bind_assoc, pure_bind, mapM_readField]

theorem verifyValueBytes_eq_serialization_iff (commitment proof z y : List UInt8)
    (detail : String) :
    verifyValueBytes setup commitment proof z y = .error (.serialization detail) ↔
      NamesFirst [("commitment", readsPoint G1 commitment), ("proof", readsPoint G1 proof),
        ("z_fr", readsScalar z), ("value_fr", readsScalar y)] detail := by
  refine readField_bind_eq_serialization_iff "commitment" fun c => ?_
  refine readField_bind_eq_serialization_iff "proof" fun p => ?_
  refine readField_bind_eq_serialization_iff "z_fr" fun point => ?_
  refine readField_bind_eq_serialization_iff "value_fr" fun value => ?_
  exact iff_of_false (verifyValue_ne_serialization setup c p point value) namesFirst_nil

theorem verifyBatchBytes_eq_serialization_iff (commitments points values proofs : List (List UInt8))
    (detail : String) :
    verifyBatchBytes setup commitments points values proofs = .error (.serialization detail) ↔
      NamesFirst [("commitment", commitments.all (readsPoint G1)),
        ("proof", proofs.all (readsPoint G1)), ("z", points.all readsScalar),
        ("y", values.all readsScalar)] detail := by
  have hPoint (l : List (List UInt8)) :
      l.all (readsPoint G1) = (l.mapM (readPoint (G := G1))).isOk := (isOk_mapM _ l).symm
  have hScalar (l : List (List UInt8)) : l.all readsScalar = (l.mapM Fr.ofBytes).isOk :=
    (isOk_mapM _ l).symm
  rw [verifyBatchBytes_eq, hPoint, hPoint, hScalar, hScalar]
  refine readField_bind_eq_serialization_iff "commitment" fun c => ?_
  refine readField_bind_eq_serialization_iff "proof" fun p => ?_
  refine readField_bind_eq_serialization_iff "z" fun z => ?_
  refine readField_bind_eq_serialization_iff "y" fun y => ?_
  exact iff_of_false (Batch.verify_ne_serialization setup _) namesFirst_nil

theorem verifiesWritten [LawfulPointReader G1] : VerifiesWritten setup where
  value_eq {commitment proof} z y hCommitment hProof := by
    rw [verifyValueBytes, readPoint_pointBytes hCommitment, readPoint_pointBytes hProof,
      Fr.ofBytes_toBytes, Fr.ofBytes_toBytes]
    rfl
  batch_eq b hCommitments hProofs := by
    rw [verifyBatchBytes_eq, mapM_map_eq_ok fun p hp => readPoint_pointBytes (hCommitments p hp),
      mapM_map_eq_ok fun p hp => readPoint_pointBytes (hProofs p hp),
      mapM_map_eq_ok fun a _ => Fr.ofBytes_toBytes a,
      mapM_map_eq_ok fun a _ => Fr.ofBytes_toBytes a]
    rfl
  value_error_iff := verifyValueBytes_eq_serialization_iff setup
  batch_error_iff := verifyBatchBytes_eq_serialization_iff setup

end Written

namespace Bn254

/-- Written claims over the curve, whatever the setup. A written scalar is a number below the order
of the group in its digits to the base of a byte, and is written in no other way. -/
theorem verify_written :
    (∀ setup : PublicSetup G1 G2, VerifiesWritten setup) ∧
    ∀ bytes : List UInt8,
      (readsScalar bytes = true ↔ bytes.length = 32 ∧
        Nat.ofDigits 256 (bytes.reverse.map UInt8.toNat) < scalarOrder) ∧
      ∀ a : Fr, Fr.ofBytes bytes = .ok a → a.toBytes = bytes := by
  refine ⟨fun setup => verifiesWritten setup, fun bytes => ⟨?_, fun a => Fr.ofBytes_eq_ok_iff.mp⟩⟩
  rw [← natOfLE_eq_ofDigits]
  exact readsScalar_iff bytes

/-- A proof and a point that cannot be read, and the order of the group as a point of a batch whose
lists differ in length. The number before the order is a scalar. -/
theorem verify_written_modulus :
    let setup : PublicSetup G1 G2 :=
      ⟨[G1.generator], [G2.generator, G2.generator], rfl, rfl, le_rfl⟩
    let written : List UInt8 := List.replicate 31 0 ++ [1]
    let b : Batch G1 := ⟨[G1.generator, 0], [3], [], [G1.generator]⟩
    verifyValueBytes setup (pointBytes G1.generator) (pointBytes (0 : G1)) (Fr.toBytes 3)
      (Fr.toBytes 1) = verifyValue setup G1.generator 0 3 1 ∧
    verifyBatchBytes setup (b.commitments.map pointBytes) (b.points.map Fr.toBytes)
      (b.values.map Fr.toBytes) (b.proofs.map pointBytes) = b.verify setup ∧
    verifyValueBytes setup written [] (bytesBE 32 scalarOrder) written =
      .error (.serialization "Failed to deserialize proof") ∧
    verifyBatchBytes setup [written, written] [written, bytesBE 32 scalarOrder] [[]] [] =
      .error (.serialization "Failed to deserialize z") ∧
    readsScalar (bytesBE 32 scalarOrder) = false ∧
    readsScalar (bytesBE 32 (scalarOrder - 1)) = true := by
  intro setup written b
  obtain ⟨hVerifies, hScalars⟩ := verify_written
  have hGenerator : checkPoint G1.generator = .ok () := by decide +kernel
  have hIdentity : checkPoint (0 : G1) = .ok () := by decide +kernel
  have hCommitments : ∀ p ∈ b.commitments, checkPoint p = .ok () := by
    simpa [b] using ⟨hGenerator, hIdentity⟩
  have hProofs : ∀ p ∈ b.proofs, checkPoint p = .ok () := by
    simpa [b] using hGenerator
  refine ⟨(hVerifies setup).value_eq 3 1 hGenerator hIdentity,
    (hVerifies setup).batch_eq b hCommitments hProofs,
    ((hVerifies setup).value_error_iff _ _ _ _ _).mpr ⟨"proof", by decide +kernel, rfl⟩,
    ((hVerifies setup).batch_error_iff _ _ _ _ _).mpr ⟨"z", by decide +kernel, rfl⟩, ?_, ?_⟩
  · rw [Bool.eq_false_iff, Ne, (hScalars _).1]
    decide +kernel
  · rw [(hScalars _).1]
    decide +kernel

end Bn254

end Kzg
