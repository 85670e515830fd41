import Kzg.Proofs.Curve.Groups
import Kzg.Proofs.Setup.Pieces
import Kzg.Proofs.Setup.Public

/-! # What is written to files is what is loaded from them

Every piece of a file that has been written is the written form of a point. So the files of a setup
of valid points hold every shorter setup of the same secret, and a longer one is refused. -/

namespace Kzg

open PointGroup (generator)

section Points

variable {G : Type} [PointCodec G]

section Written

variable [LawfulPointCodec G]

theorem length_pointsToBytes (points : List G) :
    (pointsToBytes points).length = PointCodec.byteSize G * points.length := by
  induction points with
  | nil => rfl
  | cons p points ih =>
    rw [pointsToBytes, List.flatMap_cons, List.length_append, ← pointsToBytes, ih,
      length_pointBytes, List.length_cons, Nat.mul_succ, Nat.add_comm]

theorem pieceAt_pointsToBytes {points : List G} {k : Nat} (h : k < points.length) :
    pieceAt (PointCodec.byteSize G) (pointsToBytes points) k = pointBytes points[k] := by
  induction k generalizing points with
  | zero =>
    obtain ⟨p, points, rfl⟩ := List.exists_cons_of_length_pos h
    rw [pointsToBytes, List.flatMap_cons, pieceAt, Nat.zero_mul, List.drop_zero,
      List.take_left' (length_pointBytes p), List.getElem_cons_zero]
  | succ k ih =>
    obtain ⟨p, points, rfl⟩ := List.exists_cons_of_length_pos (Nat.zero_lt_of_lt h)
    rw [List.getElem_cons_succ, ← ih, pointsToBytes, List.flatMap_cons, ← pointsToBytes, pieceAt,
      pieceAt, Nat.succ_mul, Nat.add_comm, ← List.drop_drop,
      List.drop_left' (length_pointBytes p)]

end Written

variable [PointGroup G] [LawfulPointReader G] (schedule : Schedule) {points : List G}
  (hValid : ∀ p ∈ points, checkPoint p = .ok ()) (count : Nat)

include hValid

theorem readPoints_pointsToBytes : readPoints schedule (pointsToBytes points) count =
    if count ≤ points.length then .ok (points.take count)
    else .error (.pointCount count points.length) := by
  have hSize := LawfulPointReader.byteSize_pos (G := G)
  have hCount : (pointsToBytes points).length / PointCodec.byteSize G = points.length := by
    rw [length_pointsToBytes, Nat.mul_div_cancel_left _ hSize]
  have hLong : count * PointCodec.byteSize G ≤ (pointsToBytes points).length ↔
      count ≤ points.length := by
    rw [← hCount, Nat.le_div_iff_mul_le hSize]
  have hRead : ∀ k < min count ((pointsToBytes points).length / PointCodec.byteSize G),
      readPoint (pieceAt (PointCodec.byteSize G) (pointsToBytes points) k) =
        .ok (points.getD k generator) := by
    intro k hk
    rw [hCount, lt_min_iff] at hk
    rw [pieceAt_pointsToBytes hk.2, readPoint_pointBytes (hValid _ (List.getElem_mem hk.2)),
      List.getD_eq_getElem _ _ hk.2]
  rw [readPoints_of_readable schedule hSize hRead, hCount]
  simp only [hLong]
  split
  · rename_i hLe
    refine congrArg Except.ok (List.ext_getElem (by simp [hLe]) ?_)
    intro k hk _
    rw [List.length_map, List.length_range] at hk
    simp [hk.trans_le hLe]
  · rfl

theorem loadPoints_pointsToBytes :
    loadPoints schedule (some (pointsToBytes points)) count =
      if count ≤ points.length then .ok (points.take count)
      else .error (.pointCount count points.length) := by
  have hTaken : (points.take count).forM checkPoint = .ok () :=
    (forM_eq_ok_iff _).mpr fun p hp => hValid p (List.mem_of_mem_take hp)
  simp only [loadPoints, readPoints_pointsToBytes schedule hValid]
  split
  · simp only [bind, Except.bind]
    rw [hTaken]
    rfl
  · rfl

end Points

namespace PublicSetup

section Take

variable {G1 G2 : Type} [PointGroup G1] [PointGroup G2] (s : PublicSetup G1 G2) {a b : Nat}

theorem exists_ofVectors_take (ha : 1 ≤ a) (hb : 2 ≤ b) :
    ∃ s', ofVectors (s.g1.take a) (s.g2.take b) = .ok s' ∧ s'.g1 = s.g1.take a ∧
      s'.g2 = s.g2.take b := by
  have hHeads : (s.g1.take a).head? = some generator ∧
      (s.g2.take b).head? = some generator := by
    rw [List.head?_take, List.head?_take, if_neg (by omega), if_neg (by omega)]
    exact ⟨s.head_g1, s.head_g2⟩
  have hLength : 2 ≤ (s.g2.take b).length := by
    rw [List.length_take]
    exact le_min hb s.two_le_g2
  exact ⟨⟨_, _, hHeads.1, hHeads.2, hLength⟩, (ofVectors_eq_ok_iff _ _).mpr ⟨rfl, rfl⟩, rfl, rfl⟩

theorem ofVectors_take_of_short (h : a = 0 ∨ b < 2) :
    ofVectors (s.g1.take a) (s.g2.take b) = .error (if a = 0 then .emptySetup else .tooFewG2) := by
  by_cases ha : a = 0
  · rw [if_pos ha, ha]
    exact if_pos List.take_zero
  · have hHead : (s.g1.take a).head? = some generator := by
      rw [List.head?_take, if_neg ha, s.head_g1]
    have hNonempty : s.g1.take a ≠ [] := by
      intro hNil
      rw [hNil] at hHead
      cases hHead
    have hLength : ¬ 2 ≤ (s.g2.take b).length := by
      rw [List.length_take, not_le]
      exact (min_le_left _ _).trans_lt (h.resolve_left ha)
    rw [if_neg ha, ofVectors, if_neg hNonempty, dif_pos hHead, dif_neg hLength]

end Take

/-- Whatever the lengths and whichever workers read the files: the first file decides before the
second one, and a setup of some first points of each is refused only for what it lacks. -/
theorem ofFilesBy_toFiles (s : PublicSetup Bn254.G1 Bn254.G2)
    (hG1 : ∀ p ∈ s.g1, checkPoint p = .ok ()) (hG2 : ∀ q ∈ s.g2, checkPoint q = .ok ()) :
    s.toFiles.1.length = 32 * s.g1.length ∧ s.toFiles.2.length = 64 * s.g2.length ∧
    ∀ (g1Schedule g2Schedule : Schedule) (a b : Nat),
      let loaded : Except KzgError (PublicSetup Bn254.G1 Bn254.G2) :=
        ofFilesBy g1Schedule g2Schedule (some s.toFiles.1) (some s.toFiles.2) a b
      (1 ≤ a → a ≤ s.g1.length → 2 ≤ b → b ≤ s.g2.length →
        ∃ s', loaded = .ok s' ∧ s'.g1 = s.g1.take a ∧ s'.g2 = s.g2.take b) ∧
      (s.g1.length < a →
        loaded = .error (.setup s!"Expected {a} points, but got {s.g1.length}.")) ∧
      (a ≤ s.g1.length → s.g2.length < b →
        loaded = .error (.setup s!"Expected {b} points, but got {s.g2.length}.")) ∧
      (a ≤ s.g1.length → b ≤ s.g2.length → a = 0 ∨ b < 2 →
        loaded = .error (if a = 0 then .emptySetup else .tooFewG2)) := by
  refine ⟨length_pointsToBytes s.g1, length_pointsToBytes s.g2, ?_⟩
  intro g1Schedule g2Schedule a b loaded
  have hFirst := loadPoints_pointsToBytes g1Schedule hG1 a
  have hSecond := loadPoints_pointsToBytes g2Schedule hG2 b
  have hLoaded (ha : a ≤ s.g1.length) (hb : b ≤ s.g2.length) :
      loaded = ofVectors (s.g1.take a) (s.g2.take b) := by
    rw [if_pos ha] at hFirst
    rw [if_pos hb] at hSecond
    simp only [loaded, ofFilesBy, toFiles, hFirst, hSecond]
    rfl
  refine ⟨?_, ?_, ?_, ?_⟩
  · intro ha haLe hb hbLe
    rw [hLoaded haLe hbLe]
    exact s.exists_ofVectors_take ha hb
  · intro ha
    rw [if_neg ha.not_ge] at hFirst
    simp only [loaded, ofFilesBy, toFiles, hFirst]
    rfl
  · intro ha hb
    rw [if_pos ha] at hFirst
    rw [if_neg hb.not_ge] at hSecond
    simp only [loaded, ofFilesBy, toFiles, hFirst, hSecond]
    rfl
  · intro ha hb hShort
    rw [hLoaded ha hb]
    exact s.ofVectors_take_of_short hShort

/-- Identities after the first points, and a first file of which the second piece falls to another
worker, who is the first one to answer. -/
theorem ofFilesBy_toFiles_identity :
    let s : PublicSetup Bn254.G1 Bn254.G2 :=
      ⟨[generator, 0], [generator, 0, generator], rfl, rfl, by decide⟩
    let backwards : Schedule := ⟨2, fun offset => if offset = 0 then 1 else 0⟩
    (∀ p ∈ s.g1, checkPoint p = .ok ()) ∧ (∀ q ∈ s.g2, checkPoint q = .ok ()) ∧
      (∃ s' : PublicSetup Bn254.G1 Bn254.G2,
        ofFilesBy backwards .alone (some s.toFiles.1) (some s.toFiles.2) 2 2 = .ok s' ∧
          s'.g1 = [generator, 0] ∧ s'.g2 = [generator, 0]) ∧
      (ofFilesBy backwards .alone (some s.toFiles.1) (some s.toFiles.2) 3 2 :
        Except KzgError (PublicSetup Bn254.G1 Bn254.G2)) =
          .error (.pointCount 3 2) := by
  intro s backwards
  have hG1 : ∀ p ∈ s.g1, checkPoint p = .ok () := by
    have hGenerator : checkPoint (generator : Bn254.G1) = .ok () :=
      (checkPoint_passes_iff _).mpr (.inr ⟨by decide +kernel, rfl⟩)
    simp only [s, List.forall_mem_cons]
    exact ⟨hGenerator, (checkPoint_passes_iff _).mpr (.inl rfl), by simp⟩
  have hG2 : ∀ q ∈ s.g2, checkPoint q = .ok () := by
    have hGenerator : checkPoint (generator : Bn254.G2) = .ok () :=
      (checkPoint_passes_iff _).mpr (.inr ⟨by decide +kernel, by decide +kernel⟩)
    simp only [s, List.forall_mem_cons]
    exact ⟨hGenerator, (checkPoint_passes_iff _).mpr (.inl rfl), hGenerator, by simp⟩
  obtain ⟨-, -, hLoads⟩ := ofFilesBy_toFiles s hG1 hG2
  exact ⟨hG1, hG2, (hLoads backwards .alone 2 2).1 (by decide) le_rfl le_rfl (by decide),
    (hLoads backwards .alone 3 2).2.1 (by decide)⟩

end PublicSetup

end Kzg
