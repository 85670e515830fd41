import Kzg.Proofs.Curve.RoundTrip
import Kzg.Proofs.Setup.Pieces

/-! # Exactly the well-formed files are loaded

A file is well-formed for a number of points when it is long enough for them and each of its pieces
is read as a point. What is wrong otherwise is said in this order: a piece that cannot be read, and
then the number of pieces. The check of the points after reading finds nothing any more. -/

namespace Kzg

section Reading

variable {G : Type} [PointGroup G] [PointCodec G]

theorem exists_read {bytes : List UInt8} {size m : Nat}
    (h : ∀ k < m, ∃ p : G, readPoint (pieceAt size bytes k) = .ok p) :
    ∃ read : Nat → G, ∀ k < m, readPoint (pieceAt size bytes k) = .ok (read k) := by
  have : Nonempty G := ⟨PointGroup.generator⟩
  choose! read hRead using h
  exact ⟨read, hRead⟩

theorem readable_or_unreadable (bytes : List UInt8) (size m : Nat) :
    (∃ read : Nat → G, ∀ k < m, readPoint (pieceAt size bytes k) = .ok (read k)) ∨
      ∃ k < m, ∃ e, (readPoint (pieceAt size bytes k) : Except PointReadError G) = .error e := by
  by_cases h : ∃ k < m, ∃ e, (readPoint (pieceAt size bytes k) : Except PointReadError G) = .error e
  · exact .inr h
  · refine .inl (exists_read fun k hk => ?_)
    by_contra hNone
    exact h ⟨k, hk, exists_error_iff.mpr hNone⟩

/-- What is read as the points of a file, whichever workers read its pieces. -/
structure LoadsExactly (G : Type) [PointGroup G] [PointCodec G] (size : Nat) (schedule : Schedule)
    (bytes : List UInt8) (count : Nat) : Prop where
  succeeds_iff : (∃ points : List G, readPoints schedule bytes count = .ok points) ↔
    count * size ≤ bytes.length ∧ ∀ k < count, ∃ p : G, readPoint (pieceAt size bytes k) = .ok p
  in_order {points : List G} : readPoints schedule bytes count = .ok points →
    points.length = count ∧
      ∀ (k : Nat) (hk : k < points.length), readPoint (pieceAt size bytes k) = .ok points[k]
  rest_ignored (rest : List UInt8) : count * size ≤ bytes.length →
    (readPoints schedule (bytes ++ rest) count : Except KzgError (List G)) =
      readPoints schedule bytes count
  malformed : (∃ k < min count (bytes.length / size), ∃ e,
      (readPoint (pieceAt size bytes k) : Except PointReadError G) = .error e) →
    ∃ k < min count (bytes.length / size), ∃ e,
      (readPoint (pieceAt size bytes k) : Except PointReadError G) = .error e ∧
      (readPoints schedule bytes count : Except KzgError (List G)) =
        .error (.serialization s!"point at byte {k * size}: {e.message}")
  short : bytes.length < count * size →
    (∀ k < bytes.length / size, ∃ p : G, readPoint (pieceAt size bytes k) = .ok p) →
      (readPoints schedule bytes count : Except KzgError (List G)) =
        .error (.setup s!"Expected {count} points, but got {bytes.length / size}.")
  checked : (loadPoints schedule (some bytes) count : Except KzgError (List G)) =
    readPoints schedule bytes count

variable (schedule : Schedule) {bytes : List UInt8} {count : Nat}

omit [PointGroup G] in
theorem readPoints_append (hSize : 0 < PointCodec.byteSize G)
    (hLong : count * PointCodec.byteSize G ≤ bytes.length) (rest : List UInt8) :
    (readPoints schedule (bytes ++ rest) count : Except KzgError (List G)) =
      readPoints schedule bytes count := by
  have hCount := (Nat.le_div_iff_mul_le hSize).mpr hLong
  have hCountRest : count ≤ (bytes ++ rest).length / PointCodec.byteSize G := by
    rw [Nat.le_div_iff_mul_le hSize, List.length_append]
    exact Nat.le_add_right_of_le hLong
  have hPieces : placedPieces (PointCodec.byteSize G) count (bytes ++ rest) =
      placedPieces (PointCodec.byteSize G) count bytes := by
    apply List.map_congr_left
    intro k hk
    have hPiece := Nat.mul_le_mul_right (PointCodec.byteSize G) (List.mem_range.mp hk)
    rw [pieceAt_append (hPiece.trans hLong)]
  rw [readPoints_eq, readPoints_eq, min_eq_left hCount, min_eq_left hCountRest, hPieces]

/-- When the run succeeds every piece of the points has been read, and there are enough of them. -/
theorem exists_read_of_readPoints (hSize : 0 < PointCodec.byteSize G) {points : List G}
    (h : readPoints schedule bytes count = .ok points) :
    count * PointCodec.byteSize G ≤ bytes.length ∧ ∃ read : Nat → G,
      (∀ k < count, readPoint (pieceAt (PointCodec.byteSize G) bytes k) = .ok (read k)) ∧
      points = (List.range count).map read := by
  obtain ⟨read, hRead⟩ | hUnreadable := readable_or_unreadable (G := G) bytes
    (PointCodec.byteSize G) (min count (bytes.length / PointCodec.byteSize G))
  · rw [readPoints_of_readable schedule hSize hRead] at h
    split at h
    · rename_i hLong
      rw [min_eq_left ((Nat.le_div_iff_mul_le hSize).mpr hLong)] at hRead
      exact ⟨hLong, read, hRead, (Except.ok.inj h).symm⟩
    · cases h
  · obtain ⟨k, -, e, -, hRun⟩ := exists_readPoints_eq_error schedule hUnreadable
    rw [hRun] at h
    cases h

theorem loadPoints_eq_readPoints [CanonicalPointReader G] :
    (loadPoints schedule (some bytes) count : Except KzgError (List G)) =
      readPoints schedule bytes count := by
  cases hRun : (readPoints schedule bytes count : Except KzgError (List G)) with
  | error e =>
    rw [loadPoints]
    simp only [hRun]
    rfl
  | ok points =>
    obtain ⟨-, read, hRead, rfl⟩ :=
      exists_read_of_readPoints schedule LawfulPointReader.byteSize_pos hRun
    have hValid : ((List.range count).map read).forM checkPoint = .ok () := by
      rw [forM_eq_ok_iff]
      intro p hp
      obtain ⟨k, hk, rfl⟩ := List.mem_map.mp hp
      exact checkPoint_of_readPoint (hRead k (List.mem_range.mp hk))
    rw [loadPoints]
    simp only [hRun, bind, Except.bind]
    rw [hValid]
    rfl

theorem loadsExactly [CanonicalPointReader G] (bytes : List UInt8) (count : Nat) :
    LoadsExactly G (PointCodec.byteSize G) schedule bytes count where
  succeeds_iff := by
    have hSize := LawfulPointReader.byteSize_pos (G := G)
    constructor
    · rintro ⟨points, hRun⟩
      obtain ⟨hLong, read, hRead, -⟩ := exists_read_of_readPoints schedule hSize hRun
      exact ⟨hLong, fun k hk => ⟨read k, hRead k hk⟩⟩
    · rintro ⟨hLong, hPieces⟩
      rw [← min_eq_left ((Nat.le_div_iff_mul_le hSize).mpr hLong)] at hPieces
      obtain ⟨read, hRead⟩ := exists_read hPieces
      exact ⟨_, (readPoints_of_readable schedule hSize hRead).trans (if_pos hLong)⟩
  in_order {points} hRun := by
    obtain ⟨-, read, hRead, rfl⟩ :=
      exists_read_of_readPoints schedule LawfulPointReader.byteSize_pos hRun
    refine ⟨by rw [List.length_map, List.length_range], fun k hk => ?_⟩
    rw [List.getElem_map, List.getElem_range]
    exact hRead k (by rwa [List.length_map, List.length_range] at hk)
  rest_ignored rest hLong := readPoints_append schedule LawfulPointReader.byteSize_pos hLong rest
  malformed := exists_readPoints_eq_error schedule
  short hShort hPieces := by
    have hSize := LawfulPointReader.byteSize_pos (G := G)
    rw [← min_eq_right ((Nat.div_lt_iff_lt_mul hSize).mpr hShort).le] at hPieces
    obtain ⟨read, hRead⟩ := exists_read hPieces
    exact (readPoints_of_readable schedule hSize hRead).trans (if_neg hShort.not_ge)
  checked := loadPoints_eq_readPoints schedule

end Reading

namespace PublicSetup

/-- Of either file any contents and any number of points: they are read exactly when the file is
well-formed, and a setup is loaded from what has been read. -/
theorem ofFilesBy_exact (g1Schedule g2Schedule : Schedule) (g1File g2File : List UInt8)
    (g1Length g2Length : Nat) :
    LoadsExactly Bn254.G1 32 g1Schedule g1File g1Length ∧
    LoadsExactly Bn254.G2 64 g2Schedule g2File g2Length ∧
    (ofFilesBy g1Schedule g2Schedule (some g1File) (some g2File) g1Length g2Length :
      Except KzgError (PublicSetup Bn254.G1 Bn254.G2)) = (do
        let g1 ← readPoints g1Schedule g1File g1Length
        let g2 ← readPoints g2Schedule g2File g2Length
        ofVectors g1 g2) := by
  refine ⟨loadsExactly g1Schedule g1File g1Length, loadsExactly g2Schedule g2File g2Length, ?_⟩
  rw [ofFilesBy, loadPoints_eq_readPoints]
  simp only [loadPoints_eq_readPoints]

/-- Two workers, and files of points of the first group: an identity and a generator with some bytes
after them, which are one point short of three, and a generator with a piece after it that cannot be
read, which is short as well. -/
theorem ofFilesBy_exact_shortAndMalformed :
    let schedule : Schedule := ⟨2, fun offset => if offset = 0 then 1 else 0⟩
    let long : List UInt8 := pointBytes (0 : Bn254.G1) ++ pointBytes Bn254.G1.generator ++ [1, 2, 3]
    let broken : List UInt8 := pointBytes Bn254.G1.generator ++ List.replicate 32 255 ++ [1, 2, 3]
    (∃ points : List Bn254.G1, readPoints schedule long 2 = .ok points) ∧
    (readPoints schedule long 3 : Except KzgError (List Bn254.G1)) =
      .error (.setup "Expected 3 points, but got 2.") ∧
    (readPoints schedule broken 3 : Except KzgError (List Bn254.G1)) =
      .error (.serialization "point at byte 32: Deserialization failed") := by
  intro schedule long broken
  have hFirst : readPoint (pieceAt 32 long 0) = .ok (0 : Bn254.G1) := by decide +kernel
  have hSecond : readPoint (pieceAt 32 long 1) = .ok Bn254.G1.generator := by decide +kernel
  have hPieces : ∀ k < 2, ∃ p : Bn254.G1, readPoint (pieceAt 32 long k) = .ok p := by
    intro k hk
    interval_cases k
    · exact ⟨_, hFirst⟩
    · exact ⟨_, hSecond⟩
  refine ⟨?_, ?_, ?_⟩
  · exact (ofFilesBy_exact schedule .alone long [] 2 0).1.succeeds_iff.mpr
      ⟨by decide +kernel, hPieces⟩
  · have hTwo : long.length / 32 = 2 := by decide +kernel
    rw [← hTwo] at hPieces
    have hShort := (ofFilesBy_exact schedule .alone long [] 3 0).1.short (by decide +kernel) hPieces
    rwa [hTwo] at hShort
  · have hGood : readPoint (pieceAt 32 broken 0) = .ok Bn254.G1.generator := by decide +kernel
    have hBad : (readPoint (pieceAt 32 broken 1) : Except PointReadError Bn254.G1) =
        .error .malformed := by decide +kernel
    obtain ⟨k, hk, e, hRead, hRun⟩ := (ofFilesBy_exact schedule .alone broken [] 3 0).1.malformed
      ⟨1, by decide +kernel, _, hBad⟩
    have hTwo : min 3 (broken.length / 32) = 2 := by decide +kernel
    rw [hTwo] at hk
    interval_cases k
    · rw [hGood] at hRead
      cases hRead
    · rw [hBad] at hRead
      cases hRead
      exact hRun

end PublicSetup

end Kzg
