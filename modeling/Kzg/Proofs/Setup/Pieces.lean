import Mathlib.Algebra.BigOperators.Fin
import Mathlib.Data.List.Count
import Mathlib.Data.List.Perm.Basic
import Kzg.Proofs.Group.Reading
import Kzg.Proofs.Traversal
import Kzg.Setup.File

/-! # Reading the pieces of a file

Whichever worker reads a piece, the offsets put the points back into the order of the file. So what
is read depends on the workers only where some piece cannot be read, and then one of these is
named. -/

namespace Kzg

section Order

variable {α : Type}

/-- Every piece is in the share of exactly one worker. -/
theorem Schedule.flatten_share_perm (s : Schedule) (pieces : List (α × Nat)) :
    ((List.finRange s.workers).map (s.share pieces)).flatten.Perm pieces := by
  classical
  rw [List.perm_iff_count]
  intro piece
  have hShare (worker : Fin s.workers) : (s.share pieces worker).count piece =
      if s.workerAt piece.2 = worker then pieces.count piece else 0 := by
    split
    · rename_i hWorker
      exact List.count_filter (decide_eq_true hWorker)
    · rename_i hWorker
      exact List.count_eq_zero_of_not_mem fun hMem =>
        hWorker (of_decide_eq_true (List.mem_filter.mp hMem).2)
  rw [List.count_flatten, List.map_map, ← Fin.sum_univ_def]
  simp [hShare]

theorem mergeSort_eq_of_perm {l sorted : List (α × Nat)} (hPerm : l.Perm sorted)
    (hOrder : (sorted.map Prod.snd).Pairwise (· < ·)) :
    l.mergeSort (fun p q => p.2 ≤ q.2) = sorted := by
  have hSort := (List.mergeSort_perm l fun p q => decide (p.2 ≤ q.2)).trans hPerm
  have hNodup : (sorted.map Prod.snd).Nodup := hOrder.imp Nat.ne_of_lt
  have hSorted : (l.mergeSort fun p q => p.2 ≤ q.2).Pairwise fun p q => decide (p.2 ≤ q.2) :=
    List.pairwise_mergeSort (by simp only [decide_eq_true_eq]; omega) (by simp; omega) l
  simp only [decide_eq_true_eq] at hSorted
  refine hSort.eq_of_pairwise ?_ hSorted ((List.pairwise_map.mp hOrder).imp Nat.le_of_lt)
  intro p q hp hq hle hge
  exact List.inj_on_of_nodup_map hNodup (hSort.subset hp) hq (le_antisymm hle hge)

end Order

section Pieces

variable {α : Type}

/-- The entries from the multiple `k` of `size` on, as many as `size`. -/
def pieceAt (size : Nat) (entries : List α) (k : Nat) : List α :=
  (entries.drop (k * size)).take size

theorem chunks_eq_map (size count : Nat) (entries : List α) :
    chunks size count entries = (List.range count).map (pieceAt size entries) := by
  induction count generalizing entries with
  | zero => rfl
  | succ count ih =>
    rw [chunks, ih, List.range_succ_eq_map, List.map_cons, List.map_map]
    refine congrArg₂ List.cons (by rw [pieceAt, Nat.zero_mul, List.drop_zero]) ?_
    apply List.map_congr_left
    intro k _
    rw [Function.comp_apply, pieceAt, pieceAt, List.drop_drop, Nat.succ_mul, Nat.add_comm]

theorem pieceAt_append {size k : Nat} {entries : List α} (h : (k + 1) * size ≤ entries.length)
    (rest : List α) : pieceAt size (entries ++ rest) k = pieceAt size entries k := by
  rw [Nat.succ_mul] at h
  rw [pieceAt, pieceAt, List.drop_append_of_le_length (by omega),
    List.take_append_of_le_length (by rw [List.length_drop]; omega)]

/-- The pieces with the offsets at which they start. -/
def placedPieces (size count : Nat) (entries : List α) : List (List α × Nat) :=
  (List.range count).map fun k => (pieceAt size entries k, k * size)

theorem map_zipIdx_chunks (size count : Nat) (entries : List α) :
    ((chunks size count entries).zipIdx.map fun (piece, i) => (piece, i * size)) =
      placedPieces size count entries := by
  rw [chunks_eq_map]
  apply List.ext_getElem
  · simp [placedPieces]
  · intro i _ _
    simp [placedPieces]

theorem pairwise_placedPieces {size : Nat} (hSize : 0 < size) (count : Nat) (entries : List α) :
    ((placedPieces size count entries).map Prod.snd).Pairwise (· < ·) := by
  rw [placedPieces, List.map_map, List.pairwise_map]
  exact List.pairwise_lt_range.imp (Nat.mul_lt_mul_of_pos_right · hSize)

end Pieces

section Points

variable {G : Type} [PointCodec G] (schedule : Schedule)

theorem readPiece_of_ok {piece : List UInt8} {p : G} (h : readPoint piece = .ok p) (offset : Nat) :
    readPiece piece offset = .ok (p, offset) := by
  rw [readPiece, h]
  rfl

theorem readPiece_of_error {piece : List UInt8} {e : PointReadError}
    (h : (readPoint piece : Except PointReadError G) = .error e) (offset : Nat) :
    (readPiece piece offset : Except KzgError (G × Nat)) = .error (.badPoint offset e.message) := by
  rw [readPiece, h]
  rfl

theorem exists_of_readPiece_eq_error {piece : List UInt8} {offset : Nat} {e : KzgError}
    (h : (readPiece piece offset : Except KzgError (G × Nat)) = .error e) :
    ∃ e', (readPoint piece : Except PointReadError G) = .error e' ∧
      e = .badPoint offset e'.message := by
  cases hRead : (readPoint piece : Except PointReadError G) with
  | error e' =>
    rw [readPiece_of_error hRead, Except.error.injEq] at h
    exact ⟨e', rfl, h.symm⟩
  | ok p =>
    rw [readPiece_of_ok hRead] at h
    cases h

section Run

variable {pieces : List (List UInt8 × Nat)}

theorem readPieces_eq (pieces : List (List UInt8 × Nat)) :
    (readPieces schedule pieces : Except KzgError (List G)) = (do
      let shares ← (List.finRange schedule.workers).mapM fun worker =>
        (schedule.share pieces worker).mapM fun piece => readPiece piece.1 piece.2
      return (shares.flatten.mergeSort fun p q => p.2 ≤ q.2).map Prod.fst) :=
  rfl

theorem readPieces_eq_ok {read : List UInt8 × Nat → G}
    (hRead : ∀ piece ∈ pieces, readPoint piece.1 = .ok (read piece))
    (hOrder : (pieces.map Prod.snd).Pairwise (· < ·)) :
    readPieces schedule pieces = .ok (pieces.map read) := by
  have hShare (worker : Fin schedule.workers) :
      ((schedule.share pieces worker).mapM fun piece => readPiece piece.1 piece.2) =
        .ok ((schedule.share pieces worker).map fun piece => (read piece, piece.2)) :=
    mapM_eq_ok fun piece hPiece =>
      readPiece_of_ok (hRead piece (List.mem_of_mem_filter hPiece)) piece.2
  have hPerm := (schedule.flatten_share_perm pieces).map fun piece => (read piece, piece.2)
  rw [List.map_flatten, List.map_map] at hPerm
  have hSorted := mergeSort_eq_of_perm hPerm (by rwa [List.map_map])
  rw [readPieces_eq, mapM_eq_ok fun worker _ => hShare worker]
  refine (congrArg (fun sorted => Except.ok (sorted.map Prod.fst)) hSorted).trans ?_
  rw [List.map_map]
  rfl

/-- The worker to which an unreadable piece falls is one of those that stop, and one of these is
reported. -/
theorem exists_readPieces_eq_error
    (h : ∃ piece ∈ pieces, ∃ e, (readPoint piece.1 : Except PointReadError G) = .error e) :
    ∃ piece ∈ pieces, ∃ e, (readPoint piece.1 : Except PointReadError G) = .error e ∧
      (readPieces schedule pieces : Except KzgError (List G)) =
        .error (.badPoint piece.2 e.message) := by
  obtain ⟨piece, hPiece, e, hRead⟩ := h
  have hShare : piece ∈ schedule.share pieces (schedule.workerAt piece.2) :=
    List.mem_filter.mpr ⟨hPiece, decide_eq_true rfl⟩
  have hStops : ∃ e, ((schedule.share pieces (schedule.workerAt piece.2)).mapM fun piece =>
      readPiece (G := G) piece.1 piece.2) = .error e :=
    exists_mapM_eq_error ⟨piece, hShare, _, readPiece_of_error hRead piece.2⟩
  obtain ⟨reported, hRun⟩ : ∃ e, ((List.finRange schedule.workers).mapM fun worker =>
      (schedule.share pieces worker).mapM fun piece =>
        readPiece (G := G) piece.1 piece.2) = .error e :=
    exists_mapM_eq_error ⟨_, List.mem_finRange _, hStops⟩
  obtain ⟨worker, -, hWorker⟩ := exists_of_mapM_eq_error hRun
  obtain ⟨piece', hPiece', hError⟩ := exists_of_mapM_eq_error hWorker
  obtain ⟨e', hRead', rfl⟩ := exists_of_readPiece_eq_error hError
  refine ⟨piece', List.mem_of_mem_filter hPiece', e', hRead', ?_⟩
  rw [readPieces_eq, hRun]
  rfl

end Run

variable {bytes : List UInt8} {count : Nat}

theorem readPoints_eq (bytes : List UInt8) (count : Nat) :
    (readPoints schedule bytes count : Except KzgError (List G)) = (do
      let points ← readPieces schedule (placedPieces (PointCodec.byteSize G)
        (min count (bytes.length / PointCodec.byteSize G)) bytes)
      if points.length = count then return points
      else throw (.pointCount count points.length)) := by
  rw [readPoints, ← map_zipIdx_chunks]

theorem readPoints_of_readable (hSize : 0 < PointCodec.byteSize G) {read : Nat → G}
    (h : ∀ k < min count (bytes.length / PointCodec.byteSize G),
      readPoint (pieceAt (PointCodec.byteSize G) bytes k) = .ok (read k)) :
    readPoints schedule bytes count =
      if count * PointCodec.byteSize G ≤ bytes.length then .ok ((List.range count).map read)
      else .error (.pointCount count (bytes.length / PointCodec.byteSize G)) := by
  have hRead : ∀ piece ∈ placedPieces (PointCodec.byteSize G)
      (min count (bytes.length / PointCodec.byteSize G)) bytes,
      readPoint piece.1 = .ok (read (piece.2 / PointCodec.byteSize G)) := by
    intro piece hPiece
    obtain ⟨k, hk, rfl⟩ := List.mem_map.mp hPiece
    rw [Nat.mul_div_cancel _ hSize]
    exact h k (List.mem_range.mp hk)
  have hRun : readPieces schedule (placedPieces (PointCodec.byteSize G)
      (min count (bytes.length / PointCodec.byteSize G)) bytes) =
        .ok ((List.range (min count (bytes.length / PointCodec.byteSize G))).map read) := by
    rw [readPieces_eq_ok schedule hRead (pairwise_placedPieces hSize _ bytes), placedPieces,
      List.map_map]
    simp only [Function.comp_def, Nat.mul_div_cancel _ hSize]
  rw [readPoints_eq, hRun]
  by_cases hLong : count * PointCodec.byteSize G ≤ bytes.length
  · rw [if_pos hLong, min_eq_left ((Nat.le_div_iff_mul_le hSize).mpr hLong)]
    exact if_pos (by rw [List.length_map, List.length_range])
  · have hShort : bytes.length / PointCodec.byteSize G < count :=
      (Nat.div_lt_iff_lt_mul hSize).mpr (Nat.lt_of_not_ge hLong)
    rw [if_neg hLong, min_eq_right hShort.le]
    refine (if_neg ?_).trans ?_
    · rw [List.length_map, List.length_range]
      exact hShort.ne
    · rw [List.length_map, List.length_range]
      rfl

theorem exists_readPoints_eq_error
    (h : ∃ k < min count (bytes.length / PointCodec.byteSize G), ∃ e,
      (readPoint (pieceAt (PointCodec.byteSize G) bytes k) : Except PointReadError G) =
        .error e) :
    ∃ k < min count (bytes.length / PointCodec.byteSize G), ∃ e,
      (readPoint (pieceAt (PointCodec.byteSize G) bytes k) : Except PointReadError G) =
        .error e ∧
      (readPoints schedule bytes count : Except KzgError (List G)) =
        .error (.badPoint (k * PointCodec.byteSize G) e.message) := by
  obtain ⟨k, hk, e, hRead⟩ := h
  have hMem : (pieceAt (PointCodec.byteSize G) bytes k, k * PointCodec.byteSize G) ∈
      placedPieces (PointCodec.byteSize G)
        (min count (bytes.length / PointCodec.byteSize G)) bytes :=
    List.mem_map_of_mem (List.mem_range.mpr hk)
  obtain ⟨piece, hPiece, e', hRead', hRun⟩ :=
    exists_readPieces_eq_error schedule ⟨_, hMem, e, hRead⟩
  obtain ⟨k', hk', rfl⟩ := List.mem_map.mp hPiece
  refine ⟨k', List.mem_range.mp hk', e', hRead', ?_⟩
  rw [readPoints_eq, hRun]
  rfl

end Points

end Kzg
