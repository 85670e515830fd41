import Kzg.Proofs.Traversal
import Kzg.Proofs.Fourier.BitReversal
import Kzg.Proofs.Fourier.Inverse

/-! # The transform in place

A transform may as well be computed in one list. The values are put in bit-reversed order, which
brings the even entries of every part before the odd ones, and then in stages: a stage goes over the
blocks of twice `half` entries and in each over the pairs of entries that are `half` apart, and puts
the sum and the difference of a pair in its place. After the stages with blocks up to some size each
block is the transform of the part of the values that stands there. -/

namespace Kzg

namespace Fourier

/-- The entries at `start + j` and `half` further give way to their sum and their difference, the
second one multiplied by a factor from the table before. -/
def butterfly (table : Array Fr) (half stride start : Nat) (out : List Fr) (j : Nat) :
    Option (List Fr) := do
  let t := (← out[start + j + half]?) * (← table[j * stride]?)
  let u ← out[start + j]?
  store (← store out (start + j) (u + t)) (start + j + half) (u - t)

def block (table : Array Fr) (half stride : Nat) (out : List Fr) (start : Nat) :
    Option (List Fr) :=
  (List.range half).foldlM (butterfly table half stride start) out

/-- The blocks start at the multiples of `2·half` below `n`. -/
def stage (table : Array Fr) (n half : Nat) (out : List Fr) : Option (List Fr) :=
  (List.range' 0 ((n + 2 * half - 1) / (2 * half)) (2 * half)).foldlM
    (block table half (n / (2 * half))) out

/-- The stages from `half` on, which is doubled while it is less than `n`. -/
def stages (table : Array Fr) (n half : Nat) (out : List Fr) : Option (List Fr) :=
  if 0 < half ∧ half < n then do
    stages table n (2 * half) (← stage table n half out)
  else some out
termination_by n - half

end Fourier

/-- The transform in place, by the inverse of the root and with a division by the number of values
for the inverse direction. There is no list in the answer if a position is ever outside of one. -/
def fftInPlace (values : List Fr) (root : Fr) (inverse : Bool) :
    Except PolyError (Option (List Fr)) := do
  checkTransform values root
  let base ← if inverse then root.inverse else pure root
  let table ← base.cycle
  let out := Fourier.stages table.toArray values.length 1 (← bitReverse values)
  if inverse then
    let factor ← (Fr.ofNat values.length).inverse
    return out.map (List.map (· * factor))
  else return out

namespace Fourier

section Parts

variable {α : Type}

/-- The even entries before the odd ones, and the same in both halves, `depth` times. -/
def parts : Nat → List α → List (List α)
  | 0, l => [l]
  | depth + 1, l => parts depth (evens l) ++ parts depth (odds l)

theorem parts_succ (depth : Nat) (l : List α) :
    parts (depth + 1) l = (parts depth l).flatMap fun p => [evens p, odds p] := by
  induction depth generalizing l with
  | zero => rfl
  | succ depth ih => rw [parts, ih, ih, parts, List.flatMap_append]

theorem length_parts (depth : Nat) (l : List α) : (parts depth l).length = 2 ^ depth := by
  induction depth generalizing l with
  | zero => rfl
  | succ depth ih => rw [parts, List.length_append, ih, ih, pow_succ, mul_two]

theorem length_of_mem_parts {depth s : Nat} {l p : List α} (hLength : l.length = 2 ^ (depth + s))
    (hp : p ∈ parts depth l) : p.length = 2 ^ s := by
  induction depth generalizing l with
  | zero =>
    obtain rfl := List.mem_singleton.mp hp
    rwa [Nat.zero_add] at hLength
  | succ depth ih =>
    have hDouble : l.length = 2 * 2 ^ (depth + s) := by rw [hLength, ← pow_succ']; ring_nf
    rcases List.mem_append.mp hp with hEven | hOdd
    · exact ih (length_evens hDouble) hEven
    · exact ih (length_odds hDouble) hOdd

/-- The parts are single entries once all bits are used up, and stand in bit-reversed order. -/
theorem bitReverse_eq_flatten_parts {k : Nat} {l : List α} (hLength : l.length = 2 ^ k) :
    bitReverse l = .ok (parts k l).flatten := by
  induction k generalizing l with
  | zero =>
    obtain ⟨a, rfl⟩ := List.length_eq_one_iff.mp hLength
    rfl
  | succ k ih =>
    have hDouble : l.length = 2 * 2 ^ k := by rw [hLength, pow_succ']
    obtain ⟨out, hRun, hOut⟩ := exists_bitReversed hLength
    obtain ⟨hEvens, hOdds⟩ := hOut.halves (2 ^ k) (pow_succ' 2 k)
    rw [ih (length_evens hDouble)] at hEvens
    rw [ih (length_odds hDouble)] at hOdds
    rw [hRun, parts, List.flatten_append, Except.ok.inj hEvens, Except.ok.inj hOdds,
      List.take_append_drop]

end Parts

/-- A block from its halves, as the transform puts them together. -/
def combine (factors low high : List Fr) : List Fr :=
  let scaled := List.zipWith (· * ·) factors high
  List.zipWith (· + ·) low scaled ++ List.zipWith (· - ·) low scaled

theorem transform_succ (table : Array Fr) (k stride : Nat) (values : List Fr) :
    transform (· * ·) table (k + 1) stride values =
      combine (twiddles table (2 ^ k) stride)
        (transform (· * ·) table k (2 * stride) (evens values))
        (transform (· * ·) table k (2 * stride) (odds values)) := by
  rw [transform, Nat.one_shiftLeft, combine]

theorem length_transform (table : Array Fr) {k : Nat} (stride : Nat) {values : List Fr}
    (hLength : values.length = 2 ^ k) :
    (transform (· * ·) table k stride values).length = 2 ^ k := by
  induction k generalizing stride values with
  | zero => exact hLength
  | succ k ih =>
    have hDouble : values.length = 2 * 2 ^ k := by rw [hLength, pow_succ']
    rw [transform_succ, combine]
    simp only [List.length_append, List.length_zipWith, twiddles, twiddleIndices, List.length_map,
      List.length_range, ih _ (length_evens hDouble), ih _ (length_odds hDouble), min_self]
    rw [pow_succ, mul_two]

section Loops

variable {table : Array Fr} {half stride : Nat}

theorem butterfly_append {l m : List Fr} {start j : Nat} {c : Fr} (hLow : start + j = l.length)
    (hHigh : half = m.length + 1) (hFactor : table[j * stride]? = some c) (a b : Fr)
    (r : List Fr) :
    butterfly table half stride start (l ++ a :: (m ++ b :: r)) j =
      some (l ++ (a + b * c) :: (m ++ (a - b * c) :: r)) := by
  have hSplit (x y : Fr) : l ++ x :: (m ++ y :: r) = (l ++ x :: m) ++ y :: r := by simp
  have hFar (x : Fr) : start + j + half = (l ++ x :: m).length := by
    rw [List.length_append, List.length_cons]
    omega
  have hReadHigh : (l ++ a :: (m ++ b :: r))[start + j + half]? = some b := by
    rw [hSplit, getElem?_append_cons (hFar a)]
  have hReadLow := getElem?_append_cons hLow a (m ++ b :: r)
  have hWriteLow := store_append hLow a (m ++ b :: r) (a + b * c)
  have hWriteHigh := store_append (hFar (a + b * c)) b r (a - b * c)
  rw [← hSplit, ← hSplit] at hWriteHigh
  simp only [butterfly, hReadHigh, hReadLow, hFactor, hWriteLow, hWriteHigh, bind, Option.bind]

/-- The factors of `count` butterflies from `j` on. -/
def factorsFrom (table : Array Fr) (stride j count : Nat) : List Fr :=
  (List.range' j count).map fun i => table.getD (i * stride) 0

theorem factorsFrom_zero (table : Array Fr) (stride count : Nat) :
    factorsFrom table stride 0 count = twiddles table count stride := by
  rw [factorsFrom, twiddles, twiddleIndices, List.map_map, List.range_eq_range']
  rfl

/-- What is done of the halves of a block is its sums and its differences up to `j`, and the rest of
both halves is as it was. -/
theorem foldlM_butterfly {low high : List Fr} (l m r : List Fr) {start j : Nat}
    (hHalves : high.length = low.length) (hLow : start + j = l.length)
    (hHigh : half = low.length + m.length)
    (hTable : ∀ i < j + low.length, i * stride < table.size) :
    (List.range' j low.length).foldlM (butterfly table half stride start)
        (l ++ low ++ (m ++ high) ++ r) =
      some (l ++ List.zipWith (· + ·) low
          (List.zipWith (· * ·) (factorsFrom table stride j low.length) high) ++
        (m ++ List.zipWith (· - ·) low
          (List.zipWith (· * ·) (factorsFrom table stride j low.length) high)) ++ r) := by
  induction low generalizing high l m j with
  | nil =>
    obtain rfl := List.length_eq_zero_iff.mp hHalves
    simp
  | cons a low ih =>
    obtain ⟨b, high, rfl⟩ := List.exists_cons_of_length_eq_add_one hHalves
    rw [List.length_cons] at hHigh hTable
    have hIn : j * stride < table.size := hTable j (by omega)
    have hFactor : table[j * stride]? = some (table.getD (j * stride) 0) := by simp [hIn]
    have hBetween : half = (low ++ m).length + 1 := by
      rw [List.length_append]
      omega
    have hStep := butterfly_append hLow hBetween hFactor a b (high ++ r)
    have hNext (d : List Fr) (x : Fr) : (d ++ [x]).length = d.length + 1 := List.length_append
    have hRest := ih (l ++ [a + b * table.getD (j * stride) 0])
      (m ++ [a - b * table.getD (j * stride) 0]) (by simpa using hHalves)
      (by rw [hNext, ← hLow, Nat.add_assoc]) (by rw [hNext]; omega)
      fun i hi => hTable i (by omega)
    simp only [List.append_assoc, List.cons_append, List.nil_append] at hStep hRest ⊢
    rw [List.length_cons, List.range'_succ, List.foldlM_cons, hStep, Option.bind_eq_bind,
      Option.bind_some, hRest]
    simp [factorsFrom, List.range'_succ, mul_comm]

theorem block_append {low high : List Fr} (hLow : low.length = half) (hHigh : high.length = half)
    (hTable : ∀ i < half, i * stride < table.size) (l r : List Fr) :
    block table half stride (l ++ (low ++ high) ++ r) l.length =
      some (l ++ combine (twiddles table half stride) low high ++ r) := by
  have hIn : ∀ i < 0 + low.length, i * stride < table.size := by
    rwa [Nat.zero_add, hLow]
  have hLoop := foldlM_butterfly l [] r (hHigh.trans hLow.symm) (Nat.add_zero _) hLow.symm hIn
  rw [hLow, ← List.range_eq_range', factorsFrom_zero] at hLoop
  simpa [block, combine] using hLoop

/-- A stage combines the halves of every block. -/
theorem foldlM_block {α : Type} {low high : α → List Fr} {ps : List α}
    (hLow : ∀ p ∈ ps, (low p).length = half) (hHigh : ∀ p ∈ ps, (high p).length = half)
    (hTable : ∀ i < half, i * stride < table.size) (l : List Fr) :
    (List.range' l.length ps.length (2 * half)).foldlM (block table half stride)
        (l ++ ps.flatMap fun p => low p ++ high p) =
      some (l ++ ps.flatMap fun p => combine (twiddles table half stride) (low p) (high p)) := by
  induction ps generalizing l with
  | nil => rfl
  | cons p ps ih =>
    rw [List.forall_mem_cons] at hLow hHigh
    have hBlock := block_append hLow.1 hHigh.1 hTable l (ps.flatMap fun p => low p ++ high p)
    have hLength : l.length + 2 * half =
        (l ++ combine (twiddles table half stride) (low p) (high p)).length := by
      simp only [combine, List.length_append, List.length_zipWith, twiddles, twiddleIndices,
        List.length_map, List.length_range, hLow.1, hHigh.1, min_self]
      omega
    rw [List.flatMap_cons, ← List.append_assoc, List.length_cons, List.range'_succ,
      List.foldlM_cons, hBlock, Option.bind_eq_bind, Option.bind_some, hLength,
      ih hLow.2 hHigh.2, List.flatMap_cons, List.append_assoc]

theorem stage_flatMap {α : Type} (hHalf : 0 < half) {low high : α → List Fr} {ps : List α}
    (hLow : ∀ p ∈ ps, (low p).length = half) (hHigh : ∀ p ∈ ps, (high p).length = half)
    (hTable : ∀ i < half, i * ps.length < table.size) :
    stage table (ps.length * (2 * half)) half (ps.flatMap fun p => low p ++ high p) =
      some (ps.flatMap fun p => combine (twiddles table half ps.length) (low p) (high p)) := by
  have hBlock : 0 < 2 * half := by omega
  have hCount : (ps.length * (2 * half) + 2 * half - 1) / (2 * half) = ps.length := by
    rw [Nat.add_sub_assoc hBlock, Nat.mul_comm, Nat.mul_add_div hBlock, Nat.add_eq_left]
    exact Nat.div_eq_of_lt (by omega)
  rw [stage, hCount, Nat.mul_div_cancel _ hBlock]
  exact foldlM_block hLow hHigh hTable []

end Loops

section Run

variable {table : Array Fr} {depth s : Nat} {values : List Fr}

/-- The even and the odd entries of a part stand next to each other, and a stage makes the transform
of the part out of theirs. -/
theorem stage_parts (hTable : 2 ^ (depth + (s + 1)) ≤ table.size)
    (hLength : values.length = 2 ^ (depth + (s + 1))) :
    stage table (2 ^ (depth + (s + 1))) (2 ^ s)
        ((parts (depth + 1) values).flatMap (transform (· * ·) table s (2 ^ (depth + 1)))) =
      some ((parts depth values).flatMap (transform (· * ·) table (s + 1) (2 ^ depth))) := by
  have hPart : ∀ p ∈ parts depth values, p.length = 2 * 2 ^ s := fun p hp => by
    rw [length_of_mem_parts hLength hp, pow_succ']
  have hIn : ∀ i < 2 ^ s, i * (parts depth values).length < table.size := by
    intro i hi
    rw [length_parts]
    calc i * 2 ^ depth < 2 ^ s * 2 ^ depth := Nat.mul_lt_mul_of_pos_right hi (Nat.two_pow_pos _)
      _ ≤ 2 ^ (depth + (s + 1)) := by
        rw [← pow_add]
        exact Nat.pow_le_pow_right two_pos (by omega)
      _ ≤ table.size := hTable
  have hStage := stage_flatMap (Nat.two_pow_pos s)
    (fun p hp => length_transform table (2 * 2 ^ depth) (length_evens (hPart p hp)))
    (fun p hp => length_transform table (2 * 2 ^ depth) (length_odds (hPart p hp))) hIn
  have hSize : 2 ^ depth * (2 * 2 ^ s) = 2 ^ (depth + (s + 1)) := by
    rw [← pow_succ', ← pow_add]
  simp only [length_parts, hSize, ← transform_succ] at hStage
  rw [parts_succ, List.flatMap_assoc, pow_succ' 2 depth]
  simp only [List.flatMap_cons, List.flatMap_nil, List.append_nil, hStage]

/-- When the blocks are the transforms of the parts, the remaining stages end in the transform of
all values. -/
theorem stages_parts (hTable : 2 ^ (depth + s) ≤ table.size)
    (hLength : values.length = 2 ^ (depth + s)) :
    stages table (2 ^ (depth + s)) (2 ^ s)
        ((parts depth values).flatMap (transform (· * ·) table s (2 ^ depth))) =
      some (transform (· * ·) table (depth + s) 1 values) := by
  induction depth generalizing s with
  | zero =>
    rw [stages, if_neg (by simp)]
    simp [parts]
  | succ depth ih =>
    have hSum : depth + 1 + s = depth + (s + 1) := by omega
    rw [hSum] at hTable hLength ⊢
    have hGuard : 0 < 2 ^ s ∧ 2 ^ s < 2 ^ (depth + (s + 1)) :=
      ⟨Nat.two_pow_pos s, Nat.pow_lt_pow_right one_lt_two (by omega)⟩
    rw [stages, if_pos hGuard, stage_parts hTable hLength, ← pow_succ']
    exact ih hTable hLength

end Run

/-- The stages on the values in bit-reversed order. -/
theorem stages_eq_transform {table : Array Fr} {k : Nat} {values : List Fr}
    (hTable : 2 ^ k ≤ table.size) (hLength : values.length = 2 ^ k) :
    stages table (2 ^ k) 1 (parts k values).flatten =
      some (transform (· * ·) table k 1 values) := by
  have hRun := stages_parts (s := 0) hTable hLength
  have hFlat : (parts k values).flatten =
      (parts k values).flatMap (transform (· * ·) table 0 (2 ^ k)) := by
    rw [List.flatMap_def]
    exact congrArg List.flatten (List.map_id _).symm
  rw [hFlat]
  exact hRun

/-- The table of a root has an entry for every power that the stages read. -/
theorem exists_cycle_stages {k : Nat} (hk : k ≤ maxLogSize) {root : Fr}
    (hRoot : IsPrimitiveRoot root (2 ^ k)) {values : List Fr} (hLength : values.length = 2 ^ k) :
    ∃ table, root.cycle = .ok table ∧
      stages table.toArray (2 ^ k) 1 (parts k values).flatten =
        some (transform (· * ·) table.toArray k 1 values) :=
  ⟨_, Fr.cycle_of_primitive hk hRoot, stages_eq_transform (by simp) hLength⟩

end Fourier

theorem fftInPlace_eq (values : List Fr) (root : Fr) :
    fftInPlace values root false = (fft values root).map some ∧
      fftInPlace values root true = (ifft values root).map some := by
  by_cases h : Transformable values root
  · obtain ⟨k, hk, hLength, hRoot⟩ := (transformable_iff values root).mp h
    have hCheck := checkTransform_of_primitive hRoot hLength
    have hOrder := Fourier.bitReverse_eq_flatten_parts hLength
    constructor
    · obtain ⟨table, hTable, hStages⟩ := Fourier.exists_cycle_stages hk hRoot hLength
      rw [fftInPlace, fft, hCheck, hTable, hOrder]
      simp [bind, Except.bind, pure, Except.pure, Except.map, hTable, hStages, hLength]
    · obtain ⟨table, hTable, hStages⟩ := Fourier.exists_cycle_stages hk hRoot.inv hLength
      have hNe : root ≠ 0 := hRoot.ne_zero (Nat.two_pow_pos k).ne'
      have hSize : Fr.ofNat (2 ^ k) ≠ 0 := Fr.two_pow_ne_zero hk
      rw [fftInPlace, ifft, Fourier.inverseTransform, hCheck, hTable, hOrder]
      simp [bind, Except.bind, pure, Except.pure, Except.map, Fr.inverse_of_ne_zero hNe, hTable,
        hStages, hLength, Fr.inverse_of_ne_zero hSize, mul_comm]
  · obtain ⟨detail, hError⟩ := exists_checkTransform_eq_error h
    rw [fftInPlace, fftInPlace, fft, ifft, hError]
    exact ⟨rfl, rfl⟩

/-- The two directions undo each other. Lists that the one refuses are refused by the other for the
same reason. -/
theorem fft_evaluates_ifft_inverts (values : List Fr) (root : Fr) :
    (fftInPlace values root false = (fft values root).map some ∧
      fftInPlace values root true = (ifft values root).map some) ∧
    (Transformable values root → ∃ out coeffs : List Fr,
      fftInPlace values root false = .ok (some out) ∧
      fftInPlace values root true = .ok (some coeffs) ∧
      fftInPlace out root true = .ok (some values) ∧
      fftInPlace coeffs root false = .ok (some values) ∧
      out.length = values.length ∧
      ∀ i < values.length,
        out[i]? = some (∑ j ∈ Finset.range values.length, values.getD j 0 * root ^ (i * j)) ∧
        out[i]? = some (Coeffs.eval values (root ^ i))) ∧
    (¬ Transformable values root → ∃ detail, ∀ inverse,
      fftInPlace values root inverse = .error (.dimensionMismatch detail)) := by
  refine ⟨fftInPlace_eq values root, ?_, ?_⟩
  · intro h
    obtain ⟨k, hk, hLength, hRoot⟩ := (transformable_iff values root).mp h
    obtain ⟨coeffs, hInverse, hForward⟩ := exists_ifft_eq_ok hk hRoot hLength
    refine ⟨(List.range (2 ^ k)).map fun i => Coeffs.eval values (root ^ i), coeffs, ?_, ?_, ?_,
      ?_, by simp [hLength], ?_⟩
    · rw [(fftInPlace_eq values root).1, fft_eq_map_eval hRoot hLength hk, Except.map]
    · rw [(fftInPlace_eq values root).2, hInverse, Except.map]
    · rw [(fftInPlace_eq _ root).2, ifft_map_eval hk hRoot hLength, Except.map]
    · rw [(fftInPlace_eq coeffs root).1, hForward, Except.map]
    · intro i hi
      have hEntry : ((List.range (2 ^ k)).map fun i => Coeffs.eval values (root ^ i))[i]? =
          some (Coeffs.eval values (root ^ i)) := by
        simp [hLength ▸ hi]
      refine ⟨hEntry.trans ?_, hEntry⟩
      simp only [Coeffs.eval_eq_sum, ← pow_mul]
  · intro h
    obtain ⟨detail, hError⟩ := exists_checkTransform_eq_error h
    refine ⟨detail, ?_⟩
    intro inverse
    rw [fftInPlace, hError]
    rfl

/-- Four values with the root of order four that is not the canonical one. -/
theorem fft_evaluates_ifft_inverts_otherRoot :
    let root := -Fr.canonicalRoot 2
    Transformable [1, 2, 3, 4] root ∧ ¬ Transformable [1, 2, 3] root ∧
      (∃ out, fftInPlace [1, 2, 3, 4] root false = .ok (some out) ∧
        fftInPlace out root true = .ok (some [1, 2, 3, 4])) ∧
      ∃ detail, fftInPlace [1, 2, 3] root false = .error (.dimensionMismatch detail) := by
  intro root
  have hRoot : IsPrimitiveRoot root (2 ^ 2) :=
    (Fr.hasOrder_two_pow_iff _ 2).mp (by decide +kernel)
  have hFour : Transformable [1, 2, 3, 4] root := ⟨⟨2, rfl⟩, hRoot.eq_orderOf.symm⟩
  have hThree : ¬ Transformable [1, 2, 3] root := by
    rintro ⟨-, hOrder⟩
    rw [← hRoot.eq_orderOf] at hOrder
    exact absurd hOrder (by decide)
  obtain ⟨out, -, hForward, -, hInverse, -⟩ :=
    (fft_evaluates_ifft_inverts [1, 2, 3, 4] root).2.1 hFour
  obtain ⟨detail, hError⟩ := (fft_evaluates_ifft_inverts [1, 2, 3] root).2.2 hThree
  exact ⟨hFour, hThree, ⟨out, hForward, hInverse⟩, detail, hError false⟩

end Kzg
