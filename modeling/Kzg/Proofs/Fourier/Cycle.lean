import Kzg.Proofs.Fourier.Transform

/-! # The table of powers of a root

The powers of a root are tabulated once around, from one to one. A loop that appends powers until it
is back at one counts nothing: that it stops, and where, is the order of the root, which is a power
of two as soon as the largest supported power is one. A transform of as many values as the order
looks up nothing outside the table. -/

namespace Kzg

namespace Fr

section Loop

/-- The loop that appends the next power of `root` until the last entry is one. -/
inductive Expands (root : Fr) : List Fr → List Fr → Prop
  | stop {table : List Fr} : table.getLast? = some 1 → Expands root table table
  | next {table result : List Fr} {y : Fr} : table.getLast? = some y → y ≠ 1 →
    Expands root (table ++ [y * root]) result → Expands root table result

variable {root : Fr}

theorem Expands.unique {table result result' : List Fr} (h : Expands root table result)
    (h' : Expands root table result') : result = result' := by
  induction h with
  | stop hLast =>
    cases h' with
    | stop _ => rfl
    | next hLast' hNe _ =>
      cases hLast.symm.trans hLast'
      exact absurd rfl hNe
  | next hLast hNe _ ih =>
    cases h' with
    | stop hLast' =>
      cases hLast.symm.trans hLast'
      exact absurd rfl hNe
    | next hLast' _ hRest =>
      cases hLast.symm.trans hLast'
      exact ih hRest

/-- Below the order the last power is not one and the loop goes on, and at the order it stops. -/
theorem expands_powers {i : Nat} (hi : i ≤ orderOf root) :
    0 < i → Expands root (powers root (i + 1)) (powers root (orderOf root + 1)) := by
  induction hi using Nat.decreasingInduction with
  | self =>
    intro _
    exact .stop (by rw [getLast?_powers, pow_orderOf_eq_one])
  | of_succ i hLt ih =>
    intro hPos
    have hNe : root ^ i ≠ 1 := pow_ne_one_of_lt_orderOf hPos.ne' hLt
    have hRest := ih i.succ_pos
    rw [powers_succ, pow_succ] at hRest
    exact .next (getLast?_powers root i) hNe hRest

/-- The table goes once around the powers of the root, as the loop does from the first two. -/
structure GoesOnceAround (root : Fr) (table : List Fr) : Prop where
  length_eq : table.length = orderOf root + 1
  getElem?_eq : ∀ i ≤ orderOf root, table[i]? = some (root ^ i)
  getLast?_eq : table.getLast? = some 1
  getElem?_ne : ∀ i, 0 < i → i < orderOf root → table[i]? ≠ some 1
  expands_iff : ∀ result, Expands root [1, root] result ↔ result = table

theorem goesOnceAround_powers (hOrder : 0 < orderOf root) :
    GoesOnceAround root (powers root (orderOf root + 1)) where
  length_eq := length_powers _ _
  getElem?_eq i hi := getElem?_powers root (Nat.lt_succ_of_le hi)
  getLast?_eq := by rw [getLast?_powers, pow_orderOf_eq_one]
  getElem?_ne i hPos hLt := by
    rw [getElem?_powers root (hLt.trans (Nat.lt_succ_self _)), Ne, Option.some_inj]
    exact pow_ne_one_of_lt_orderOf hPos.ne' hLt
  expands_iff result := by
    have hStart : powers root (1 + 1) = [1, root] := by
      rw [powers_succ, pow_one]
      rfl
    have hRun := expands_powers (Nat.succ_le_of_lt hOrder) Nat.one_pos
    rw [hStart] at hRun
    exact ⟨fun h => h.unique hRun, fun h => h ▸ hRun⟩

end Loop

end Fr

namespace Fourier

/-- Where a transform of `2^k` values looks up its factors, and the transforms of its halves
theirs. -/
def lookups : (k stride : Nat) → List Nat
  | 0, _ => []
  | k + 1, stride => twiddleIndices (1 <<< k) stride ++ lookups k (2 * stride)

theorem mem_lookups_succ {k stride i : Nat} : i ∈ lookups (k + 1) stride ↔
    (∃ j < 2 ^ k, j * stride = i) ∨ i ∈ lookups k (2 * stride) := by
  rw [lookups, List.mem_append, twiddleIndices, List.mem_map, Nat.one_shiftLeft]
  simp only [List.mem_range]

/-- Twice the number of factors times their distance is the same on all levels. -/
theorem two_mul_lt_of_mem_lookups {k stride i : Nat} (hStride : 0 < stride)
    (hi : i ∈ lookups k stride) : 2 * i < 2 ^ k * stride := by
  induction k generalizing stride with
  | zero => cases hi
  | succ k ih =>
    rcases mem_lookups_succ.mp hi with ⟨j, hj, rfl⟩ | hRest
    · rw [pow_succ', mul_assoc]
      exact Nat.mul_lt_mul_of_pos_left (Nat.mul_lt_mul_of_pos_right hj hStride) two_pos
    · rw [pow_succ, mul_assoc]
      exact ih (by omega) hRest

/-- Nothing else of the table matters to the transform. -/
theorem transform_eq_of_lookups {V : Type} [Add V] [Sub V] (act : Fr → V → V)
    {table table' : Array Fr} {k stride : Nat}
    (h : ∀ i ∈ lookups k stride, table'.getD i 0 = table.getD i 0) (values : List V) :
    transform act table' k stride values = transform act table k stride values := by
  induction k generalizing stride values with
  | zero => rfl
  | succ k ih =>
    have hRest := ih fun i hi => h i (mem_lookups_succ.mpr (Or.inr hi))
    have hTwiddles : twiddles table' (1 <<< k) stride = twiddles table (1 <<< k) stride := by
      apply List.map_congr_left
      intro i hi
      exact h i (List.mem_append_left _ hi)
    simp only [transform, hRest, hTwiddles]

end Fourier

/-- The root decides whether there is a table, and its order how long the table is. With as many
values as the order, a transform in either direction finds all its factors in such a table. -/
theorem cycle_goes_once_around (root : Fr) :
    (∀ e, root.cycle = .error e ↔ root ^ maxSize ≠ 1 ∧ e = .notARootOfUnity) ∧
    (root ^ maxSize = 1 → ∃ k ≤ maxLogSize, orderOf root = 2 ^ k ∧ ∃ table back,
      root.cycle = .ok table ∧ Fr.GoesOnceAround root table ∧
      (root⁻¹).cycle = .ok back ∧ back.length = table.length ∧
      (∀ i ∈ Fourier.lookups k 1, i < table.length) ∧
      ∀ values table' : List Fr, values.length = orderOf root →
        (∀ i ∈ Fourier.lookups k 1, table'[i]? = table[i]?) →
        fft values root = .ok (Fourier.transform (· * ·) table'.toArray k 1 values)) := by
  constructor
  · intro e
    constructor
    · intro hError
      have hNe : root ^ maxSize ≠ 1 := by
        intro hOne
        obtain ⟨k, hk, hRoot⟩ := Fr.exists_primitive_of_pow_eq_one hOne
        rw [Fr.cycle_of_primitive hk hRoot] at hError
        cases hError
      rw [Fr.cycle_of_pow_ne_one hNe] at hError
      exact ⟨hNe, (Except.error.inj hError).symm⟩
    · rintro ⟨hNe, rfl⟩
      exact Fr.cycle_of_pow_ne_one hNe
  · intro hOne
    obtain ⟨k, hk, hRoot⟩ := Fr.exists_primitive_of_pow_eq_one hOne
    have hOrder : orderOf root = 2 ^ k := hRoot.eq_orderOf.symm
    have hPos : 0 < orderOf root := hOrder ▸ Nat.two_pow_pos k
    have hTable := Fr.goesOnceAround_powers hPos
    rw [hOrder] at hTable
    refine ⟨k, hk, hOrder, _, _, Fr.cycle_of_primitive hk hRoot, hTable,
      Fr.cycle_of_primitive hk hRoot.inv, by simp, ?_, ?_⟩
    · intro i hi
      have hLt := Fourier.two_mul_lt_of_mem_lookups Nat.one_pos hi
      rw [Fr.length_powers]
      omega
    · intro values table' hLength hAgree
      rw [hOrder] at hLength
      rw [fft, checkTransform_of_primitive hRoot hLength, Fr.cycle_of_primitive hk hRoot, hLength,
        Nat.log2_two_pow]
      refine congrArg Except.ok (Fourier.transform_eq_of_lookups _ ?_ values).symm
      intro i hi
      simp [hAgree i hi]

/-- A root of order four that is not the canonical one, of whose five powers a transform looks up
the first two; zero, and a scalar of another order. -/
theorem cycle_goes_once_around_orderFour :
    let root : Fr := -Fr.canonicalRoot 2
    root ^ maxSize = 1 ∧
    (∃ table, root.cycle = .ok table ∧ table.length = 5 ∧ table[3]? = some (root ^ 3) ∧
      table[2]? ≠ some 1 ∧ Fr.Expands root [1, root] table ∧
      fft [1, 2, 3, 4] root =
        .ok (Fourier.transform (· * ·) (table.take 2).toArray 2 1 [1, 2, 3, 4])) ∧
    (0 : Fr).cycle = .error .notARootOfUnity ∧ (2 : Fr).cycle = .error .notARootOfUnity := by
  intro root
  have hRoot : IsPrimitiveRoot root (2 ^ 2) := (Fr.hasOrder_two_pow_iff _ 2).mp (by decide +kernel)
  have hFour : orderOf root = 2 ^ 2 := hRoot.eq_orderOf.symm
  have hOne : root ^ maxSize = 1 := (hRoot.pow_eq_one_iff_dvd _).mpr (by decide)
  obtain ⟨k, -, hOrder, table, -, hRun, hAround, -, -, -, hTransform⟩ :=
    (cycle_goes_once_around root).2 hOne
  obtain rfl : k = 2 := Nat.pow_right_injective le_rfl (hOrder.symm.trans hFour)
  refine ⟨hOne, ⟨table, hRun, ?_, ?_, ?_, ?_, ?_⟩, ?_, ?_⟩
  · rw [hAround.length_eq, hFour]
    rfl
  · exact hAround.getElem?_eq 3 (by rw [hFour]; decide)
  · exact hAround.getElem?_ne 2 two_pos (by rw [hFour]; decide)
  · exact (hAround.expands_iff table).mpr rfl
  · apply hTransform [1, 2, 3, 4] (table.take 2) hFour.symm
    intro i hi
    have hLt := Fourier.two_mul_lt_of_mem_lookups Nat.one_pos hi
    exact List.getElem?_take_of_lt (by omega)
  · exact ((cycle_goes_once_around 0).1 _).mpr ⟨by decide +kernel, rfl⟩
  · exact ((cycle_goes_once_around 2).1 _).mpr ⟨by decide +kernel, rfl⟩

end Kzg
