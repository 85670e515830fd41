import Kzg.Proofs.Fourier.Transform
import Kzg.Fourier.BitReversal

/-! # Bit reversal undoes itself and splits into even and odd places

Reversing the digits of all indices below `2^k` is a permutation that is its own inverse. The top
digit of an index becomes the lowest one, so the first half of the result comes from the even places
and the second half from the odd ones. The digits may as well be reversed in a whole machine word
and shifted down. -/

namespace Kzg

/-- The `k` binary digits of `j` are those of `i` in the opposite order. -/
def IsReversal (k i j : Nat) : Prop :=
  j < 2 ^ k ∧ ∀ b < k, j.testBit b = i.testBit (k - 1 - b)

section Digits

theorem reverseBits_lt (k i : Nat) : reverseBits k i < 2 ^ k := by
  induction k generalizing i with
  | zero => exact Nat.one_pos
  | succ k ih =>
    have hRest := ih (i / 2)
    have hDigit : i % 2 * 2 ^ k ≤ 1 * 2 ^ k := Nat.mul_le_mul_right _ (by omega)
    rw [reverseBits, Nat.one_shiftLeft, pow_succ]
    omega

theorem testBit_reverseBits {k b : Nat} (hb : b < k) (i : Nat) :
    (reverseBits k i).testBit b = i.testBit (k - 1 - b) := by
  induction k generalizing i with
  | zero => exact absurd hb (Nat.not_lt_zero b)
  | succ k ih =>
    rw [reverseBits, Nat.one_shiftLeft, mul_comm,
      Nat.testBit_two_pow_mul_add _ (reverseBits_lt k _)]
    rcases Nat.lt_or_eq_of_le (Nat.le_of_lt_succ hb) with hLt | rfl
    · have hDigit : k + 1 - 1 - b = k - 1 - b + 1 := by omega
      rw [if_pos hLt, ih hLt, hDigit, Nat.testBit_succ]
    · simp

theorem isReversal_iff {k i j : Nat} : IsReversal k i j ↔ j = reverseBits k i := by
  constructor
  · rintro ⟨hj, hDigits⟩
    apply Nat.eq_of_testBit_eq
    intro b
    rcases Nat.lt_or_ge b k with hb | hb
    · rw [hDigits b hb, testBit_reverseBits hb]
    · have hTop : 2 ^ k ≤ 2 ^ b := Nat.pow_le_pow_right two_pos hb
      rw [Nat.testBit_lt_two_pow (hj.trans_le hTop),
        Nat.testBit_lt_two_pow ((reverseBits_lt k i).trans_le hTop)]
  · rintro rfl
    exact ⟨reverseBits_lt k i, fun b hb => testBit_reverseBits hb i⟩

theorem IsReversal.symm {k i j : Nat} (hi : i < 2 ^ k) (h : IsReversal k i j) :
    IsReversal k j i := by
  refine ⟨hi, ?_⟩
  intro b hb
  have hMirror : k - 1 - (k - 1 - b) = b := by omega
  rw [h.2 (k - 1 - b) (by omega), hMirror]

theorem reverseBits_reverseBits {k i : Nat} (hi : i < 2 ^ k) :
    reverseBits k (reverseBits k i) = i :=
  (isReversal_iff.mp ((isReversal_iff.mpr rfl).symm hi)).symm

/-- Digits above the lowest `k` are not looked at. -/
theorem reverseBits_two_pow_add (k i : Nat) : reverseBits k (2 ^ k + i) = reverseBits k i := by
  apply isReversal_iff.mp
  refine ⟨reverseBits_lt k _, ?_⟩
  intro b hb
  rw [testBit_reverseBits hb, Nat.testBit_two_pow_add_gt (by omega)]

/-- The top digit becomes the lowest one. -/
theorem reverseBits_succ (k i : Nat) :
    reverseBits (k + 1) i = 2 * reverseBits k i + i / 2 ^ k % 2 := by
  induction k generalizing i with
  | zero => simp [reverseBits]
  | succ k ih =>
    rw [reverseBits, ih, reverseBits, Nat.one_shiftLeft, Nat.one_shiftLeft,
      Nat.div_div_eq_div_mul, ← pow_succ']
    ring

theorem reverseBits_succ_of_lt {k i : Nat} (hi : i < 2 ^ k) :
    reverseBits (k + 1) i = 2 * reverseBits k i := by
  rw [reverseBits_succ, Nat.div_eq_of_lt hi, Nat.zero_mod, add_zero]

theorem reverseBits_succ_two_pow_add {k i : Nat} (hi : i < 2 ^ k) :
    reverseBits (k + 1) (2 ^ k + i) = 2 * reverseBits k i + 1 := by
  rw [reverseBits_succ, reverseBits_two_pow_add, Nat.add_div_left _ (Nat.two_pow_pos k),
    Nat.div_eq_of_lt hi]

/-- All digits of a word reversed, and those shifted out that stood above the lowest `k`. -/
theorem toNat_reverse_ushiftRight {w k : Nat} (hk : k ≤ w) (i : Nat) :
    ((BitVec.ofNat w i).reverse >>> (w - k)).toNat = reverseBits k i := by
  apply isReversal_iff.mp
  constructor
  · have hWord : 2 ^ (w - k) * 2 ^ k = 2 ^ w := by rw [← pow_add, Nat.sub_add_cancel hk]
    rw [BitVec.toNat_ushiftRight, Nat.shiftRight_eq_div_pow]
    exact Nat.div_lt_of_lt_mul (hWord ▸ BitVec.isLt _)
  · intro b hb
    have hMirror : w - 1 - (w - k + b) = k - 1 - b := by omega
    have hIn : w - k + b < w := by omega
    have hIn' : k - 1 - b < w := by omega
    rw [BitVec.testBit_toNat, BitVec.getLsbD_ushiftRight, BitVec.getLsbD_reverse,
      BitVec.getMsbD_eq_getLsbD, hMirror, BitVec.getLsbD_ofNat, decide_eq_true hIn,
      decide_eq_true hIn', Bool.true_and, Bool.true_and]

theorem map_reverseBits_range_perm (k : Nat) :
    ((List.range (2 ^ k)).map (reverseBits k)).Perm (List.range (2 ^ k)) := by
  have hNodup : ((List.range (2 ^ k)).map (reverseBits k)).Nodup := by
    apply List.Nodup.map_on _ List.nodup_range
    intro i hi j hj hEq
    rw [← reverseBits_reverseBits (List.mem_range.mp hi), hEq,
      reverseBits_reverseBits (List.mem_range.mp hj)]
  rw [List.perm_ext_iff_of_nodup hNodup List.nodup_range]
  intro j
  rw [List.mem_map, List.mem_range]
  constructor
  · rintro ⟨i, -, rfl⟩
    exact reverseBits_lt k i
  · intro hj
    exact ⟨reverseBits k j, List.mem_range.mpr (reverseBits_lt k j), reverseBits_reverseBits hj⟩

end Digits

section Lists

variable {α : Type}

theorem bitReverse_map_range (f : Nat → α) (k : Nat) :
    bitReverse ((List.range (2 ^ k)).map f) =
      .ok ((List.range (2 ^ k)).map fun i => f (reverseBits k i)) := by
  have hEntry (i : Nat) :
      ((List.range (2 ^ k)).map f)[reverseBits k i]? = some (f (reverseBits k i)) := by
    simp [reverseBits_lt k i]
  simp only [bitReverse, List.length_map, List.length_range, isPowerOfTwo_two_pow, if_true,
    Nat.log2_two_pow, List.getElem?_toArray, hEntry]
  rw [← List.filterMap_eq_map]
  rfl

theorem bitReverse_of_length_ne {values : List α} (h : ∀ k, values.length ≠ 2 ^ k) :
    bitReverse values = .error (.lengthNotPowerOfTwo values.length) := by
  apply if_neg
  rw [isPowerOfTwo_iff]
  exact not_exists.mpr h

theorem bitReverse_map_range_succ (f : Nat → α) (k : Nat) :
    bitReverse ((List.range (2 ^ (k + 1))).map f) =
      .ok ((List.range (2 ^ k)).map (fun i => f (2 * reverseBits k i)) ++
        (List.range (2 ^ k)).map fun i => f (2 * reverseBits k i + 1)) := by
  rw [bitReverse_map_range, range_two_pow_succ, List.map_append, List.map_map]
  refine congrArg Except.ok (congrArg₂ (· ++ ·) ?_ ?_)
  · apply List.map_congr_left
    intro i hi
    rw [reverseBits_succ_of_lt (List.mem_range.mp hi)]
  · apply List.map_congr_left
    intro i hi
    rw [Function.comp_apply, reverseBits_succ_two_pow_add (List.mem_range.mp hi)]

/-- `out` has at each index the entry of `values` at the index with reversed digits. -/
structure BitReversed (k : Nat) (values out : List α) : Prop where
  length_eq : out.length = values.length
  getElem?_eq : ∀ i < 2 ^ k, ∃ j, IsReversal k i j ∧ out[i]? = values[j]?
  /-- The digits may be reversed in a word of 64 of them. -/
  getElem?_word : k < 64 → ∀ i < 2 ^ k,
    out[i]? = values[((BitVec.ofNat 64 i).reverse >>> (64 - k)).toNat]?
  perm : out.Perm values
  undone : bitReverse out = .ok values
  halves : ∀ half, 2 ^ k = 2 * half →
    bitReverse (evens values) = .ok (out.take half) ∧
    bitReverse (odds values) = .ok (out.drop half)

theorem exists_bitReversed {k : Nat} {values : List α} (hLength : values.length = 2 ^ k) :
    ∃ out, bitReverse values = .ok out ∧ BitReversed k values out := by
  have : Nonempty α := ⟨values.get ⟨0, hLength ▸ Nat.two_pow_pos k⟩⟩
  obtain ⟨f, rfl⟩ := exists_eq_map_range hLength
  have hEntry {i : Nat} (hi : i < 2 ^ k) :
      ((List.range (2 ^ k)).map fun i => f (reverseBits k i))[i]? =
        ((List.range (2 ^ k)).map f)[reverseBits k i]? := by
    simp [hi, reverseBits_lt k i]
  refine ⟨_, bitReverse_map_range f k, ?_⟩
  constructor
  case length_eq => simp
  case getElem?_eq =>
    intro i hi
    exact ⟨reverseBits k i, isReversal_iff.mpr rfl, hEntry hi⟩
  case getElem?_word =>
    intro hk i hi
    rw [toNat_reverse_ushiftRight hk.le, hEntry hi]
  case perm =>
    have hPerm := (map_reverseBits_range_perm k).map f
    rwa [List.map_map] at hPerm
  case undone =>
    rw [bitReverse_map_range fun i => f (reverseBits k i)]
    refine congrArg Except.ok (List.map_congr_left ?_)
    intro i hi
    rw [reverseBits_reverseBits (List.mem_range.mp hi)]
  case halves =>
    intro half hHalf
    cases k with
    | zero => omega
    | succ k =>
      obtain rfl : half = 2 ^ k := by
        rw [pow_succ'] at hHalf
        exact (Nat.eq_of_mul_eq_mul_left two_pos hHalf).symm
      have hSplit := Except.ok.inj
        ((bitReverse_map_range f (k + 1)).symm.trans (bitReverse_map_range_succ f k))
      rw [hSplit, hHalf, evens_map_range, odds_map_range, bitReverse_map_range,
        bitReverse_map_range, List.take_left' (by simp), List.drop_left' (by simp)]
      exact ⟨rfl, rfl⟩

end Lists

/-- Lists of `2^k` entries are permuted, and all others refused, the empty one among them. -/
theorem bitReverse_permutes {α : Type} (values : List α) :
    (∀ k, values.length = 2 ^ k → ∃ out, bitReverse values = .ok out ∧
      BitReversed k values out) ∧
    ((∀ k, values.length ≠ 2 ^ k) →
      bitReverse values = .error (.lengthNotPowerOfTwo values.length)) :=
  ⟨fun _ => exists_bitReversed, bitReverse_of_length_ne⟩

/-- Eight entries, and the empty list. -/
theorem bitReverse_permutes_eight :
    (∃ out, bitReverse ["a", "b", "c", "d", "e", "f", "g", "h"] = .ok out ∧
      (∃ j, IsReversal 3 6 j ∧ out[6]? = ["a", "b", "c", "d", "e", "f", "g", "h"][j]?) ∧
      out.Perm ["a", "b", "c", "d", "e", "f", "g", "h"] ∧
      bitReverse out = .ok ["a", "b", "c", "d", "e", "f", "g", "h"] ∧
      bitReverse ["a", "c", "e", "g"] = .ok (out.take 4) ∧
      bitReverse ["b", "d", "f", "h"] = .ok (out.drop 4)) ∧
    bitReverse ([] : List String) = .error (.lengthNotPowerOfTwo 0) := by
  obtain ⟨out, hRun, h⟩ :=
    (bitReverse_permutes ["a", "b", "c", "d", "e", "f", "g", "h"]).1 3 rfl
  obtain ⟨hEvens, hOdds⟩ := h.halves 4 rfl
  have hEmpty : ∀ k, ([] : List String).length ≠ 2 ^ k := fun k => (Nat.two_pow_pos k).ne
  exact ⟨⟨out, hRun, h.getElem?_eq 6 (by decide), h.perm, h.undone, hEvens, hOdds⟩,
    (bitReverse_permutes ([] : List String)).2 hEmpty⟩

end Kzg
