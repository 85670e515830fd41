import Mathlib.RingTheory.RootsOfUnity.PrimitiveRoots
import Kzg.Proofs.Field.RootOfUnity
import Kzg.Proofs.Coefficients.Combination
import Kzg.Fourier.Transform

/-! # The transform evaluates at the powers of its root

Entry `i` of a transform is the value at `ρ^i` of the polynomial whose coefficients are
transformed. The proof follows the recursion: the even and the odd coefficients are polynomials in
`x²`, whose powers are those of the square of the root. A transform of other values is the
image of a transform of scalars under any map that respects the operations. The matrix of the
inverse transform is symmetric. -/

namespace Kzg

section Halves

variable {α β : Type}

theorem length_evens_add_length_odds (l : List α) :
    (evens l).length = (l.length + 1) / 2 ∧ (odds l).length = l.length / 2 := by
  fun_induction evens l with
  | case1 => simp [odds]
  | case2 => simp [odds]
  | case3 a b l ih =>
    simp only [odds, List.length_cons, ih]
    omega

theorem length_evens {l : List α} {n : Nat} (h : l.length = 2 * n) : (evens l).length = n := by
  rw [(length_evens_add_length_odds l).1, h]
  omega

theorem length_odds {l : List α} {n : Nat} (h : l.length = 2 * n) : (odds l).length = n := by
  rw [(length_evens_add_length_odds l).2, h]
  omega

theorem evens_map (f : α → β) (l : List α) : evens (l.map f) = (evens l).map f := by
  fun_induction evens l with
  | case1 => rfl
  | case2 => rfl
  | case3 a b l ih => simp [evens, ih]

theorem odds_map (f : α → β) (l : List α) : odds (l.map f) = (odds l).map f := by
  fun_induction odds l with
  | case1 => rfl
  | case2 => rfl
  | case3 a b l ih => simp [odds, ih]

theorem evens_map_range (f : Nat → α) (n : Nat) :
    evens ((List.range (2 * n)).map f) = (List.range n).map fun i => f (2 * i) := by
  induction n generalizing f with
  | zero => rfl
  | succ n ih =>
    have hTail := ih fun i => f (i + 2)
    rw [Nat.mul_succ, List.range_succ_eq_map, List.range_succ_eq_map, List.range_succ_eq_map]
    simpa [evens, Function.comp_def, mul_add] using hTail

theorem odds_map_range (f : Nat → α) (n : Nat) :
    odds ((List.range (2 * n)).map f) = (List.range n).map fun i => f (2 * i + 1) := by
  induction n generalizing f with
  | zero => rfl
  | succ n ih =>
    have hTail := ih fun i => f (i + 2)
    rw [Nat.mul_succ, List.range_succ_eq_map, List.range_succ_eq_map, List.range_succ_eq_map]
    simpa [odds, Function.comp_def, mul_add] using hTail

theorem range_two_pow_succ (k : Nat) : List.range (2 ^ (k + 1)) =
    List.range (2 ^ k) ++ (List.range (2 ^ k)).map (2 ^ k + ·) := by
  rw [pow_succ, mul_two, List.range_add]

theorem eval_eq_evens_add_odds (l : Coeffs) (x : Fr) :
    l.eval x = Coeffs.eval (evens l) (x ^ 2) + x * Coeffs.eval (odds l) (x ^ 2) := by
  fun_induction evens l with
  | case1 => simp [odds]
  | case2 => simp [odds]
  | case3 a b l ih =>
    simp only [odds, Coeffs.eval_cons, ih]
    ring

end Halves

namespace Fourier

section Homomorphism

variable {V W : Type} [Add V] [Sub V] [Add W] [Sub W]

theorem transform_map (act : Fr → V → V) (act' : Fr → W → W) (f : V → W)
    (hAdd : ∀ a b, f (a + b) = f a + f b) (hSub : ∀ a b, f (a - b) = f a - f b)
    (hAct : ∀ c a, f (act c a) = act' c (f a)) (table : Array Fr) (k stride : Nat)
    (values : List V) :
    transform act' table k stride (values.map f) =
      (transform act table k stride values).map f := by
  induction k generalizing stride values with
  | zero => rfl
  | succ k ih =>
    have hZip (l : List Fr) (vs : List V) :
        List.zipWith act' l (vs.map f) = (List.zipWith act l vs).map f := by
      rw [List.map_zipWith, List.zipWith_map_right]
      simp only [hAct]
    have hSum (us vs : List V) :
        List.zipWith (· + ·) (us.map f) (vs.map f) = (List.zipWith (· + ·) us vs).map f := by
      rw [List.map_zipWith, List.zipWith_map]
      simp only [hAdd]
    have hDifference (us vs : List V) :
        List.zipWith (· - ·) (us.map f) (vs.map f) = (List.zipWith (· - ·) us vs).map f := by
      rw [List.map_zipWith, List.zipWith_map]
      simp only [hSub]
    simp only [transform, evens_map, odds_map, ih, hZip, hSum, hDifference, List.map_append]

end Homomorphism

/-- The table holds the powers of `root` at the multiples of `stride`, as many as a transform of
`2^k` values reads. -/
def Tabulates (table : Array Fr) (k stride : Nat) (root : Fr) : Prop :=
  ∀ i, 2 * i < 2 ^ k → table.getD (i * stride) 0 = root ^ i

theorem Tabulates.square {table : Array Fr} {k stride : Nat} {root : Fr}
    (h : Tabulates table (k + 1) stride root) : Tabulates table k (2 * stride) (root ^ 2) := by
  intro i hi
  rw [← pow_mul, ← h (2 * i) (by rw [pow_succ]; omega)]
  congr 1
  ring

theorem Tabulates.twiddles {table : Array Fr} {k stride : Nat} {root : Fr}
    (h : Tabulates table (k + 1) stride root) :
    twiddles table (2 ^ k) stride = (List.range (2 ^ k)).map fun i => root ^ i := by
  rw [Fourier.twiddles, twiddleIndices, List.map_map]
  apply List.map_congr_left
  intro i hi
  have hlt : i < 2 ^ k := List.mem_range.mp hi
  exact h i (by rw [pow_succ]; omega)

theorem pow_half_eq_neg_one {k : Nat} {root : Fr} (h : IsPrimitiveRoot root (2 ^ (k + 1))) :
    root ^ 2 ^ k = -1 := by
  have hSquare : (root ^ 2 ^ k) ^ 2 = 1 := by
    rw [← pow_mul, ← pow_succ]
    exact h.pow_eq_one
  have hNe : root ^ 2 ^ k ≠ 1 :=
    h.pow_ne_one_of_pos_of_lt (by positivity) (Nat.pow_lt_pow_right one_lt_two (Nat.lt_succ_self k))
  exact (sq_eq_one_iff.mp hSquare).resolve_left hNe

theorem transform_eq_map_eval {table : Array Fr} {k stride : Nat} {root : Fr}
    (hTable : Tabulates table k stride root) (hRoot : IsPrimitiveRoot root (2 ^ k))
    {values : Coeffs} (hLength : values.length = 2 ^ k) :
    transform (· * ·) table k stride values =
      (List.range (2 ^ k)).map fun i => values.eval (root ^ i) := by
  induction k generalizing stride root values with
  | zero =>
    obtain ⟨v, rfl⟩ := List.length_eq_one_iff.mp hLength
    simp [transform]
  | succ k ih =>
    have hDouble : values.length = 2 * 2 ^ k := by rw [hLength, pow_succ']
    have hSquare : IsPrimitiveRoot (root ^ 2) (2 ^ k) :=
      hRoot.pow (by positivity) (pow_succ' 2 k)
    simp only [transform, Nat.one_shiftLeft, ih hTable.square hSquare (length_evens hDouble),
      ih hTable.square hSquare (length_odds hDouble), hTable.twiddles, List.zipWith_map,
      List.zipWith_self]
    rw [range_two_pow_succ, List.map_append, List.map_map]
    -- The points of the second half are those of the first half negated.
    congr 1
    · apply List.map_congr_left
      intro i _
      rw [eval_eq_evens_add_odds values, ← pow_mul, ← pow_mul, mul_comm]
    · apply List.map_congr_left
      intro i _
      rw [Function.comp_apply, eval_eq_evens_add_odds values, pow_add, pow_half_eq_neg_one hRoot,
        mul_pow, neg_one_sq, one_mul, ← pow_mul, ← pow_mul, mul_comm i 2]
      ring

theorem tabulates_powers {k : Nat} (root : Fr) :
    Tabulates (Fr.powers root (2 ^ k + 1)).toArray k 1 root := by
  intro i hi
  have hlt : i < 2 ^ k + 1 := by omega
  rw [mul_one, Array.getD_eq_getD_getElem?, List.getElem?_toArray, Fr.getElem?_powers root hlt,
    Option.getD_some]

/-- The inverse transform of `2^k` values, entry by entry. -/
def inverseEntries (root : Fr) (k : Nat) (values : Coeffs) : List Fr :=
  (List.range (2 ^ k)).map fun i => ((2 ^ k : Nat) : Fr)⁻¹ * values.eval (root⁻¹ ^ i)

@[simp] theorem length_inverseEntries (root : Fr) (k : Nat) (values : Coeffs) :
    (inverseEntries root k values).length = 2 ^ k := by
  simp [inverseEntries]

/-- Combining one list with the inverse transform of another is symmetric in them. -/
theorem dot_inverseEntries_comm (root : Fr) {k : Nat} {xs ys : List Fr} (hxs : xs.length = 2 ^ k)
    (hys : ys.length = 2 ^ k) :
    Fr.dot (inverseEntries root k xs) ys = Fr.dot xs (inverseEntries root k ys) := by
  obtain ⟨u, rfl⟩ := exists_eq_map_range hxs
  obtain ⟨v, rfl⟩ := exists_eq_map_range hys
  simp only [inverseEntries, Coeffs.eval_map_range, Fr.dot_map_range, Finset.mul_sum,
    Finset.sum_mul]
  rw [Finset.sum_comm]
  apply Finset.sum_congr rfl
  intro i _
  apply Finset.sum_congr rfl
  intro j _
  rw [pow_right_comm root⁻¹ j i]
  ring

theorem inverseTransform_eq {k : Nat} (hk : k ≤ maxLogSize) {root : Fr}
    (hRoot : IsPrimitiveRoot root (2 ^ k)) {values : Coeffs} (hLength : values.length = 2 ^ k) :
    inverseTransform (· * ·) root values = .ok (inverseEntries root k values) := by
  have hInverse : IsPrimitiveRoot root⁻¹ (2 ^ k) := hRoot.inv
  rw [inverseTransform, Fr.cycle_of_primitive hk hInverse]
  simp only [bind, Except.bind, pure, Except.pure, hLength, Nat.log2_two_pow,
    transform_eq_map_eval (tabulates_powers root⁻¹) hInverse hLength, List.map_map]
  rfl

theorem inverseTransform_map {V : Type} [Add V] [Sub V] (act : Fr → V → V) (f : Fr → V)
    (hAdd : ∀ a b, f (a + b) = f a + f b) (hSub : ∀ a b, f (a - b) = f a - f b)
    (hAct : ∀ c a, f (c * a) = act c (f a)) (root : Fr) (values : List Fr) :
    inverseTransform act root (values.map f) =
      (inverseTransform (· * ·) root values).map (List.map f) := by
  simp only [inverseTransform, List.length_map, transform_map (· * ·) act f hAdd hSub hAct]
  cases (root⁻¹).cycle with
  | error e => rfl
  | ok table =>
    simp only [bind, Except.bind, pure, Except.pure, Except.map, List.map_map]
    congr 2
    funext a
    exact (hAct _ a).symm

end Fourier

section Checked

variable {k : Nat} {root : Fr} (hRoot : IsPrimitiveRoot root (2 ^ k)) {values : Coeffs}
  (hLength : values.length = 2 ^ k)

include hRoot hLength

theorem checkTransform_of_primitive : checkTransform values root = .ok () := by
  rw [checkTransform]
  simp only [hLength, isPowerOfTwo_two_pow, (Fr.hasOrder_two_pow_iff root k).mpr hRoot,
    Bool.not_true, Bool.false_eq_true, if_false]
  rfl

variable (hk : k ≤ maxLogSize)

include hk

theorem fft_eq_map_eval :
    fft values root = .ok ((List.range (2 ^ k)).map fun i => values.eval (root ^ i)) := by
  rw [fft, checkTransform_of_primitive hRoot hLength, Fr.cycle_of_primitive hk hRoot]
  simp only [bind, Except.bind, pure, Except.pure, hLength, Nat.log2_two_pow,
    Fourier.transform_eq_map_eval (Fourier.tabulates_powers root) hRoot hLength]

theorem ifft_eq : ifft values root = .ok (Fourier.inverseEntries root k values) := by
  rw [ifft, checkTransform_of_primitive hRoot hLength]
  exact Fourier.inverseTransform_eq hk hRoot hLength

end Checked

end Kzg
