import Mathlib.Algebra.Field.ZMod
import Mathlib.FieldTheory.Finite.Basic
import Mathlib.Tactic.FieldSimp
import Kzg.Proofs.Field.Prime

/-! # The scalars are a field

The inverse by Fermat's little theorem is the inverse of the field, the checked operations fail on
zero alone, and one inversion inverts a whole list. -/

namespace Kzg

theorem Residue.mul_inv_of_ne_zero {p : Nat} [Modulus p] [Fact p.Prime] {a : Residue p}
    (ha : a ≠ 0) : a * a⁻¹ = 1 := by
  apply toZMod_injective
  have hinv : toZMod a⁻¹ = toZMod a ^ (p - 2) := toZMod_pow a _
  have hExponent : p - 2 + 1 = p - 1 := by
    have := (Fact.out : p.Prime).two_le
    omega
  rw [toZMod_mul, hinv, ← pow_succ', hExponent, toZMod_one]
  exact ZMod.pow_card_sub_one_eq_one (toZMod_ne_zero ha)

theorem Residue.pow_modulus {p : Nat} [Modulus p] [Fact p.Prime] (a : Residue p) : a ^ p = a := by
  apply toZMod_injective
  rw [toZMod_pow, ZMod.pow_card]

namespace Fr

instance : Field Fr where
  inv := (·⁻¹)
  div := (· / ·)
  div_eq_mul_inv _ _ := rfl
  exists_pair_ne := ⟨0, 1, by decide⟩
  mul_inv_cancel _ := Residue.mul_inv_of_ne_zero
  inv_zero := by decide +kernel
  nnqsmul := _
  nnqsmul_def := fun _ _ => rfl
  qsmul := _
  qsmul_def := fun _ _ => rfl

theorem cast_eq_zero_iff (n : Nat) : (n : Fr) = 0 ↔ scalarOrder ∣ n :=
  CharP.cast_eq_zero_iff Fr scalarOrder n

theorem cast_ne_zero {n : Nat} (hpos : 0 < n) (hlt : n < scalarOrder) : (n : Fr) ≠ 0 := by
  intro h
  exact absurd (Nat.le_of_dvd hpos ((cast_eq_zero_iff n).mp h)) hlt.not_ge

@[simp] theorem inverse_of_ne_zero {a : Fr} (ha : a ≠ 0) : a.inverse = .ok a⁻¹ :=
  if_neg ha

@[simp] theorem inverse_zero : (0 : Fr).inverse = .error .divisionByZero := rfl

theorem eq_divisionByZero_of_inverse_eq_error {a : Fr} {e : PolyError} (h : a.inverse = .error e) :
    e = .divisionByZero := by
  by_cases ha : a = 0
  · rw [ha, inverse_zero] at h
    exact (Except.error.inj h).symm
  · rw [inverse_of_ne_zero ha] at h
    cases h

@[simp] theorem divide_of_ne_zero (a : Fr) {b : Fr} (hb : b ≠ 0) : a.divide b = .ok (a / b) := by
  rw [divide, inverse_of_ne_zero hb, div_eq_mul_inv]
  rfl

section Powers

theorem go_eq_map (x : Fr) (count : Nat) (y : Fr) :
    powers.go x count y = (List.range count).map fun i => y * x ^ i := by
  induction count generalizing y with
  | zero => rfl
  | succ count ih =>
    rw [powers.go, ih, List.range_succ_eq_map, List.map_cons, List.map_map, pow_zero, mul_one]
    congr 2
    funext i
    rw [Function.comp_apply, Nat.succ_eq_add_one, pow_succ', mul_assoc]

theorem powers_eq_map (x : Fr) (count : Nat) :
    powers x count = (List.range count).map fun i => x ^ i := by
  simp [powers, go_eq_map]

@[simp] theorem length_powers (x : Fr) (count : Nat) : (powers x count).length = count := by
  simp [powers_eq_map]

theorem getElem?_powers (x : Fr) {count i : Nat} (hi : i < count) :
    (powers x count)[i]? = some (x ^ i) := by
  simp [powers_eq_map, hi]

theorem powers_succ (x : Fr) (count : Nat) :
    powers x (count + 1) = powers x count ++ [x ^ count] := by
  simp [powers_eq_map, List.range_succ]

theorem getLast?_powers (x : Fr) (count : Nat) :
    (powers x (count + 1)).getLast? = some (x ^ count) := by
  rw [powers_succ, List.getLast?_concat]

theorem powers_add (x : Fr) (m n : Nat) :
    powers x (m + n) = powers x m ++ (powers x n).map (· * x ^ m) := by
  simp only [powers_eq_map, List.range_add, List.map_append, List.map_map]
  congr 2
  funext i
  rw [Function.comp_apply, Function.comp_apply, pow_add, mul_comm]

theorem take_powers (x : Fr) {m n : Nat} (h : m ≤ n) : (powers x n).take m = powers x m := by
  rw [powers_eq_map, powers_eq_map, ← List.map_take, List.take_range, min_eq_left h]

end Powers

section Inversion

/-- The entries read so far have the product `acc`, which no entry makes zero: the inverse that
comes back from the end of the list is the inverse of `acc` again when all later entries have been
taken out of it. -/
theorem invertFrom_eq {acc : Fr} (hAcc : acc ≠ 0) (values : List Fr) :
    invertFrom acc values = .ok (acc⁻¹, values.map (·⁻¹)) := by
  induction values generalizing acc with
  | nil =>
    rw [invertFrom, inverse_of_ne_zero hAcc]
    rfl
  | cons v values ih =>
    by_cases hv : v = 0
    · rw [invertFrom, if_pos hv, ih hAcc, List.map_cons, hv, inv_zero]
      rfl
    · have hInverse : (acc * v)⁻¹ * v = acc⁻¹ := by
        rw [mul_inv, inv_mul_cancel_right₀ hv]
      have hEntry : (acc * v)⁻¹ * acc = v⁻¹ := by
        rw [mul_comm acc, mul_inv, inv_mul_cancel_right₀ hAcc]
      rw [invertFrom, if_neg hv, ih (mul_ne_zero hAcc hv), List.map_cons, ← hInverse, ← hEntry]
      rfl

theorem invertAll_eq_map (values : List Fr) : invertAll values = .ok (values.map (·⁻¹)) := by
  rw [invertAll, invertFrom_eq one_ne_zero]
  rfl

/-- The one inversion does for all entries what an inversion of each of them would do, and no zero
makes it fail. -/
theorem invertAll_inverts_each (values : List Fr) :
    ∃ inverses, invertAll values = .ok inverses ∧ inverses.length = values.length ∧
      ∀ (i : Nat) (v : Fr), values[i]? = some v →
        (v ≠ 0 → ∃ u, inverses[i]? = some u ∧ v * u = 1 ∧ v.inverse = .ok u) ∧
        (v = 0 → inverses[i]? = some 0) := by
  refine ⟨values.map (·⁻¹), invertAll_eq_map values, List.length_map _, ?_⟩
  intro i v hEntry
  have hInverse : (values.map (·⁻¹))[i]? = some v⁻¹ := by
    rw [List.getElem?_map, hEntry, Option.map_some]
  constructor
  · intro hv
    exact ⟨v⁻¹, hInverse, mul_inv_cancel₀ hv, inverse_of_ne_zero hv⟩
  · intro hv
    rw [hInverse, hv, inv_zero]

/-- Zeros at both ends and between two equal entries. -/
theorem invertAll_inverts_each_zerosBetween :
    ∃ inverses, invertAll [0, 2, 0, 0, 2, 5, 0] = .ok inverses ∧ inverses.length = 7 ∧
      inverses[0]? = some 0 ∧ inverses[3]? = some 0 ∧ inverses[6]? = some 0 ∧
      (∃ u, inverses[4]? = some u ∧ 2 * u = 1) ∧ ∃ u, inverses[5]? = some u ∧ 5 * u = 1 := by
  obtain ⟨inverses, hRun, hLength, hEntries⟩ := invertAll_inverts_each [0, 2, 0, 0, 2, 5, 0]
  obtain ⟨u, hTwo, hTwoInverse, -⟩ := (hEntries 4 2 rfl).1 (by decide)
  obtain ⟨u', hFive, hFiveInverse, -⟩ := (hEntries 5 5 rfl).1 (by decide)
  exact ⟨inverses, hRun, hLength, (hEntries 0 0 rfl).2 rfl, (hEntries 3 0 rfl).2 rfl,
    (hEntries 6 0 rfl).2 rfl, ⟨u, hTwo, hTwoInverse⟩, u', hFive, hFiveInverse⟩

end Inversion

end Fr

end Kzg
