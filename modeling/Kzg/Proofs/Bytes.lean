import Mathlib.Algebra.Order.Ring.Nat
import Mathlib.Data.List.Basic
import Mathlib.Data.Nat.Digits.Defs
import Kzg.Bytes

/-! # Written forms have a fixed length and can be read back

A number below the bound of its width is read back from its digits, so a scalar is from its bytes.
Entries that are written in the same number of bytes are told apart one by one when they are written
one after the other. -/

namespace Kzg

@[simp] theorem length_bytesLE (width n : Nat) : (bytesLE width n).length = width := by
  induction width generalizing n with
  | zero => rfl
  | succ width ih => rw [bytesLE, List.length_cons, ih]

@[simp] theorem length_bytesBE (width n : Nat) : (bytesBE width n).length = width := by
  rw [bytesBE, List.length_reverse, length_bytesLE]

@[simp] theorem length_countBytes (n : Nat) : (countBytes n).length = 8 :=
  length_bytesBE 8 n

theorem natOfLE_bytesLE {width n : Nat} (h : n < 256 ^ width) :
    natOfLE (bytesLE width n) = n := by
  induction width generalizing n with
  | zero => exact (Nat.lt_one_iff.mp h).symm
  | succ width ih =>
    have hQuotient : n / 256 < 256 ^ width := Nat.div_lt_of_lt_mul (pow_succ' 256 width ▸ h)
    rw [bytesLE, natOfLE, ih hQuotient, UInt8.toNat_ofNat']
    exact Nat.mod_add_div n 256

/-- Every string of bytes is the written form of its number. -/
theorem bytesLE_natOfLE (bytes : List UInt8) : bytesLE bytes.length (natOfLE bytes) = bytes := by
  induction bytes with
  | nil => rfl
  | cons b bytes ih =>
    have hRest : (b.toNat + 256 * natOfLE bytes) / 256 = natOfLE bytes := by
      have := b.toNat_lt
      omega
    have hFirst : UInt8.ofNat (b.toNat + 256 * natOfLE bytes) = b := by
      apply UInt8.toNat_inj.mp
      rw [UInt8.toNat_ofNat', Nat.add_mul_mod_self_left, Nat.mod_eq_of_lt b.toNat_lt]
    rw [List.length_cons, natOfLE, bytesLE, hFirst, hRest, ih]

theorem natOfLE_eq_ofDigits (bytes : List UInt8) :
    natOfLE bytes = Nat.ofDigits 256 (bytes.map UInt8.toNat) := by
  induction bytes with
  | nil => rfl
  | cons b bytes ih =>
    rw [natOfLE, ih, List.map_cons, Nat.ofDigits_cons]

theorem bytesLE_zero (width : Nat) : bytesLE width 0 = List.replicate width 0 := by
  induction width with
  | zero => rfl
  | succ width ih =>
    rw [bytesLE, Nat.zero_div, ih]
    rfl

theorem getLastD_bytesLE (width n : Nat) :
    (bytesLE (width + 1) n).getLastD 0 = UInt8.ofNat (n / 256 ^ width) := by
  induction width generalizing n with
  | zero => simp [bytesLE]
  | succ width ih =>
    have hTail : (bytesLE (width + 2) n).getLastD 0 =
        (bytesLE (width + 1) (n / 256)).getLastD 0 := rfl
    rw [hTail, ih, Nat.div_div_eq_div_mul, pow_succ']

theorem Residue.ofNat?_val {m : Nat} (a : Residue m) : Residue.ofNat? a.val = some a :=
  dif_pos a.val_lt

theorem Residue.ofNat?_eq_some_iff {m n : Nat} {a : Residue m} :
    Residue.ofNat? n = some a ↔ a.val = n := by
  rw [ofNat?]
  split
  · rw [Option.some_inj]
    exact ⟨fun h => h ▸ rfl, fun h => Residue.ext h.symm⟩
  · rename_i hBound
    simp only [reduceCtorEq, false_iff]
    rintro rfl
    exact hBound a.val_lt

@[simp] theorem Fr.length_toBytes (a : Fr) : a.toBytes.length = byteSize :=
  length_bytesBE byteSize a.val

namespace Fr

/-- A scalar is read from its written form and from nothing else. -/
theorem ofBytes_eq_ok_iff {bytes : List UInt8} {a : Fr} :
    ofBytes bytes = .ok a ↔ a.toBytes = bytes := by
  constructor
  · intro h
    rw [ofBytes] at h
    split at h
    · cases h
    · rename_i hLength
      cases hNumber : (Residue.ofNat? (natOfBE bytes) : Option Fr) with
      | none =>
        rw [hNumber] at h
        cases h
      | some b =>
        rw [hNumber] at h
        cases h
        rw [toBytes, Residue.ofNat?_eq_some_iff.mp hNumber, ← not_not.mp hLength,
          ← List.length_reverse, bytesBE, natOfBE, bytesLE_natOfLE, List.reverse_reverse]
  · rintro rfl
    have hBound : a.val < 256 ^ byteSize := a.val_lt.trans (by decide)
    have hNumber : natOfBE a.toBytes = a.val := by
      rw [natOfBE, toBytes, bytesBE, List.reverse_reverse, natOfLE_bytesLE hBound]
    rw [ofBytes, if_neg (not_not.mpr (length_toBytes a)), hNumber, Residue.ofNat?_val]

theorem ofBytes_toBytes (a : Fr) : ofBytes a.toBytes = .ok a :=
  ofBytes_eq_ok_iff.mpr rfl

theorem exists_ofBytes_iff (bytes : List UInt8) :
    (∃ a, ofBytes bytes = .ok a) ↔ bytes.length = byteSize ∧ natOfBE bytes < scalarOrder := by
  rw [ofBytes]
  split
  · rename_i hLength
    simp [hLength]
  · rename_i hLength
    rw [and_iff_right (not_not.mp hLength), Residue.ofNat?]
    by_cases hBound : natOfBE bytes < scalarOrder
    · rw [dif_pos hBound]
      exact iff_of_true ⟨_, rfl⟩ hBound
    · rw [dif_neg hBound]
      exact iff_of_false (by simp) hBound

theorem toBytes_injective : Function.Injective toBytes := by
  intro a b h
  have hRead : ofBytes b.toBytes = .ok a := ofBytes_eq_ok_iff.mpr h
  rw [ofBytes_toBytes] at hRead
  exact (Except.ok.inj hRead).symm

end Fr

/-- The lists may be of different length: as no entry is written as nothing, the string of the
longer one is longer. -/
theorem eq_of_flatMap_eq {α : Type} {write : α → List UInt8} {width : Nat} (hWidth : 0 < width)
    (hLength : ∀ a, (write a).length = width) {l l' : List α}
    (hInjective : ∀ a ∈ l, ∀ a' ∈ l', write a = write a' → a = a')
    (h : l.flatMap write = l'.flatMap write) : l = l' := by
  have hNe (a : α) (rest : List UInt8) : write a ++ rest ≠ [] := by
    intro hEmpty
    have := congrArg List.length (List.append_eq_nil_iff.mp hEmpty).1
    rw [hLength, List.length_nil] at this
    exact hWidth.ne' this
  induction l generalizing l' with
  | nil =>
    cases l' with
    | nil => rfl
    | cons a' l' => exact absurd h.symm (hNe a' _)
  | cons a l ih =>
    cases l' with
    | nil => exact absurd h (hNe a _)
    | cons a' l' =>
      obtain ⟨hHead, hTail⟩ := List.append_inj h ((hLength a).trans (hLength a').symm)
      rw [hInjective a List.mem_cons_self a' List.mem_cons_self hHead,
        ih (fun b hb b' hb' => hInjective b (List.mem_cons_of_mem a hb) b'
          (List.mem_cons_of_mem a' hb')) hTail]

end Kzg
