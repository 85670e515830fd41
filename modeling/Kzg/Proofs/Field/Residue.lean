import Mathlib.Data.ZMod.Basic
import Mathlib.Tactic.Ring
import Kzg.Field.Residue

/-! # Residues are a commutative ring

Residues map to the integers modulo the same number, and the map respects all operations and is
injective, so every law of a commutative ring carries over. Square and multiply is the power of
the ring. -/

namespace Kzg

section Power

variable {α M : Type} [One α] [Mul α] [Monoid M]

/-- The invariant of square and multiply: when the digits from `i` on have been read, the value is
the power to the number that these digits form. -/
theorem foldr_digits_eq_pow (f : α → M) (h1 : f 1 = 1) (hmul : ∀ a b, f (a * b) = f a * f b)
    (x : α) (n count i : Nat) :
    f ((List.range' i count).foldr
      (fun i acc => if n.testBit i then acc * acc * x else acc * acc) 1) =
      f x ^ (n / 2 ^ i % 2 ^ count) := by
  induction count generalizing i with
  | zero => simpa [Nat.mod_one] using h1
  | succ count ih =>
    have hdigits : n / 2 ^ i % 2 ^ (count + 1) =
        2 * (n / 2 ^ (i + 1) % 2 ^ count) + (n.testBit i).toNat := by
      rw [Nat.toNat_testBit, pow_succ', Nat.mod_mul, Nat.div_div_eq_div_mul, ← pow_succ, add_comm]
    rw [List.range'_succ, List.foldr_cons, hdigits]
    cases n.testBit i with
    | true => simp only [if_true, hmul, ih, Bool.toNat_true, pow_succ, pow_mul', pow_zero, one_mul]
    | false => simp [hmul, ih, pow_mul', sq]

theorem map_binaryPow (f : α → M) (h1 : f 1 = 1) (hmul : ∀ a b, f (a * b) = f a * f b)
    (x : α) (n : Nat) : f (binaryPow x n) = f x ^ n := by
  have h := foldr_digits_eq_pow f h1 hmul x n (n.log2 + 1) 0
  rw [pow_zero, Nat.div_one, Nat.mod_eq_of_lt Nat.lt_log2_self] at h
  rw [← h, binaryPow, foldBits, List.range_eq_range']

end Power

namespace Residue

variable {m : Nat} [Modulus m]

instance : NatCast (Residue m) := ⟨ofNat⟩
instance : IntCast (Residue m) := ⟨ofInt⟩
instance : SMul Nat (Residue m) := ⟨fun n a => ofNat n * a⟩
instance : SMul Int (Residue m) := ⟨fun n a => ofInt n * a⟩

def toZMod (a : Residue m) : ZMod m :=
  (a.val : ZMod m)

omit [Modulus m] in
theorem toZMod_injective : Function.Injective (toZMod : Residue m → ZMod m) := by
  intro a b h
  apply ext
  have hval := congrArg ZMod.val h
  rwa [toZMod, toZMod, ZMod.val_cast_of_lt a.val_lt, ZMod.val_cast_of_lt b.val_lt] at hval

@[simp] theorem toZMod_ofNat (n : Nat) : toZMod (ofNat n : Residue m) = n :=
  ZMod.natCast_mod n m

theorem toZMod_zero : toZMod (0 : Residue m) = 0 :=
  (toZMod_ofNat 0).trans Nat.cast_zero

theorem toZMod_ne_zero {a : Residue m} (h : a ≠ 0) : toZMod a ≠ 0 := by
  rwa [← toZMod_zero, toZMod_injective.ne_iff]

theorem toZMod_one : toZMod (1 : Residue m) = 1 :=
  (toZMod_ofNat 1).trans Nat.cast_one

theorem toZMod_add (a b : Residue m) : toZMod (a + b) = toZMod a + toZMod b :=
  (toZMod_ofNat _).trans (Nat.cast_add _ _)

theorem toZMod_mul (a b : Residue m) : toZMod (a * b) = toZMod a * toZMod b :=
  (toZMod_ofNat _).trans (Nat.cast_mul _ _)

omit [Modulus m] in
theorem cast_sub_val (a : Residue m) : ((m - a.val : Nat) : ZMod m) = -toZMod a := by
  rw [Nat.cast_sub a.val_lt.le, ZMod.natCast_self, zero_sub, toZMod]

theorem toZMod_neg (a : Residue m) : toZMod (-a) = -toZMod a :=
  (toZMod_ofNat _).trans (cast_sub_val a)

theorem toZMod_sub (a b : Residue m) : toZMod (a - b) = toZMod a - toZMod b := by
  have h : toZMod (a - b) = ((a.val + (m - b.val) : Nat) : ZMod m) := toZMod_ofNat _
  rw [h, Nat.cast_add, cast_sub_val, ← sub_eq_add_neg, ← toZMod]

theorem toZMod_pow (a : Residue m) (n : Nat) : toZMod (a ^ n) = toZMod a ^ n :=
  map_binaryPow toZMod toZMod_one toZMod_mul a n

theorem toZMod_ofInt (n : Int) : toZMod (ofInt n : Residue m) = n := by
  have hpos : 0 ≤ n % (m : Int) := Int.emod_nonneg n (Nat.cast_ne_zero.mpr Modulus.pos.ne')
  rw [ofInt, toZMod_ofNat, ← Int.cast_natCast, Int.toNat_of_nonneg hpos]
  exact ZMod.intCast_mod n m

instance : CommRing (Residue m) :=
  toZMod_injective.commRing toZMod toZMod_zero toZMod_one toZMod_add toZMod_mul toZMod_neg
    toZMod_sub
    (fun n a => by
      have h : toZMod (n • a) = toZMod (ofNat n : Residue m) * toZMod a := toZMod_mul _ _
      rw [h, toZMod_ofNat, nsmul_eq_mul])
    (fun n a => by
      have h : toZMod (n • a) = toZMod (ofInt n : Residue m) * toZMod a := toZMod_mul _ _
      rw [h, toZMod_ofInt, zsmul_eq_mul])
    toZMod_pow toZMod_ofNat toZMod_ofInt

theorem ofNat_eq_cast (n : Nat) : (ofNat n : Residue m) = n := rfl

instance : CharP (Residue m) m where
  cast_eq_zero_iff n := by
    rw [← toZMod_injective.eq_iff, ← ofNat_eq_cast, toZMod_ofNat, toZMod_zero]
    exact ZMod.natCast_eq_zero_iff n m

theorem cast_val (a : Residue m) : (a.val : Residue m) = a :=
  ofNat_val a

instance : Finite (Residue m) := by
  have : NeZero m := ⟨Modulus.pos.ne'⟩
  exact Finite.of_injective toZMod toZMod_injective

end Residue

end Kzg
