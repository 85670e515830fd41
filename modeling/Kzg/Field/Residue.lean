/-! # Residues modulo a fixed number

A residue is its representative below the modulus, so equal residues are equal values. Powers run
over the binary digits of the exponent. -/

namespace Kzg

/-- Runs `step` over the binary digits of `n`, the top digit first. -/
@[specialize] def foldBits {α : Type} (step : Bool → α → α) (n : Nat) (start : α) : α :=
  (List.range (n.log2 + 1)).foldr (fun i acc => step (n.testBit i) acc) start

@[specialize] def binaryPow {α : Type} [One α] [Mul α] (x : α) (n : Nat) : α :=
  foldBits (fun digit acc => if digit then acc * acc * x else acc * acc) n 1

/-- There are residues only modulo a positive number. -/
class Modulus (m : Nat) : Prop where
  pos : 0 < m

structure Residue (m : Nat) where
  val : Nat
  val_lt : val < m
deriving DecidableEq

namespace Residue

theorem ext {m : Nat} {a b : Residue m} (h : a.val = b.val) : a = b := by
  cases a
  cases b
  cases h
  rfl

variable {m : Nat} [Modulus m]

def ofNat (n : Nat) : Residue m :=
  ⟨n % m, Nat.mod_lt n Modulus.pos⟩

instance : Zero (Residue m) := ⟨ofNat 0⟩
instance : One (Residue m) := ⟨ofNat 1⟩
instance : Add (Residue m) := ⟨fun a b => ofNat (a.val + b.val)⟩
instance : Mul (Residue m) := ⟨fun a b => ofNat (a.val * b.val)⟩
instance : Neg (Residue m) := ⟨fun a => ofNat (m - a.val)⟩
instance : Sub (Residue m) := ⟨fun a b => ofNat (a.val + (m - b.val))⟩
instance : Pow (Residue m) Nat := ⟨binaryPow⟩

/-- The inverse modulo a prime, by Fermat's little theorem; the inverse of zero is zero. -/
instance : Inv (Residue m) := ⟨fun a => a ^ (m - 2)⟩

instance : Div (Residue m) := ⟨fun a b => a * b⁻¹⟩

def ofInt (n : Int) : Residue m :=
  ofNat (n % (m : Int)).toNat

theorem ofNat_val (a : Residue m) : ofNat a.val = a :=
  ext (Nat.mod_eq_of_lt a.val_lt)

end Residue

end Kzg
