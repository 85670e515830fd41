import Mathlib.NumberTheory.LucasPrimality
import Mathlib.Tactic.NormNum.Prime
import Kzg.Proofs.Field.Residue
import Kzg.Field.Scalar

/-! # The order of the scalar field is a prime

Lucas's test needs the primes that divide the order less one. The large ones among them are shown
prime by the same test, the small ones by trial division. All powers are taken in the residues,
whose square and multiply the kernel can run, and a list of such tests is run at once. -/

namespace Kzg

namespace Residue

/-- The primes that divide `p - 1` are among the given ones, as some power of their product is a
multiple of `p - 1`. -/
theorem prime_of_generator {p : Nat} [Modulus p] (a : Residue p) (primes : List Nat)
    (exponent : Nat) (hPrimes : ∀ q ∈ primes, q.Prime) (hDvd : p - 1 ∣ primes.prod ^ exponent)
    (hOne : a ^ (p - 1) = 1) (hNe : ∀ q ∈ primes, a ^ ((p - 1) / q) ≠ 1) : p.Prime := by
  have transfer (n : Nat) : toZMod a ^ n = 1 ↔ a ^ n = 1 := by
    rw [← toZMod_pow, ← toZMod_one, toZMod_injective.eq_iff]
  apply lucas_primality p (toZMod a) ((transfer _).mpr hOne)
  intro q hq hqp
  have hProd : q ∣ primes.prod := hq.dvd_of_dvd_pow (hqp.trans hDvd)
  have hMem : q ∈ primes :=
    mem_list_primes_of_dvd_prod hq.prime (fun r hr => (hPrimes r hr).prime) hProd
  exact fun h => hNe q hMem ((transfer _).mp h)


end Residue

instance (n : Nat) : Modulus (n + 1) := ⟨n.succ_pos⟩

/-- What Lucas's test for the number after `below` needs: a generator of the units, and the primes
whose product has a power that is a multiple of `below`. -/
structure PrimeCertificate where
  below : Nat
  generator : Nat
  primes : List Nat
  exponent : Nat

namespace PrimeCertificate

def modulus (c : PrimeCertificate) : Nat :=
  c.below + 1

def passes (known : List Nat) (c : PrimeCertificate) : Bool :=
  let a : Residue (c.below + 1) := Residue.ofNat c.generator
  c.primes.all (· ∈ known) && c.primes.prod ^ c.exponent % c.below == 0 && a ^ c.below == 1 &&
    c.primes.all fun q => a ^ (c.below / q) != 1

/-- A test may use the primes of the tests before it. -/
def allPass : (known : List Nat) → List PrimeCertificate → Bool
  | _, [] => true
  | known, c :: certificates =>
    c.passes known && allPass (c.modulus :: known) certificates

theorem prime_of_passes {known : List Nat} (hKnown : ∀ q ∈ known, q.Prime) {c : PrimeCertificate}
    (h : c.passes known = true) : c.modulus.Prime := by
  simp only [passes, Bool.and_eq_true, List.all_eq_true, decide_eq_true_eq, beq_iff_eq,
    bne_iff_ne] at h
  obtain ⟨⟨⟨hPrimes, hDvd⟩, hOne⟩, hNe⟩ := h
  exact Residue.prime_of_generator (p := c.below + 1) (Residue.ofNat c.generator) c.primes
    c.exponent (fun q hq => hKnown q (hPrimes q hq)) (Nat.dvd_of_mod_eq_zero hDvd) hOne hNe

theorem prime_of_allPass {known : List Nat} (hKnown : ∀ q ∈ known, q.Prime)
    {certificates : List PrimeCertificate} (h : allPass known certificates = true) :
    ∀ p ∈ certificates.map modulus, p.Prime := by
  induction certificates generalizing known with
  | nil => simp
  | cons c certificates ih =>
    rw [allPass, Bool.and_eq_true] at h
    have hPrime := prime_of_passes hKnown h.1
    rw [List.map_cons, List.forall_mem_cons]
    exact ⟨hPrime, ih (List.forall_mem_cons.mpr ⟨hPrime, hKnown⟩) h.2⟩

end PrimeCertificate

def smallPrimes : List Nat :=
  [2, 3, 5, 7, 11, 13, 17, 19, 29, 41, 67, 73, 83, 89, 107, 229, 311, 379, 661, 823, 853, 911, 983,
    1637, 3557, 3691, 4999, 11003, 13327, 93001, 237073, 327599, 1593227, 1853641, 4562087]

theorem prime_of_mem_smallPrimes : ∀ p ∈ smallPrimes, p.Prime := by
  simp only [smallPrimes, List.forall_mem_cons]
  norm_num

def scalarCertificates : List PrimeCertificate :=
  [⟨405928798, 22, [2, 11, 3691, 4999], 1⟩,
    ⟨12048837556, 2, [2, 7, 661, 93001], 2⟩,
    ⟨5156902474396, 2, [2, 107, 12048837557], 2⟩,
    ⟨1670836401704628, 2, [2, 3, 5156902474397], 4⟩,
    ⟨639533338, 2, [2, 229, 853, 1637], 1⟩,
    ⟨65865678001877902, 5, [2, 83, 379, 1637, 639533339], 1⟩,
    ⟨13818364434197438864469338080, 3, [2, 5, 823, 1593227, 65865678001877903], 5⟩,
    ⟨scalarOrder - 1, 5, [2, 3, 13, 29, 983, 11003, 237073, 405928799, 1670836401704629,
      13818364434197438864469338081], 28⟩]

theorem scalarOrder_prime : scalarOrder.Prime := by
  have hPass : PrimeCertificate.allPass smallPrimes scalarCertificates = true := by decide +kernel
  exact PrimeCertificate.prime_of_allPass prime_of_mem_smallPrimes hPass scalarOrder (by decide)

instance : Fact scalarOrder.Prime := ⟨scalarOrder_prime⟩

end Kzg
