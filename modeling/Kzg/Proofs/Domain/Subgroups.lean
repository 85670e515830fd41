import Kzg.Proofs.Domain.Built
import Kzg.Proofs.Coefficients.Polynomial

/-! # What the fields of a domain say of each other

However a domain was made, its elements are the powers of its generator and the roots of its
vanishing polynomial, each of them once. A subgroup is read off the list of elements, and is the
same domain as the one that is built from its generator. So a chain of subgroups depends on its
start and on its last order only. -/

namespace Kzg

open Polynomial

theorem Fr.canonicalRoot_pow {k j : Nat} (hj : j ≤ k) (hk : k ≤ maxLogSize) :
    canonicalRoot k ^ 2 ^ (k - j) = canonicalRoot j := by
  simp only [canonicalRoot, Nat.one_shiftLeft]
  rw [← pow_mul, ← pow_add]
  congr 2
  omega

theorem idxOf?_eq_some_iff_of_nodup {α : Type} [DecidableEq α] {l : List α} (h : l.Nodup) {a : α}
    {i : Nat} : l.idxOf? a = some i ↔ l[i]? = some a := by
  rw [List.idxOf?_eq_some_iff, List.getElem?_eq_some_iff]
  constructor
  · rintro ⟨hi, hEntry, -⟩
    exact ⟨hi, hEntry⟩
  · rintro ⟨hi, rfl⟩
    refine ⟨hi, rfl, fun j hj hEntry => ?_⟩
    exact hj.ne (h.getElem_inj_iff.mp hEntry)

namespace Domain

/-- The elements are the powers of the generator in order, and the inverse of the size is one. -/
structure WellFormed (d : Domain) : Prop where
  size_eq : ∃ k ≤ 28, d.size = 2 ^ k
  length_elements : d.elements.length = d.size
  getElem?_elements : ∀ i < d.size, d.elements[i]? = some (d.generator ^ i)
  nodup_elements : d.elements.Nodup
  mem_elements_iff : ∀ x, x ∈ d.elements ↔ (X ^ d.size - 1 : Fr[X]).IsRoot x
  sizeInverse_mul_size : d.sizeInverse * (d.size : Fr) = 1
  contains_iff : ∀ x, d.contains x = true ↔ d.evalVanishing x = 0
  indexOf?_eq_some_iff : ∀ x i, d.indexOf? x = some i ↔ d.element? i = some x

theorem wellFormed_cyclic {k : Nat} (hk : k ≤ maxLogSize) {root : Fr}
    (hRoot : IsPrimitiveRoot root (2 ^ k)) : (cyclic root k).WellFormed := by
  have hMem (x : Fr) := mem_elements_cyclic_iff hRoot x
  constructor
  case size_eq => exact ⟨k, hk, rfl⟩
  case length_elements => exact length_elements_cyclic root k
  case getElem?_elements => exact fun i => getElem?_cyclic root
  case nodup_elements => exact nodup_elements_cyclic hRoot
  case mem_elements_iff =>
    intro x
    rw [hMem, IsRoot, eval_sub, eval_pow, eval_X, eval_one, sub_eq_zero]
    rfl
  case sizeInverse_mul_size => exact inv_mul_cancel₀ (Fr.two_pow_ne_zero hk)
  case contains_iff =>
    intro x
    rw [contains, indexOf?, List.isSome_idxOf?, hMem, evalVanishing, sub_eq_zero]
    rfl
  case indexOf?_eq_some_iff =>
    intro x i
    exact idxOf?_eq_some_iff_of_nodup (nodup_elements_cyclic hRoot)

section Subgroup

variable {d : Domain} (hDomain : d.Built) {order : Nat}

include hDomain

theorem Built.wellFormed : d.WellFormed := by
  obtain ⟨k, hk, root, hRoot, rfl⟩ := hDomain.exists_root
  exact wellFormed_cyclic hk hRoot

/-- The strided list of elements has the powers of the generator at the stride. -/
theorem Built.exists_subgroup (hDvd : order ∣ d.size) :
    ∃ d', d.subgroup order = .ok d' ∧
      Domain.ofGenerator (d.generator ^ (d.size / order)) order = .ok d' := by
  obtain ⟨k, hk, root, hRoot, rfl⟩ := hDomain.exists_root
  obtain ⟨j, hj, rfl⟩ := (Nat.dvd_prime_pow Nat.prime_two).mp hDvd
  have hStride : (cyclic root k).size / 2 ^ j = 2 ^ (k - j) := Nat.pow_div hj two_pos
  rw [hStride]
  exact ⟨_, subgroup_cyclic hk hj hRoot,
    ofGenerator_of_primitive (hj.trans hk) (primitiveRoot_subgroup hj hRoot)⟩

theorem Built.exists_subgroup_iff : (∃ d', d.subgroup order = .ok d') ↔ order ∣ d.size := by
  constructor
  · rintro ⟨d', h⟩
    by_contra hNot
    rw [subgroup_of_not_dvd hNot] at h
    cases h
  · intro hDvd
    obtain ⟨d', h, -⟩ := hDomain.exists_subgroup hDvd
    exact ⟨d', h⟩

theorem Built.subgroup_eq_ofGenerator (hDvd : order ∣ d.size) :
    d.subgroup order = Domain.ofGenerator (d.generator ^ (d.size / order)) order := by
  obtain ⟨d', h, h'⟩ := hDomain.exists_subgroup hDvd
  rw [h, h']

/-- The generators at the two strides have the power at the product of the strides. -/
theorem Built.subgroup_subgroup {order' : Nat} (hDvd' : order' ∣ order) (hDvd : order ∣ d.size) :
    (do (← d.subgroup order).subgroup order') = d.subgroup order' := by
  obtain ⟨k, hk, root, hRoot, rfl⟩ := hDomain.exists_root
  obtain ⟨j, hj, rfl⟩ := (Nat.dvd_prime_pow Nat.prime_two).mp hDvd
  obtain ⟨i, hi, rfl⟩ := (Nat.dvd_prime_pow Nat.prime_two).mp hDvd'
  have hStrides : 2 ^ (k - j) * 2 ^ (j - i) = 2 ^ (k - i) := by
    rw [← pow_add]
    congr 1
    omega
  rw [subgroup_cyclic hk hj hRoot, subgroup_cyclic hk (hi.trans hj) hRoot, ← hStrides, pow_mul]
  exact subgroup_cyclic (hj.trans hk) hi (primitiveRoot_subgroup hj hRoot)

end Subgroup

theorem exists_ofGenerator_iff (generator : Fr) (size : Nat) :
    (∃ d, ofGenerator generator size = .ok d) ↔
      (∃ k ≤ maxLogSize, size = 2 ^ k) ∧ orderOf generator = size := by
  simp only [ofGenerator_eq_ok_iff]
  constructor
  · rintro ⟨-, k, hk, rfl, hRoot, -⟩
    exact ⟨⟨k, hk, rfl⟩, hRoot.eq_orderOf.symm⟩
  · rintro ⟨⟨k, hk, rfl⟩, hOrder⟩
    exact ⟨_, k, hk, rfl, IsPrimitiveRoot.iff_orderOf.mpr hOrder, rfl⟩

theorem exists_ofSize_iff (size : Nat) :
    (∃ d, ofSize size = .ok d) ↔ ∃ k ≤ maxLogSize, size = 2 ^ k := by
  simp only [ofSize_eq_ok_iff]
  constructor
  · rintro ⟨-, k, hk, hSize, -⟩
    exact ⟨k, hk, hSize⟩
  · rintro ⟨k, hk, hSize⟩
    exact ⟨_, k, hk, hSize, rfl⟩

theorem subgroup_of_ofSize {size order : Nat} {d : Domain} (h : ofSize size = .ok d)
    (hDvd : order ∣ size) : d.subgroup order = ofSize order := by
  obtain ⟨k, hk, rfl, rfl⟩ := (ofSize_eq_ok_iff size d).mp h
  obtain ⟨j, hj, rfl⟩ := (Nat.dvd_prime_pow Nat.prime_two).mp hDvd
  rw [subgroup_cyclic hk hj (Fr.canonicalRoot_primitive hk), Fr.canonicalRoot_pow hj hk,
    ofSize_two_pow (hj.trans hk)]

/-- Generators are accepted exactly if their order is the size asked for, and orders of subgroups
exactly if they divide the size. -/
theorem wellFormed_and_subgroups {d : Domain} (hDomain : d.Built) :
    d.WellFormed ∧
    (∀ order, (∃ d', d.subgroup order = .ok d') ↔ 1 ≤ order ∧ order ∣ d.size) ∧
    (∀ order, order ∣ d.size →
      d.subgroup order = ofGenerator (d.generator ^ (d.size / order)) order) ∧
    (∀ order order', order ∣ d.size → order' ∣ order →
      (do (← d.subgroup order).subgroup order') = d.subgroup order') ∧
    (∀ generator size, (∃ c, ofGenerator generator size = .ok c) ↔
      (∃ k ≤ 28, size = 2 ^ k) ∧ orderOf generator = size) ∧
    (∀ size, (∃ c, ofSize size = .ok c) ↔ ∃ k ≤ 28, size = 2 ^ k) ∧
    ∀ size order c, ofSize size = .ok c → order ∣ size → c.subgroup order = ofSize order := by
  refine ⟨hDomain.wellFormed, ?_, fun _ => hDomain.subgroup_eq_ofGenerator,
    fun _ _ hDvd hDvd' => hDomain.subgroup_subgroup hDvd' hDvd, exists_ofGenerator_iff,
    exists_ofSize_iff, fun _ _ _ => subgroup_of_ofSize⟩
  intro order
  rw [hDomain.exists_subgroup_iff, iff_and_self]
  intro hDvd
  obtain ⟨k, -, hSize⟩ := hDomain.wellFormed.size_eq
  exact Nat.pos_of_dvd_of_pos hDvd (hSize ▸ Nat.two_pow_pos k)

/-- Down to the trivial subgroup of a domain that is not the canonical one. -/
theorem wellFormed_and_subgroups_otherGenerator :
    let d := cyclic (-Fr.canonicalRoot 2) 2
    d.Built ∧ d.WellFormed ∧
      (do (← d.subgroup 2).subgroup 1) = d.subgroup 1 ∧
      (¬ ∃ d', d.subgroup 3 = .ok d') ∧
      (∃ c, ofGenerator (-Fr.canonicalRoot 2) 4 = .ok c) ∧
      ∃ c, ofSize 4 = .ok c ∧ c.subgroup 2 = ofSize 2 := by
  intro d
  have hRoot : IsPrimitiveRoot (-Fr.canonicalRoot 2) (2 ^ 2) :=
    (Fr.hasOrder_two_pow_iff _ 2).mp (by decide +kernel)
  have hDomain : d.Built := built_cyclic (by decide) hRoot
  obtain ⟨hFormed, hOrders, -, hChain, hGenerators, hSizes, hCanonical⟩ :=
    wellFormed_and_subgroups hDomain
  refine ⟨hDomain, hFormed, hChain 2 1 (by decide) (by decide), ?_, ?_, ?_⟩
  · rw [hOrders]
    decide
  · rw [hGenerators]
    exact ⟨⟨2, by decide, rfl⟩, hRoot.eq_orderOf.symm⟩
  · obtain ⟨c, hSize⟩ := (hSizes 4).mpr ⟨2, by decide, rfl⟩
    exact ⟨c, hSize, hCanonical 4 2 c hSize (by decide)⟩

end Domain

end Kzg
