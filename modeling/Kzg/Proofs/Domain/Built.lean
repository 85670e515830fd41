import Mathlib.RingTheory.RootsOfUnity.PrimitiveRoots
import Kzg.Proofs.Field.RootOfUnity
import Kzg.Domain

/-! # The domains that can be built

Domains are made from a size, from a generator or as the subgroup of another one. All three ways
lead to the domain of some root of two-power order, which its size and its generator determine. -/

namespace Kzg

section EveryNth

variable {α β : Type}

theorem everyNth_map (f : α → β) (stride skip : Nat) (l : List α) :
    everyNth stride skip (l.map f) = (everyNth stride skip l).map f := by
  fun_induction everyNth stride skip l with
  | case1 => rfl
  | case2 a l ih => rw [List.map_cons, everyNth, ih, List.map_cons]
  | case3 skip a l ih => rw [List.map_cons, everyNth, ih]

theorem everyNth_append (stride : Nat) (l l' : List α) :
    everyNth stride l.length (l ++ l') = everyNth stride 0 l' := by
  induction l with
  | nil => rfl
  | cons a l ih => exact ih

theorem everyNth_powers (x : Fr) (stride count : Nat) :
    everyNth (stride + 1) 0 (Fr.powers x ((stride + 1) * count)) =
      Fr.powers (x ^ (stride + 1)) count := by
  induction count with
  | zero => rfl
  | succ count ih =>
    have hHead : Fr.powers x (stride + 1) = 1 :: (Fr.powers x stride).map (· * x) := by
      rw [add_comm, Fr.powers_add, pow_one]
      rfl
    have hSkip : stride = ((Fr.powers x stride).map (· * x)).length := by simp
    have hTail := everyNth_append (stride + 1) ((Fr.powers x stride).map (· * x))
      ((Fr.powers x ((stride + 1) * count)).map (· * x ^ (stride + 1)))
    rw [← hSkip, everyNth_map, ih] at hTail
    rw [Nat.mul_succ, add_comm _ (stride + 1), Fr.powers_add, hHead, List.cons_append, everyNth,
      Nat.add_sub_cancel, hTail, add_comm count 1, Fr.powers_add, pow_one]
    rfl

end EveryNth

namespace Domain

def cyclic (root : Fr) (k : Nat) : Domain where
  size := 2 ^ k
  generator := root
  sizeInverse := ((2 ^ k : Nat) : Fr)⁻¹
  elements := Fr.powers root (2 ^ k)

inductive Built : Domain → Prop
  | ofSize {size : Nat} {d : Domain} : Domain.ofSize size = .ok d → Built d
  | ofGenerator {generator : Fr} {size : Nat} {d : Domain} :
    Domain.ofGenerator generator size = .ok d → Built d
  | subgroup {d d' : Domain} {order : Nat} : Built d → d.subgroup order = .ok d' → Built d'

theorem checkSize_two_pow {k : Nat} (hk : k ≤ maxLogSize) : checkSize (2 ^ k) = .ok () := by
  have hSize : 2 ^ k ≤ maxSize := maxSize_eq ▸ Nat.pow_le_pow_right two_pos hk
  simp [checkSize, hSize]

theorem checkSize_eq_ok_iff (size : Nat) :
    checkSize size = .ok () ↔ ∃ k ≤ maxLogSize, size = 2 ^ k := by
  constructor
  · intro h
    rw [checkSize] at h
    split at h
    · rename_i hSize
      rw [Bool.and_eq_true, isPowerOfTwo_iff, decide_eq_true_eq] at hSize
      obtain ⟨⟨k, rfl⟩, hLe⟩ := hSize
      exact ⟨k, (Nat.pow_le_pow_iff_right one_lt_two).mp hLe, rfl⟩
    · cases h
  · rintro ⟨k, hk, rfl⟩
    exact checkSize_two_pow hk

theorem checkSize_of_ne {size : Nat} (h : ∀ k ≤ maxLogSize, size ≠ 2 ^ k) :
    checkSize size = .error (.domainSize size maxSize) := by
  rw [checkSize, if_neg]
  intro hSize
  obtain ⟨k, hk, hEq⟩ := (checkSize_eq_ok_iff size).mp (if_pos hSize)
  exact h k hk hEq

theorem canonicalGenerator_two_pow {k : Nat} (hk : k ≤ maxLogSize) :
    canonicalGenerator (2 ^ k) = .ok (Fr.canonicalRoot k) := by
  rw [canonicalGenerator, checkSize_two_pow hk, Fr.rootOfOrder_two_pow hk]
  rfl

theorem canonicalGenerator_eq_ok_iff (size : Nat) (root : Fr) :
    canonicalGenerator size = .ok root ↔
      ∃ k ≤ maxLogSize, size = 2 ^ k ∧ root = Fr.canonicalRoot k := by
  constructor
  · intro h
    cases hSize : checkSize size with
    | error e => simp [canonicalGenerator, hSize, bind, Except.bind] at h
    | ok _ =>
      obtain ⟨k, hk, rfl⟩ := (checkSize_eq_ok_iff size).mp hSize
      rw [canonicalGenerator_two_pow hk] at h
      exact ⟨k, hk, rfl, (Except.ok.inj h).symm⟩
  · rintro ⟨k, hk, rfl, rfl⟩
    exact canonicalGenerator_two_pow hk

theorem ofGenerator_of_primitive {k : Nat} (hk : k ≤ maxLogSize) {root : Fr}
    (hRoot : IsPrimitiveRoot root (2 ^ k)) :
    ofGenerator root (2 ^ k) = .ok (cyclic root k) := by
  have hSize : (Fr.ofNat (2 ^ k)).inverse = .ok ((2 ^ k : Nat) : Fr)⁻¹ :=
    Fr.inverse_of_ne_zero (Fr.two_pow_ne_zero hk)
  simp only [ofGenerator, checkSize_two_pow hk, (Fr.hasOrder_two_pow_iff root k).mpr hRoot,
    Fr.cycle_of_primitive hk hRoot, hSize, bind, Except.bind, pure, Except.pure,
    Bool.not_true, Bool.false_eq_true, if_false, Fr.take_powers root (Nat.le_succ (2 ^ k)), cyclic]

theorem ofGenerator_eq_ok_iff (root : Fr) (size : Nat) (d : Domain) :
    ofGenerator root size = .ok d ↔
      ∃ k ≤ maxLogSize, size = 2 ^ k ∧ IsPrimitiveRoot root (2 ^ k) ∧ d = cyclic root k := by
  constructor
  · intro h
    cases hSize : checkSize size with
    | error e => simp [ofGenerator, hSize, bind, Except.bind] at h
    | ok _ =>
      obtain ⟨k, hk, rfl⟩ := (checkSize_eq_ok_iff size).mp hSize
      by_cases hOrder : root.hasOrder (2 ^ k) = true
      · have hRoot := (Fr.hasOrder_two_pow_iff root k).mp hOrder
        rw [ofGenerator_of_primitive hk hRoot] at h
        exact ⟨k, hk, rfl, hRoot, (Except.ok.inj h).symm⟩
      · simp [ofGenerator, hSize, hOrder, bind, Except.bind, throw, throwThe,
          MonadExceptOf.throw] at h
  · rintro ⟨k, hk, rfl, hRoot, rfl⟩
    exact ofGenerator_of_primitive hk hRoot

theorem ofSize_two_pow {k : Nat} (hk : k ≤ maxLogSize) :
    ofSize (2 ^ k) = .ok (cyclic (Fr.canonicalRoot k) k) := by
  rw [ofSize, canonicalGenerator_two_pow hk]
  exact ofGenerator_of_primitive hk (Fr.canonicalRoot_primitive hk)

theorem ofSize_of_ne {size : Nat} (h : ∀ k ≤ maxLogSize, size ≠ 2 ^ k) :
    ofSize size = .error (.domainSize size maxSize) := by
  rw [ofSize, canonicalGenerator, checkSize_of_ne h]
  rfl

theorem ofSize_eq_ok_iff (size : Nat) (d : Domain) :
    ofSize size = .ok d ↔ ∃ k ≤ maxLogSize, size = 2 ^ k ∧ d = cyclic (Fr.canonicalRoot k) k := by
  constructor
  · intro h
    by_cases hSize : ∀ k ≤ maxLogSize, size ≠ 2 ^ k
    · rw [ofSize_of_ne hSize] at h
      cases h
    · push Not at hSize
      obtain ⟨k, hk, rfl⟩ := hSize
      rw [ofSize_two_pow hk] at h
      exact ⟨k, hk, rfl, (Except.ok.inj h).symm⟩
  · rintro ⟨k, hk, rfl, rfl⟩
    exact ofSize_two_pow hk

theorem elements_cyclic (root : Fr) (k : Nat) :
    (cyclic root k).elements = (List.range (2 ^ k)).map fun i => root ^ i :=
  Fr.powers_eq_map root (2 ^ k)

theorem getElem?_cyclic (root : Fr) {k i : Nat} (hi : i < 2 ^ k) :
    (cyclic root k).elements[i]? = some (root ^ i) :=
  Fr.getElem?_powers root hi

theorem subgroup_of_not_dvd {d : Domain} {order : Nat} (h : ¬ order ∣ d.size) :
    d.subgroup order = .error (.notADivisor order d.size) := by
  have hMod : d.size % order ≠ 0 := fun hZero => h (Nat.dvd_of_mod_eq_zero hZero)
  have hGuard : (order = 0 || order > d.size || d.size % order ≠ 0) = true := by
    simp [hMod]
  rw [subgroup, if_pos hGuard]
  rfl

theorem primitiveRoot_subgroup {k j : Nat} (hj : j ≤ k) {root : Fr}
    (hRoot : IsPrimitiveRoot root (2 ^ k)) : IsPrimitiveRoot (root ^ 2 ^ (k - j)) (2 ^ j) := by
  apply hRoot.pow (Nat.two_pow_pos k)
  rw [← pow_add, Nat.sub_add_cancel hj]

theorem subgroup_cyclic {k j : Nat} (hk : k ≤ maxLogSize) (hj : j ≤ k) {root : Fr}
    (hRoot : IsPrimitiveRoot root (2 ^ k)) :
    (cyclic root k).subgroup (2 ^ j) = .ok (cyclic (root ^ 2 ^ (k - j)) j) := by
  have hStride : 2 ^ k / 2 ^ j = 2 ^ (k - j) := Nat.pow_div hj two_pos
  have hDvd : 2 ^ k % 2 ^ j = 0 := Nat.mod_eq_zero_of_dvd (pow_dvd_pow 2 hj)
  have hLe : ¬ 2 ^ k < 2 ^ j := not_lt.mpr (Nat.pow_le_pow_right two_pos hj)
  have hInverse : (Fr.ofNat (2 ^ j)).inverse = .ok ((2 ^ j : Nat) : Fr)⁻¹ :=
    Fr.inverse_of_ne_zero (Fr.two_pow_ne_zero (hj.trans hk))
  -- The stride is the whole size for the trivial subgroup, whose generator is then read at zero.
  have hGenerator : (cyclic root k).elements.getD (2 ^ (k - j) % 2 ^ k) 0 = root ^ 2 ^ (k - j) := by
    rw [List.getD_eq_getElem?_getD, getElem?_cyclic root (Nat.mod_lt _ (by positivity)),
      Option.getD_some]
    conv_lhs => rw [hRoot.eq_orderOf]
    exact pow_mod_orderOf root _
  have hElements : everyNth (2 ^ (k - j)) 0 (cyclic root k).elements =
      Fr.powers (root ^ 2 ^ (k - j)) (2 ^ j) := by
    obtain ⟨s, hs⟩ := Nat.exists_eq_succ_of_ne_zero (Nat.two_pow_pos (k - j)).ne'
    have hSize : 2 ^ k = (s + 1) * 2 ^ j := by
      rw [← Nat.succ_eq_add_one, ← hs, ← pow_add, Nat.sub_add_cancel hj]
    rw [hs, Nat.succ_eq_add_one, ← everyNth_powers, ← hSize]
    rfl
  have hSize : (cyclic root k).size = 2 ^ k := rfl
  simp only [subgroup, hSize, hStride, hDvd, hGenerator, hElements, hInverse, hLe, bind,
    Except.bind, pure, Except.pure, (Nat.two_pow_pos j).ne', decide_false, Bool.false_or, ne_eq,
    not_true_eq_false, Bool.false_eq_true, if_false]
  rfl

theorem exists_of_subgroup_cyclic {k order : Nat} {root : Fr} {d : Domain}
    (h : (cyclic root k).subgroup order = .ok d) : ∃ j ≤ k, order = 2 ^ j := by
  have hDvd : order ∣ (cyclic root k).size := by
    by_contra hNot
    rw [subgroup_of_not_dvd hNot] at h
    cases h
  exact (Nat.dvd_prime_pow Nat.prime_two).mp hDvd

/-- A domain that can be built is that of a root whose order is its size. -/
theorem Built.exists_root {d : Domain} (h : d.Built) :
    ∃ k ≤ maxLogSize, ∃ root, IsPrimitiveRoot root (2 ^ k) ∧ d = cyclic root k := by
  induction h with
  | @ofSize size d hSize =>
    obtain ⟨k, hk, -, hd⟩ := (ofSize_eq_ok_iff size d).mp hSize
    exact ⟨k, hk, Fr.canonicalRoot k, Fr.canonicalRoot_primitive hk, hd⟩
  | @ofGenerator root size d hRoot =>
    obtain ⟨k, hk, -, hRoot, hd⟩ := (ofGenerator_eq_ok_iff root size d).mp hRoot
    exact ⟨k, hk, root, hRoot, hd⟩
  | @subgroup d d' order _ hSubgroup ih =>
    obtain ⟨k, hk, root, hRoot, rfl⟩ := ih
    obtain ⟨j, hj, rfl⟩ := exists_of_subgroup_cyclic hSubgroup
    rw [subgroup_cyclic hk hj hRoot] at hSubgroup
    exact ⟨j, hj.trans hk, root ^ 2 ^ (k - j), primitiveRoot_subgroup hj hRoot,
      (Except.ok.inj hSubgroup).symm⟩

theorem Built.ext {d d' : Domain} (h : d.Built) (h' : d'.Built) (hSize : d.size = d'.size)
    (hGenerator : d.generator = d'.generator) : d = d' := by
  obtain ⟨k, -, root, -, rfl⟩ := h.exists_root
  obtain ⟨k', -, root', -, rfl⟩ := h'.exists_root
  have hk : k = k' := Nat.pow_right_injective le_rfl hSize
  have hRoot : root = root' := hGenerator
  rw [hk, hRoot]

theorem built_cyclic {k : Nat} (hk : k ≤ maxLogSize) {root : Fr}
    (hRoot : IsPrimitiveRoot root (2 ^ k)) : (cyclic root k).Built :=
  .ofGenerator (ofGenerator_of_primitive hk hRoot)

theorem built_canonical {k : Nat} (hk : k ≤ maxLogSize) : (cyclic (Fr.canonicalRoot k) k).Built :=
  built_cyclic hk (Fr.canonicalRoot_primitive hk)

section Elements

variable {k : Nat} {root : Fr} (hRoot : IsPrimitiveRoot root (2 ^ k))

include hRoot

theorem pow_pow_size (i : Nat) : (root ^ i) ^ 2 ^ k = 1 := by
  rw [← pow_mul, mul_comm, pow_mul, hRoot.pow_eq_one, one_pow]

theorem mem_elements_cyclic_iff (x : Fr) : x ∈ (cyclic root k).elements ↔ x ^ 2 ^ k = 1 := by
  simp only [elements_cyclic, List.mem_map, List.mem_range]
  constructor
  · rintro ⟨i, -, rfl⟩
    exact pow_pow_size hRoot i
  · intro hx
    have : NeZero (2 ^ k) := ⟨(Nat.two_pow_pos k).ne'⟩
    obtain ⟨i, hi, hPow⟩ := hRoot.eq_pow_of_pow_eq_one hx
    exact ⟨i, hi, hPow⟩

theorem nodup_elements_cyclic : (cyclic root k).elements.Nodup := by
  rw [elements_cyclic]
  apply List.Nodup.map_on
  · intro i hi j hj h
    exact hRoot.pow_inj (List.mem_range.mp hi) (List.mem_range.mp hj) h
  · exact List.nodup_range

end Elements

@[simp] theorem length_elements_cyclic (root : Fr) (k : Nat) :
    (cyclic root k).elements.length = (cyclic root k).size := by
  simp [cyclic]

theorem element?_cyclic_eq_some_iff {root : Fr} {k i : Nat} {x : Fr} :
    (cyclic root k).element? i = some x ↔ i < 2 ^ k ∧ root ^ i = x := by
  simp [element?, elements_cyclic, List.getElem?_eq_some_iff]

theorem Built.element?_eq_some_iff {d : Domain} (h : d.Built) {i : Nat} {x : Fr} :
    d.element? i = some x ↔ i < d.size ∧ d.generator ^ i = x := by
  obtain ⟨k, -, root, -, rfl⟩ := h.exists_root
  exact element?_cyclic_eq_some_iff

theorem Built.length_elements {d : Domain} (h : d.Built) : d.elements.length = d.size := by
  obtain ⟨k, -, root, -, rfl⟩ := h.exists_root
  exact length_elements_cyclic root k

theorem Built.nodup_elements {d : Domain} (h : d.Built) : d.elements.Nodup := by
  obtain ⟨k, -, root, hRoot, rfl⟩ := h.exists_root
  exact nodup_elements_cyclic hRoot

theorem Built.ne_zero_of_mem {d : Domain} (h : d.Built) {w : Fr} (hw : w ∈ d.elements) : w ≠ 0 := by
  obtain ⟨k, -, root, hRoot, rfl⟩ := h.exists_root
  rintro rfl
  simpa using (mem_elements_cyclic_iff hRoot 0).mp hw

end Domain

end Kzg
