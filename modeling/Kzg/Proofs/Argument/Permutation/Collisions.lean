import Mathlib.Algebra.Polynomial.Roots
import Mathlib.Algebra.BigOperators.Ring.Multiset
import Mathlib.Data.Sym.Card
import Kzg.Proofs.Field.Scalar
import Kzg.Coefficients.Basic

/-! # Challenges that confuse different rows

Two multisets of values differ in the product of `v - θ` unless `θ` is a root of the difference of
two monic polynomials of one degree. Two multisets of labelled values become different multisets of
`v·γ - s` unless `γ` maps two different pairs to one value, and each two pairs allow one such
`γ`. -/

namespace Kzg.Permutation

open Finset (range)
open Polynomial

/-- What `g` takes on at the powers of a root, with multiplicities. -/
def valuesAlong {α : Type} (order : Nat) (omega : Fr) (g : Fr → α) : Multiset α :=
  (Multiset.range order).map fun i => g (omega ^ i)

/-- The values of a polynomial with those of its labels. -/
def labelledAlong (order : Nat) (omega : Fr) (p seq : Coeffs) : Multiset (Fr × Fr) :=
  valuesAlong order omega fun x => (p.eval x, seq.eval x)

section Values

variable {α β : Type}

@[simp] theorem card_valuesAlong (order : Nat) (omega : Fr) (g : Fr → α) :
    (valuesAlong order omega g).card = order := by
  simp [valuesAlong]

@[simp] theorem card_labelledAlong (order : Nat) (omega : Fr) (p seq : Coeffs) :
    (labelledAlong order omega p seq).card = order :=
  card_valuesAlong order omega _

theorem map_valuesAlong (f : α → β) (order : Nat) (omega : Fr) (g : Fr → α) :
    (valuesAlong order omega g).map f = valuesAlong order omega fun x => f (g x) := by
  rw [valuesAlong, Multiset.map_map]
  rfl

theorem prod_valuesAlong (order : Nat) (omega : Fr) (g : Fr → Fr) :
    (valuesAlong order omega g).prod = ∏ i ∈ range order, g (omega ^ i) :=
  rfl

end Values

section Theta

noncomputable def rootPoly (values : Multiset Fr) : Fr[X] :=
  (values.map fun v => X - C v).prod

theorem rootPoly_injective : Function.Injective rootPoly := by
  intro v0 v1 h
  have hRoots := congrArg roots h
  rwa [rootPoly, rootPoly, roots_multiset_prod_X_sub_C, roots_multiset_prod_X_sub_C] at hRoots

theorem natDegree_rootPoly (values : Multiset Fr) : (rootPoly values).natDegree = values.card :=
  natDegree_multiset_prod_X_sub_C_eq_card values

theorem monic_rootPoly (values : Multiset Fr) : (rootPoly values).Monic :=
  monic_multiset_prod_of_monic _ _ fun v _ => monic_X_sub_C v

theorem degree_rootPoly (values : Multiset Fr) :
    (rootPoly values).degree = (values.card : WithBot Nat) := by
  rw [degree_eq_natDegree (monic_rootPoly values).ne_zero, natDegree_rootPoly]

theorem prod_sub_eq (values : Multiset Fr) (theta : Fr) :
    (values.map (· - theta)).prod = (-1) ^ values.card * (rootPoly values).eval theta := by
  have hNeg : values.map (· - theta) = (values.map (theta - ·)).map Neg.neg := by
    rw [Multiset.map_map]
    exact Multiset.map_congr rfl fun v _ => (neg_sub theta v).symm
  have hEval : (rootPoly values).eval theta = (values.map (theta - ·)).prod := by
    rw [rootPoly, eval_multiset_prod, Multiset.map_map]
    simp
  rw [hNeg, Multiset.prod_map_neg, Multiset.card_map, hEval]

noncomputable def collisions (v0 v1 : Multiset Fr) : Finset Fr :=
  (rootPoly v0 - rootPoly v1).roots.toFinset

theorem card_collisions_le {v0 v1 : Multiset Fr} (hCard : v0.card = v1.card) :
    (collisions v0 v1).card ≤ v0.card - 1 := by
  have hDegree : (rootPoly v0 - rootPoly v1).natDegree ≤ v0.card - 1 := by
    by_cases hZero : rootPoly v0 - rootPoly v1 = 0
    · simp [hZero]
    · have hDegrees : (rootPoly v0).degree = (rootPoly v1).degree := by
        rw [degree_rootPoly, degree_rootPoly, hCard]
      have hLeading := (monic_rootPoly v0).leadingCoeff.trans (monic_rootPoly v1).leadingCoeff.symm
      have hNat := natDegree_lt_natDegree hZero
        (degree_sub_lt_left hDegrees (monic_rootPoly v0).ne_zero hLeading)
      rw [natDegree_rootPoly] at hNat
      omega
  exact (Multiset.toFinset_card_le _).trans ((card_roots' _).trans hDegree)

/-- A collision is a `θ` for which the rows of both sides have the same product. -/
theorem mem_collisions_iff {v0 v1 : Multiset Fr} (hCard : v0.card = v1.card) (hNe : v0 ≠ v1)
    (theta : Fr) :
    theta ∈ collisions v0 v1 ↔ (v0.map (· - theta)).prod = (v1.map (· - theta)).prod := by
  have hSign : (-1 : Fr) ^ v1.card ≠ 0 := pow_ne_zero _ (neg_ne_zero.mpr one_ne_zero)
  rw [collisions, Multiset.mem_toFinset, mem_roots (sub_ne_zero.mpr (rootPoly_injective.ne hNe)),
    IsRoot, eval_sub, sub_eq_zero, prod_sub_eq, prod_sub_eq, hCard, mul_right_inj' hSign]

end Theta

section Gamma

/-- The value of a labelled value in a row, before `θ` is taken off. -/
def foldLabel (gamma : Fr) (pair : Fr × Fr) : Fr :=
  pair.1 * gamma - pair.2

def labelCollisions (v0 v1 : Multiset (Fr × Fr)) : Finset Fr :=
  (v0 + v1).toFinset.offDiag.image fun (x, y) => (x.2 - y.2) / (x.1 - y.1)

theorem card_labelCollisions_le {v0 v1 : Multiset (Fr × Fr)} (hCard : v0.card = v1.card) :
    (labelCollisions v0 v1).card ≤ v0.card * (2 * v0.card - 1) := by
  -- A pair of pairs and its reverse have the same quotient, so each unordered one counts once.
  have hSymm (x y : Fr × Fr) : (x.2 - y.2) / (x.1 - y.1) = (y.2 - x.2) / (y.1 - x.1) := by
    rw [← neg_sub y.2, ← neg_sub y.1, neg_div_neg_eq]
  have hImage : labelCollisions v0 v1 =
      ((v0 + v1).toFinset.offDiag.image Sym2.mk.uncurry).image
        (Sym2.lift ⟨fun x y => (x.2 - y.2) / (x.1 - y.1), hSymm⟩) := by
    rw [Finset.image_image]
    rfl
  have hPairs : (v0 + v1).toFinset.card ≤ 2 * v0.card := by
    refine (Multiset.toFinset_card_le _).trans ?_
    rw [Multiset.card_add, hCard, two_mul]
  calc
    (labelCollisions v0 v1).card
      ≤ (v0 + v1).toFinset.card.choose 2 := by
        rw [hImage, ← Sym2.card_image_offDiag]
        exact Finset.card_image_le
    _ ≤ (2 * v0.card).choose 2 := Nat.choose_le_choose 2 hPairs
    _ = v0.card * (2 * v0.card - 1) := by
      rw [Nat.choose_two_right, mul_assoc, Nat.mul_div_cancel_left _ two_pos]

theorem injOn_foldLabel {v0 v1 : Multiset (Fr × Fr)} {gamma : Fr}
    (hGamma : gamma ∉ labelCollisions v0 v1) :
    Set.InjOn (foldLabel gamma) {x | x ∈ v0 + v1} := by
  intro x hx y hy hRow
  have hQuotient : (x.1 - y.1) * gamma = x.2 - y.2 := by
    rw [foldLabel, foldLabel] at hRow
    linear_combination hRow
  by_contra hNe
  by_cases hValue : x.1 = y.1
  · rw [hValue, sub_self, zero_mul, eq_comm, sub_eq_zero] at hQuotient
    exact hNe (Prod.ext hValue hQuotient)
  · have hPair : (x, y) ∈ (v0 + v1).toFinset.offDiag :=
      Finset.mem_offDiag.mpr ⟨Multiset.mem_toFinset.mpr hx, Multiset.mem_toFinset.mpr hy, hNe⟩
    have hGammaEq : (x.2 - y.2) / (x.1 - y.1) = gamma := by
      rw [← hQuotient, mul_div_cancel_left₀ _ (sub_ne_zero.mpr hValue)]
    exact hGamma (Finset.mem_image.mpr ⟨(x, y), hPair, hGammaEq⟩)

theorem map_foldLabel_ne {v0 v1 : Multiset (Fr × Fr)} (hNe : v0 ≠ v1) {gamma : Fr}
    (hGamma : gamma ∉ labelCollisions v0 v1) :
    v0.map (foldLabel gamma) ≠ v1.map (foldLabel gamma) := by
  intro hMap
  have hLeft := (injOn_foldLabel hGamma).leftInvOn_invFunOn
  -- The rows can be taken back to the pairs that they come from.
  have hBack (v : Multiset (Fr × Fr)) (hSub : ∀ x ∈ v, x ∈ v0 + v1) :
      (v.map (foldLabel gamma)).map (Function.invFunOn (foldLabel gamma) {x | x ∈ v0 + v1}) =
        v := by
    rw [Multiset.map_map]
    exact (Multiset.map_congr rfl fun x hx => hLeft (hSub x hx)).trans (Multiset.map_id v)
  apply hNe
  rw [← hBack v0 fun x hx => Multiset.mem_add.mpr (.inl hx), hMap,
    hBack v1 fun x hx => Multiset.mem_add.mpr (.inr hx)]

end Gamma

end Kzg.Permutation
