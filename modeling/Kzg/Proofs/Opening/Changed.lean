import Kzg.Proofs.Opening.Forms

/-! # Openings of values of which one has been changed

A change of one value moves the commitment by the change times one entry of the Lagrange vector at
the secret. That entry is zero only where the secret is another element of the domain, and nowhere
else does an opening of the old values pass for the new commitment. -/

namespace Kzg

open PointGroup (generator)
open SetupM (Responds)

theorem Fr.dot_modify (weights : List Fr) {values : List Fr} {i : Nat} (hi : i < values.length)
    (delta : Fr) : dot weights (values.modify i (· + delta)) =
      dot weights values + delta * weights.getD i 0 := by
  induction values generalizing weights i with
  | nil => cases hi
  | cons v values ih =>
    cases weights with
    | nil => simp
    | cons w weights =>
      cases i with
      | zero =>
        rw [List.modify_zero_cons, dot_cons, dot_cons, List.getD_cons_zero]
        ring
      | succ i =>
        rw [List.modify_succ_cons, dot_cons, dot_cons, List.getD_cons_succ,
          ih weights (Nat.lt_of_succ_lt_succ hi)]
        ring

namespace Domain

/-- Off the domain no factor of the closed form is zero, and on it the vector is a mark. -/
theorem lagrangeValue_eq_zero_iff {k : Nat} (hk : k ≤ maxLogSize) {w : Fr} (hw : w ^ 2 ^ k = 1)
    (x : Fr) : lagrangeValue (2 ^ k) x w = 0 ↔ x ^ 2 ^ k = 1 ∧ w ≠ x := by
  rw [lagrangeValue]
  by_cases hx : x ^ 2 ^ k = 1
  · simp [hx]
  · have hw0 : w ≠ 0 := by
      rintro rfl
      simp at hw
    have hNe : x - w ≠ 0 := by
      intro hZero
      exact hx (sub_eq_zero.mp hZero ▸ hw)
    have hVanishing : x ^ 2 ^ k - 1 ≠ 0 := sub_ne_zero.mpr hx
    have hDenominator := inv_ne_zero (mul_ne_zero (Fr.two_pow_ne_zero hk) hNe)
    rw [if_neg hx]
    exact iff_of_false (mul_ne_zero (mul_ne_zero hVanishing hw0) hDenominator) fun h => hx h.1

theorem Built.getD_lagrangeAt_eq_zero_iff {d : Domain} (hDomain : d.Built) {i : Nat}
    (hi : i < d.size) (x : Fr) :
    (d.lagrangeAt x).getD i 0 = 0 ↔ x ∈ d.elements ∧ d.elements[i]? ≠ some x := by
  have hElement : d.elements[i]? = some (d.generator ^ i) :=
    hDomain.element?_eq_some_iff.mpr ⟨hi, rfl⟩
  obtain ⟨k, hk, root, hRoot, rfl⟩ := hDomain.exists_root
  have hOne : ((cyclic root k).generator ^ i) ^ 2 ^ k = 1 := pow_pow_size hRoot i
  rw [lagrangeAt_eq_map, List.getD_eq_getElem?_getD, List.getElem?_map, hElement, Option.map_some,
    Option.getD_some, lagrangeValue_eq_zero_iff hk hOne, mem_elements_cyclic_iff hRoot, Ne, Ne,
    Option.some_inj]

end Domain

/-- The values with `delta` added to one of them. -/
def EvalForm.addAt (e : EvalForm) (i : Nat) (delta : Fr) : EvalForm where
  evals := e.evals.modify i (· + delta)
  domain := e.domain
  length_evals := (List.length_modify ..).trans e.length_evals

variable {G1 G2 : Type} [PointGroup G1] [LawfulPointGroup G1]

theorem responds_commitEvals_addAt {S : Type} [SetupSource S G1 G2] {I : S → Prop} {e : EvalForm}
    {weights : List Fr} (hLagrange : SuppliesLagrange I e.domain weights)
    (hLength : weights.length = e.domain.size) {i : Nat} (hi : i < e.domain.size) (delta : Fr) :
    Responds I (commitEvals (e.addAt i delta) : SetupM S G1)
      (.ok ((Fr.dot weights e.evals + delta * weights.getD i 0) • generator)) := by
  rw [← Fr.dot_modify weights (e.length_evals.symm ▸ hi)]
  exact responds_commitEvals (e := e.addAt i delta) hLagrange hLength

variable [PointGroup G2] [Pairing G1 G2] [LawfulPointGroup G2] [LawfulPairing G1 G2]
  {setup : PublicSetup G1 G2} {secret : Fr}

/-- An opening passes for one commitment only, whatever the point. -/
theorem verify_openingAt_smul (hTau : setup.g2Tau = secret • generator) (p : Coeffs) (z c : Fr) :
    (p.openingAt secret z).verify setup (c • generator) =
      .ok (decide (c = p.eval secret)) := by
  rw [Opening.verify, Coeffs.openingAt, verifyValue_smul hTau, p.eval_quotientAt_mul]
  simp only [sub_left_inj]

/-- An opening of the values passes for the commitment to the changed ones in two cases: nothing has
changed, or the secret is an element of the domain and the change is at another one. -/
theorem verify_openEvalsAt_addAt (hSetup : setup.PublishedFrom secret) {e : EvalForm}
    (hDomain : e.domain.Built) (z : Fr) {i : Nat} (hi : i < e.domain.size) (delta : Fr) :
    ∃ (o : Opening G1) (c : G1) (passes : Bool),
      Responds (TrustedSetup.Reached secret : TrustedSetup G1 G2 → Prop) (openEvalsAt e z)
        (.ok o) ∧
      Responds (TrustedSetup.Reached secret : TrustedSetup G1 G2 → Prop)
        (commitEvals (e.addAt i delta)) (.ok c) ∧
      o.verify setup c = .ok passes ∧
      (passes = true ↔
        delta = 0 ∨ secret ∈ e.domain.elements ∧ e.domain.elements[i]? ≠ some secret) := by
  obtain ⟨p, -, -, hInterpolant⟩ := EvalForm.exists_toCoeffs hDomain
  have hLagrange := TrustedSetup.suppliesLagrange G1 G2 secret hDomain
  have hCommit := responds_commitEvals_addAt hLagrange (hDomain.length_lagrangeAt secret) hi delta
  have hOld : Fr.dot (e.domain.lagrangeAt secret) e.evals = p.eval secret := by
    rw [hInterpolant.dot_lagrangeAt hDomain, p.eval_toPoly]
  refine ⟨_, _, _, responds_openEvalsAt_of_interpolates hDomain hInterpolant hLagrange z, hCommit,
    verify_openingAt_smul hSetup.g2Tau_eq p z _, ?_⟩
  rw [decide_eq_true_eq, hOld, add_eq_left, mul_eq_zero,
    hDomain.getD_lagrangeAt_eq_zero_iff hi]

/-- The secret is the second element of a domain that is not the canonical one: a change of the
first value goes unseen, one of the second does not. Off the domain either is seen. -/
theorem verify_openEvalsAt_addAt_exponent :
    let root : Fr := -Fr.canonicalRoot 2
    let on : PublicSetup (Exponent "G1") (Exponent "G2") := PublicSetup.ofPowers root 0 0
    let off : PublicSetup (Exponent "G1") (Exponent "G2") := PublicSetup.ofPowers 2 0 0
    let e : EvalForm := ⟨[7, 0, 1, 5], Domain.cyclic root 2, rfl⟩
    on.PublishedFrom root ∧ off.PublishedFrom 2 ∧ e.domain.Built ∧
    (∃ o c, Responds (TrustedSetup.Reached root :
          TrustedSetup (Exponent "G1") (Exponent "G2") → Prop) (openEvalsAt e 5) (.ok o) ∧
        Responds (TrustedSetup.Reached root :
          TrustedSetup (Exponent "G1") (Exponent "G2") → Prop) (commitEvals (e.addAt 0 3)) (.ok c) ∧
        o.verify on c = .ok true) ∧
    (∃ o c, Responds (TrustedSetup.Reached root :
          TrustedSetup (Exponent "G1") (Exponent "G2") → Prop) (openEvalsAt e 5) (.ok o) ∧
        Responds (TrustedSetup.Reached root :
          TrustedSetup (Exponent "G1") (Exponent "G2") → Prop) (commitEvals (e.addAt 1 3)) (.ok c) ∧
        o.verify on c = .ok false) ∧
    ∃ o c, Responds (TrustedSetup.Reached 2 :
          TrustedSetup (Exponent "G1") (Exponent "G2") → Prop) (openEvalsAt e 5) (.ok o) ∧
        Responds (TrustedSetup.Reached 2 :
          TrustedSetup (Exponent "G1") (Exponent "G2") → Prop) (commitEvals (e.addAt 0 3)) (.ok c) ∧
        o.verify off c = .ok false := by
  intro root on off e
  have hRoot : IsPrimitiveRoot root (2 ^ 2) := (Fr.hasOrder_two_pow_iff _ 2).mp (by decide +kernel)
  have hDomain : e.domain.Built := Domain.built_cyclic (by decide) hRoot
  have hOn : on.PublishedFrom root := PublicSetup.publishedFrom_ofPowers (by decide +kernel) 0 0
  have hOff : off.PublishedFrom 2 := PublicSetup.publishedFrom_ofPowers (by decide) 0 0
  refine ⟨hOn, hOff, hDomain, ?_, ?_, ?_⟩
  · obtain ⟨o, c, passes, hOpen, hCommit, hVerify, hIff⟩ :=
      verify_openEvalsAt_addAt hOn hDomain 5 (i := 0) (by decide) 3
    have hPasses : passes = true := hIff.mpr (.inr (by decide +kernel))
    exact ⟨o, c, hOpen, hCommit, hPasses ▸ hVerify⟩
  · obtain ⟨o, c, passes, hOpen, hCommit, hVerify, hIff⟩ :=
      verify_openEvalsAt_addAt hOn hDomain 5 (i := 1) (by decide) 3
    have hPasses : passes = false := by
      rw [← Bool.not_eq_true, hIff]
      decide +kernel
    exact ⟨o, c, hOpen, hCommit, hPasses ▸ hVerify⟩
  · obtain ⟨o, c, passes, hOpen, hCommit, hVerify, hIff⟩ :=
      verify_openEvalsAt_addAt hOff hDomain 5 (i := 0) (by decide) 3
    have hPasses : passes = false := by
      rw [← Bool.not_eq_true, hIff]
      decide +kernel
    exact ⟨o, c, hOpen, hCommit, hPasses ▸ hVerify⟩

end Kzg
