import Kzg.Proofs.Opening.Forms
import Kzg.Proofs.Group.Exponent

/-! # Where the two sources agree

A setup that holds its secret and its public part deliver the same commitments and openings of
coefficients. From values they do so on the canonical domains. On a domain of another generator
the public part takes the Lagrange vector of the canonical one, so that they agree only if the
secret is an element that both list at the same index. -/

namespace Kzg

open PointGroup (generator)
open LawfulPointGroup
open SetupM (Responds)

variable {G1 G2 : Type} [PointGroup G1] [PointGroup G2]

/-- Whatever the setup that holds the secret was asked before, the computation delivers the same
result over it and over the public one. -/
def Agrees (secret : Fr) (setup : PublicSetup G1 G2) {α : Type}
    (x : SetupM (TrustedSetup G1 G2) α) (x' : SetupM (PublicSetup G1 G2) α) : Prop :=
  ∃ a, Responds (TrustedSetup.Reached secret) x (.ok a) ∧ Responds (· = setup) x' (.ok a)

structure AgreesOnValues [PointCodec G1] (secret : Fr) (setup : PublicSetup G1 G2)
    (e : EvalForm) : Prop where
  commit : Agrees secret setup (commit (.evals e)) (commit (.evals e))
  openEvalsAt (z : Fr) : Agrees secret setup (openEvalsAt e z) (openEvalsAt e z)
  commitAndOpen : Agrees secret setup (commitAndOpen e) (commitAndOpen e)

/-- The domain is the canonical one of its size, or both have `x` at the same index. -/
def Domain.CanonicalAt (d : Domain) (x : Fr) : Prop :=
  ∃ c, Domain.ofSize d.size = .ok c ∧
    (d = c ∨ ∃ i, d.element? i = some x ∧ c.element? i = some x)

theorem Domain.canonicalAt_cyclic_iff {k : Nat} (hk : k ≤ maxLogSize) {root : Fr}
    (hRoot : IsPrimitiveRoot root (2 ^ k)) {x : Fr} (hx : x ≠ 0) :
    (cyclic root k).CanonicalAt x ↔
      (cyclic root k).lagrangeAt x = (cyclic (Fr.canonicalRoot k) k).lagrangeAt x := by
  rw [lagrangeAt_cyclic_inj hk hRoot (Fr.canonicalRoot_primitive hk) hx]
  constructor
  · rintro ⟨c, hc, h⟩
    have hCanonical : c = cyclic (Fr.canonicalRoot k) k :=
      (Except.ok.inj ((ofSize_two_pow hk).symm.trans hc)).symm
    subst hCanonical
    rcases h with h | ⟨i, h, h'⟩
    · exact .inl (congrArg Domain.generator h)
    · rw [element?_cyclic_eq_some_iff] at h h'
      exact .inr ⟨i, h.1, h.2, h'.2⟩
  · intro h
    refine ⟨cyclic (Fr.canonicalRoot k) k, ofSize_two_pow hk, ?_⟩
    rcases h with h | ⟨i, hi, h, h'⟩
    · exact .inl (by rw [h])
    · exact .inr ⟨i, element?_cyclic_eq_some_iff.mpr ⟨hi, h⟩,
        element?_cyclic_eq_some_iff.mpr ⟨hi, h'⟩⟩

section Agreement

variable [LawfulPointGroup G1] {secret : Fr} {setup : PublicSetup G1 G2}
  (hSetup : setup.PublishedFrom secret)

include hSetup

theorem agrees_commitCoeffs {p : Coeffs} (hCapacity : p.trim.length ≤ setup.g1.length) :
    Agrees secret setup (commit (.coeffs p)) (commit (.coeffs p)) :=
  ⟨p.eval secret • generator,
    responds_commitCoeffs (TrustedSetup.suppliesPowers G1 G2 secret _) le_rfl,
    responds_commitCoeffs hSetup.suppliesPowers hCapacity⟩

theorem agrees_openAt {p : Coeffs} (hCapacity : p.degree ≤ setup.g1.length) (z : Fr) :
    Agrees secret setup (openAt p z) (openAt p z) :=
  ⟨⟨z, p.eval z, (p.quotientAt z).eval secret • generator⟩,
    responds_openAt (TrustedSetup.suppliesPowers G1 G2 secret _) le_rfl z,
    responds_openAt hSetup.suppliesPowers hCapacity z⟩

omit hSetup in
theorem agreesOnValues_of_suppliesLagrange [PointCodec G1] [LawfulPointCodec G1] {e : EvalForm}
    (hDomain : e.domain.Built)
    (hLagrange : SuppliesLagrange (· = setup) e.domain (e.domain.lagrangeAt secret)) :
    AgreesOnValues secret setup e := by
  obtain ⟨p, -, -, hInterpolates⟩ := EvalForm.exists_toCoeffs hDomain
  have hTrusted := TrustedSetup.suppliesLagrange G1 G2 secret hDomain
  have hCommit := responds_commitEvals_of_interpolates hDomain hInterpolates hTrusted
  have hCommit' := responds_commitEvals_of_interpolates hDomain hInterpolates hLagrange
  have hOpen := responds_openEvalsAt_of_interpolates hDomain hInterpolates hTrusted
  have hOpen' := responds_openEvalsAt_of_interpolates hDomain hInterpolates hLagrange
  constructor
  case commit => exact ⟨_, hCommit, hCommit'⟩
  case openEvalsAt =>
    intro z
    exact ⟨_, hOpen z, hOpen' z⟩
  case commitAndOpen =>
    obtain ⟨z, hChallenge⟩ := exists_evaluationChallenge (G := G1) e.evals (p.eval secret)
    exact ⟨_, responds_commitAndOpen hCommit hChallenge (hOpen z),
      responds_commitAndOpen hCommit' hChallenge (hOpen' z)⟩

theorem dot_eq_of_agrees {e : EvalForm} (hDomain : e.domain.Built) {weights : List Fr}
    (hLagrange : SuppliesLagrange (· = setup) e.domain weights)
    (hWeights : weights.length = e.domain.size)
    (hAgrees : Agrees secret setup (commit (.evals e)) (commit (.evals e))) :
    Fr.dot (e.domain.lagrangeAt secret) e.evals = Fr.dot weights e.evals := by
  obtain ⟨c, hc, hc'⟩ := hAgrees
  have hTrusted := responds_commitEvals
    (TrustedSetup.suppliesLagrange G1 G2 secret hDomain)
    (hDomain.length_lagrangeAt secret)
  have hPublic := responds_commitEvals hLagrange hWeights
  have h₁ := hTrusted.unique hc (TrustedSetup.exists_reached G1 G2 hSetup.secret_ne_zero)
  have h₂ := hPublic.unique hc' ⟨setup, rfl⟩
  exact smul_inj.mp (Except.ok.inj (h₁.trans h₂.symm))

theorem lagrangeAt_eq_of_agrees {d : Domain} (hDomain : d.Built) {weights : List Fr}
    (hLagrange : SuppliesLagrange (· = setup) d weights) (hWeights : weights.length = d.size)
    (hAgrees : ∀ e : EvalForm, e.domain = d →
      Agrees secret setup (commit (.evals e)) (commit (.evals e))) :
    d.lagrangeAt secret = weights := by
  have hLength := hDomain.length_lagrangeAt secret
  apply Fr.eq_of_dot_eq (hLength.trans hWeights.symm)
  intro values hValues
  let e : EvalForm := ⟨values, d, hValues.trans hLength⟩
  exact dot_eq_of_agrees hSetup (e := e) hDomain hLagrange hWeights (hAgrees e rfl)

/-- The sources agree on all coefficients that the public one has room for, and on the values on
exactly those domains that do not differ from the canonical one at the secret. -/
theorem sources_agree_iff [PointCodec G1] [LawfulPointCodec G1] :
    (∀ p : Coeffs, p.trim.length ≤ setup.g1.length →
      Agrees secret setup (commit (.coeffs p)) (commit (.coeffs p))) ∧
    (∀ p : Coeffs, p.degree ≤ setup.g1.length →
      ∀ z, Agrees secret setup (openAt p z) (openAt p z)) ∧
    ∀ d : Domain, d.Built → d.size ≤ setup.g1.length →
      ((∀ e : EvalForm, e.domain = d → AgreesOnValues secret setup e) ↔
        d.CanonicalAt secret) := by
  refine ⟨fun p => agrees_commitCoeffs hSetup, fun p => agrees_openAt hSetup, ?_⟩
  intro d hDomain hCapacity
  obtain ⟨k, hk, root, hRoot, rfl⟩ := hDomain.exists_root
  have hPublic := hSetup.responds_lagrange hk rfl hCapacity
  rw [Domain.canonicalAt_cyclic_iff hk hRoot hSetup.secret_ne_zero]
  constructor
  · intro h
    have hCanonical := Domain.built_cyclic hk (Fr.canonicalRoot_primitive hk)
    have hLength := hCanonical.length_lagrangeAt secret
    exact lagrangeAt_eq_of_agrees hSetup hDomain hPublic hLength fun e he => (h e he).commit
  · rintro hEq ⟨evals, d, hValues⟩ rfl
    rw [← hEq] at hPublic
    exact agreesOnValues_of_suppliesLagrange hDomain hPublic

end Agreement

theorem sources_agree_iff_exponent :
    (PublicSetup.ofPowers 2 3 0 :
      PublicSetup (Exponent "G1") (Exponent "G2")).PublishedFrom 2 ∧
    ∀ d : Domain, d.Built → d.size ≤ 4 →
      ((∀ e : EvalForm, e.domain = d → AgreesOnValues 2
        (PublicSetup.ofPowers 2 3 0 : PublicSetup (Exponent "G1") (Exponent "G2")) e) ↔
          d.CanonicalAt 2) :=
  have hSetup := PublicSetup.publishedFrom_ofPowers (by decide) 3 0
  ⟨hSetup, (sources_agree_iff hSetup).2.2⟩

/-- The negated generator of the canonical domain of four elements is a generator too, and the
second Lagrange polynomials of the two domains differ at two. -/
theorem commit_disagrees_off_canonical :
    (PublicSetup.ofPowers 2 3 0 :
      PublicSetup (Exponent "G1") (Exponent "G2")).PublishedFrom 2 ∧
    ∃ e : EvalForm, Domain.ofGenerator (-Fr.canonicalRoot 2) 4 = .ok e.domain ∧
      e.evals = [0, 1, 0, 0] ∧
      ¬ Agrees 2 (PublicSetup.ofPowers 2 3 0 : PublicSetup (Exponent "G1") (Exponent "G2"))
        (commit (.evals e)) (commit (.evals e)) := by
  have hSetup : (PublicSetup.ofPowers 2 3 0 :
      PublicSetup (Exponent "G1") (Exponent "G2")).PublishedFrom 2 :=
    PublicSetup.publishedFrom_ofPowers (by decide) 3 0
  have hk : 2 ≤ maxLogSize := by decide
  have hRoot : IsPrimitiveRoot (-Fr.canonicalRoot 2) (2 ^ 2) :=
    (Fr.hasOrder_two_pow_iff _ 2).mp (by decide +kernel)
  let e : EvalForm := ⟨[0, 1, 0, 0], Domain.cyclic (-Fr.canonicalRoot 2) 2, rfl⟩
  refine ⟨hSetup, e, Domain.ofGenerator_of_primitive hk hRoot, rfl, ?_⟩
  intro hAgrees
  have hCanonical := Domain.built_cyclic hk (Fr.canonicalRoot_primitive hk)
  have hEq := dot_eq_of_agrees hSetup (Domain.built_cyclic hk hRoot)
    (hSetup.responds_lagrange hk rfl le_rfl) (hCanonical.length_lagrangeAt 2) hAgrees
  have hNe : Fr.dot ((Domain.cyclic (-Fr.canonicalRoot 2) 2).lagrangeAt 2) [0, 1, 0, 0] ≠
      Fr.dot ((Domain.cyclic (Fr.canonicalRoot 2) 2).lagrangeAt 2) [0, 1, 0, 0] := by
    decide +kernel
  exact hNe hEq

end Kzg
