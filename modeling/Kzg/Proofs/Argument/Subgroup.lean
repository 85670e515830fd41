import Kzg.Proofs.Domain.Built
import Kzg.Proofs.Setup.Responses
import Kzg.Proofs.Traversal
import Kzg.Argument.Basic

/-! # Challenges outside of the subgroup

A verifier goes on exactly when the order is one of a subgroup and the challenge is not in it. A
prover finds its witness first, and commits only for such a challenge. -/

namespace Kzg

open SetupM (Responds)

theorem vanishingAt_eq_zero_iff (r : Fr) (order : Nat) : vanishingAt r order = 0 ↔ r ^ order = 1 :=
  sub_eq_zero

theorem checkOutsideSubgroup_eq_ok_iff (r : Fr) (order : Nat) :
    checkOutsideSubgroup r order = .ok () ↔ r ^ order ≠ 1 := by
  rw [checkOutsideSubgroup, Ne, ← vanishingAt_eq_zero_iff]
  by_cases hr : vanishingAt r order = 0 <;> simp [hr]

theorem checkOutsideSubgroup_eq_error {r : Fr} {order : Nat} (h : r ^ order = 1) :
    checkOutsideSubgroup r order = .error .challengeInSubgroup :=
  if_pos ((vanishingAt_eq_zero_iff r order).mpr h)

theorem subgroupFor_eq_ok_iff (order : Nat) (r omega : Fr) :
    subgroupFor order r = .ok omega ↔
      Domain.canonicalGenerator order = .ok omega ∧ r ^ order ≠ 1 := by
  rw [subgroupFor, bind_eq_ok_iff]
  constructor
  · rintro ⟨root, hRoot, hRest⟩
    obtain ⟨hOutside, hRest⟩ := seq_eq_ok_iff.mp hRest
    cases hRest
    exact ⟨lift_eq_ok_iff.mp hRoot, (checkOutsideSubgroup_eq_ok_iff r order).mp hOutside⟩
  · rintro ⟨hRoot, hOutside⟩
    refine ⟨omega, lift_eq_ok_iff.mpr hRoot, seq_eq_ok_iff.mpr ⟨?_, rfl⟩⟩
    exact (checkOutsideSubgroup_eq_ok_iff r order).mpr hOutside

theorem subgroupFor_two_pow {k : Nat} (hk : k ≤ maxLogSize) {r : Fr} (hr : r ^ 2 ^ k ≠ 1) :
    subgroupFor (2 ^ k) r = .ok (Fr.canonicalRoot k) :=
  (subgroupFor_eq_ok_iff _ _ _).mpr ⟨Domain.canonicalGenerator_two_pow hk, hr⟩

section Prover

variable {S W α : Type} {I : S → Prop} {witness : Except PolyError W} {order : W → Nat} {r : Fr}
  {finish : W → SetupM S α}

theorem responds_prover_of_error {e : PolyError} (h : witness = .error e) :
    Responds I (do
      let w ← witness
      checkOutsideSubgroup r (order w)
      finish w) (.error (.poly e)) :=
  (SetupM.responds_lift_poly_error h).bind_error _

variable {w : W} (h : witness = .ok w)

include h

theorem responds_prover_of_mem (hr : r ^ order w = 1) :
    Responds I (do
      let w ← witness
      checkOutsideSubgroup r (order w)
      finish w) (.error .challengeInSubgroup) :=
  (SetupM.responds_lift_poly h).bind
    ((SetupM.responds_lift_of_eq (checkOutsideSubgroup_eq_error hr)).bind_error _)

theorem responds_prover {answer : Except KzgError α} (hr : r ^ order w ≠ 1)
    (hFinish : Responds I (finish w) answer) :
    Responds I (do
      let w ← witness
      checkOutsideSubgroup r (order w)
      finish w) answer :=
  (SetupM.responds_lift_poly h).bind
    ((SetupM.responds_lift_of_eq ((checkOutsideSubgroup_eq_ok_iff _ _).mpr hr)).bind hFinish)

omit h in
/-- A prover whose witness fails exactly on false statements fails on these and on challenges in the
subgroup, and goes on otherwise. -/
theorem exists_prover_answer {holds : Prop} {m : Nat} {Accepted : Except KzgError α → Prop}
    (hWitness : holds → ∃ w, witness = .ok w ∧ order w = m ∧ (r ^ m ≠ 1 →
      ∃ proof, Responds I (finish w) (.ok proof) ∧ Accepted (.ok proof)))
    (hNone : ¬ holds → witness = .error .nonZeroRemainder) :
    ∃ answer, Responds I (do
        let w ← witness
        checkOutsideSubgroup r (order w)
        finish w) answer ∧
      (answer = .error (.poly .nonZeroRemainder) ↔ ¬ holds) ∧
      (holds → (answer = .error .challengeInSubgroup ↔ r ^ m = 1) ∧
        (r ^ m ≠ 1 → Accepted answer)) := by
  by_cases hHolds : holds
  · obtain ⟨w, hRun, rfl, hFinish⟩ := hWitness hHolds
    by_cases hr : r ^ order w = 1
    · refine ⟨_, responds_prover_of_mem hRun hr, ?_, ?_⟩
      · simp [hHolds, KzgError.challengeInSubgroup]
      · simp [hr]
    · obtain ⟨proof, hProof, hAccepted⟩ := hFinish hr
      refine ⟨_, responds_prover hRun hr hProof, ?_, ?_⟩
      · simp [hHolds]
      · simp [hr, hAccepted]
  · refine ⟨_, responds_prover_of_error (hNone hHolds), ?_, ?_⟩
    · simp [hHolds]
    · intro hTrue
      exact absurd hTrue hHolds

end Prover

end Kzg
