import Kzg.Proofs.Commitment.Linear
import Kzg.Proofs.Opening.Prove

/-! # Room for openings

The quotient of a polynomial of degree `d` has `d` coefficients, one less than the polynomial. A
proof of a value is the commitment to the quotient, so that a source with a fixed number of points
opens a polynomial that it has just no room to commit to. A wrong value is refused before the source
is asked for anything. -/

namespace Kzg

open Polynomial
open SetupM (Responds)

namespace Coeffs

variable {p : Coeffs} {z y : Fr}

/-- There is a quotient of the right value only, and no more than one. -/
theorem eq_quotientAt {f : Fr[X]} (h : f * (X - C z) = p.toPoly - C y) :
    y = p.eval z ∧ f = p.quotientAt z := by
  have hValue : y = p.eval z := by
    have hRoot := congrArg (Polynomial.eval z) h
    simp only [eval_mul, eval_sub, eval_X, eval_C, sub_self, mul_zero, eval_toPoly] at hRoot
    exact (sub_eq_zero.mp hRoot.symm).symm
  refine ⟨hValue, mul_right_cancel₀ (X_sub_C_ne_zero z) ?_⟩
  rw [h, quotientAt_mul, hValue]

theorem length_trim_of_mul_eq {q : Coeffs} (h : q.toPoly * (X - C z) = p.toPoly - C y) :
    q.trim.length = p.degree := by
  apply le_antisymm
  · rw [length_trim_le_iff, (eq_quotientAt h).2]
    exact p.degree_quotientAt_lt z
  · have hQuotient := (length_trim_le_iff q _).mp le_rfl
    have hProduct :
        (q.toPoly * (X - C z)).degree < ((q.trim.length + 1 : Nat) : WithBot Nat) := by
      rw [degree_mul, degree_X_sub_C, Nat.cast_add, Nat.cast_one]
      exact WithBot.add_lt_add_right (by simp) hQuotient
    have hConstant : (C y).degree < ((q.trim.length + 1 : Nat) : WithBot Nat) :=
      degree_C_le.trans_lt (by exact_mod_cast Nat.succ_pos _)
    have hWhole : p.toPoly.degree < ((q.trim.length + 1 : Nat) : WithBot Nat) := by
      rw [← sub_add_cancel p.toPoly (C y), ← h]
      exact (degree_add_le _ _).trans_lt (max_lt hProduct hConstant)
    rw [← length_trim_le_iff] at hWhole
    exact Nat.sub_le_of_le_add hWhole

end Coeffs

variable {S G1 G2 : Type} [PointGroup G1] [SetupSource S G1 G2]

theorem proveValue_eq_commitCoeffs {p q : Coeffs} {z y : Fr}
    (h : q.toPoly * (X - C z) = p.toPoly - C y) :
    (proveValue p z y : SetupM S G1) = commitCoeffs q := by
  obtain ⟨quot, hDivision, hQuotient⟩ : ∃ quot,
      ((p.padTo 1).sub [y]).divExact [-z, 1] = .ok quot ∧ quot.toPoly = q.toPoly := by
    apply Coeffs.divExact_of_mul_eq (Coeffs.toPoly_X_sub_ne_zero z)
    rw [Coeffs.toPoly_X_sub, Coeffs.toPoly_sub_value, h]
  rw [← commitCoeffs_eq_of_toPoly_eq hQuotient, proveValue, hDivision]
  rfl

/-- There is an answer but for want of room, which tells what was asked for and what there is. -/
def FailsOnlyAbove {α : Type} (capacity : ℕ∞) (length : Nat) (answer : Except KzgError α) : Prop :=
  ∀ e, answer = .error e ↔
    ∃ room : Nat, capacity = room ∧ room < length ∧ e = .capacityExceeded length room

namespace FailsOnlyAbove

variable {α β : Type} {capacity : ℕ∞} {length : Nat} {answer : Except KzgError α}

theorem of_ok (a : α) (h : length ≤ capacity) :
    FailsOnlyAbove capacity length (.ok a : Except KzgError α) := by
  intro e
  refine iff_of_false (by simp) ?_
  rintro ⟨room, rfl, hRoom, -⟩
  exact hRoom.not_ge (Nat.cast_le.mp h)

theorem of_lt {room : Nat} (h : room < length) :
    FailsOnlyAbove room length (.error (.capacityExceeded length room) : Except KzgError α) := by
  intro e
  constructor
  · intro hError
    exact ⟨room, rfl, h, (Except.error.inj hError).symm⟩
  · rintro ⟨room', hRoom, -, rfl⟩
    rw [Nat.cast_inj.mp hRoom]

theorem map (h : FailsOnlyAbove capacity length answer) (f : α → β) :
    FailsOnlyAbove capacity length (answer.map f) := by
  intro e
  rw [← h e]
  cases answer with
  | ok a => simp [Except.map]
  | error e' => simp [Except.map]

theorem ne_nonZeroRemainder (h : FailsOnlyAbove capacity length answer) :
    answer ≠ .error (.poly .nonZeroRemainder) := by
  intro hError
  obtain ⟨room, -, -, hEq⟩ := (h _).mp hError
  cases hEq

end FailsOnlyAbove

/-- On the setups in `I` there is a proof of the value of a polynomial as long as `capacity` has
room for its degree, and of no other value. The proof is the commitment to the one quotient. -/
structure ProvesValues (I : S → Prop) (capacity : ℕ∞) : Prop where
  exists_proof (p : Coeffs) (z y : Fr) : ∃ answer : Except KzgError G1,
    Responds I (proveValue p z y : SetupM S G1) answer ∧
    (answer = .error (.poly .nonZeroRemainder) ↔ y ≠ p.eval z) ∧
    (y = p.eval z → FailsOnlyAbove capacity p.degree answer ∧
      ∃ q : Coeffs, q.toPoly * (X - C z) = p.toPoly - C y ∧
        (∀ f : Fr[X], f * (X - C z) = p.toPoly - C y → f = q.toPoly) ∧
        Responds I (commitCoeffs q : SetupM S G1) answer)
  exists_opening (p : Coeffs) (z : Fr) : ∃ answer : Except KzgError (Opening G1),
    Responds I (openAt p z : SetupM S (Opening G1)) answer ∧
    answer ≠ .error (.poly .nonZeroRemainder) ∧ FailsOnlyAbove capacity p.degree answer

section Source

variable {I : S → Prop}

/-- Any points will do, if they are as many as the coefficients. -/
theorem exists_responds_commitCoeffs {p : Coeffs} {points : List G1}
    (hPoints : Responds I (SetupSource.g1Powers p.trim.length : SetupM S (List G1)) (.ok points))
    (hLength : points.length = p.trim.length) :
    ∃ c, Responds I (commitCoeffs p : SetupM S G1) (.ok c) := by
  rw [commitCoeffs]
  split
  · exact ⟨0, SetupM.responds_pure 0⟩
  · have hTerms : ∃ c, commitTerms points p.trim = .ok c := by
      rw [commitTerms, linearCombination, if_neg (not_not.mpr hLength)]
      exact ⟨_, rfl⟩
    obtain ⟨c, hTerms⟩ := hTerms
    exact ⟨c, hPoints.bind (SetupM.responds_lift_of_eq hTerms)⟩

variable {capacity : ℕ∞}
  (hCommit : ∀ p : Coeffs, ∃ answer : Except KzgError G1,
    Responds I (commitCoeffs p : SetupM S G1) answer ∧
      FailsOnlyAbove capacity p.trim.length answer)

include hCommit

/-- The proof of the right value fails as the commitment to the quotient does. -/
theorem exists_responds_proveValue (p : Coeffs) (z : Fr) :
    ∃ (answer : Except KzgError G1) (q : Coeffs),
      Responds I (proveValue p z (p.eval z) : SetupM S G1) answer ∧
      FailsOnlyAbove capacity p.degree answer ∧
      q.toPoly * (X - C z) = p.toPoly - C (p.eval z) ∧
      Responds I (commitCoeffs q : SetupM S G1) answer := by
  obtain ⟨q, -, hQuotient⟩ := p.divExact_quotientAt z
  have hProduct : q.toPoly * (X - C z) = p.toPoly - C (p.eval z) := by
    rw [hQuotient, p.quotientAt_mul]
  obtain ⟨answer, hRun, hFails⟩ := hCommit q
  rw [Coeffs.length_trim_of_mul_eq hProduct] at hFails
  exact ⟨answer, q, by rwa [proveValue_eq_commitCoeffs hProduct], hFails, hProduct, hRun⟩

theorem provesValues_of_commits : ProvesValues I capacity := by
  constructor
  case exists_proof =>
    intro p z y
    rcases eq_or_ne y (p.eval z) with rfl | hValue
    · obtain ⟨answer, q, hRun, hFails, hProduct, hCommitted⟩ :=
        exists_responds_proveValue hCommit p z
      refine ⟨answer, hRun, iff_of_false hFails.ne_nonZeroRemainder (not_not.mpr rfl), fun _ => ?_⟩
      refine ⟨hFails, q, hProduct, fun f hf => ?_, hCommitted⟩
      rw [(Coeffs.eq_quotientAt hf).2, (Coeffs.eq_quotientAt hProduct).2]
    · exact ⟨_, responds_proveValue_of_ne hValue.symm, iff_of_true rfl hValue,
        fun h => absurd h hValue⟩
  case exists_opening =>
    intro p z
    obtain ⟨answer, q, hRun, hFails, -⟩ := exists_responds_proveValue hCommit p z
    have hOpening := hFails.map fun c : G1 => (⟨z, p.eval z, c⟩ : Opening G1)
    exact ⟨_, hRun.map _, hOpening.ne_nonZeroRemainder, hOpening⟩

end Source

variable [PointGroup G2]

variable (G1 G2) in
theorem TrustedSetup.provesValues (secret : Fr) :
    ProvesValues (Reached secret : TrustedSetup G1 G2 → Prop) ⊤ := by
  apply provesValues_of_commits
  intro p
  obtain ⟨c, hRun⟩ := exists_responds_commitCoeffs (suppliesPowers G1 G2 secret _ _ le_rfl)
    (length_powerVector secret p.trim.length)
  exact ⟨_, hRun, .of_ok c le_top⟩

namespace PublicSetup

variable (setup : PublicSetup G1 G2)

theorem provesValues : ProvesValues (· = setup) setup.g1.length := by
  apply provesValues_of_commits
  intro p
  rcases le_or_gt p.trim.length setup.g1.length with hFits | hLarge
  · have hPowers : Responds (· = setup)
        (SetupSource.g1Powers p.trim.length : SetupM (PublicSetup G1 G2) (List G1))
        (.ok (setup.g1.take p.trim.length)) :=
      SetupM.responds_read (if_pos hFits)
    obtain ⟨c, hRun⟩ := exists_responds_commitCoeffs hPowers (List.length_take_of_le hFits)
    exact ⟨_, hRun, .of_ok c (Nat.cast_le.mpr hFits)⟩
  · exact ⟨_, responds_commitCoeffs_of_lt hLarge, .of_lt hLarge⟩

end PublicSetup

/-- A published setup may hold any points. It opens a polynomial of a degree as large as their
number everywhere, and cannot commit to it. -/
theorem sources_prove_values (secret : Fr) (setup : PublicSetup G1 G2) :
    ProvesValues (TrustedSetup.Reached secret : TrustedSetup G1 G2 → Prop) ⊤ ∧
    ProvesValues (· = setup) setup.g1.length ∧
    ∀ p : Coeffs, p.degree = setup.g1.length →
      (∀ z, ∃ o : Opening G1,
        Responds (· = setup) (openAt p z : SetupM (PublicSetup G1 G2) (Opening G1)) (.ok o)) ∧
      Responds (· = setup) (commitCoeffs p : SetupM (PublicSetup G1 G2) G1)
        (.error (.capacityExceeded (setup.g1.length + 1) setup.g1.length)) := by
  refine ⟨TrustedSetup.provesValues G1 G2 secret, setup.provesValues, ?_⟩
  intro p hDegree
  constructor
  · intro z
    obtain ⟨answer, hRun, -, hFails⟩ := setup.provesValues.exists_opening p z
    cases answer with
    | ok o => exact ⟨o, hRun⟩
    | error e =>
      obtain ⟨room, hRoom, hLarge, -⟩ := (hFails e).mp rfl
      rw [hDegree, Nat.cast_inj.mp hRoom] at hLarge
      exact absurd hLarge (lt_irrefl room)
  · have hSome : setup.g1 ≠ [] := by
      intro hNil
      have hHead := setup.head_g1
      rw [hNil] at hHead
      cases hHead
    have hLength : p.trim.length = setup.g1.length + 1 := by
      have hPos := List.length_pos_iff.mpr hSome
      rw [← hDegree, Coeffs.degree] at hPos ⊢
      omega
    rw [← hLength]
    exact PublicSetup.responds_commitCoeffs_of_lt (by omega)

/-- Two points open a polynomial of degree two, refuse the right value of one of degree three for
want of room and a wrong value of it for the remainder. -/
theorem sources_prove_values_exponent :
    ∃ setup : PublicSetup (Exponent "G1") (Exponent "G2"),
      (∀ z, ∃ o : Opening (Exponent "G1"), Responds (· = setup) (openAt [1, 2, 3] z) (.ok o)) ∧
      Responds (· = setup) (commitCoeffs [1, 2, 3] : SetupM _ (Exponent "G1"))
        (.error (.capacityExceeded 3 2)) ∧
      Responds (· = setup) (proveValue [0, 0, 0, 1] 2 8 : SetupM _ (Exponent "G1"))
        (.error (.capacityExceeded 3 2)) ∧
      Responds (· = setup) (proveValue [0, 0, 0, 1] 2 9 : SetupM _ (Exponent "G1"))
        (.error (.poly .nonZeroRemainder)) := by
  let setup : PublicSetup (Exponent "G1") (Exponent "G2") :=
    ⟨[.valid 1, .valid 4], [.valid 1, .valid 4], rfl, rfl, le_rfl⟩
  obtain ⟨-, hProves, hExact⟩ := sources_prove_values 4 setup
  obtain ⟨hOpens, hCommit⟩ := hExact [1, 2, 3] (by decide)
  refine ⟨setup, hOpens, hCommit, ?_, ?_⟩
  · obtain ⟨answer, hRun, -, hRight⟩ := hProves.exists_proof [0, 0, 0, 1] 2 8
    have hFails := (hRight (by decide)).1
    rwa [(hFails _).mpr ⟨2, rfl, by decide, rfl⟩] at hRun
  · obtain ⟨answer, hRun, hWrong, -⟩ := hProves.exists_proof [0, 0, 0, 1] 2 9
    rwa [hWrong.mpr (by decide)] at hRun

end Kzg
