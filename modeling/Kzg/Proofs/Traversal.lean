import Kzg.Error

/-! # Steps that do not fail

A sequence of steps succeeds exactly when each of them does. A list is changed in place by writes
that fail outside of it, as reads do. -/

namespace Kzg

variable {ε α β : Type}

theorem bind_eq_ok_iff {x : Except ε α} {f : α → Except ε β} {b : β} :
    (x >>= f) = .ok b ↔ ∃ a, x = .ok a ∧ f a = .ok b := by
  cases x with
  | error e => simp [bind, Except.bind]
  | ok a => simp [bind, Except.bind]

theorem seq_eq_ok_iff {x : Except ε Unit} {y : Except ε α} {a : α} :
    (do x; y) = .ok a ↔ x = .ok () ∧ y = .ok a := by
  rw [bind_eq_ok_iff]
  exact ⟨fun ⟨_, h⟩ => h, fun h => ⟨(), h⟩⟩

theorem lift_eq_ok_iff {x : Except PolyError α} {a : α} :
    (monadLift x : Except KzgError α) = .ok a ↔ x = .ok a := by
  constructor
  · intro h
    cases x with
    | error e => cases h
    | ok b =>
      cases h
      rfl
  · rintro rfl
    rfl

theorem guard_eq_ok_true_iff {p : Prop} [Decidable p] {x : Except ε Bool} :
    (if p then return false else x) = .ok true ↔ ¬ p ∧ x = .ok true := by
  by_cases hp : p
  · simp [hp, pure, Except.pure]
  · simp [hp]

/-- A step that answers with a Boolean and goes on only after `true`. -/
theorem exists_passed_iff {x : Except ε Bool} {p : Prop} :
    (∃ a, x = .ok a ∧ ¬ (!a) = true ∧ p) ↔ x = .ok true ∧ p := by
  constructor
  · rintro ⟨a, hx, ha, hp⟩
    cases a with
    | true => exact ⟨hx, hp⟩
    | false => exact absurd rfl ha
  · rintro ⟨hx, hp⟩
    exact ⟨true, hx, Bool.false_ne_true, hp⟩

theorem decide_eq_ok_true_iff {p : Prop} [Decidable p] :
    (pure (decide p) : Except ε Bool) = .ok true ↔ p := by
  by_cases hp : p <;> simp [hp, pure, Except.pure]

theorem isOk_iff {x : Except ε α} : x.isOk = true ↔ ∃ a, x = .ok a := by
  cases x with
  | error e => simp [Except.isOk, Except.toBool]
  | ok a => simp [Except.isOk, Except.toBool]

theorem exists_error_iff {x : Except ε α} : (∃ e, x = .error e) ↔ ¬ ∃ a, x = .ok a := by
  cases x with
  | error e => simp
  | ok a => simp

theorem exists_error_map_iff {f : α → β} {x : Except ε α} :
    (∃ e, f <$> x = .error e) ↔ ∃ e, x = .error e := by
  cases x with
  | error e => simp [Functor.map, Except.map]
  | ok a => simp [Functor.map, Except.map]

theorem mapM_eq_ok {f : α → Except ε β} {g : α → β} {l : List α}
    (h : ∀ a ∈ l, f a = .ok (g a)) : l.mapM f = .ok (l.map g) := by
  induction l with
  | nil => rfl
  | cons a l ih =>
    rw [List.forall_mem_cons] at h
    rw [List.mapM_cons, h.1, ih h.2]
    rfl

theorem exists_of_mapM_eq_error {f : α → Except ε β} {e : ε} {l : List α}
    (h : l.mapM f = .error e) : ∃ a ∈ l, f a = .error e := by
  induction l with
  | nil => cases h
  | cons a l ih =>
    rw [List.mapM_cons] at h
    cases hHead : f a with
    | error e' =>
      rw [hHead] at h
      cases h
      exact ⟨a, List.mem_cons_self, hHead⟩
    | ok b =>
      cases hTail : l.mapM f with
      | error e' =>
        rw [hHead, hTail] at h
        cases h
        obtain ⟨a', ha', hFails⟩ := ih hTail
        exact ⟨a', List.mem_cons_of_mem a ha', hFails⟩
      | ok bs =>
        rw [hHead, hTail] at h
        cases h

theorem exists_mapM_eq_error {f : α → Except ε β} {l : List α}
    (h : ∃ a ∈ l, ∃ e, f a = .error e) : ∃ e, l.mapM f = .error e := by
  induction l with
  | nil => simp at h
  | cons a l ih =>
    rw [List.mapM_cons]
    cases hHead : f a with
    | error e => exact ⟨e, rfl⟩
    | ok b =>
      obtain ⟨e, hTail⟩ := ih (by simpa [hHead] using h)
      exact ⟨e, by rw [hTail]; rfl⟩

/-- Steps that fail for one reason only make the traversal fail for it. -/
theorem mapM_eq_error {f : α → Except ε β} {e : ε} {l : List α}
    (hReason : ∀ a ∈ l, ∀ e', f a = .error e' → e' = e) (hFails : ∃ a ∈ l, f a = .error e) :
    l.mapM f = .error e := by
  obtain ⟨e', hRun⟩ := exists_mapM_eq_error (hFails.imp fun _ h => ⟨h.1, e, h.2⟩)
  obtain ⟨a, ha, hStep⟩ := exists_of_mapM_eq_error hRun
  rw [hRun, hReason a ha e' hStep]

theorem isOk_mapM (f : α → Except ε β) (l : List α) :
    (l.mapM f).isOk = l.all fun a => (f a).isOk := by
  induction l with
  | nil => rfl
  | cons a l ih =>
    rw [List.mapM_cons, List.all_cons, ← ih]
    cases f a with
    | error e => rfl
    | ok b => cases l.mapM f <;> rfl

theorem pure_ne_error {e : ε} (a : α) : (pure a : Except ε α) ≠ .error e := by
  simp [pure, Except.pure]

/-- A cause that no step has is not the cause of the sequence. -/
theorem bind_ne_error {e : ε} {x : Except ε α} {f : α → Except ε β} (hx : x ≠ .error e)
    (hf : ∀ a, f a ≠ .error e) : (x >>= f) ≠ .error e := by
  cases x with
  | error e' => exact fun h => hx (congrArg Except.error (Except.error.inj h))
  | ok a => exact hf a

theorem forM_ne_error {e : ε} {f : α → Except ε Unit} (h : ∀ a, f a ≠ .error e) (l : List α) :
    l.forM f ≠ .error e := by
  induction l with
  | nil => exact pure_ne_error _
  | cons a l ih => exact bind_ne_error (h a) fun _ => ih

theorem forM_eq_ok_iff {f : α → Except ε Unit} (l : List α) :
    l.forM f = .ok () ↔ ∀ a ∈ l, f a = .ok () := by
  induction l with
  | nil => simp; rfl
  | cons a l ih =>
    rw [List.forM, List.forall_mem_cons, ← ih, seq_eq_ok_iff]

section Places

/-- The list with another entry at an index that it has. -/
def store (l : List α) (i : Nat) (a : α) : Option (List α) :=
  if i < l.length then some (l.set i a) else none

theorem store_append {l : List α} {i : Nat} (hi : i = l.length) (a : α) (r : List α) (b : α) :
    store (l ++ a :: r) i b = some (l ++ b :: r) := by
  have hIn : i < (l ++ a :: r).length := by
    rw [hi, List.length_append, List.length_cons]
    omega
  rw [store, if_pos hIn, hi, List.set_append_right _ _ (Nat.le_refl _), Nat.sub_self,
    List.set_cons_zero]

theorem getElem?_append_cons {l : List α} {i : Nat} (hi : i = l.length) (a : α) (r : List α) :
    (l ++ a :: r)[i]? = some a := by
  rw [hi, List.getElem?_append_right (Nat.le_refl _), Nat.sub_self, List.getElem?_cons_zero]

end Places

end Kzg
