import Kzg.Setup.Source

/-! # Answers of computations on a setup

A computation may change the setup it runs on, so a statement about its answer comes with the setups
that it is about: from each of them it gives the answer and leads to another one of them. Such
statements follow the steps of a computation. -/

namespace Kzg.SetupM

variable {S α β : Type} {I : S → Prop}

theorem run_get_bind (f : S → SetupM S α) (s : S) :
    ((get >>= f : SetupM S α)).run.run s = (f s).run.run s :=
  rfl

theorem run_lift (r : Except KzgError α) (s : S) :
    (monadLift r : SetupM S α).run.run s = (r, s) := by
  cases r with
  | ok a => rfl
  | error e => rfl

/-- What becomes of an answer does not matter to the setup. -/
theorem run_map_snd (x : SetupM S α) (f : α → β) (s : S) :
    ((do return f (← x) : SetupM S β).run.run s).2 = (x.run.run s).2 := by
  rw [ExceptT.run_bind, StateT.run_bind]
  cases x.run.run s with
  | mk r s' => cases r <;> rfl

/-- From every setup in `I` the computation gives the answer `r` and stays in `I`. -/
def Responds (I : S → Prop) (x : SetupM S α) (r : Except KzgError α) : Prop :=
  ∀ s, I s → ∃ s', x.run.run s = (r, s') ∧ I s'

theorem responds_pure (a : α) : Responds I (pure a) (.ok a) :=
  fun s hs => ⟨s, rfl, hs⟩

theorem responds_throw (e : KzgError) : Responds I (throw e : SetupM S α) (.error e) :=
  fun s hs => ⟨s, rfl, hs⟩

theorem responds_lift (r : Except KzgError α) : Responds I (monadLift r : SetupM S α) r :=
  fun s hs => ⟨s, run_lift r s, hs⟩

theorem responds_lift_of_eq {r r' : Except KzgError α} (h : r = r') :
    Responds I (monadLift r : SetupM S α) r' :=
  h ▸ responds_lift r

/-- What is only read from a setup is an answer about that setup alone. -/
theorem responds_read {setup : S} {f : S → Except KzgError α} {r : Except KzgError α}
    (h : f setup = r) : Responds (· = setup) (get >>= fun s => monadLift (f s)) r := by
  rintro s rfl
  rw [← h]
  exact ⟨s, run_lift _ s, rfl⟩

theorem responds_lift_poly {r : Except PolyError α} {a : α} (h : r = .ok a) :
    Responds I (monadLift r : SetupM S α) (.ok a) := by
  subst h
  exact responds_pure a

theorem responds_lift_poly_error {r : Except PolyError α} {e : PolyError} (h : r = .error e) :
    Responds I (monadLift r : SetupM S α) (.error (.poly e)) := by
  subst h
  exact responds_throw _

theorem Responds.bind {x : SetupM S α} {f : α → SetupM S β} {a : α} {r : Except KzgError β}
    (hx : Responds I x (.ok a)) (hf : Responds I (f a) r) : Responds I (x >>= f) r := by
  intro s hs
  obtain ⟨s', hRun, hs'⟩ := hx s hs
  obtain ⟨s'', hRun', hs''⟩ := hf s' hs'
  refine ⟨s'', ?_, hs''⟩
  rw [ExceptT.run_bind, StateT.run_bind, hRun]
  exact hRun'

theorem Responds.bind_error {x : SetupM S α} {e : KzgError} (hx : Responds I x (.error e))
    (f : α → SetupM S β) : Responds I (x >>= f) (.error e) := by
  intro s hs
  obtain ⟨s', hRun, hs'⟩ := hx s hs
  refine ⟨s', ?_, hs'⟩
  rw [ExceptT.run_bind, StateT.run_bind, hRun]
  rfl

theorem Responds.map {x : SetupM S α} {r : Except KzgError α} (hx : Responds I x r) (f : α → β) :
    Responds I (do return f (← x)) (r.map f) := by
  cases r with
  | ok a => exact hx.bind (responds_pure _)
  | error e => exact hx.bind_error _

theorem Responds.unique {x : SetupM S α} {r r' : Except KzgError α} (h : Responds I x r)
    (h' : Responds I x r') (hNonempty : ∃ s, I s) : r = r' := by
  obtain ⟨s, hs⟩ := hNonempty
  obtain ⟨_, hRun, -⟩ := h s hs
  obtain ⟨_, hRun', -⟩ := h' s hs
  exact congrArg Prod.fst (hRun.symm.trans hRun')

end Kzg.SetupM
