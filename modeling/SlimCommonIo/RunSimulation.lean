import SlimCommonIo.TransitionRuns

/-!
# Simulations between transition systems

A simulation answers every step of one system either with nothing or with one
step of another.  Then every run of the first is matched by a run of the second,
whose visits are answers to visits of the first; what has been proved about all
runs of the second holds of the states it is related to.  The runs of a system
project in this way to the runs of each of its components.
-/

namespace Transition

variable {σ τ ℓ κ : Type*}

/-- Each step is answered by no step or by one; `acts` tells which label may
answer which. -/
def Simulates (step : σ → ℓ → Option σ) (step' : τ → κ → Option τ)
    (related : σ → τ → Prop) (acts : σ → ℓ → κ → Prop) : Prop :=
  ∀ state state' label next, related state state' → step state label = some next →
    related next state' ∨ ∃ label' next', acts state label label' ∧
      step' state' label' = some next' ∧ related next next'

variable {step : σ → ℓ → Option σ} {step' : τ → κ → Option τ}
  {related : σ → τ → Prop} {acts : σ → ℓ → κ → Prop}
  {start final : σ} {start' : τ} {history : List (σ × ℓ)}

theorem Simulates.run
    (hsimulates : Simulates step step' related acts) (hstart : related start start')
    (hrun : Run step start history final) :
    ∃ history' final', Run step' start' history' final' ∧ related final final' ∧
      ∀ visit' ∈ history', ∃ visit ∈ history,
        related visit.1 visit'.1 ∧ acts visit.1 visit.2 visit'.2 := by
  induction hrun with
  | nil => exact ⟨[], start', .nil, hstart, by simp⟩
  | @snoc history state next label _ hstep ih =>
      obtain ⟨history', state', hrun', hrelated, hvisits⟩ := ih
      have hkept : ∀ visit' ∈ history', ∃ visit ∈ history ++ [(state, label)],
          related visit.1 visit'.1 ∧ acts visit.1 visit.2 visit'.2 := by
        intro visit' hvisit'
        obtain ⟨visit, hvisit, hanswer⟩ := hvisits visit' hvisit'
        exact ⟨visit, List.mem_append_left _ hvisit, hanswer⟩
      rcases hsimulates state state' label next hrelated hstep with
        hstutter | ⟨label', next', hacts, hstep', hnext⟩
      · exact ⟨history', state', hrun', hstutter, hkept⟩
      · refine ⟨history' ++ [(state', label')], next', hrun'.snoc hstep', hnext, ?_⟩
        intro visit' hvisit'
        rcases List.mem_append.mp hvisit' with hold | hnew
        · exact hkept visit' hold
        · rw [List.mem_singleton] at hnew
          subst hnew
          exact ⟨(state, label), by simp, hrelated, hacts⟩

/-- What every run of the second system shows of its final state, whatever it
needs to know of the steps taken, holds of a state related to the final one. -/
theorem Simulates.forall_runs
    (hsimulates : Simulates step step' related acts) (hstart : related start start')
    (allowed : τ → κ → Prop) (good : τ → Prop)
    (hgood : ∀ history' final', Run step' start' history' final' →
      (∀ visit' ∈ history', allowed visit'.1 visit'.2) → good final')
    (hrun : Run step start history final)
    (hallowed : ∀ visit ∈ history, ∀ state' label', related visit.1 state' →
      acts visit.1 visit.2 label' → allowed state' label') :
    ∃ final', related final final' ∧ good final' := by
  obtain ⟨history', final', hrun', hrelated, hvisits⟩ := hsimulates.run hstart hrun
  refine ⟨final', hrelated, hgood history' final' hrun' ?_⟩
  intro visit' hvisit'
  obtain ⟨visit, hvisit, hstates, hacts⟩ := hvisits visit' hvisit'
  exact hallowed visit hvisit visit'.1 visit'.2 hstates hacts

/-- Each step of the system leaves one of its components alone or is a step of
this component. -/
theorem simulates_of_component
    (component : σ → τ)
    (hsteps : ∀ state label next, step state label = some next →
      component next = component state ∨ ∃ label', acts state label label' ∧
        step' (component state) label' = some (component next)) :
    Simulates step step' (fun state state' => component state = state') acts := by
  rintro state state' label next rfl hstep
  rcases hsteps state label next hstep with hsame | ⟨label', hacts, hstep'⟩
  · exact .inl hsame
  · exact .inr ⟨label', _, hacts, hstep', rfl⟩

end Transition
