import Mathlib.Data.List.Basic
import Mathlib.Data.List.Induction
import Mathlib.Logic.Function.Iterate
import Mathlib.Tactic.Common

/-!
# Runs of a partial step function

A transition system is given by a step function which either refuses a label
or yields the next state.  A run records every state it leaves together with
the label it takes there, so that a condition on the steps of a run and a
condition on its states are both statements about the recorded history.
-/

namespace Transition

variable {σ ℓ : Type*}

/-- `Run step start history final`: from `start` the recorded steps lead to
`final`.  The history lists the visited states with the labels taken there. -/
inductive Run (step : σ → ℓ → Option σ) (start : σ) :
    List (σ × ℓ) → σ → Prop
  | nil : Run step start [] start
  | snoc {history : List (σ × ℓ)} {state next : σ} {label : ℓ} :
      Run step start history state → step state label = some next →
      Run step start (history ++ [(state, label)]) next

/-- A predicate kept by the steps that meet `allowed` holds at the end of
every run all of whose steps meet it. -/
theorem Run.invariant_of_allowed
    {step : σ → ℓ → Option σ} {start final : σ} {history : List (σ × ℓ)}
    (good : σ → Prop) (allowed : σ → ℓ → Prop)
    (hstart : good start)
    (hkeep : ∀ state label next, good state → allowed state label →
      step state label = some next → good next)
    (hrun : Run step start history final)
    (hallowed : ∀ visit ∈ history, allowed visit.1 visit.2) :
    good final := by
  induction hrun with
  | nil => exact hstart
  | @snoc history state next label _ hstep ih =>
      have hbefore : good state := by
        apply ih
        intro visit hvisit
        exact hallowed visit (List.mem_append_left _ hvisit)
      have hlast : allowed state label :=
        hallowed (state, label) (by simp)
      exact hkeep state label next hbefore hlast hstep

/-- A predicate kept by every step holds at the end of every run. -/
theorem Run.invariant
    {step : σ → ℓ → Option σ} {start final : σ} {history : List (σ × ℓ)}
    (good : σ → Prop) (hstart : good start)
    (hkeep : ∀ state label next, good state →
      step state label = some next → good next)
    (hrun : Run step start history final) :
    good final := by
  refine hrun.invariant_of_allowed good (fun _ _ => True) hstart ?_ ?_
  · intro state label next hgood _ hstep
    exact hkeep state label next hgood hstep
  · intro visit _
    trivial

theorem Run.visit
    {step : σ → ℓ → Option σ} {start final : σ} {history : List (σ × ℓ)}
    (hrun : Run step start history final) {visit : σ × ℓ}
    (hvisit : visit ∈ history) :
    ∃ before after next, history = before ++ visit :: after ∧
      Run step start before visit.1 ∧ step visit.1 visit.2 = some next := by
  induction hrun with
  | nil => simp at hvisit
  | @snoc history state next label hrun hstep ih =>
      rcases List.mem_append.mp hvisit with hold | hnew
      · obtain ⟨before, after, middle, hsplit, hbefore, hmiddle⟩ := ih hold
        refine ⟨before, after ++ [(state, label)], middle, ?_, hbefore, hmiddle⟩
        simp [hsplit]
      · have heq : visit = (state, label) := by simpa using hnew
        subst heq
        exact ⟨history, [], next, by simp, hrun, hstep⟩

theorem Run.trans
    {step : σ → ℓ → Option σ} {start middle final : σ} {before after : List (σ × ℓ)}
    (hbefore : Run step start before middle) (hafter : Run step middle after final) :
    Run step start (before ++ after) final := by
  induction hafter with
  | nil => simpa using hbefore
  | snoc _ hstep ih =>
      rw [← List.append_assoc]
      exact ih.snoc hstep

theorem Run.last
    {step : σ → ℓ → Option σ} {start final : σ} {history : List (σ × ℓ)} {visit : σ × ℓ}
    (hrun : Run step start (history ++ [visit]) final) :
    Run step start history visit.1 ∧ step visit.1 visit.2 = some final := by
  generalize hwhole : history ++ [visit] = whole at hrun
  cases hrun with
  | nil => simp at hwhole
  | @snoc before state next label hbefore hstep =>
      obtain ⟨hhistory, hvisit⟩ := List.append_inj' hwhole rfl
      rw [List.singleton_inj] at hvisit
      subst hhistory hvisit
      exact ⟨hbefore, hstep⟩

theorem Run.split
    {step : σ → ℓ → Option σ} {start final : σ} {before after : List (σ × ℓ)}
    (hrun : Run step start (before ++ after) final) :
    ∃ middle, Run step start before middle ∧ Run step middle after final := by
  induction after using List.reverseRecOn generalizing final with
  | nil =>
      rw [List.append_nil] at hrun
      exact ⟨final, hrun, .nil⟩
  | append_singleton after visit ih =>
      rw [← List.append_assoc] at hrun
      obtain ⟨hprior, hstep⟩ := hrun.last
      obtain ⟨middle, hbefore, hafter⟩ := ih hprior
      exact ⟨middle, hbefore, hafter.snoc hstep⟩

theorem Run.first
    {step : σ → ℓ → Option σ} {start final : σ} {history : List (σ × ℓ)} {visit : σ × ℓ}
    (hrun : Run step start (visit :: history) final) :
    visit.1 = start ∧ ∃ next, step start visit.2 = some next ∧
      Run step next history final := by
  have hwhole : Run step start ([visit] ++ history) final := hrun
  obtain ⟨middle, hone, hrest⟩ := hwhole.split
  have hsingle : Run step start ([] ++ [visit]) middle := hone
  obtain ⟨hnil, hstep⟩ := hsingle.last
  generalize hempty : ([] : List (σ × ℓ)) = empty at hnil
  cases hnil with
  | nil => exact ⟨rfl, middle, hstep, hrest⟩
  | snoc _ _ => simp at hempty

/-- If `inv` gives `good` and is kept by the allowed steps, a run all of whose
steps are allowed is good in every state it visits. -/
theorem Run.forall_good_of_allowed
    {step : σ → ℓ → Option σ} {start final : σ} {history : List (σ × ℓ)}
    (inv good : σ → Prop) (allowed : σ → ℓ → Prop)
    (hstart : inv start) (hgood : ∀ state, inv state → good state)
    (hkeep : ∀ state label next, inv state → step state label = some next →
      allowed state label → inv next)
    (hrun : Run step start history final)
    (hallowed : ∀ visit ∈ history, allowed visit.1 visit.2) :
    (∀ visit ∈ history, good visit.1) ∧ good final := by
  have hinv : ∀ {before : List (σ × ℓ)} {state : σ}, Run step start before state →
      (∀ visit ∈ before, allowed visit.1 visit.2) → inv state := by
    intro before state hbefore hall
    refine hbefore.invariant_of_allowed inv allowed hstart ?_ hall
    intro state label next hstate hlabel hstep
    exact hkeep state label next hstate hstep hlabel
  refine ⟨?_, hgood _ (hinv hrun hallowed)⟩
  intro visit hvisit
  obtain ⟨before, after, next, hsplit, hprior, -⟩ := hrun.visit hvisit
  apply hgood
  apply hinv hprior
  intro earlier hearlier
  exact hallowed earlier (by simp [hsplit, hearlier])

/-- Suppose `inv` gives `good`, is kept by the allowed steps, and `good` is lost
in every other step.  Then a run is good throughout exactly when all of its
steps are allowed. -/
theorem Run.forall_good_iff
    {step : σ → ℓ → Option σ} {start final : σ} {history : List (σ × ℓ)}
    (inv good : σ → Prop) (allowed : σ → ℓ → Prop)
    (hstart : inv start) (hgood : ∀ state, inv state → good state)
    (hkeep : ∀ state label next, inv state → step state label = some next →
      allowed state label → inv next)
    (hlose : ∀ state label next, inv state → step state label = some next →
      ¬ allowed state label → ¬ good next)
    (hrun : Run step start history final) :
    ((∀ visit ∈ history, good visit.1) ∧ good final) ↔
      ∀ visit ∈ history, allowed visit.1 visit.2 := by
  constructor
  · intro hall
    induction hrun with
    | nil => simp
    | @snoc history state next label hrun hstep ih =>
        have hbefore : ∀ visit ∈ history, allowed visit.1 visit.2 := by
          apply ih
          refine ⟨fun visit hvisit => hall.1 visit (by simp [hvisit]), ?_⟩
          exact hall.1 (state, label) (by simp)
        have hinv := (hrun.forall_good_of_allowed inv inv allowed hstart
          (fun _ hstate => hstate) hkeep hbefore).2
        intro visit hvisit
        rcases List.mem_append.mp hvisit with hold | hnew
        · exact hbefore visit hold
        · have heq : visit = (state, label) := by simpa using hnew
          subst heq
          by_contra hforbidden
          exact hlose state label next hinv hstep hforbidden hall.2
  · exact hrun.forall_good_of_allowed inv good allowed hstart hgood hkeep

/-- A deterministic machine has at most one resting state. -/
theorem eq_of_iterate_fixed
    {step : σ → σ} {start first second : σ} {m n : ℕ}
    (hfirst : step^[m] start = first) (hsecond : step^[n] start = second)
    (hrest : step first = first) (hrest' : step second = second) : first = second := by
  rcases Nat.le_total m n with hle | hle
  · obtain ⟨more, rfl⟩ := Nat.exists_eq_add_of_le hle
    rw [Nat.add_comm, Function.iterate_add_apply, hfirst,
      Function.iterate_fixed hrest] at hsecond
    exact hsecond
  · obtain ⟨more, rfl⟩ := Nat.exists_eq_add_of_le hle
    rw [Nat.add_comm, Function.iterate_add_apply, hsecond,
      Function.iterate_fixed hrest'] at hfirst
    exact hfirst.symm

/-- Execute a list of labels, giving up at a refused label or at one which
does not meet the decidable condition `allowed`. -/
def replay (step : σ → ℓ → Option σ) (allowed : σ → ℓ → Bool) :
    σ → List ℓ → Option σ
  | state, [] => some state
  | state, label :: rest =>
      if allowed state label then
        (step state label).bind fun next => replay step allowed next rest
      else none

/-- The history of executing these labels. -/
def visits (step : σ → ℓ → Option σ) : σ → List ℓ → List (σ × ℓ)
  | _, [] => []
  | state, label :: rest =>
      (state, label) :: (step state label).elim [] fun next => visits step next rest

theorem Run.extend_of_replay
    {step : σ → ℓ → Option σ} {allowed : σ → ℓ → Bool}
    {start state final : σ} {history : List (σ × ℓ)} {labels : List ℓ}
    (hrun : Run step start history state)
    (hallowed : ∀ visit ∈ history, allowed visit.1 visit.2 = true)
    (hreplay : replay step allowed state labels = some final) :
    Run step start (history ++ visits step state labels) final ∧
      ∀ visit ∈ history ++ visits step state labels, allowed visit.1 visit.2 = true := by
  induction labels generalizing state history with
  | nil =>
      simp only [replay, Option.some.injEq] at hreplay
      subst hreplay
      rw [visits, List.append_nil]
      exact ⟨hrun, hallowed⟩
  | cons label rest ih =>
      simp only [replay] at hreplay
      split at hreplay
      next hcheck =>
        obtain ⟨next, hstep, hrest⟩ := Option.bind_eq_some_iff.mp hreplay
        have hvisits : history ++ visits step state (label :: rest) =
            history ++ [(state, label)] ++ visits step next rest := by
          simp [visits, hstep]
        rw [hvisits]
        apply ih (hrun.snoc hstep) _ hrest
        intro visit hvisit
        rcases List.mem_append.mp hvisit with hold | hnew
        · exact hallowed visit hold
        · have heq : visit = (state, label) := by simpa using hnew
          subst heq
          exact hcheck
      next => simp at hreplay

/-- A successful replay is a run all of whose steps meet the condition; what
can be checked of its final state holds there. -/
theorem run_visits_of_replay
    {step : σ → ℓ → Option σ} {allowed : σ → ℓ → Bool} {check : σ → Bool}
    {start : σ} {labels : List ℓ}
    (hreplay : (replay step allowed start labels).any check = true) :
    ∃ final, Run step start (visits step start labels) final ∧
      (∀ visit ∈ visits step start labels, allowed visit.1 visit.2 = true) ∧
      check final = true := by
  obtain ⟨final, hfinal, hcheck⟩ := (Option.any_eq_true _ _).mp hreplay
  obtain ⟨hrun, hallowed⟩ := Run.nil.extend_of_replay (by simp) hfinal
  exact ⟨final, hrun, hallowed, hcheck⟩

theorem exists_run_of_replay
    {step : σ → ℓ → Option σ} {allowed : σ → ℓ → Bool} {check : σ → Bool}
    {start : σ} {labels : List ℓ}
    (hreplay : (replay step allowed start labels).any check = true) :
    ∃ history final, Run step start history final ∧
      (∀ visit ∈ history, allowed visit.1 visit.2 = true) ∧ check final = true :=
  ⟨_, run_visits_of_replay hreplay⟩

end Transition
