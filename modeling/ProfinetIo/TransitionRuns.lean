import Mathlib.Tactic

/-!
# Runs of a transition function

A step takes a state and a label to the next state, or to nothing when the
label is not enabled.  Everything the environment chooses is part of the label,
so a run is determined by its labels.  `StatesMeet` speaks about every state of
a run and `StepsMeet` about every step it takes; `statesMeet_iff_stepsMeet`
connects the two when one step decides whether the property is kept.
-/

namespace TransitionRuns

variable {σ ι : Type*} {step : σ → ι → Option σ}

def run (step : σ → ι → Option σ) : σ → List ι → Option σ
  | state, [] => some state
  | state, label :: labels =>
      (step state label).bind fun next => run step next labels

theorem run_cons_of_step
    {state next : σ} {label : ι} (h : step state label = some next)
    (labels : List ι) :
    run step state (label :: labels) = run step next labels := by
  rw [run, h, Option.bind_some]

theorem run_invariant
    (Good : σ → Prop)
    (hstep : ∀ state label next, Good state → step state label = some next →
      Good next)
    {state final : σ} {labels : List ι} (hgood : Good state)
    (hrun : run step state labels = some final) : Good final := by
  induction labels generalizing state with
  | nil =>
      cases hrun
      exact hgood
  | cons label labels ih =>
      obtain ⟨next, hnext, hrest⟩ := Option.bind_eq_some_iff.mp hrun
      exact ih (hstep state label next hgood hnext) hrest

theorem run_total
    (Good : σ → Prop)
    (hstep : ∀ state label, Good state →
      ∃ next, step state label = some next ∧ Good next)
    {state : σ} (hgood : Good state) (labels : List ι) :
    ∃ final, run step state labels = some final ∧ Good final := by
  induction labels generalizing state with
  | nil => exact ⟨state, rfl, hgood⟩
  | cons label labels ih =>
      obtain ⟨next, hnext, hgoodNext⟩ := hstep state label hgood
      obtain ⟨final, hfinal, hgoodFinal⟩ := ih hgoodNext
      exact ⟨final, by rw [run_cons_of_step hnext, hfinal], hgoodFinal⟩

/-! ## Every state and every step -/

/-- Every state a run passes through has the property. -/
def StatesMeet (step : σ → ι → Option σ) (Good : σ → Prop) :
    σ → List ι → Prop
  | state, [] => Good state
  | state, label :: labels =>
      Good state ∧ ∀ next, step state label = some next →
        StatesMeet step Good next labels

def StepsMeet (step : σ → ι → Option σ) (Fine : σ → ι → Prop) :
    σ → List ι → Prop
  | _, [] => True
  | state, label :: labels =>
      ∀ next, step state label = some next →
        Fine state label ∧ StepsMeet step Fine next labels

/-- Every step of a run is allowed where it is made. -/
def StepsAllowed (step : σ → ι → Option σ) (Allowed : σ → ι → Prop) :
    σ → List ι → Prop
  | _, [] => True
  | state, label :: labels =>
      Allowed state label ∧ ∀ next, step state label = some next →
        StepsAllowed step Allowed next labels

theorem statesMeet_of_invariant
    (Inv : σ → Prop) {Good : σ → Prop}
    (hstep : ∀ state label next, Inv state → step state label = some next →
      Inv next)
    (hgood : ∀ state, Inv state → Good state)
    {state : σ} (hstate : Inv state) (labels : List ι) :
    StatesMeet step Good state labels := by
  induction labels generalizing state with
  | nil => exact hgood state hstate
  | cons label labels ih =>
      refine ⟨hgood state hstate, ?_⟩
      intro next hnext
      exact ih (hstep state label next hstate hnext)

theorem StatesMeet.head {Good : σ → Prop} {state : σ} {labels : List ι}
    (h : StatesMeet step Good state labels) : Good state := by
  cases labels with
  | nil => exact h
  | cons _ _ => exact h.1

/-- If a step from a good state leads to a good state exactly when it is fine,
a run is good throughout exactly when all its steps are fine. -/
theorem statesMeet_iff_stepsMeet
    {Inv Good : σ → Prop} {Fine : σ → ι → Prop}
    (hinv : ∀ state label next, Inv state → step state label = some next →
      Inv next)
    (hstep : ∀ state label next, Inv state → Good state →
      step state label = some next → (Good next ↔ Fine state label))
    {state : σ} (labels : List ι) (hstate : Inv state) (hgood : Good state) :
    StatesMeet step Good state labels ↔ StepsMeet step Fine state labels := by
  induction labels generalizing state with
  | nil => simp [StatesMeet, StepsMeet, hgood]
  | cons label labels ih =>
      constructor
      · rintro ⟨-, hstates⟩ next hnext
        have hnextGood := (hstates next hnext).head
        have hfine := (hstep state label next hstate hgood hnext).mp hnextGood
        have hrest := ih (hinv state label next hstate hnext) hnextGood
        exact ⟨hfine, hrest.mp (hstates next hnext)⟩
      · intro hsteps
        refine ⟨hgood, ?_⟩
        intro next hnext
        obtain ⟨hfine, hrest⟩ := hsteps next hnext
        have hnextGood := (hstep state label next hstate hgood hnext).mpr hfine
        exact (ih (hinv state label next hstate hnext) hnextGood).mpr hrest

end TransitionRuns
