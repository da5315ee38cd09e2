import ProfinetIo.TransitionRuns
import Mathlib.Tactic

/-!
# Interleaved runs

A machine made of components steps one of them at a time.  The run of a
component is what is left of a run when the labels of the others are taken out,
so it does not depend on how the labels were interleaved.  Quantities that each
step moves by an amount of its own add up over a run.
-/

namespace InterleavedRuns

open TransitionRuns

variable {σ ι : Type*} {step : σ → ι → Option σ}

theorem run_append (state : σ) (labels labels' : List ι) :
    run step state (labels ++ labels') =
      (run step state labels).bind fun next => run step next labels' := by
  induction labels generalizing state with
  | nil => rfl
  | cons label labels ih =>
      simp only [List.cons_append, run, ih, Option.bind_assoc]

/-- Labels that leave every state alone may be taken out of a run. -/
theorem run_filter
    {keeps : ι → Bool}
    (hidle : ∀ state label, keeps label = false →
      step state label = some state)
    (state : σ) (labels : List ι) :
    run step state (labels.filter keeps) = run step state labels := by
  induction labels generalizing state with
  | nil => rfl
  | cons label labels ih =>
      cases hkeeps : keeps label with
      | true =>
          rw [List.filter_cons_of_pos hkeeps]
          simp only [run, ih]
      | false =>
          rw [List.filter_cons_of_neg (by simp [hkeeps]), ih,
            run_cons_of_step (hidle state label hkeeps)]

/-! ## Components -/

section Component

variable {τ κ : Type*} {part : τ → κ → Option τ} {view : σ → τ}
  {own : ι → Option κ}

/-- A step either is one of the component's or leaves the component alone. -/
structure IsComponent (step : σ → ι → Option σ) (part : τ → κ → Option τ)
    (view : σ → τ) (own : ι → Option κ) : Prop where
  moves : ∀ state label next k, step state label = some next →
    own label = some k → part (view state) k = some (view next)
  keeps : ∀ state label next, step state label = some next →
    own label = none → view next = view state

theorem IsComponent.run_view (h : IsComponent step part view own)
    {state final : σ} {labels : List ι}
    (hrun : run step state labels = some final) :
    run part (view state) (labels.filterMap own) = some (view final) := by
  induction labels generalizing state with
  | nil =>
      cases hrun
      rfl
  | cons label labels ih =>
      obtain ⟨next, hnext, hrest⟩ := Option.bind_eq_some_iff.mp hrun
      cases hown : own label with
      | none =>
          rw [List.filterMap_cons_none hown,
            ← h.keeps state label next hnext hown]
          exact ih hrest
      | some k =>
          rw [List.filterMap_cons_some hown,
            run_cons_of_step (h.moves state label next k hnext hown)]
          exact ih hrest

end Component

/-! ## Quantities -/

/-- What the steps of a run add to a quantity. -/
def total (step : σ → ι → Option σ) (amount : σ → ι → ℕ) :
    σ → List ι → ℕ
  | _, [] => 0
  | state, label :: labels =>
      match step state label with
      | none => 0
      | some next => amount state label + total step amount next labels

theorem total_cons_of_step
    {amount : σ → ι → ℕ} {state next : σ} {label : ι}
    (h : step state label = some next) (labels : List ι) :
    total step amount state (label :: labels) =
      amount state label + total step amount next labels := by
  rw [total, h]

theorem run_measure
    {measure : σ → ℕ} {amount : σ → ι → ℕ}
    (hstep : ∀ state label next, step state label = some next →
      measure next = measure state + amount state label)
    {state final : σ} {labels : List ι}
    (hrun : run step state labels = some final) :
    measure final = measure state + total step amount state labels := by
  induction labels generalizing state with
  | nil =>
      cases hrun
      rfl
  | cons label labels ih =>
      obtain ⟨next, hnext, hrest⟩ := Option.bind_eq_some_iff.mp hrun
      rw [ih hrest, hstep state label next hnext, total_cons_of_step hnext,
        Nat.add_assoc]

/-- A relation that every step keeps between its ends holds between the ends of
a run. -/
theorem run_relates
    {Rel : σ → σ → Prop} (hrefl : ∀ state, Rel state state)
    (htrans : ∀ first second third, Rel first second → Rel second third →
      Rel first third)
    (hstep : ∀ state label next, step state label = some next →
      Rel state next)
    {state final : σ} {labels : List ι}
    (hrun : run step state labels = some final) : Rel state final := by
  refine run_invariant (fun current => Rel state current) ?_ (hrefl state) hrun
  intro current label next hcurrent hnext
  exact htrans state current next hcurrent (hstep current label next hnext)

/-! ## Allowed steps -/

theorem stepsAllowed_of_forall
    {Allowed : ι → Prop} {labels : List ι}
    (h : ∀ label ∈ labels, Allowed label) (state : σ) :
    StepsAllowed step (fun _ label => Allowed label) state labels := by
  induction labels generalizing state with
  | nil => trivial
  | cons label labels ih =>
      obtain ⟨hlabel, hlabels⟩ := List.forall_mem_cons.mp h
      exact ⟨hlabel, fun next _ => ih hlabels next⟩

/-- What every allowed step keeps is kept by a run of allowed steps. -/
theorem run_invariant_of_allowed
    {Allowed : σ → ι → Prop} (Inv : σ → Prop)
    (hstep : ∀ state label next, Inv state → Allowed state label →
      step state label = some next → Inv next)
    {state final : σ} {labels : List ι}
    (hallowed : StepsAllowed step Allowed state labels) (hstate : Inv state)
    (hrun : run step state labels = some final) : Inv final := by
  induction labels generalizing state with
  | nil =>
      cases hrun
      exact hstate
  | cons label labels ih =>
      obtain ⟨next, hnext, hrest⟩ := Option.bind_eq_some_iff.mp hrun
      obtain ⟨hlabel, hlabels⟩ := hallowed
      exact ih (hlabels next hnext) (hstep state label next hstate hlabel hnext)
        hrest

/-- What every allowed step from a state in `Inv` leaves alone, a run of them
leaves alone. -/
theorem run_keeps_of_allowed
    {τ : Type*} {Allowed : σ → ι → Prop} (Inv : σ → Prop) (view : σ → τ)
    (hstep : ∀ state label next, Inv state → Allowed state label →
      step state label = some next → Inv next ∧ view next = view state)
    {state final : σ} {labels : List ι}
    (hallowed : StepsAllowed step Allowed state labels) (hstate : Inv state)
    (hrun : run step state labels = some final) : view final = view state := by
  refine (run_invariant_of_allowed
    (fun current => Inv current ∧ view current = view state) ?_ hallowed
    ⟨hstate, rfl⟩ hrun).2
  rintro current label next ⟨hcurrent, hview⟩ hlabel hnext
  obtain ⟨hinv, hsame⟩ := hstep current label next hcurrent hlabel hnext
  exact ⟨hinv, hsame.trans hview⟩

theorem run_keeps
    {τ : Type*} (Inv : σ → Prop) (view : σ → τ)
    (hstep : ∀ state label next, Inv state →
      step state label = some next → Inv next ∧ view next = view state)
    {state final : σ} {labels : List ι} (hstate : Inv state)
    (hrun : run step state labels = some final) : view final = view state :=
  run_keeps_of_allowed Inv view
    (fun state label next hinv _ => hstep state label next hinv)
    (stepsAllowed_of_forall (fun _ _ => trivial) state) hstate hrun

end InterleavedRuns
