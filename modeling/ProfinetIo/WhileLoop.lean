import Mathlib.Tactic

/-!
# While loops with fuel

`whileFuel cond body fuel state` runs `while (cond) body` and answers `none`
when `fuel` passes were not enough.  A loop returns when some amount of fuel
suffices, and then the answer does not depend on the amount.

The second half describes a completed run by the labels of its passes: when
`body` acts on a state only through the label the state carries, the run is
the replay of a list of labels, and it is the only such list.
-/

namespace WhileLoop

variable {σ ι : Type*}

section Fuel

variable (cond : σ → Bool) (body : σ → σ)

def whileFuel : ℕ → σ → Option σ
  | 0, state => if cond state then none else some state
  | fuel + 1, state =>
      if cond state then whileFuel fuel (body state) else some state

def Returns (state final : σ) : Prop :=
  ∃ fuel, whileFuel cond body fuel state = some final

variable {cond body}

theorem whileFuel_of_stopped
    {state : σ} (h : cond state = false) (fuel : ℕ) :
    whileFuel cond body fuel state = some state := by
  cases fuel <;> simp [whileFuel, h]

theorem whileFuel_succ_of_running
    {state : σ} (h : cond state = true) (fuel : ℕ) :
    whileFuel cond body (fuel + 1) state =
      whileFuel cond body fuel (body state) := by
  simp [whileFuel, h]

theorem whileFuel_mono
    {fuel fuel' : ℕ} {state final : σ} (hle : fuel ≤ fuel')
    (h : whileFuel cond body fuel state = some final) :
    whileFuel cond body fuel' state = some final := by
  induction fuel generalizing fuel' state with
  | zero =>
      by_cases hcond : cond state = true
      · simp [whileFuel, hcond] at h
      · have hstop : cond state = false := by simpa using hcond
        rw [whileFuel_of_stopped hstop] at h ⊢
        exact h
  | succ fuel ih =>
      by_cases hcond : cond state = true
      · obtain ⟨extra, rfl⟩ : ∃ extra, fuel' = extra + 1 :=
          ⟨fuel' - 1, by omega⟩
        rw [whileFuel_succ_of_running hcond] at h ⊢
        exact ih (by omega) h
      · have hstop : cond state = false := by simpa using hcond
        rw [whileFuel_of_stopped hstop] at h ⊢
        exact h

theorem Returns.unique
    {state final final' : σ} (h : Returns cond body state final)
    (h' : Returns cond body state final') : final = final' := by
  obtain ⟨fuel, hfuel⟩ := h
  obtain ⟨fuel', hfuel'⟩ := h'
  have hleft := whileFuel_mono (le_max_left fuel fuel') hfuel
  have hright := whileFuel_mono (le_max_right fuel fuel') hfuel'
  rw [hleft] at hright
  exact Option.some.inj hright

theorem Returns.of_stopped
    {state : σ} (h : cond state = false) : Returns cond body state state :=
  ⟨0, whileFuel_of_stopped h 0⟩

theorem returns_iff_of_running
    {state final : σ} (h : cond state = true) :
    Returns cond body state final ↔ Returns cond body (body state) final := by
  constructor
  · rintro ⟨fuel, hfuel⟩
    refine ⟨fuel, ?_⟩
    rw [← whileFuel_succ_of_running h]
    exact whileFuel_mono (Nat.le_succ fuel) hfuel
  · rintro ⟨fuel, hfuel⟩
    exact ⟨fuel + 1, by rw [whileFuel_succ_of_running h, hfuel]⟩

/-- A loop whose passes lower a rank needs no more passes than the rank. -/
theorem whileFuel_total_of_rank
    (rank : σ → ℕ)
    (hrank : ∀ state, cond state = true → rank (body state) < rank state)
    {fuel : ℕ} {state : σ} (hfuel : rank state ≤ fuel) :
    ∃ final, whileFuel cond body fuel state = some final := by
  induction fuel generalizing state with
  | zero =>
      by_cases hcond : cond state = true
      · have := hrank state hcond
        omega
      · exact ⟨state, whileFuel_of_stopped (by simpa using hcond) 0⟩
  | succ fuel ih =>
      by_cases hcond : cond state = true
      · have hlt := hrank state hcond
        rw [whileFuel_succ_of_running hcond]
        exact ih (by omega)
      · exact ⟨state, whileFuel_of_stopped (by simpa using hcond) _⟩

/-- A loop that returns within its fuel has made that many passes at most, the
condition holding before each of them and failing after the last. -/
theorem exists_passes_of_whileFuel
    {fuel : ℕ} {state final : σ}
    (h : whileFuel cond body fuel state = some final) :
    ∃ passes ≤ fuel, final = body^[passes] state ∧ cond final = false ∧
      ∀ k < passes, cond (body^[k] state) = true := by
  induction fuel generalizing state with
  | zero =>
      by_cases hcond : cond state = true
      · simp [whileFuel, hcond] at h
      · have hstop : cond state = false := by simpa using hcond
        rw [whileFuel_of_stopped hstop] at h
        cases h
        exact ⟨0, le_refl 0, rfl, hstop, by simp⟩
  | succ fuel ih =>
      by_cases hcond : cond state = true
      · rw [whileFuel_succ_of_running hcond] at h
        obtain ⟨passes, hpasses, hfinal, hstop, hrunning⟩ := ih h
        refine ⟨passes + 1, by omega, hfinal, hstop, ?_⟩
        intro k hk
        cases k with
        | zero => exact hcond
        | succ k => exact hrunning k (by omega)
      · have hstop : cond state = false := by simpa using hcond
        rw [whileFuel_of_stopped hstop] at h
        cases h
        exact ⟨0, Nat.zero_le _, rfl, hstop, by simp⟩

/-- Induction over the passes of a loop that returns, from the last one back. -/
theorem Returns.induction
    {motive : σ → Prop} {state final : σ}
    (h : Returns cond body state final)
    (stop : cond final = false → motive final)
    (pass : ∀ state, cond state = true → motive (body state) → motive state) :
    motive state := by
  obtain ⟨fuel, hfuel⟩ := h
  induction fuel generalizing state with
  | zero =>
      by_cases hcond : cond state = true
      · simp [whileFuel, hcond] at hfuel
      · have hstop : cond state = false := by simpa using hcond
        rw [whileFuel_of_stopped hstop] at hfuel
        cases hfuel
        exact stop hstop
  | succ fuel ih =>
      by_cases hcond : cond state = true
      · rw [whileFuel_succ_of_running hcond] at hfuel
        exact pass state hcond (ih hfuel)
      · have hstop : cond state = false := by simpa using hcond
        rw [whileFuel_of_stopped hstop] at hfuel
        cases hfuel
        exact stop hstop

theorem Returns.stopped
    {state final : σ} (h : Returns cond body state final) :
    cond final = false :=
  @Returns.induction σ cond body (fun _ => cond final = false) state final h
    (fun hstop => hstop) (fun _ _ hstop => hstop)

theorem Returns.invariant
    (Good : σ → Prop)
    (hstep : ∀ state, cond state = true → Good state → Good (body state))
    {state final : σ} (hgood : Good state)
    (h : Returns cond body state final) : Good final := by
  revert hgood
  apply h.induction
  · intro _ hgood
    exact hgood
  · intro state hcond ih hgood
    exact ih (hstep state hcond hgood)

/-- A loop that is running and whose body changes nothing never returns. -/
theorem not_returns_of_stuck
    {state final : σ} (hcond : cond state = true) (hbody : body state = state) :
    ¬ Returns cond body state final := by
  intro h
  have hinv : final = state :=
    h.invariant (fun s => s = state) (fun s _ hs => by rw [hs, hbody]) rfl
  have hstop := h.stopped
  rw [hinv, hcond] at hstop
  contradiction

end Fuel

/-! ## Runs described by labels -/

section Labels

variable (cond : σ → Bool) (label : σ → ι) (act : ι → σ → σ)

def replay (labels : List ι) (state : σ) : σ :=
  labels.foldl (fun s l => act l s) state

/-- The passes made from `state` carry exactly these labels, and the loop
stops after the last of them. -/
structure LabelledRun (state : σ) (labels : List ι) : Prop where
  running : ∀ before l after, labels = before ++ l :: after →
    cond (replay act before state) = true
  labelled : ∀ before l after, labels = before ++ l :: after →
    label (replay act before state) = l
  stopped : cond (replay act labels state) = false

variable {cond label act}

@[simp] theorem replay_nil (state : σ) : replay act [] state = state := rfl

@[simp] theorem replay_cons (l : ι) (labels : List ι) (state : σ) :
    replay act (l :: labels) state = replay act labels (act l state) := rfl

theorem LabelledRun.tail
    {state : σ} {l : ι} {labels : List ι}
    (h : LabelledRun cond label act state (l :: labels)) :
    LabelledRun cond label act (act l state) labels := by
  constructor
  · intro before next after heq
    exact h.running (l :: before) next after (by simp [heq])
  · intro before next after heq
    exact h.labelled (l :: before) next after (by simp [heq])
  · exact h.stopped

theorem LabelledRun.cons
    {state : σ} {labels : List ι} (hcond : cond state = true)
    (h : LabelledRun cond label act (act (label state) state) labels) :
    LabelledRun cond label act state (label state :: labels) := by
  constructor
  · intro before next after heq
    cases before with
    | nil => exact hcond
    | cons first before =>
        simp only [List.cons_append, List.cons.injEq] at heq
        obtain ⟨rfl, heq⟩ := heq
        exact h.running before next after heq
  · intro before next after heq
    cases before with
    | nil =>
        simp only [List.nil_append, List.cons.injEq] at heq
        exact heq.1
    | cons first before =>
        simp only [List.cons_append, List.cons.injEq] at heq
        obtain ⟨rfl, heq⟩ := heq
        exact h.labelled before next after heq
  · exact h.stopped

variable {body : σ → σ}

theorem LabelledRun.returns
    (hbody : ∀ state, cond state = true → body state = act (label state) state)
    {state : σ} {labels : List ι}
    (h : LabelledRun cond label act state labels) :
    Returns cond body state (replay act labels state) := by
  induction labels generalizing state with
  | nil => exact Returns.of_stopped h.stopped
  | cons l labels ih =>
      have hcond : cond state = true := h.running [] l labels rfl
      have hlabel : label state = l := h.labelled [] l labels rfl
      rw [returns_iff_of_running hcond, hbody state hcond, hlabel]
      exact ih h.tail

theorem exists_labelledRun
    (hbody : ∀ state, cond state = true → body state = act (label state) state)
    {state final : σ} (h : Returns cond body state final) :
    ∃ labels, LabelledRun cond label act state labels ∧
      final = replay act labels state := by
  apply h.induction
  · intro hstop
    exact ⟨[], ⟨by simp, by simp, hstop⟩, rfl⟩
  · intro state hcond ih
    rw [hbody state hcond] at ih
    obtain ⟨labels, hrun, hfinal⟩ := ih
    exact ⟨label state :: labels, hrun.cons hcond, hfinal⟩

end Labels

end WhileLoop
