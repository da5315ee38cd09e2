import ProfinetIo.Subscription
import Mathlib.Tactic

/-!
# Failures and the end of the task

The callbacks report a failure in the flag `finished`, but the first loop of the
task looks at `subscribed` only, and the second one at neither flag.  The flag
is tested once, between the two loops, so a failure ends the task only if it
comes after the subscription has been granted and before the first loop has
noticed.
-/

namespace ProfinetIo

open TransitionRuns

namespace MqttSub

/-- Once `finished` is set, the next poll leaves the loop towards
`MQTTAsync_destroy`. -/
def FailureLeaves (s : State) : Prop :=
  s.finished = true → s.running = true → (poll s).task = .destroyed

/-- The event makes a callback set `finished`. -/
def Fails (s : State) : Event → Prop
  | .connectFails => ∃ opts, s.connecting = some opts ∧
      opts.onFailure = some .onConnectFailure
  | .answerArrives => ∃ opts, s.request = .answered false opts
  | .connectionLost reported rc =>
      rc = false ∨ reported = true ∧ s.request ≠ .idle
  | .start _ | .connectSucceeds _ | .brokerAnswers _ | .poll => False

/-- The first loop is about to end, and has not ended yet. -/
def BetweenLoops (s : State) : Prop :=
  s.task = .waiting ∧ s.subscribed = true

def FailsBetweenLoops (s : State) (e : Event) : Prop :=
  Fails s e → s.running = true → BetweenLoops s

def FinishedBetweenLoops (s : State) : Prop :=
  s.finished = true → s.running = true → BetweenLoops s

theorem failureLeaves_iff (s : State) :
    FailureLeaves s ↔ FinishedBetweenLoops s := by
  unfold FailureLeaves FinishedBetweenLoops BetweenLoops
  constructor
  · intro h hfinished hrunning
    have hpoll := h hfinished hrunning
    unfold poll at hpoll
    cases htask : s.task with
    | waiting =>
        rw [htask] at hpoll
        simp only at hpoll
        by_cases hsubscribed : s.subscribed = true
        · exact ⟨rfl, hsubscribed⟩
        · rw [if_neg hsubscribed, htask] at hpoll
          contradiction
    | serving => simp [htask] at hpoll
    | starting => simp [State.running, htask] at hrunning
    | destroyed => simp [State.running, htask] at hrunning
    | exited => simp [State.running, htask] at hrunning
  · intro h hfinished hrunning
    obtain ⟨htask, hsubscribed⟩ := h hfinished hrunning
    simp [poll, htask, hsubscribed, hfinished, State.ended]

section Steps

variable {s s' : State}

def StartsClean (s : State) : Prop :=
  Coherent s ∧ (s.task = .starting → s.finished = false)

theorem StartsClean.step {e : Event} (h : StartsClean s)
    (hstep : MqttSub.step s e = some s') : StartsClean s' := by
  obtain ⟨hcoherent, hclean⟩ := h
  refine ⟨hcoherent.step hstep, ?_⟩
  cases e with
  | start rc =>
      obtain ⟨-, rfl | rfl⟩ := step_start hstep
      · simp
      · simp [State.ended]
  | connectSucceeds rc =>
      obtain ⟨htask, rfl | ⟨-, rfl⟩ | ⟨-, last, rfl⟩⟩ :=
        step_connectSucceeds hcoherent hstep
      · simp [htask]
      · simp [htask]
      · simp [State.ended]
  | connectFails =>
      obtain ⟨hrunning, hnext⟩ := step_connectFails hcoherent hstep
      have htask : s'.task = s.task := by
        rcases hnext with ⟨-, rfl⟩ | ⟨-, rfl⟩
        · rfl
        · rfl
      intro hstart
      rw [htask] at hstart
      simp [State.running, hstart] at hrunning
  | brokerAnswers granted =>
      obtain ⟨opts, -, rfl⟩ := step_brokerAnswers hstep
      exact hclean
  | answerArrives =>
      obtain ⟨-, -, rfl⟩ | ⟨hrequest, rfl⟩ :=
        step_answerArrives hcoherent hstep
      · exact hclean
      · intro hstart
        have hanswered := hcoherent.of_requested (by simp [hrequest])
        exact absurd hstart hanswered.1
  | connectionLost reported rc =>
      obtain ⟨htask, finished, connecting, rfl, -⟩ :=
        step_connectionLost hcoherent hstep
      simp [htask]
  | poll =>
      rcases step_poll hstep with rfl | ⟨-, rfl⟩ | rfl
      · exact hclean
      · simp
      · simp [State.ended]

theorem leaves_iff_of_other {e : Event} (hno : ¬ Fails s e)
    (hleaves : FinishedBetweenLoops s') :
    FinishedBetweenLoops s' ↔ FailsBetweenLoops s e :=
  iff_of_true hleaves fun hfails => absurd hfails hno

theorem leaves_iff_of_failure {e : Event} (hfails : Fails s e)
    (hfinished : s'.finished = true) (htask : s'.task = s.task)
    (hsubscribed : s'.subscribed = s.subscribed) :
    FinishedBetweenLoops s' ↔ FailsBetweenLoops s e := by
  have hrunning : s'.running = s.running := by
    rw [State.running, State.running, htask]
  simp [FinishedBetweenLoops, BetweenLoops, FailsBetweenLoops, hfails,
    hfinished, htask, hsubscribed, hrunning]

/-- A step from a state in which a failure leaves the loop leads to another one
unless a callback reports a failure outside the gap between the loops. -/
theorem leaves_step {e : Event} (h : StartsClean s)
    (hleaves : FinishedBetweenLoops s)
    (hstep : MqttSub.step s e = some s') :
    FinishedBetweenLoops s' ↔ FailsBetweenLoops s e := by
  obtain ⟨hcoherent, hclean⟩ := h
  cases e with
  | start rc =>
      apply leaves_iff_of_other (by simp [Fails])
      obtain ⟨hstart, rfl | rfl⟩ := step_start hstep
      · simp [FinishedBetweenLoops, hclean hstart]
      · simp [FinishedBetweenLoops, State.ended, State.running]
  | connectSucceeds rc =>
      apply leaves_iff_of_other (by simp [Fails])
      obtain ⟨-, rfl | ⟨-, rfl⟩ | ⟨-, last, rfl⟩⟩ :=
        step_connectSucceeds hcoherent hstep
      · exact hleaves
      · exact hleaves
      · simp [FinishedBetweenLoops, State.ended, State.running]
  | connectFails =>
      obtain ⟨-, ⟨hplain, rfl⟩ | ⟨hstart, rfl⟩⟩ :=
        step_connectFails hcoherent hstep
      · apply leaves_iff_of_other (by simp [Fails, hplain, plainOptions])
        exact hleaves
      · exact leaves_iff_of_failure ⟨startOptions, hstart, rfl⟩ rfl rfl rfl
  | brokerAnswers granted =>
      apply leaves_iff_of_other (by simp [Fails])
      obtain ⟨opts, -, rfl⟩ := step_brokerAnswers hstep
      exact hleaves
  | answerArrives =>
      obtain ⟨hrequest, -, rfl⟩ | ⟨hrequest, rfl⟩ :=
        step_answerArrives hcoherent hstep
      · apply leaves_iff_of_other (by simp [Fails, hrequest])
        intro hfinished hrunning
        exact ⟨(hleaves hfinished hrunning).1, rfl⟩
      · exact leaves_iff_of_failure ⟨subscribeOptions, hrequest⟩ rfl rfl rfl
  | connectionLost reported rc =>
      obtain ⟨-, finished, connecting, rfl, -, ⟨hfails, rfl⟩ | ⟨hno, rfl⟩⟩ :=
        step_connectionLost hcoherent hstep
      · exact leaves_iff_of_failure hfails rfl rfl rfl
      · exact leaves_iff_of_other hno hleaves
  | poll =>
      apply leaves_iff_of_other (by simp [Fails])
      rcases step_poll hstep with rfl | ⟨hfinished, rfl⟩ | rfl
      · exact hleaves
      · simp [FinishedBetweenLoops, hfinished]
      · simp [FinishedBetweenLoops, State.ended, State.running]

end Steps

/-- A failure ends the task in every state of a run exactly when each failure
is reported between the granted subscription and the end of the first loop. -/
theorem failureLeaves_runs_iff (events : List Event) :
    StatesMeet step FailureLeaves State.initial events ↔
      StepsMeet step FailsBetweenLoops State.initial events := by
  apply statesMeet_iff_stepsMeet (fun s e s' h hstep => StartsClean.step h hstep)
  · intro s e s' h hleaves hstep
    rw [failureLeaves_iff] at hleaves ⊢
    exact leaves_step h hleaves hstep
  · exact ⟨coherent_initial, fun _ => rfl⟩
  · intro hfinished
    contradiction

theorem failureLeaves_fails_on_refused_connection :
    ¬ ∀ (events : List Event) (s : State),
      run step State.initial events = some s → FailureLeaves s := by
  intro h
  have hleaves := h [.start true, .connectFails] _ rfl rfl rfl
  contradiction

end MqttSub

end ProfinetIo
