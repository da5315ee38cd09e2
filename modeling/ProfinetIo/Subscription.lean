import ProfinetIo.MqttSub
import Mathlib.Tactic

/-!
# The subscription over reconnects

A connect request that `connlost` starts has no callbacks, so nobody
subscribes in the session it opens, while the flag `subscribed` stays set.  In
every other step the flag and the session agree.
-/

namespace ProfinetIo

open TransitionRuns

namespace MqttSub

/-- A connected client that takes itself for subscribed has its subscription,
or a request for it under way. -/
def SubscriptionHeld (s : State) : Prop :=
  s.connected = true → s.subscribed = true →
    s.session = true ∨ ∃ opts, s.request = .sent opts

def NoReconnectWhileSubscribed (s : State) (e : Event) : Prop :=
  ∀ rc, e = .connectSucceeds rc → s.subscribed = false

def plainOptions : ConnectOptions := ⟨20, true, none, none⟩

def startOptions : ConnectOptions :=
  ⟨20, true, some .onConnect, some .onConnectFailure⟩

def subscribeOptions : ResponseOptions :=
  ⟨some .onSubscribe, some .onSubscribeFailure⟩

/-- What holds in every state of every run: only the connect request of the
task has callbacks, and it and the subscribe request it leads to come before
the flag is set. -/
structure Coherent (s : State) : Prop where
  starting : s.task = .starting →
    s.connected = false ∧ s.request = .idle ∧ s.subscribed = false
  connecting : ∀ opts, s.connecting = some opts →
    s.connected = false ∧ s.request = .idle ∧
      (opts = plainOptions ∨ opts = startOptions ∧ s.subscribed = false)
  requested : ∀ opts, s.request = .sent opts →
    opts = subscribeOptions ∧ s.subscribed = false
  answered : ∀ granted opts, s.request = .answered granted opts →
    opts = subscribeOptions ∧ s.subscribed = false ∧
      (granted = true → s.session = true)

theorem coherent_initial : Coherent State.initial := by
  constructor <;> simp [State.initial]

theorem coherent_ended
    {task : Task} (h : task ≠ .starting) (s : State) :
    Coherent (s.ended task) := by
  constructor <;> simp [State.ended, h]

theorem subscriptionHeld_ended (task : Task) (s : State) :
    SubscriptionHeld (s.ended task) := by
  intro h
  contradiction

section Steps

variable {s s' : State}

theorem Coherent.of_connected (h : Coherent s) (hconnected : s.connected = true) :
    s.task ≠ .starting ∧ s.connecting = none := by
  constructor
  · intro hstart
    rw [(h.starting hstart).1] at hconnected
    contradiction
  · cases hconnecting : s.connecting with
    | none => rfl
    | some opts =>
        rw [(h.connecting opts hconnecting).1] at hconnected
        contradiction

theorem Coherent.of_requested (h : Coherent s) (hrequest : s.request ≠ .idle) :
    s.task ≠ .starting ∧ s.connecting = none ∧ s.subscribed = false := by
  refine ⟨?_, ?_, ?_⟩
  · intro hstart
    exact hrequest (h.starting hstart).2.1
  · cases hconnecting : s.connecting with
    | none => rfl
    | some opts => exact absurd (h.connecting opts hconnecting).2.1 hrequest
  · cases hcase : s.request with
    | idle => exact absurd hcase hrequest
    | sent opts => exact (h.requested opts hcase).2
    | answered granted opts => exact (h.answered granted opts hcase).2.1

theorem step_start
    {rc : Bool} (hstep : step s (.start rc) = some s') :
    s.task = .starting ∧
      (s' = { s with connecting := some startOptions, task := .waiting } ∨
        s' = s.ended .exited) := by
  simp only [step] at hstep
  split_ifs at hstep with hstart
  cases hstep
  cases rc with
  | false => exact ⟨hstart, Or.inr rfl⟩
  | true => exact ⟨hstart, Or.inl rfl⟩

/-- A connect request without callbacks opens a session and nothing else; the
one with callbacks is followed by a subscribe request or by the end. -/
theorem step_connectSucceeds
    {rc : Bool} (h : Coherent s)
    (hstep : step s (.connectSucceeds rc) = some s') :
    s.task ≠ .starting ∧
    (s' = { s with
        connected := true
        connecting := none
        session := false
        request := .idle } ∨
      (s.subscribed = false ∧
        s' = { s with
          connected := true
          connecting := none
          session := false
          request := .sent subscribeOptions }) ∨
      (s.subscribed = false ∧ ∃ last, s' = State.ended .exited last)) := by
  simp only [step] at hstep
  split_ifs at hstep with hrunning
  have htask : s.task ≠ .starting := by
    intro hstart
    simp [State.running, hstart] at hrunning
  refine ⟨htask, ?_⟩
  obtain ⟨opts, hopts, rfl⟩ := Option.map_eq_some_iff.mp hstep
  obtain ⟨-, hidle, rfl | ⟨rfl, hsubscribed⟩⟩ := h.connecting opts hopts
  · left
    rw [← hidle]
    rfl
  · right
    cases rc with
    | false => exact Or.inr ⟨hsubscribed, _, rfl⟩
    | true => exact Or.inl ⟨hsubscribed, rfl⟩

theorem step_connectFails
    (h : Coherent s) (hstep : step s .connectFails = some s') :
    s.running = true ∧
    ((s.connecting = some plainOptions ∧ s' = { s with connecting := none }) ∨
      (s.connecting = some startOptions ∧
        s' = { s with connecting := none, finished := true })) := by
  simp only [step] at hstep
  split_ifs at hstep with hrunning
  refine ⟨hrunning, ?_⟩
  obtain ⟨opts, hopts, rfl⟩ := Option.map_eq_some_iff.mp hstep
  obtain ⟨-, -, rfl | ⟨rfl, -⟩⟩ := h.connecting opts hopts
  · exact Or.inl ⟨hopts, rfl⟩
  · exact Or.inr ⟨hopts, rfl⟩

theorem step_brokerAnswers
    {granted : Bool} (hstep : step s (.brokerAnswers granted) = some s') :
    ∃ opts, s.request = .sent opts ∧
      s' = { s with
        session := s.session || granted
        request := .answered granted opts } := by
  simp only [step] at hstep
  cases hrequest : s.request with
  | idle => simp [hrequest] at hstep
  | answered granted opts => simp [hrequest] at hstep
  | sent opts =>
      simp only [hrequest, Option.some.injEq] at hstep
      exact ⟨opts, rfl, hstep.symm⟩

theorem step_answerArrives
    (h : Coherent s) (hstep : step s .answerArrives = some s') :
    (s.request = .answered true subscribeOptions ∧ s.session = true ∧
      s' = { s with request := .idle, subscribed := true }) ∨
    (s.request = .answered false subscribeOptions ∧
      s' = { s with request := .idle, finished := true }) := by
  simp only [step] at hstep
  cases hrequest : s.request with
  | idle => simp [hrequest] at hstep
  | sent opts => simp [hrequest] at hstep
  | answered granted opts =>
      obtain ⟨rfl, -, hsession⟩ := h.answered granted opts hrequest
      simp only [hrequest, Option.some.injEq] at hstep
      cases granted with
      | false => exact Or.inr ⟨rfl, hstep.symm⟩
      | true => exact Or.inl ⟨rfl, hsession rfl, hstep.symm⟩

/-- The loss of the connection is a failure if a subscribe request is reported
with it or if the reconnect cannot be started. -/
theorem step_connectionLost
    {reported rc : Bool} (h : Coherent s)
    (hstep : step s (.connectionLost reported rc) = some s') :
    s.task ≠ .starting ∧ ∃ finished connecting,
      s' = { s with
        connected := false
        request := .idle
        finished := finished
        connecting := connecting } ∧
      (connecting = some plainOptions ∨ connecting = none) ∧
      ((rc = false ∨ reported = true ∧ s.request ≠ .idle) ∧ finished = true ∨
        ¬ (rc = false ∨ reported = true ∧ s.request ≠ .idle) ∧
          finished = s.finished) := by
  simp only [step] at hstep
  split_ifs at hstep with hconnected
  cases hstep
  obtain ⟨htask, hconnecting⟩ := h.of_connected hconnected
  refine ⟨htask, ?_⟩
  have hdropped : ∃ finished, connectionLost reported rc s =
      connlost rc { s with
        connected := false
        request := .idle
        finished := finished } ∧
      ((reported = true ∧ s.request ≠ .idle) ∧ finished = true ∨
        ¬ (reported = true ∧ s.request ≠ .idle) ∧
          finished = s.finished) := by
    unfold connectionLost
    cases hrequest : s.request with
    | idle => exact ⟨s.finished, rfl, Or.inr ⟨by simp, rfl⟩⟩
    | sent opts =>
        obtain ⟨rfl, -⟩ := h.requested opts hrequest
        cases reported with
        | false => exact ⟨s.finished, rfl, Or.inr ⟨by simp, rfl⟩⟩
        | true => exact ⟨true, rfl, Or.inl ⟨by simp, rfl⟩⟩
    | answered granted opts =>
        obtain ⟨rfl, -, -⟩ := h.answered granted opts hrequest
        cases reported with
        | false => exact ⟨s.finished, rfl, Or.inr ⟨by simp, rfl⟩⟩
        | true => exact ⟨true, rfl, Or.inl ⟨by simp, rfl⟩⟩
  obtain ⟨finished, hdropped, hreported⟩ := hdropped
  rw [hdropped]
  cases rc with
  | false =>
      exact ⟨true, s.connecting, rfl, Or.inr hconnecting,
        Or.inl ⟨Or.inl rfl, rfl⟩⟩
  | true =>
      refine ⟨finished, some plainOptions, rfl, Or.inl rfl, ?_⟩
      simpa using hreported

theorem step_poll (hstep : step s .poll = some s') :
    s' = s ∨
      (s.finished = false ∧ s' = { s with task := .serving }) ∨
      s' = s.ended .destroyed := by
  simp only [step] at hstep
  split_ifs at hstep
  cases hstep
  unfold poll
  cases s.task with
  | waiting =>
      simp only
      split_ifs with hsubscribed hfinished
      · exact Or.inr (Or.inr rfl)
      · exact Or.inr (Or.inl ⟨by simpa using hfinished, rfl⟩)
      · exact Or.inl rfl
  | starting => exact Or.inl rfl
  | serving => exact Or.inl rfl
  | destroyed => exact Or.inl rfl
  | exited => exact Or.inl rfl

theorem Coherent.step
    {e : Event} (h : Coherent s) (hstep : MqttSub.step s e = some s') :
    Coherent s' := by
  cases e with
  | start rc =>
      obtain ⟨hstart, rfl | rfl⟩ := step_start hstep
      · obtain ⟨hconnected, hrequest, hsubscribed⟩ := h.starting hstart
        constructor <;> simp [hconnected, hrequest, hsubscribed]
      · exact coherent_ended (by decide) s
  | connectSucceeds rc =>
      obtain ⟨htask, rfl | ⟨hsubscribed, rfl⟩ | ⟨-, last, rfl⟩⟩ :=
        step_connectSucceeds h hstep
      · constructor <;> simp [htask]
      · constructor <;> simp [htask, hsubscribed]
      · exact coherent_ended (by decide) last
  | connectFails =>
      obtain ⟨-, ⟨-, rfl⟩ | ⟨-, rfl⟩⟩ := step_connectFails h hstep
      · exact ⟨h.starting, by simp, h.requested, h.answered⟩
      · exact ⟨h.starting, by simp, h.requested, h.answered⟩
  | brokerAnswers granted =>
      obtain ⟨opts, hrequest, rfl⟩ := step_brokerAnswers hstep
      obtain ⟨rfl, hsubscribed⟩ := h.requested opts hrequest
      obtain ⟨htask, hconnecting, -⟩ := h.of_requested (by simp [hrequest])
      constructor
      · simp [htask]
      · simp [hconnecting]
      · simp
      · intro granted' opts' hanswered
        cases hanswered
        exact ⟨rfl, hsubscribed, by simp +contextual⟩
  | answerArrives =>
      obtain ⟨hrequest, -, rfl⟩ | ⟨hrequest, rfl⟩ :=
        step_answerArrives h hstep
      · obtain ⟨htask, hconnecting, -⟩ := h.of_requested (by simp [hrequest])
        constructor <;> simp [htask, hconnecting]
      · obtain ⟨htask, hconnecting, -⟩ := h.of_requested (by simp [hrequest])
        constructor <;> simp [htask, hconnecting]
  | connectionLost reported rc =>
      obtain ⟨htask, finished, connecting, rfl, rfl | rfl, -⟩ :=
        step_connectionLost h hstep
      · constructor <;> simp [htask]
      · constructor <;> simp [htask]
  | poll =>
      rcases step_poll hstep with rfl | ⟨-, rfl⟩ | rfl
      · exact h
      · exact ⟨by simp, h.connecting, h.requested, h.answered⟩
      · exact coherent_ended (by decide) s

theorem SubscriptionHeld.step_of_other
    {e : Event} (hheld : SubscriptionHeld s) (h : Coherent s)
    (hother : ∀ rc, e ≠ .connectSucceeds rc)
    (hstep : MqttSub.step s e = some s') : SubscriptionHeld s' := by
  cases e with
  | connectSucceeds rc => exact absurd rfl (hother rc)
  | start rc =>
      obtain ⟨hstart, rfl | rfl⟩ := step_start hstep
      · simp [SubscriptionHeld, (h.starting hstart).1]
      · exact subscriptionHeld_ended .exited s
  | connectFails =>
      obtain ⟨-, ⟨-, rfl⟩ | ⟨-, rfl⟩⟩ := step_connectFails h hstep
      · exact hheld
      · exact hheld
  | brokerAnswers granted =>
      obtain ⟨opts, hrequest, rfl⟩ := step_brokerAnswers hstep
      simp [SubscriptionHeld, (h.requested opts hrequest).2]
  | answerArrives =>
      obtain ⟨-, hsession, rfl⟩ | ⟨hrequest, rfl⟩ :=
        step_answerArrives h hstep
      · simp [SubscriptionHeld, hsession]
      · have hsubscribed := (h.of_requested (by simp [hrequest])).2.2
        simp [SubscriptionHeld, hsubscribed]
  | connectionLost reported rc =>
      obtain ⟨-, finished, connecting, rfl, -⟩ := step_connectionLost h hstep
      simp [SubscriptionHeld]
  | poll =>
      rcases step_poll hstep with rfl | ⟨-, rfl⟩ | rfl
      · exact hheld
      · exact hheld
      · exact subscriptionHeld_ended .destroyed s

/-- A step from a state in which the subscription is held leads to another one
unless it reconnects a client that takes itself for subscribed. -/
theorem subscriptionHeld_step
    {e : Event} (h : Coherent s) (hheld : SubscriptionHeld s)
    (hstep : MqttSub.step s e = some s') :
    SubscriptionHeld s' ↔ NoReconnectWhileSubscribed s e := by
  by_cases hreconnect : ∃ rc, e = .connectSucceeds rc
  · obtain ⟨rc, rfl⟩ := hreconnect
    obtain ⟨-, rfl | ⟨hsubscribed, rfl⟩ | ⟨hsubscribed, last, rfl⟩⟩ :=
      step_connectSucceeds h hstep
    · simp [SubscriptionHeld, NoReconnectWhileSubscribed]
    · simp [SubscriptionHeld, NoReconnectWhileSubscribed, hsubscribed]
    · refine iff_of_true (subscriptionHeld_ended .exited last) ?_
      intro _ _
      exact hsubscribed
  · have hother : ∀ rc, e ≠ .connectSucceeds rc := by
      intro rc heq
      exact hreconnect ⟨rc, heq⟩
    refine iff_of_true (hheld.step_of_other h hother hstep) ?_
    intro rc heq
    exact absurd heq (hother rc)

end Steps

/-- Along a run the subscription is held in every state exactly when no
reconnect succeeds while the flag is set. -/
theorem subscriptionHeld_iff (events : List Event) :
    StatesMeet step SubscriptionHeld State.initial events ↔
      StepsMeet step NoReconnectWhileSubscribed State.initial events := by
  have hinitial : SubscriptionHeld State.initial := by
    simp [SubscriptionHeld, State.initial]
  have hinv : ∀ s e s', Coherent s → step s e = some s' → Coherent s' := by
    intro s e s' h hstep
    exact h.step hstep
  apply statesMeet_iff_stepsMeet hinv
  · intro s e s' h hheld hstep
    exact subscriptionHeld_step h hheld hstep
  · exact coherent_initial
  · exact hinitial

theorem subscriptionHeld_fails_on_reconnect :
    ¬ ∀ (events : List Event) (s : State),
      run step State.initial events = some s → SubscriptionHeld s := by
  intro h
  have hheld := h
    [.start true, .connectSucceeds true, .brokerAnswers true, .answerArrives,
      .connectionLost false true, .connectSucceeds true] _ rfl rfl rfl
  rcases hheld with hsession | ⟨opts, hopts⟩
  · contradiction
  · contradiction

end MqttSub

end ProfinetIo
