import ProfinetIo.InterleavedRuns
import ProfinetIo.Subscription
import Mathlib.Tactic

/-!
# After a reconnect

The client subscribes in `onConnect`, which only the first connect request of
the task asks for.  So one subscribe request is all that is ever sent, and the
clean session that a reconnect opens never has a subscription.
-/

namespace ProfinetIo

open InterleavedRuns TransitionRuns

namespace MqttSub

/-- The subscribe requests that a step sends. -/
def subscribeRequests (s : State) : Event → ℕ
  | .connectSucceeds true =>
      if s.connecting.bind ConnectOptions.onSuccess = some .onConnect then 1
      else 0
  | .connectSucceeds false | .start _ | .connectFails | .brokerAnswers _
  | .answerArrives | .connectionLost _ _ | .poll => 0

def Event.connects : Event → Bool
  | .connectSucceeds _ => true
  | .start _ | .connectFails | .brokerAnswers _ | .answerArrives
  | .connectionLost _ _ | .poll => false

/-- No connection has been made yet. -/
structure Unconnected (s : State) : Prop where
  connected : s.connected = false
  request : s.request = .idle
  session : s.session = false
  connecting : s.connecting = none ∨ s.connecting = some startOptions

/-- Every connect request that is still to come is one of `connlost`. -/
structure Reconnecting (s : State) : Prop where
  task : s.task ≠ .starting
  connecting : s.connecting = none ∨ s.connecting = some plainOptions

/-- The session has no subscription, and nobody asks for one. -/
structure Deaf (s : State) : Prop extends Reconnecting s where
  request : s.request = .idle
  session : s.session = false

theorem Event.exists_of_connects {e : Event} (h : e.connects = true) :
    ∃ rc, e = .connectSucceeds rc := by
  cases e with
  | connectSucceeds rc => exact ⟨rc, rfl⟩
  | start rc => contradiction
  | connectFails => contradiction
  | brokerAnswers granted => contradiction
  | answerArrives => contradiction
  | connectionLost reported rc => contradiction
  | poll => contradiction

theorem subscribeRequests_of_other {e : Event} (h : e.connects = false)
    (s : State) : subscribeRequests s e = 0 := by
  cases e with
  | connectSucceeds rc => contradiction
  | start rc => rfl
  | connectFails => rfl
  | brokerAnswers granted => rfl
  | answerArrives => rfl
  | connectionLost reported rc => rfl
  | poll => rfl

theorem subscribeRequests_le_one (s : State) (e : Event) :
    subscribeRequests s e ≤ 1 := by
  cases hconnect : e.connects with
  | false =>
      rw [subscribeRequests_of_other hconnect]
      exact Nat.zero_le 1
  | true =>
      obtain ⟨rc, rfl⟩ := Event.exists_of_connects hconnect
      cases rc with
      | false => exact Nat.zero_le 1
      | true =>
          rw [subscribeRequests]
          split_ifs
          · exact le_refl 1
          · exact Nat.zero_le 1

section Steps

variable {s s' : State} {e : Event}

theorem Unconnected.initial : Unconnected State.initial :=
  ⟨rfl, rfl, rfl, Or.inl rfl⟩

theorem Unconnected.step (h : Unconnected s) (hcoherent : Coherent s)
    (he : e.connects = false) (hstep : MqttSub.step s e = some s') :
    Unconnected s' := by
  cases e with
  | start rc =>
      obtain ⟨-, rfl | rfl⟩ := step_start hstep
      · exact ⟨h.connected, h.request, h.session, Or.inr rfl⟩
      · exact ⟨rfl, rfl, h.session, Or.inl rfl⟩
  | connectSucceeds rc => contradiction
  | connectFails =>
      obtain ⟨-, ⟨-, rfl⟩ | ⟨-, rfl⟩⟩ := step_connectFails hcoherent hstep
      · exact ⟨h.connected, h.request, h.session, Or.inl rfl⟩
      · exact ⟨h.connected, h.request, h.session, Or.inl rfl⟩
  | brokerAnswers granted =>
      obtain ⟨opts, hrequest, -⟩ := step_brokerAnswers hstep
      rw [h.request] at hrequest
      contradiction
  | answerArrives =>
      obtain ⟨hrequest, -⟩ | ⟨hrequest, -⟩ :=
        step_answerArrives hcoherent hstep
      · rw [h.request] at hrequest
        contradiction
      · rw [h.request] at hrequest
        contradiction
  | connectionLost reported rc =>
      simp [MqttSub.step, h.connected] at hstep
  | poll =>
      rcases step_poll hstep with rfl | ⟨-, rfl⟩ | rfl
      · exact h
      · exact ⟨h.connected, h.request, h.session, h.connecting⟩
      · exact ⟨rfl, rfl, h.session, Or.inl rfl⟩

theorem reconnecting_of_connectSucceeds {rc : Bool} (hcoherent : Coherent s)
    (hstep : MqttSub.step s (.connectSucceeds rc) = some s') :
    Reconnecting s' := by
  obtain ⟨htask, rfl | ⟨-, rfl⟩ | ⟨-, last, rfl⟩⟩ :=
    step_connectSucceeds hcoherent hstep
  · exact ⟨htask, Or.inl rfl⟩
  · exact ⟨htask, Or.inl rfl⟩
  · exact ⟨by simp [State.ended], Or.inl rfl⟩

theorem Reconnecting.subscribeRequests_eq (h : Reconnecting s) (e : Event) :
    subscribeRequests s e = 0 := by
  cases hconnect : e.connects with
  | false => exact subscribeRequests_of_other hconnect s
  | true =>
      obtain ⟨rc, rfl⟩ := Event.exists_of_connects hconnect
      cases rc with
      | false => rfl
      | true =>
          rcases h.connecting with hnone | hplain
          · simp [subscribeRequests, hnone]
          · simp [subscribeRequests, hplain, plainOptions]

theorem Reconnecting.step (h : Reconnecting s) (hcoherent : Coherent s)
    (hstep : MqttSub.step s e = some s') : Reconnecting s' := by
  cases e with
  | start rc => exact absurd (step_start hstep).1 h.task
  | connectSucceeds rc => exact reconnecting_of_connectSucceeds hcoherent hstep
  | connectFails =>
      obtain ⟨-, ⟨-, rfl⟩ | ⟨-, rfl⟩⟩ := step_connectFails hcoherent hstep
      · exact ⟨h.task, Or.inl rfl⟩
      · exact ⟨h.task, Or.inl rfl⟩
  | brokerAnswers granted =>
      obtain ⟨opts, -, rfl⟩ := step_brokerAnswers hstep
      exact ⟨h.task, h.connecting⟩
  | answerArrives =>
      obtain ⟨-, -, rfl⟩ | ⟨-, rfl⟩ := step_answerArrives hcoherent hstep
      · exact ⟨h.task, h.connecting⟩
      · exact ⟨h.task, h.connecting⟩
  | connectionLost reported rc =>
      obtain ⟨htask, finished, connecting, rfl, hconnecting, -⟩ :=
        step_connectionLost hcoherent hstep
      exact ⟨htask, hconnecting.symm⟩
  | poll =>
      rcases step_poll hstep with rfl | ⟨-, rfl⟩ | rfl
      · exact h
      · exact ⟨nofun, h.connecting⟩
      · exact ⟨nofun, Or.inl rfl⟩

/-- The session of a reconnect is clean and stays so. -/
theorem Reconnecting.deaf {rc : Bool} (h : Reconnecting s)
    (hcoherent : Coherent s)
    (hstep : MqttSub.step s (.connectSucceeds rc) = some s') : Deaf s' := by
  have hreconnecting := h.step hcoherent hstep
  simp only [MqttSub.step] at hstep
  split_ifs at hstep
  obtain ⟨opts, hopts, rfl⟩ := Option.map_eq_some_iff.mp hstep
  obtain ⟨-, hidle, -⟩ := hcoherent.connecting opts hopts
  rcases h.connecting with hnone | hplain
  · rw [hnone] at hopts
    contradiction
  · rw [hplain] at hopts
    cases hopts
    exact ⟨hreconnecting, hidle, rfl⟩

theorem Deaf.step (h : Deaf s) (hcoherent : Coherent s)
    (hstep : MqttSub.step s e = some s') : Deaf s' := by
  have hreconnecting := h.toReconnecting.step hcoherent hstep
  cases e with
  | start rc => exact absurd (step_start hstep).1 h.task
  | connectSucceeds rc => exact h.toReconnecting.deaf hcoherent hstep
  | connectFails =>
      obtain ⟨-, ⟨-, rfl⟩ | ⟨-, rfl⟩⟩ := step_connectFails hcoherent hstep
      · exact ⟨hreconnecting, h.request, h.session⟩
      · exact ⟨hreconnecting, h.request, h.session⟩
  | brokerAnswers granted =>
      obtain ⟨opts, hrequest, -⟩ := step_brokerAnswers hstep
      rw [h.request] at hrequest
      contradiction
  | answerArrives =>
      obtain ⟨hrequest, -⟩ | ⟨hrequest, -⟩ :=
        step_answerArrives hcoherent hstep
      · rw [h.request] at hrequest
        contradiction
      · rw [h.request] at hrequest
        contradiction
  | connectionLost reported rc =>
      obtain ⟨-, finished, connecting, rfl, -, -⟩ :=
        step_connectionLost hcoherent hstep
      exact ⟨hreconnecting, rfl, h.session⟩
  | poll =>
      rcases step_poll hstep with rfl | ⟨-, rfl⟩ | rfl
      · exact h
      · exact ⟨hreconnecting, h.request, h.session⟩
      · exact ⟨hreconnecting, rfl, h.session⟩

end Steps

/-! ## Runs -/

section Runs

variable {s final : State} {events : List Event}

theorem Reconnecting.run (h : Reconnecting s) (hcoherent : Coherent s)
    (hrun : TransitionRuns.run MqttSub.step s events = some final) :
    total MqttSub.step subscribeRequests s events = 0 ∧
      (1 ≤ events.countP Event.connects ∨ Deaf s → Deaf final) := by
  induction events generalizing s with
  | nil =>
      cases hrun
      exact ⟨rfl, by simp⟩
  | cons e events ih =>
      obtain ⟨next, hnext, hrest⟩ := Option.bind_eq_some_iff.mp hrun
      obtain ⟨htotal, hdeaf⟩ := ih (h.step hcoherent hnext)
        (hcoherent.step hnext) hrest
      rw [total_cons_of_step hnext, h.subscribeRequests_eq, htotal]
      refine ⟨rfl, ?_⟩
      rintro (hconnects | hstill)
      · cases hconnect : e.connects with
        | true =>
            obtain ⟨rc, rfl⟩ := Event.exists_of_connects hconnect
            exact hdeaf (Or.inr (h.deaf hcoherent hnext))
        | false =>
            rw [List.countP_cons_of_neg (by simp [hconnect])] at hconnects
            exact hdeaf (Or.inl hconnects)
      · exact hdeaf (Or.inr (hstill.step hcoherent hnext))

theorem Unconnected.run (h : Unconnected s) (hcoherent : Coherent s)
    (hrun : TransitionRuns.run MqttSub.step s events = some final) :
    total MqttSub.step subscribeRequests s events ≤ 1 ∧
      (2 ≤ events.countP Event.connects → Deaf final) := by
  induction events generalizing s with
  | nil => exact ⟨Nat.zero_le 1, by simp⟩
  | cons e events ih =>
      obtain ⟨next, hnext, hrest⟩ := Option.bind_eq_some_iff.mp hrun
      rw [total_cons_of_step hnext]
      cases hconnect : e.connects with
      | false =>
          obtain ⟨htotal, hdeaf⟩ := ih (h.step hcoherent hconnect hnext)
            (hcoherent.step hnext) hrest
          rw [subscribeRequests_of_other hconnect, Nat.zero_add,
            List.countP_cons_of_neg (by simp [hconnect])]
          exact ⟨htotal, hdeaf⟩
      | true =>
          obtain ⟨rc, rfl⟩ := Event.exists_of_connects hconnect
          have hreconnecting := reconnecting_of_connectSucceeds hcoherent hnext
          obtain ⟨htotal, hdeaf⟩ :=
            hreconnecting.run (hcoherent.step hnext) hrest
          rw [htotal, List.countP_cons_of_pos hconnect]
          exact ⟨subscribeRequests_le_one s _,
            fun htwo => hdeaf (Or.inl (by omega))⟩

end Runs

/-- In every run one subscribe request is sent at most, and after the second
connection there is no subscription and no request for one. -/
theorem subscribes_once
    {events : List Event} {final : State}
    (hrun : run step State.initial events = some final) :
    total step subscribeRequests State.initial events ≤ 1 ∧
      (2 ≤ events.countP Event.connects →
        final.session = false ∧ final.request = .idle) := by
  obtain ⟨htotal, hdeaf⟩ := Unconnected.initial.run coherent_initial hrun
  exact ⟨htotal, fun htwo => ⟨(hdeaf htwo).session, (hdeaf htwo).request⟩⟩

/-- A subscribed client loses its connection and gets it back. -/
theorem subscribes_once_of_reconnect :
    let events : List Event :=
      [.start true, .connectSucceeds true, .brokerAnswers true,
        .answerArrives, .poll, .connectionLost true true,
        .connectSucceeds true]
    ∃ final, run step State.initial events = some final ∧
      final.subscribed = true ∧ final.connected = true ∧
      final.session = false ∧ final.request = .idle := by
  intro events
  obtain ⟨final, hrun⟩ : ∃ final, run step State.initial events =
    some final := ⟨_, rfl⟩
  obtain ⟨-, hdeaf⟩ := subscribes_once hrun
  obtain ⟨hsession, hrequest⟩ := hdeaf (by decide)
  refine ⟨final, hrun, ?_, ?_, hsession, hrequest⟩
  · cases hrun
    rfl
  · cases hrun
    rfl

end MqttSub

end ProfinetIo
