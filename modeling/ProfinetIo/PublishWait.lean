import ProfinetIo.InterleavedRuns
import ProfinetIo.MqttPub
import Mathlib.Tactic

/-!
# How long the publisher waits

The library confirms only what it has accepted.  Then the wait ends when the
published message has been confirmed, and after a failed publish, at once or
never: the flag stays zero, and `token` holds what the stack has left in it.
-/

namespace ProfinetIo

open InterleavedRuns TransitionRuns

namespace MqttPub

/-- The callback is invoked for the message of this call only. -/
def Confirms (s : State) : Event → Prop
  | .delivered dt => ∃ token, s.published = some token ∧ token.val = dt
  | .connect _ | .reset | .publishMessage _ | .check => True

/-- The next test of the loop ends it. -/
def WaitEnds (s : State) : Prop :=
  ∃ next, step s .check = some next ∧ next.phase = .returned

/-- What the variables hold if the library keeps its word: before a message has
been accepted `token` is what it was, and afterwards the flag is zero until the
message is confirmed. -/
structure Awaiting (token : ℤ) (s : State) : Prop where
  early : s.phase = .connect ∨ s.phase = .reset ∨ s.phase = .publish →
    s.published = none
  unaccepted : s.published = none → s.token = token
  accepted : ∀ message, s.published = some message → s.token = message.val
  unset : s.phase = .publish ∨ s.phase = .wait → s.published = none →
    s.deliveredtoken = 0
  flag : ∀ message, s.published = some message →
    (message.val ∈ s.confirmed ∧ s.deliveredtoken = message.val) ∨
      (message.val ∉ s.confirmed ∧ s.deliveredtoken = 0)

section Steps

variable {token : ℤ} {s s' : State}

theorem Awaiting.initial (token rc deliveredtoken : ℤ) :
    Awaiting token (State.initial token rc deliveredtoken) where
  early := fun _ => rfl
  unaccepted := fun _ => rfl
  accepted := nofun
  unset := by simp [State.initial]
  flag := nofun

theorem Awaiting.publishMessage {outcome : Option DeliveryToken}
    (h : Awaiting token s)
    (hfresh : s.phase = .publish → s.confirmed = [])
    (hstep : step s (.publishMessage outcome) = some s') :
    Awaiting token s' := by
  obtain ⟨hphase, rfl⟩ := step_publishMessage hstep
  have hnone := h.early (Or.inr (Or.inr hphase))
  have hzero := h.unset (Or.inl hphase) hnone
  cases outcome with
  | none =>
      exact ⟨fun _ => hnone, h.unaccepted, h.accepted, fun _ _ => hzero,
        h.flag⟩
  | some message =>
      refine ⟨by simp [MqttPub.publishMessage], nofun, ?_, nofun, ?_⟩
      · intro message' hmessage
        cases hmessage
        rfl
      · intro message' hmessage
        right
        refine ⟨?_, hzero⟩
        simp [MqttPub.publishMessage, hfresh hphase]

theorem Awaiting.delivered {dt : ℤ} (h : Awaiting token s)
    (hconfirms : Confirms s (.delivered dt))
    (hstep : step s (.delivered dt) = some s') : Awaiting token s' := by
  obtain ⟨message, hmessage, hvalue⟩ := hconfirms
  rw [step_delivered hstep]
  refine ⟨h.early, h.unaccepted, h.accepted, ?_, ?_⟩
  · intro _ hnone
    have hpublished : s.published = none := hnone
    rw [hmessage] at hpublished
    contradiction
  · intro message' hmessage'
    have hsame : s.published = some message' := hmessage'
    rw [hmessage, Option.some.injEq] at hsame
    left
    rw [← hsame, hvalue]
    exact ⟨List.mem_cons_self, rfl⟩

theorem Awaiting.step {e : Event} (h : Awaiting token s)
    (hfresh : s.phase = .publish → s.confirmed = [])
    (hconfirms : Confirms s e) (hstep : MqttPub.step s e = some s') :
    Awaiting token s' ∧ (s'.phase = .publish → s'.confirmed = []) := by
  cases e with
  | connect rc =>
      obtain ⟨hphase, rfl | ⟨-, rfl⟩⟩ := step_connect hstep
      · exact ⟨⟨by simp, h.unaccepted, h.accepted, by simp, h.flag⟩, nofun⟩
      · exact ⟨⟨fun _ => h.early (Or.inl hphase), h.unaccepted, h.accepted,
          by simp, h.flag⟩, nofun⟩
  | reset =>
      obtain ⟨hphase, rfl⟩ := step_reset hstep
      have hnone := h.early (Or.inr (Or.inl hphase))
      refine ⟨⟨fun _ => hnone, h.unaccepted, h.accepted, fun _ _ => rfl, ?_⟩,
        fun _ => rfl⟩
      intro message hmessage
      have hsome : s.published = some message := hmessage
      rw [hnone] at hsome
      contradiction
  | publishMessage outcome =>
      refine ⟨h.publishMessage hfresh hstep, ?_⟩
      obtain ⟨-, rfl⟩ := step_publishMessage hstep
      cases outcome with
      | none => exact nofun
      | some message => exact nofun
  | delivered dt =>
      refine ⟨h.delivered hconfirms hstep, ?_⟩
      intro hphase
      rw [step_delivered hstep] at hphase
      obtain ⟨message, hmessage, -⟩ := hconfirms
      rw [h.early (Or.inr (Or.inr hphase))] at hmessage
      contradiction
  | check =>
      obtain ⟨hphase, ⟨-, rfl⟩ | ⟨-, rfl⟩⟩ := step_check hstep
      · exact ⟨h, hfresh⟩
      · exact ⟨⟨by simp, h.unaccepted, h.accepted, by simp, h.flag⟩, nofun⟩

theorem waitEnds_iff_flag (hphase : s.phase = .wait) :
    WaitEnds s ↔ s.deliveredtoken = s.token := by
  simp only [WaitEnds, MqttPub.step, if_pos hphase, Option.some.injEq,
    exists_eq_left']
  unfold check
  split_ifs with hdiffer
  · simp [hphase, hdiffer]
  · simp [not_not.mp hdiffer]

theorem Awaiting.waitEnds_iff (h : Awaiting token s)
    (hphase : s.phase = .wait) :
    WaitEnds s ↔
      (∃ message, s.published = some message ∧ message.val ∈ s.confirmed) ∨
        (s.published = none ∧ token = 0) := by
  rw [waitEnds_iff_flag hphase]
  cases hpublished : s.published with
  | none =>
      rw [h.unset (Or.inr hphase) hpublished, h.unaccepted hpublished]
      simp [eq_comm]
  | some message =>
      rw [h.accepted message hpublished]
      rcases h.flag message hpublished with ⟨hmem, hflag⟩ | ⟨hmem, hflag⟩
      · simp [hflag, hmem]
      · simp [hflag, hmem, message.property.symm]

/-- Nothing is left to happen that could change the variables. -/
theorem Awaiting.stuck {e : Event} (h : Awaiting token s)
    (hphase : s.phase = .wait) (hunpublished : s.published = none)
    (htoken : token ≠ 0) (hconfirms : Confirms s e)
    (hstep : MqttPub.step s e = some s') : s' = s := by
  cases e with
  | connect rc =>
      rw [(step_connect hstep).1] at hphase
      contradiction
  | reset =>
      rw [(step_reset hstep).1] at hphase
      contradiction
  | publishMessage outcome =>
      rw [(step_publishMessage hstep).1] at hphase
      contradiction
  | delivered dt =>
      obtain ⟨message, hmessage, -⟩ := hconfirms
      rw [hunpublished] at hmessage
      contradiction
  | check =>
      obtain ⟨-, ⟨-, hsame⟩ | ⟨hequal, -⟩⟩ := step_check hstep
      · exact hsame
      · rw [h.unset (Or.inr hphase) hunpublished, h.unaccepted hunpublished]
          at hequal
        exact absurd hequal.symm htoken

end Steps

/-- In every call that has come to its wait, the next test ends it exactly if
the message has been confirmed, or if none was accepted and `token` happened to
be zero; and if none was accepted and `token` was not zero, the call never
returns. -/
theorem wait_ends_iff
    {token rc deliveredtoken : ℤ} {events : List Event} {s : State}
    (hconfirms : StepsAllowed step Confirms
      (State.initial token rc deliveredtoken) events)
    (hrun : run step (State.initial token rc deliveredtoken) events = some s)
    (hphase : s.phase = .wait) :
    (WaitEnds s ↔
      (∃ message, s.published = some message ∧ message.val ∈ s.confirmed) ∨
        (s.published = none ∧ token = 0)) ∧
    (s.published = none → token ≠ 0 → ∀ more final,
      StepsAllowed step Confirms s more → run step s more = some final →
        final.phase = .wait) := by
  have hawaiting := run_invariant_of_allowed
    (fun s => Awaiting token s ∧ (s.phase = .publish → s.confirmed = []))
    (fun s e s' h hallowed hstep => h.1.step h.2 hallowed hstep) hconfirms
    ⟨.initial token rc deliveredtoken, nofun⟩ hrun
  refine ⟨hawaiting.1.waitEnds_iff hphase, ?_⟩
  intro hunpublished htoken more final hmore hrunMore
  have hstays := run_invariant_of_allowed (fun current => current = s)
    (fun current e next hcurrent hallowed hstep => by
      subst hcurrent
      exact hawaiting.1.stuck hphase hunpublished htoken hallowed hstep)
    hmore rfl hrunMore
  rw [hstays]
  exact hphase

/-- A publish fails and leaves five in `token`. -/
theorem wait_ends_iff_of_failed_publish :
    let events : List Event := [.connect 0, .reset, .publishMessage none]
    ∃ s, run step (State.initial 5 0 0) events = some s ∧ ¬ WaitEnds s := by
  intro events
  obtain ⟨s, hrun⟩ : ∃ s, run step (State.initial 5 0 0) events = some s :=
    ⟨_, rfl⟩
  have hconfirms : StepsAllowed step Confirms (State.initial 5 0 0) events :=
    ⟨trivial, fun _ _ => ⟨trivial, fun _ _ => ⟨trivial, fun _ _ => trivial⟩⟩⟩
  refine ⟨s, hrun, ?_⟩
  have hunpublished : s.published = none ∧ s.phase = .wait := by
    cases hrun
    exact ⟨rfl, rfl⟩
  rw [(wait_ends_iff hconfirms hrun hunpublished.2).1, hunpublished.1]
  rintro (⟨message, hmessage, -⟩ | ⟨-, hzero⟩)
  · contradiction
  · contradiction

end MqttPub

end ProfinetIo
