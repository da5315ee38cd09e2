import ProfinetIo.TransitionRuns
import Mathlib.Tactic

/-!
# The MQTT publisher

One call of `mqtt_pub` with the `delivered` callback, which the library may
invoke at any time.  The call ignores what `MQTTClient_publishMessage` returns
and then waits until the flag of the callback equals `token`, a variable that
only a successful publish writes.  What the variables hold at the start is
whatever the stack and the last call have left.
-/

namespace ProfinetIo

open TransitionRuns

namespace MqttPub

def mqttclientSuccess : ℤ := 0

/-- A token that the library gives to a message it has accepted. -/
abbrev DeliveryToken := { token : ℤ // token ≠ 0 }

/-- Where `mqtt_pub` is: in front of one of its calls, in the wait loop, back at
its caller, or gone with the process. -/
inductive Phase where
  | connect
  | reset
  | publish
  | wait
  | returned
  | exited
  deriving DecidableEq, Repr

/-- The variables, the message that the call has published, and the tokens that
the callback has been invoked with since the flag was reset. -/
structure State where
  token : ℤ
  rc : ℤ
  deliveredtoken : ℤ
  phase : Phase
  published : Option DeliveryToken
  confirmed : List ℤ

def State.initial (token rc deliveredtoken : ℤ) : State where
  token := token
  rc := rc
  deliveredtoken := deliveredtoken
  phase := .connect
  published := none
  confirmed := []

def delivered (dt : ℤ) (s : State) : State :=
  { s with deliveredtoken := dt, confirmed := dt :: s.confirmed }

def connect (rc : ℤ) (s : State) : State :=
  if rc ≠ mqttclientSuccess then { s with rc := rc, phase := .exited }
  else { s with rc := rc, phase := .reset }

/-- `MQTTClient_publishMessage`, which writes the token if it succeeds. -/
def publishMessage (outcome : Option DeliveryToken) (s : State) : State :=
  match outcome with
  | none => { s with phase := .wait }
  | some token =>
      { s with token := token.val, phase := .wait, published := some token }

/-- `while(deliveredtoken != token)`. -/
def check (s : State) : State :=
  if s.deliveredtoken ≠ s.token then s else { s with phase := .returned }

inductive Event where
  | connect (rc : ℤ)
  | reset
  | publishMessage (outcome : Option DeliveryToken)
  | delivered (dt : ℤ)
  | check

def step (s : State) : Event → Option State
  | .connect rc => if s.phase = .connect then some (connect rc s) else none
  | .reset =>
      if s.phase = .reset then
        some { s with deliveredtoken := 0, phase := .publish, confirmed := [] }
      else none
  | .publishMessage outcome =>
      if s.phase = .publish then some (publishMessage outcome s) else none
  | .delivered dt => if s.phase = .exited then none else some (delivered dt s)
  | .check => if s.phase = .wait then some (check s) else none

/-! ## Success and delivery -/

/-- A call that has returned success has published a message whose token the
callback has confirmed. -/
def SuccessMeansDelivered (s : State) : Prop :=
  s.phase = .returned → s.rc = mqttclientSuccess →
    ∃ token, s.published = some token ∧ token.val ∈ s.confirmed

/-- After a publish that has failed, the loop does not find what was left in the
variable in the flag. -/
def LeftoverUnmatched (s : State) : Event → Prop
  | .check => s.published = none → s.deliveredtoken ≠ s.token
  | .connect _ | .reset | .publishMessage _ | .delivered _ => True

/-- Nothing is published before its time, the variable holds the token of what
has been, and the flag holds zero or a token that was confirmed. -/
structure Formed (s : State) : Prop where
  unpublished : s.phase = .connect ∨ s.phase = .reset ∨ s.phase = .publish →
    s.published = none
  token : ∀ token, s.published = some token → s.token = token.val
  flag : s.phase = .publish ∨ s.phase = .wait →
    s.deliveredtoken = 0 ∨ s.deliveredtoken ∈ s.confirmed
  rc : s.phase = .wait ∨ s.phase = .publish ∨ s.phase = .reset →
    s.rc = mqttclientSuccess

theorem Formed.initial (token rc deliveredtoken : ℤ) :
    Formed (State.initial token rc deliveredtoken) := by
  constructor <;> simp [State.initial]

section Steps

variable {s s' : State}

theorem step_connect {rc : ℤ} (hstep : step s (.connect rc) = some s') :
    s.phase = .connect ∧
      (s' = { s with rc := rc, phase := .exited } ∨
        (rc = mqttclientSuccess ∧ s' = { s with rc := rc, phase := .reset })) := by
  simp only [step] at hstep
  split_ifs at hstep with hphase
  cases hstep
  refine ⟨hphase, ?_⟩
  unfold connect
  split_ifs with hrc
  · exact Or.inl rfl
  · exact Or.inr ⟨not_not.mp hrc, rfl⟩

theorem step_reset (hstep : step s .reset = some s') :
    s.phase = .reset ∧
      s' = { s with deliveredtoken := 0, phase := .publish, confirmed := [] } := by
  simp only [step] at hstep
  split_ifs at hstep with hphase
  exact ⟨hphase, (Option.some.inj hstep).symm⟩

theorem step_publishMessage {outcome : Option DeliveryToken}
    (hstep : step s (.publishMessage outcome) = some s') :
    s.phase = .publish ∧ s' = publishMessage outcome s := by
  simp only [step] at hstep
  split_ifs at hstep with hphase
  exact ⟨hphase, (Option.some.inj hstep).symm⟩

theorem step_delivered {dt : ℤ} (hstep : step s (.delivered dt) = some s') :
    s' = delivered dt s := by
  simp only [step] at hstep
  split_ifs at hstep
  exact (Option.some.inj hstep).symm

theorem step_check (hstep : step s .check = some s') :
    s.phase = .wait ∧
      ((s.deliveredtoken ≠ s.token ∧ s' = s) ∨
        (s.deliveredtoken = s.token ∧ s' = { s with phase := .returned })) := by
  simp only [step] at hstep
  split_ifs at hstep with hphase
  cases hstep
  refine ⟨hphase, ?_⟩
  unfold check
  split_ifs with hequal
  · exact Or.inl ⟨hequal, rfl⟩
  · exact Or.inr ⟨not_not.mp hequal, rfl⟩

theorem Formed.step {e : Event} (h : Formed s)
    (hstep : MqttPub.step s e = some s') : Formed s' := by
  cases e with
  | connect rc =>
      obtain ⟨hphase, rfl | ⟨hrc, rfl⟩⟩ := step_connect hstep
      · exact ⟨by simp, h.token, by simp, by simp⟩
      · exact ⟨fun _ => h.unpublished (Or.inl hphase), h.token, by simp,
          fun _ => hrc⟩
  | reset =>
      obtain ⟨hphase, rfl⟩ := step_reset hstep
      exact ⟨fun _ => h.unpublished (Or.inr (Or.inl hphase)), h.token,
        fun _ => Or.inl rfl, fun _ => h.rc (Or.inr (Or.inr hphase))⟩
  | publishMessage outcome =>
      obtain ⟨hphase, rfl⟩ := step_publishMessage hstep
      have hflag := h.flag (Or.inl hphase)
      have hrc := h.rc (Or.inr (Or.inl hphase))
      cases outcome with
      | none =>
          exact ⟨by simp [publishMessage], h.token, fun _ => hflag,
            fun _ => hrc⟩
      | some token =>
          refine ⟨by simp [publishMessage], ?_, fun _ => hflag, fun _ => hrc⟩
          intro token' htoken'
          cases htoken'
          rfl
  | delivered dt =>
      rw [step_delivered hstep]
      exact ⟨h.unpublished, h.token, fun _ => Or.inr List.mem_cons_self, h.rc⟩
  | check =>
      obtain ⟨-, ⟨-, rfl⟩ | ⟨-, rfl⟩⟩ := step_check hstep
      · exact h
      · exact ⟨by simp, h.token, by simp, by simp⟩

/-- A loop that finds the flag equal to the token of a published message has
been told of its delivery. -/
theorem Formed.confirmed (h : Formed s) (hphase : s.phase = .wait)
    (hequal : s.deliveredtoken = s.token) {token : DeliveryToken}
    (htoken : s.published = some token) : token.val ∈ s.confirmed := by
  have hvalue := h.token token htoken
  rcases h.flag (Or.inr hphase) with hzero | hconfirmed
  · rw [hequal, hvalue] at hzero
    exact absurd hzero token.property
  · rwa [hequal, hvalue] at hconfirmed

theorem successMeansDelivered_of_phase (hphase : s.phase ≠ .returned) :
    SuccessMeansDelivered s := by
  intro hreturned
  exact absurd hreturned hphase

theorem successMeansDelivered_step {e : Event} (h : Formed s)
    (hgood : SuccessMeansDelivered s)
    (hstep : MqttPub.step s e = some s') :
    SuccessMeansDelivered s' ↔ LeftoverUnmatched s e := by
  cases e with
  | connect rc =>
      refine iff_of_true (successMeansDelivered_of_phase ?_) trivial
      obtain ⟨-, rfl | ⟨-, rfl⟩⟩ := step_connect hstep
      · simp
      · simp
  | reset =>
      refine iff_of_true (successMeansDelivered_of_phase ?_) trivial
      obtain ⟨-, rfl⟩ := step_reset hstep
      simp
  | publishMessage outcome =>
      refine iff_of_true (successMeansDelivered_of_phase ?_) trivial
      obtain ⟨-, rfl⟩ := step_publishMessage hstep
      cases outcome with
      | none => simp [publishMessage]
      | some token => simp [publishMessage]
  | delivered dt =>
      refine iff_of_true ?_ trivial
      rw [step_delivered hstep]
      intro hreturned hrc
      obtain ⟨token, htoken, hconfirmed⟩ := hgood hreturned hrc
      exact ⟨token, htoken, List.mem_cons_of_mem dt hconfirmed⟩
  | check =>
      obtain ⟨hphase, ⟨hdiffer, rfl⟩ | ⟨hequal, rfl⟩⟩ := step_check hstep
      · exact iff_of_true hgood fun _ => hdiffer
      · constructor
        · intro hgood' hnone
          obtain ⟨token, htoken, -⟩ := hgood' rfl (h.rc (Or.inl hphase))
          have hsome : s.published = some token := htoken
          rw [hnone] at hsome
          contradiction
        · intro hunmatched _ _
          obtain ⟨token, htoken⟩ := Option.ne_none_iff_exists'.mp
            (fun hnone => hunmatched hnone hequal)
          exact ⟨token, htoken, h.confirmed hphase hequal htoken⟩

end Steps

/-- Success means delivery in every state of a call exactly if the loop never
finds, after a failed publish, the leftover content of the variable. -/
theorem successMeansDelivered_iff
    (token rc deliveredtoken : ℤ) (events : List Event) :
    StatesMeet step SuccessMeansDelivered
        (State.initial token rc deliveredtoken) events ↔
      StepsMeet step LeftoverUnmatched
        (State.initial token rc deliveredtoken) events := by
  apply statesMeet_iff_stepsMeet (fun s e s' h hstep => Formed.step h hstep)
  · intro s e s' h hgood hstep
    exact successMeansDelivered_step h hgood hstep
  · exact Formed.initial token rc deliveredtoken
  · exact successMeansDelivered_of_phase (by simp [State.initial])

theorem success_without_publish :
    ¬ ∀ (token rc deliveredtoken : ℤ) (events : List Event) (s : State),
      run step (State.initial token rc deliveredtoken) events = some s →
        SuccessMeansDelivered s := by
  intro h
  obtain ⟨token, hpublished, -⟩ := h 0 0 0
    [.connect 0, .reset, .publishMessage none, .check] _ rfl rfl rfl
  contradiction

end MqttPub

end ProfinetIo
