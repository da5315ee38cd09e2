import ProfinetIo.MessageLoop
import ProfinetIo.Reconnects
import Mathlib.Tactic

/-!
# The service over MQTT

The subscriber, the handler and the publisher together.  The broker sends a
message only to a connected client whose session has the subscription, and a
failed connect of the publisher ends the process.  So messages are handled
between the first connection and the second, and never after it.
-/

namespace ProfinetIo

open InterleavedRuns TransitionRuns

structure MqttService where
  subscriber : MqttSub.State
  loop : MessageLoop

inductive ServiceEvent where
  | subscriber (e : MqttSub.Event)
  | loop (e : LoopEvent)

/-- The events of one of the two. -/
def ServiceEvent.ofSubscriber : ServiceEvent → Option MqttSub.Event
  | .subscriber e => some e
  | .loop _ => none

def ServiceEvent.ofLoop : ServiceEvent → Option LoopEvent
  | .subscriber _ => none
  | .loop e => some e

/-- The publisher has called `exit`. -/
def Turn.exited : Turn → Bool
  | .idle => false
  | .publishing _ call => call.phase = .exited

/-- The library has a message only from a subscription. -/
def LoopEvent.served (s : MqttSub.State) : LoopEvent → Bool
  | .message _ _ _ _ => s.connected && s.session
  | .publisher _ => true

namespace MqttService

def initial : MqttService := ⟨MqttSub.State.initial, MessageLoop.initial⟩

def step (s : MqttService) (e : ServiceEvent) : Option MqttService :=
  if s.subscriber.task = .exited ∨ s.loop.turn.exited then none
  else
    match e with
    | .subscriber e =>
        (MqttSub.step s.subscriber e).map fun subscriber =>
          { s with subscriber := subscriber }
    | .loop e =>
        if e.served s.subscriber then
          (MessageLoop.step s.loop e).map fun loop => { s with loop := loop }
        else none

variable {s next : MqttService}

theorem subscriber_cases {e : MqttSub.Event}
    (h : step s (.subscriber e) = some next) :
    MqttSub.step s.subscriber e = some next.subscriber ∧
      next.loop = s.loop := by
  simp only [step] at h
  split_ifs at h
  obtain ⟨subscriber, hsubscriber, rfl⟩ := Option.map_eq_some_iff.mp h
  exact ⟨hsubscriber, rfl⟩

theorem loop_cases {e : LoopEvent} (h : step s (.loop e) = some next) :
    e.served s.subscriber = true ∧ MessageLoop.step s.loop e = some next.loop ∧
      next.subscriber = s.subscriber := by
  simp only [step] at h
  split_ifs at h with hover hserved
  obtain ⟨loop, hloop, rfl⟩ := Option.map_eq_some_iff.mp h
  exact ⟨hserved, hloop, rfl⟩

theorem subscriber_isComponent :
    IsComponent step MqttSub.step subscriber ServiceEvent.ofSubscriber where
  moves := by
    intro s label next e hstep hlabel
    cases label with
    | subscriber e' =>
        cases hlabel
        exact (subscriber_cases hstep).1
    | loop e' => contradiction
  keeps := by
    intro s label next hstep hlabel
    cases label with
    | subscriber e' => contradiction
    | loop e' => exact (loop_cases hstep).2.2

theorem loop_isComponent :
    IsComponent step MessageLoop.step loop ServiceEvent.ofLoop where
  moves := by
    intro s label next e hstep hlabel
    cases label with
    | subscriber e' => contradiction
    | loop e' =>
        cases hlabel
        exact (loop_cases hstep).2.1
  keeps := by
    intro s label next hstep hlabel
    cases label with
    | subscriber e' => exact (subscriber_cases hstep).2
    | loop e' => contradiction

/-- Without a subscription or a connection the handler is not called. -/
theorem handled_of_unserved {label : ServiceEvent}
    (hunserved : s.subscriber.connected = false ∨
      s.subscriber.session = false)
    (hstep : step s label = some next) :
    next.loop.handled = s.loop.handled := by
  cases label with
  | subscriber e => rw [(subscriber_cases hstep).2]
  | loop e =>
      obtain ⟨hserved, hloop, -⟩ := loop_cases hstep
      cases e with
      | message call token rc deliveredtoken =>
          simp only [LoopEvent.served, Bool.and_eq_true] at hserved
          rcases hunserved with hconnected | hsession
          · rw [hconnected] at hserved
            exact absurd hserved.1 Bool.false_ne_true
          · rw [hsession] at hserved
            exact absurd hserved.2 Bool.false_ne_true
      | publisher e =>
          obtain ⟨text, call, call', -, -, hhandled, -, -⟩ :=
            MessageLoop.publisher_cases hloop
          exact hhandled

/-! ## Before the first connection and after the second -/

/-- A service that has handled nothing but these messages, and whose client is
as yet unconnected. -/
structure Untouched (s : MqttService) : Prop where
  unconnected : MqttSub.Unconnected s.subscriber
  coherent : MqttSub.Coherent s.subscriber
  handled : s.loop.handled = []

theorem Untouched.step {label : ServiceEvent} (h : Untouched s)
    (hconnects : ∀ e, label.ofSubscriber = some e → e.connects = false)
    (hstep : MqttService.step s label = some next) : Untouched next := by
  have hhandled := handled_of_unserved (Or.inl h.unconnected.connected) hstep
  rw [h.handled] at hhandled
  cases label with
  | subscriber e =>
      obtain ⟨hsubscriber, -⟩ := subscriber_cases hstep
      exact ⟨h.unconnected.step h.coherent (hconnects e rfl) hsubscriber,
        h.coherent.step hsubscriber, hhandled⟩
  | loop e =>
      obtain ⟨-, -, hsame⟩ := loop_cases hstep
      exact ⟨hsame ▸ h.unconnected, hsame ▸ h.coherent, hhandled⟩

/-- A deaf client is never told of a message again. -/
theorem handled_of_deaf
    {labels : List ServiceEvent} {final : MqttService}
    (hdeaf : MqttSub.Deaf s.subscriber)
    (hcoherent : MqttSub.Coherent s.subscriber)
    (hrun : run MqttService.step s labels = some final) :
    final.loop.handled = s.loop.handled := by
  refine run_keeps
    (fun current : MqttService => MqttSub.Deaf current.subscriber ∧
      MqttSub.Coherent current.subscriber)
    (fun current => current.loop.handled) ?_ ⟨hdeaf, hcoherent⟩ hrun
  rintro current label next ⟨hdeaf, hcoherent⟩ hstep
  refine ⟨?_, handled_of_unserved (Or.inr hdeaf.session) hstep⟩
  cases label with
  | subscriber e =>
      obtain ⟨hsubscriber, -⟩ := subscriber_cases hstep
      exact ⟨hdeaf.step hcoherent hsubscriber, hcoherent.step hsubscriber⟩
  | loop e =>
      obtain ⟨-, -, hkept⟩ := loop_cases hstep
      exact ⟨hkept ▸ hdeaf, hkept ▸ hcoherent⟩

end MqttService

/-- However the callbacks, the messages and the publisher's steps come, nothing
is handled before the first connection, and after the second nothing is
handled any more: all that is still published answers what was handled
before. -/
theorem served_between_connections
    {labels : List ServiceEvent} {s : MqttService}
    (hrun : run MqttService.step MqttService.initial labels = some s) :
    let connections :=
      (labels.filterMap ServiceEvent.ofSubscriber).countP
        MqttSub.Event.connects
    (connections = 0 → s.loop.handled = []) ∧
      (2 ≤ connections → ∀ more final,
        run MqttService.step s more = some final →
          final.loop.handled = s.loop.handled ∧
            (final.loop.published ++ final.loop.turn.pending).Sublist
              (answers s.loop.handled)) := by
  intro connections
  refine ⟨?_, ?_⟩
  · intro hnone
    have hconnects : ∀ label ∈ labels, ∀ e,
        label.ofSubscriber = some e → e.connects = false := by
      intro label hlabel e he
      have hmem : e ∈ labels.filterMap ServiceEvent.ofSubscriber :=
        List.mem_filterMap.mpr ⟨label, hlabel, he⟩
      simpa using List.countP_eq_zero.mp hnone e hmem
    have huntouched := run_invariant_of_allowed MqttService.Untouched
      (fun _ _ _ h => h.step) (stepsAllowed_of_forall hconnects _)
      ⟨MqttSub.Unconnected.initial, MqttSub.coherent_initial, rfl⟩ hrun
    exact huntouched.handled
  · intro htwo more final hmore
    have hsubscriber := MqttService.subscriber_isComponent.run_view hrun
    have hdeaf := (MqttSub.Unconnected.initial.run MqttSub.coherent_initial
      hsubscriber).2 htwo
    have hcoherent : MqttSub.Coherent s.subscriber :=
      run_invariant MqttSub.Coherent (fun _ _ _ h => h.step)
        MqttSub.coherent_initial hsubscriber
    have hhandled := MqttService.handled_of_deaf hdeaf hcoherent hmore
    refine ⟨hhandled, ?_⟩
    have hloop := MqttService.loop_isComponent.run_view
      ((run_append MqttService.initial labels more).trans (by
        rw [hrun, Option.bind_some, hmore]))
    have htexts := (MessageLoop.run_texts hloop (List.Sublist.refl [])).1
    rw [hhandled] at htexts
    exact htexts

/-- A message is handled, then the connection is lost and made again. -/
theorem served_between_connections_of_reconnect :
    let labels : List ServiceEvent :=
      [.subscriber (.start true), .subscriber (.connectSucceeds true),
        .subscriber (.brokerAnswers true),
        .loop (.message farthestWrite 5 0 0),
        .subscriber (.connectionLost true true),
        .subscriber (.connectSucceeds true)]
    ∃ s, run MqttService.step MqttService.initial labels = some s ∧
      ∀ more final, run MqttService.step s more = some final →
        final.loop.handled = [farthestWrite] := by
  intro labels
  have hwrite : farthestWrite.IsWrite := by
    unfold HandlerCall.IsWrite
    decide
  obtain ⟨text, htext⟩ := Option.ne_none_iff_exists'.mp
    (HandlerCall.result_of_supported (Or.inr hwrite)).2
  let granted : MqttSub.State :=
    ⟨false, false, true, none,
      .answered true ⟨some .onSubscribe, some .onSubscribeFailure⟩, true,
      .waiting⟩
  let publishing : MessageLoop :=
    ⟨.publishing text (.initial 5 0 0), [farthestWrite], []⟩
  have hconnect : run MqttService.step MqttService.initial (labels.take 3) =
      some ⟨granted, MessageLoop.initial⟩ := rfl
  have hmessage : MqttService.step ⟨granted, MessageLoop.initial⟩
      (.loop (.message farthestWrite 5 0 0)) = some ⟨granted, publishing⟩ := by
    simp [MqttService.step, MessageLoop.step, MessageLoop.message,
      MessageLoop.initial, LoopEvent.served, Turn.exited, granted, publishing,
      htext]
  have hreconnect : ∃ subscriber, run MqttService.step ⟨granted, publishing⟩
      (labels.drop 4) = some ⟨subscriber, publishing⟩ := ⟨_, rfl⟩
  obtain ⟨subscriber, hlast⟩ := hreconnect
  have hrun : run MqttService.step MqttService.initial labels =
      some ⟨subscriber, publishing⟩ := by
    rw [← List.take_append_drop 3 labels, run_append, hconnect,
      Option.bind_some]
    exact (run_cons_of_step hmessage _).trans hlast
  obtain ⟨-, hserved⟩ := served_between_connections hrun
  refine ⟨_, hrun, ?_⟩
  intro more final hmore
  exact (hserved (by decide) more final hmore).1

end ProfinetIo
