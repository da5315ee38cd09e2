import ProfinetIo.PublishWait
import ProfinetIo.ResponseReports
import Mathlib.Tactic

/-!
# Answers to messages

The library calls `msgarrvd` for one message at a time, and the handler does not
return before `send_mqtt_pub_default` does.  So the answers that the library has
accepted, with the one that is still to be published, are those of the handled
messages in their order, except for the ones that a failure has lost.
-/

namespace ProfinetIo

open InterleavedRuns TransitionRuns

inductive Turn where
  | idle
  | publishing (text : List UInt8) (call : MqttPub.State)

structure MessageLoop where
  turn : Turn
  handled : List HandlerCall
  published : List (List UInt8)

/-- `token`, `rc` and `deliveredtoken` are what the variables of the publisher
hold when it is called. -/
inductive LoopEvent where
  | message (call : HandlerCall) (token rc deliveredtoken : ℤ)
  | publisher (e : MqttPub.Event)

def answers (handled : List HandlerCall) : List (List UInt8) :=
  handled.filterMap fun call => call.result.published

namespace Turn

/-- The text that the publisher has not tried to publish yet. -/
def pending : Turn → List (List UInt8)
  | .idle => []
  | .publishing text call =>
      match call.phase with
      | .connect | .reset | .publish => [text]
      | .wait | .returned | .exited => []

/-- The text whose publish has failed while the stack held no zero. -/
def Blocked : Turn → Prop
  | .idle => False
  | .publishing _ call =>
      call.phase = .wait ∧ call.published = none ∧ call.token ≠ 0

end Turn

namespace LoopEvent

/-- The failures that the handler does not hear of. -/
def Loses : LoopEvent → Prop
  | .publisher (.connect rc) => rc ≠ MqttPub.mqttclientSuccess
  | .publisher (.publishMessage none) => True
  | .publisher (.publishMessage (some _)) | .publisher .reset
  | .publisher (.delivered _) | .publisher .check | .message _ _ _ _ => False

end LoopEvent

namespace MessageLoop

def initial : MessageLoop := ⟨.idle, [], []⟩

def message (call : HandlerCall) (token rc deliveredtoken : ℤ)
    (s : MessageLoop) : Option MessageLoop :=
  match s.turn with
  | .publishing _ _ => none
  | .idle =>
      some { s with
        turn :=
          match call.result.published with
          | none => .idle
          | some text =>
              .publishing text (.initial token rc deliveredtoken)
        handled := s.handled ++ [call] }

def acceptedTexts (text : List UInt8) : MqttPub.Event → List (List UInt8)
  | .publishMessage (some _) => [text]
  | .publishMessage none | .connect _ | .reset | .delivered _ | .check => []

def publisher (e : MqttPub.Event) (s : MessageLoop) : Option MessageLoop :=
  match s.turn with
  | .idle => none
  | .publishing text call =>
      (MqttPub.step call e).map fun next =>
        { s with
          turn := if next.phase = .returned then .idle
            else .publishing text next
          published := s.published ++ acceptedTexts text e }

def step (s : MessageLoop) : LoopEvent → Option MessageLoop
  | .message call token rc deliveredtoken =>
      message call token rc deliveredtoken s
  | .publisher e => publisher e s

/-- The library confirms nothing but the message of the call. -/
def Confirms (s : MessageLoop) : LoopEvent → Prop
  | .message _ _ _ _ => True
  | .publisher e => ∀ text call, s.turn = .publishing text call →
      MqttPub.Confirms call e

/-! ## Steps -/

section Steps

variable {s next : MessageLoop}

theorem message_cases {call : HandlerCall} {token rc deliveredtoken : ℤ}
    (h : step s (.message call token rc deliveredtoken) = some next) :
    s.turn = .idle ∧ next.handled = s.handled ++ [call] ∧
      next.published = s.published ∧
      ((call.result.published = none ∧ next.turn = .idle) ∨
        ∃ text, call.result.published = some text ∧
          next.turn =
            .publishing text (.initial token rc deliveredtoken)) := by
  simp only [step, message] at h
  cases hturn : s.turn with
  | publishing text current => simp [hturn] at h
  | idle =>
      simp only [hturn, Option.some.injEq] at h
      subst h
      refine ⟨rfl, rfl, rfl, ?_⟩
      cases hresult : call.result.published with
      | none => exact Or.inl ⟨rfl, rfl⟩
      | some text => exact Or.inr ⟨text, rfl, rfl⟩

theorem publisher_cases {e : MqttPub.Event}
    (h : step s (.publisher e) = some next) :
    ∃ text call call', s.turn = .publishing text call ∧
      MqttPub.step call e = some call' ∧ next.handled = s.handled ∧
      next.published = s.published ++ acceptedTexts text e ∧
      ((call'.phase = .returned ∧ next.turn = .idle) ∨
        next.turn = .publishing text call') := by
  simp only [step, publisher] at h
  cases hturn : s.turn with
  | idle => simp [hturn] at h
  | publishing text call =>
      rw [hturn] at h
      obtain ⟨call', hcall', rfl⟩ := Option.map_eq_some_iff.mp h
      refine ⟨text, call, call', rfl, hcall', rfl, rfl, ?_⟩
      by_cases hphase : call'.phase = .returned
      · exact Or.inl ⟨hphase, if_pos hphase⟩
      · exact Or.inr (if_neg hphase)

theorem pending_step {text : List UInt8} {call call' : MqttPub.State}
    {e : MqttPub.Event} (h : MqttPub.step call e = some call') :
    (acceptedTexts text e ++ (Turn.publishing text call').pending).Sublist
        (Turn.publishing text call).pending ∧
      (¬ (LoopEvent.publisher e).Loses →
        acceptedTexts text e ++ (Turn.publishing text call').pending =
          (Turn.publishing text call).pending) := by
  cases e with
  | connect rc =>
      have hphase := (MqttPub.step_connect h).1
      simp only [MqttPub.step, if_pos hphase, MqttPub.connect,
        Option.some.injEq] at h
      subst h
      split_ifs with hrc
      · simp [acceptedTexts, Turn.pending, hphase, LoopEvent.Loses, hrc]
      · simp [acceptedTexts, Turn.pending, hphase]
  | reset =>
      obtain ⟨hphase, rfl⟩ := MqttPub.step_reset h
      simp [acceptedTexts, Turn.pending, hphase]
  | publishMessage outcome =>
      obtain ⟨hphase, rfl⟩ := MqttPub.step_publishMessage h
      cases outcome with
      | none =>
          simp [acceptedTexts, Turn.pending, hphase, LoopEvent.Loses,
            MqttPub.publishMessage]
      | some token =>
          simp [acceptedTexts, Turn.pending, hphase, MqttPub.publishMessage]
  | delivered dt =>
      rw [MqttPub.step_delivered h]
      simp [acceptedTexts, Turn.pending, MqttPub.delivered]
  | check =>
      obtain ⟨hphase, ⟨-, rfl⟩ | ⟨-, rfl⟩⟩ := MqttPub.step_check h
      · simp [acceptedTexts]
      · simp [acceptedTexts, Turn.pending, hphase]

theorem step_texts {e : LoopEvent} (h : step s e = some next) :
    ∃ more, answers next.handled = answers s.handled ++ more ∧
      (next.published ++ next.turn.pending).Sublist
        (s.published ++ s.turn.pending ++ more) ∧
      (¬ e.Loses → next.published ++ next.turn.pending =
        s.published ++ s.turn.pending ++ more) := by
  cases e with
  | message call token rc deliveredtoken =>
      obtain ⟨hidle, hhandled, hpublished, hturn⟩ := message_cases h
      refine ⟨call.result.published.toList, ?_, ?_⟩
      · rw [hhandled, answers, answers, List.filterMap_append]
        cases hresult : call.result.published <;> simp [hresult]
      · have htexts : next.published ++ next.turn.pending =
            s.published ++ s.turn.pending ++
              call.result.published.toList := by
          rcases hturn with ⟨hnone, hturn⟩ | ⟨text, htext, hturn⟩
          · simp [hpublished, hidle, hnone, hturn, Turn.pending]
          · simp [hpublished, hidle, htext, hturn, Turn.pending,
              MqttPub.State.initial]
        rw [htexts]
        exact ⟨List.Sublist.refl _, fun _ => rfl⟩
  | publisher e =>
      obtain ⟨text, call, call', hturn, hcall, hhandled, hpublished, hnext⟩ :=
        publisher_cases h
      obtain ⟨hsublist, hsame⟩ := pending_step hcall
      have hpending : next.turn.pending =
          (Turn.publishing text call').pending := by
        rcases hnext with ⟨hreturned, hidle⟩ | hstill
        · rw [hidle, Turn.pending, Turn.pending, hreturned]
        · rw [hstill]
      refine ⟨[], by rw [hhandled, List.append_nil], ?_, ?_⟩
      · rw [hpublished, hpending, hturn, List.append_nil, List.append_assoc]
        exact List.Sublist.append (List.Sublist.refl _) hsublist
      · intro hkeeps
        rw [hpublished, hpending, hturn, List.append_nil, List.append_assoc,
          hsame hkeeps]

theorem run_texts
    {events : List LoopEvent} {final : MessageLoop}
    (hrun : run step s events = some final)
    (htexts : (s.published ++ s.turn.pending).Sublist (answers s.handled)) :
    (final.published ++ final.turn.pending).Sublist
        (answers final.handled) ∧
      ((∀ e ∈ events, ¬ e.Loses) →
        s.published ++ s.turn.pending = answers s.handled →
          final.published ++ final.turn.pending = answers final.handled) := by
  induction events generalizing s with
  | nil =>
      cases hrun
      exact ⟨htexts, fun _ hsame => hsame⟩
  | cons e events ih =>
      obtain ⟨next, hnext, hrest⟩ := Option.bind_eq_some_iff.mp hrun
      obtain ⟨more, hanswers, hsublist, hsame⟩ := step_texts hnext
      have hnextTexts : (next.published ++ next.turn.pending).Sublist
          (answers next.handled) := by
        rw [hanswers]
        exact hsublist.trans (htexts.append (List.Sublist.refl more))
      obtain ⟨hfinal, hexact⟩ := ih hrest hnextTexts
      refine ⟨hfinal, ?_⟩
      intro hkeeps hstart
      obtain ⟨hfirst, hothers⟩ := List.forall_mem_cons.mp hkeeps
      apply hexact hothers
      rw [hsame hfirst, hanswers, hstart]

end Steps

/-! ## A lost answer -/

/-- The publisher's variables are those of a call that the library keeps its
word to. -/
def Waiting (s : MessageLoop) : Prop :=
  ∀ text call, s.turn = .publishing text call →
    ∃ token, MqttPub.Awaiting token call ∧
      (call.phase = .publish → call.confirmed = [])

section Waiting

variable {s next : MessageLoop} {e : LoopEvent}

theorem Waiting.step (h : Waiting s) (hconfirms : Confirms s e)
    (hstep : MessageLoop.step s e = some next) : Waiting next := by
  intro text' call' hturn'
  cases e with
  | message call token rc deliveredtoken =>
      obtain ⟨-, -, -, ⟨-, hidle⟩ | ⟨text, -, hturn⟩⟩ := message_cases hstep
      · rw [hidle] at hturn'
        contradiction
      · rw [hturn] at hturn'
        cases hturn'
        exact ⟨token, .initial token rc deliveredtoken, nofun⟩
  | publisher e =>
      obtain ⟨text, call, following, hturn, hcall, -, -, hnext⟩ :=
        publisher_cases hstep
      rcases hnext with ⟨-, hidle⟩ | hstill
      · rw [hidle] at hturn'
        contradiction
      · rw [hstill] at hturn'
        cases hturn'
        obtain ⟨token, hawaiting, hfresh⟩ := h _ _ hturn
        exact ⟨token, hawaiting.step hfresh (hconfirms _ _ hturn) hcall⟩

theorem Waiting.blocked (h : Waiting s) (hblocked : s.turn.Blocked)
    (hconfirms : Confirms s e) (hstep : MessageLoop.step s e = some next) :
    next.turn = s.turn ∧ next.handled = s.handled ∧
      next.published = s.published := by
  cases e with
  | message call token rc deliveredtoken =>
      rw [(message_cases hstep).1] at hblocked
      exact hblocked.elim
  | publisher e =>
      obtain ⟨text, call, following, hturn, hcall, hhandled, hpublished,
        hnext⟩ := publisher_cases hstep
      rw [hturn] at hblocked
      obtain ⟨hphase, hunpublished, htoken⟩ := hblocked
      obtain ⟨token, hawaiting, -⟩ := h text call hturn
      have hsame : following = call := by
        refine hawaiting.stuck hphase hunpublished ?_
          (hconfirms text call hturn) hcall
        rw [← hawaiting.unaccepted hunpublished]
        exact htoken
      have hnone : acceptedTexts text e = [] := by
        cases e with
        | publishMessage outcome =>
            rw [(MqttPub.step_publishMessage hcall).1] at hphase
            contradiction
        | connect rc => rfl
        | reset => rfl
        | delivered dt => rfl
        | check => rfl
      subst hsame
      rcases hnext with ⟨hreturned, -⟩ | hstill
      · rw [hphase] at hreturned
        contradiction
      · rw [hstill, hturn, hhandled, hpublished, hnone, List.append_nil]
        exact ⟨rfl, rfl, rfl⟩

end Waiting

end MessageLoop

/-- Whatever the publisher meets, no answer is published twice or out of order;
without a failure none is lost; and once a publish has failed while `token` was
not zero, no message is handled any more. -/
theorem answers_in_order
    {events : List LoopEvent} {s : MessageLoop}
    (hconfirms : StepsAllowed MessageLoop.step MessageLoop.Confirms
      MessageLoop.initial events)
    (hrun : run MessageLoop.step MessageLoop.initial events = some s) :
    (s.published ++ s.turn.pending).Sublist (answers s.handled) ∧
    ((∀ e ∈ events, ¬ e.Loses) →
      s.published ++ s.turn.pending = answers s.handled) ∧
    (s.turn.Blocked → ∀ more final,
      StepsAllowed MessageLoop.step MessageLoop.Confirms s more →
        run MessageLoop.step s more = some final →
          final.handled = s.handled ∧ final.published = s.published) := by
  obtain ⟨hsublist, hexact⟩ :=
    MessageLoop.run_texts hrun (List.Sublist.refl [])
  refine ⟨hsublist, fun hkeeps => hexact hkeeps rfl, ?_⟩
  intro hblocked more final hmore hrunMore
  have hwaiting := run_invariant_of_allowed MessageLoop.Waiting
    (fun _ _ _ h hallowed hstep => h.step hallowed hstep) hconfirms nofun hrun
  have hkept := run_keeps_of_allowed
    (fun current : MessageLoop => current.Waiting ∧ current.turn.Blocked)
    (fun current => (current.handled, current.published))
    (fun current e next hcurrent hallowed hstep => by
      obtain ⟨hturn, hhandled, hpublished⟩ :=
        hcurrent.1.blocked hcurrent.2 hallowed hstep
      exact ⟨⟨hcurrent.1.step hallowed hstep, hturn ▸ hcurrent.2⟩,
        Prod.ext hhandled hpublished⟩)
    hmore ⟨hwaiting, hblocked⟩ hrunMore
  exact Prod.ext_iff.mp hkept

/-- The first answer is lost and leaves five in `token`. -/
theorem answers_in_order_of_failed_publish :
    let events : List LoopEvent :=
      [.message farthestWrite 5 0 0, .publisher (.connect 0),
        .publisher .reset, .publisher (.publishMessage none)]
    ∃ s, run MessageLoop.step MessageLoop.initial events = some s ∧
      s.handled = [farthestWrite] ∧ ∀ more final,
        StepsAllowed MessageLoop.step MessageLoop.Confirms s more →
          run MessageLoop.step s more = some final →
            final.handled = [farthestWrite] ∧ final.published = [] := by
  intro events
  have hwrite : farthestWrite.IsWrite := by
    unfold HandlerCall.IsWrite
    decide
  obtain ⟨text, htext⟩ := Option.ne_none_iff_exists'.mp
    (HandlerCall.result_of_supported (Or.inr hwrite)).2
  have hrun : run MessageLoop.step MessageLoop.initial events =
      some ⟨.publishing text ⟨5, 0, 0, .wait, none, []⟩, [farthestWrite],
        []⟩ := by
    simp [events, run, MessageLoop.step, MessageLoop.message,
      MessageLoop.publisher, MessageLoop.initial, MessageLoop.acceptedTexts,
      htext, MqttPub.step, MqttPub.State.initial, MqttPub.connect,
      MqttPub.publishMessage, MqttPub.mqttclientSuccess]
  have hconfirms : StepsAllowed MessageLoop.step MessageLoop.Confirms
      MessageLoop.initial events :=
    ⟨trivial, fun _ _ => ⟨fun _ _ _ => trivial, fun _ _ =>
      ⟨fun _ _ _ => trivial, fun _ _ => ⟨fun _ _ _ => trivial,
        fun _ _ => trivial⟩⟩⟩⟩
  obtain ⟨-, -, hblocked⟩ := answers_in_order hconfirms hrun
  exact ⟨_, hrun, rfl, hblocked ⟨rfl, rfl, fun hzero => by contradiction⟩⟩

end ProfinetIo
