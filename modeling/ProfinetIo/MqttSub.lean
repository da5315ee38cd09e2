import ProfinetIo.TransitionRuns
import Mathlib.Tactic

/-!
# The MQTT subscriber

The callbacks of `mqtt_sub.c`, the task that starts them, and what the client
library and the broker do between them.  The library invokes the callbacks set
in the options of the request that is answered and no others, and it invokes
them one at a time.  Whether a call of the library succeeds, what the broker
answers, and when the connection is lost, is up to the event.
-/

namespace ProfinetIo

open TransitionRuns

namespace MqttSub

inductive Callback where
  | onConnect
  | onConnectFailure
  | onSubscribe
  | onSubscribeFailure
  deriving DecidableEq, Repr

structure ConnectOptions where
  keepAliveInterval : ℕ
  cleansession : Bool
  onSuccess : Option Callback
  onFailure : Option Callback
  deriving DecidableEq, Repr

structure ResponseOptions where
  onSuccess : Option Callback
  onFailure : Option Callback
  deriving DecidableEq, Repr

/-- The subscribe request for the topic: on its way to the broker, or answered
with the answer on its way to the client. -/
inductive Request where
  | idle
  | sent (opts : ResponseOptions)
  | answered (granted : Bool) (opts : ResponseOptions)
  deriving DecidableEq, Repr

/-- Where `create_mqtt_task` is. -/
inductive Task where
  | starting
  | waiting
  | serving
  | destroyed
  | exited
  deriving DecidableEq, Repr

/-- The flags of the client, its connection, a connect request under way, and
whether the session at the broker has the subscription. -/
structure State where
  subscribed : Bool
  finished : Bool
  connected : Bool
  connecting : Option ConnectOptions
  request : Request
  session : Bool
  task : Task
  deriving DecidableEq, Repr

def State.initial : State where
  subscribed := false
  finished := false
  connected := false
  connecting := none
  request := .idle
  session := false
  task := .starting

def State.running (s : State) : Bool :=
  s.task = .waiting || s.task = .serving

def State.ended (task : Task) (s : State) : State :=
  { s with
    connected := false
    connecting := none
    request := .idle
    task := task }

/-! ## Callbacks -/

def onSubscribe (s : State) : State := { s with subscribed := true }

def onSubscribeFailure (s : State) : State := { s with finished := true }

def onConnectFailure (s : State) : State := { s with finished := true }

/-- `rc` tells whether `MQTTAsync_subscribe` succeeds. -/
def onConnect (rc : Bool) (s : State) : State :=
  if rc then
    { s with request := .sent ⟨some .onSubscribe, some .onSubscribeFailure⟩ }
  else
    s.ended .exited

def invoke (rc : Bool) (callback : Option Callback) (s : State) : State :=
  match callback with
  | none => s
  | some .onConnect => onConnect rc s
  | some .onConnectFailure => onConnectFailure s
  | some .onSubscribe => onSubscribe s
  | some .onSubscribeFailure => onSubscribeFailure s

/-- `connlost`, whose options set no callback; `rc` tells whether
`MQTTAsync_connect` succeeds. -/
def connlost (rc : Bool) (s : State) : State :=
  if rc then { s with connecting := some ⟨20, true, none, none⟩ }
  else { s with finished := true }

/-! ## The task -/

def createMqttTask (rc : Bool) (s : State) : State :=
  if rc then
    { s with
      connecting := some ⟨20, true, some .onConnect, some .onConnectFailure⟩
      task := .waiting }
  else
    s.ended .exited

def poll (s : State) : State :=
  match s.task with
  | .waiting =>
      if s.subscribed then
        if s.finished then s.ended .destroyed else { s with task := .serving }
      else s
  | .starting | .serving | .destroyed | .exited => s

/-! ## Events -/

inductive Event where
  | start (rc : Bool)
  | connectSucceeds (rc : Bool)
  | connectFails
  | brokerAnswers (granted : Bool)
  | answerArrives
  | connectionLost (reported rc : Bool)
  | poll
  deriving DecidableEq, Repr

/-- A connect request is accepted: a clean session has no subscription. -/
def connectSucceeds (rc : Bool) (opts : ConnectOptions) (s : State) : State :=
  invoke rc opts.onSuccess
    { s with
      connected := true
      connecting := none
      session := if opts.cleansession then false else s.session }

/-- The connection breaks: a subscribe request under way is lost, and the
library may report it as failed before it calls `connlost`. -/
def connectionLost (reported rc : Bool) (s : State) : State :=
  let dropped := { s with connected := false, request := .idle }
  let dropped :=
    match s.request with
    | .idle => dropped
    | .sent opts | .answered _ opts =>
        if reported then invoke rc opts.onFailure dropped else dropped
  connlost rc dropped

def step (s : State) : Event → Option State
  | .start rc =>
      if s.task = .starting then some (createMqttTask rc s) else none
  | .connectSucceeds rc =>
      if s.running then
        s.connecting.map fun opts => connectSucceeds rc opts s
      else none
  | .connectFails =>
      if s.running then
        s.connecting.map fun opts =>
          invoke true opts.onFailure { s with connecting := none }
      else none
  | .brokerAnswers granted =>
      match s.request with
      | .sent opts =>
          some { s with
            session := s.session || granted
            request := .answered granted opts }
      | .idle | .answered _ _ => none
  | .answerArrives =>
      match s.request with
      | .answered granted opts =>
          some (invoke true (if granted then opts.onSuccess else opts.onFailure)
            { s with request := .idle })
      | .idle | .sent _ => none
  | .connectionLost reported rc =>
      if s.connected then some (connectionLost reported rc s) else none
  | .poll => if s.running then some (poll s) else none

end MqttSub

end ProfinetIo
