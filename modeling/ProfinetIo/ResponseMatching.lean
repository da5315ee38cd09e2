import ProfinetIo.RequestAddressing
import ProfinetIo.TransitionRuns
import Mathlib.Tactic

/-!
# Responses and their requests

Every request has a socket of its own, which is not connected: `recvfrom` takes
the first datagram that reaches it, whoever sent it, and stores the sender
where nothing looks at it.  The activity is a constant and the sequence number
is zero in every header, so nothing in an answer tells which request it
answers.
-/

namespace ProfinetIo

open ByteMemory TransitionRuns

/-! ## Requests and what reaches them -/

inductive IoOperation where
  | read
  | write (data : List UInt8)

/-- A request that is handed to `sendto`: the address its host resolves to and
what is written into its datagram. -/
structure IoRequest where
  address : List UInt8
  heap : Memory
  api : ℕ
  slot : ℕ
  subslot : ℕ
  operation : IoOperation

def IoRequest.datagram (request : IoRequest) : Datagram where
  address := request.address
  port := 34964
  bytes :=
    match request.operation with
    | .read =>
        slice (readBuffer request.heap request.api request.slot
          request.subslot) 0 datagramSize
    | .write data =>
        slice (writeBuffer request.heap request.api request.slot
          request.subslot data) 0 datagramSize

structure Incoming where
  address : List UInt8
  port : ℕ
  bytes : List UInt8

/-- The socket of a request; `answer` is what `recvfrom` took from it. -/
structure RequestSocket where
  sent : Datagram
  isOpen : Bool
  answer : Option Incoming

/-- What happens between the program and the network.  Sockets are numbered in
the order of their requests. -/
inductive IoEvent where
  | request (request : IoRequest)
  | arrive (socket : ℕ) (incoming : Incoming)
  | expire (socket : ℕ)

def finish (sockets : List RequestSocket) (socket : ℕ)
    (answer : Option Incoming) : Option (List RequestSocket) :=
  match sockets[socket]? with
  | none => none
  | some waiting =>
      if waiting.isOpen then
        some (sockets.set socket ⟨waiting.sent, false, answer⟩)
      else
        none

def ioStep (sockets : List RequestSocket) :
    IoEvent → Option (List RequestSocket)
  | .request request => some (sockets ++ [⟨request.datagram, true, none⟩])
  | .arrive socket incoming => finish sockets socket (some incoming)
  | .expire socket => finish sockets socket none

def RequestSocket.published (socket : RequestSocket) : Option (List UInt8) :=
  (publishResponse ⟨0, [socket.sent],
    socket.answer.map fun incoming => incoming.bytes.take 2048⟩).published

/-! ## What is asked of a run -/

/-- The activity and the sequence number of an RPC header. -/
def rpcIdentity (bytes : List UInt8) : List UInt8 × List UInt8 :=
  ((bytes.drop 40).take 16, (bytes.drop 64).take 4)

/-- What is published comes from where the request was sent to, and no two
requests have the same activity and sequence number. -/
structure ResponsesMatch (sockets : List RequestSocket) : Prop where
  sender : ∀ socket ∈ sockets, ∀ incoming, socket.answer = some incoming →
    incoming.address = socket.sent.address ∧
      incoming.port = socket.sent.port
  identities : sockets.Pairwise fun socket socket' =>
    rpcIdentity socket.sent.bytes ≠ rpcIdentity socket'.sent.bytes

/-- The steps that the network has to leave out. -/
def MatchKept (sockets : List RequestSocket) : IoEvent → Prop
  | .request _ => sockets = []
  | .arrive socket incoming => ∀ waiting, sockets[socket]? = some waiting →
      incoming.address = waiting.sent.address ∧
        incoming.port = waiting.sent.port
  | .expire _ => True

/-! ## Identities -/

def commonIdentity : List UInt8 × List UInt8 :=
  rpcIdentity (rpcHeader 0x05).encode

theorem rpcIdentity_append (header : DceOrRpc) (rest : List UInt8) :
    rpcIdentity (header.encode ++ rest) = rpcIdentity header.encode := by
  unfold rpcIdentity
  rw [List.drop_append_of_le_length (by simp),
    List.drop_append_of_le_length (by simp),
    List.take_append_of_le_length (by simp),
    List.take_append_of_le_length (by simp)]

theorem rpcIdentity_datagram (request : IoRequest) :
    rpcIdentity request.datagram.bytes = commonIdentity := by
  unfold IoRequest.datagram
  cases request.operation with
  | read =>
      simp only [readDatagram_eq, DatagramParts.bytes, readParts,
        List.append_assoc, rpcIdentity_append]
      rfl
  | write data =>
      simp only [writeDatagram_eq_parts, DatagramParts.bytes, writeParts,
        List.append_assoc, rpcIdentity_append]
      rfl

/-! ## One step -/

def SameIdentity (sockets : List RequestSocket) : Prop :=
  ∀ socket ∈ sockets, rpcIdentity socket.sent.bytes = commonIdentity

theorem finish_cases
    {sockets next : List RequestSocket} {socket : ℕ}
    {answer : Option Incoming}
    (h : finish sockets socket answer = some next) :
    ∃ waiting, sockets[socket]? = some waiting ∧
      next = sockets.set socket ⟨waiting.sent, false, answer⟩ := by
  unfold finish at h
  split at h
  · contradiction
  · next waiting hwaiting =>
      split_ifs at h
      cases h
      exact ⟨waiting, hwaiting, rfl⟩

theorem sameIdentity_step
    {sockets next : List RequestSocket} {event : IoEvent}
    (h : SameIdentity sockets) (hstep : ioStep sockets event = some next) :
    SameIdentity next := by
  have hset {socket : ℕ} {answer : Option Incoming}
      (hfinish : finish sockets socket answer = some next) :
      SameIdentity next := by
    obtain ⟨waiting, hwaiting, rfl⟩ := finish_cases hfinish
    intro other hother
    rcases List.mem_or_eq_of_mem_set hother with hold | rfl
    · exact h other hold
    · exact h waiting (List.mem_of_getElem? hwaiting)
  cases event with
  | request request =>
      cases hstep
      intro socket hsocket
      rcases List.mem_append.mp hsocket with hold | hnew
      · exact h socket hold
      · rw [List.mem_singleton] at hnew
        rw [hnew]
        exact rpcIdentity_datagram request
  | arrive socket incoming => exact hset hstep
  | expire socket => exact hset hstep

theorem identities_iff {sockets : List RequestSocket}
    (h : SameIdentity sockets) :
    (sockets.Pairwise fun socket socket' =>
      rpcIdentity socket.sent.bytes ≠ rpcIdentity socket'.sent.bytes) ↔
      sockets.length ≤ 1 := by
  cases sockets with
  | nil => simp
  | cons first rest =>
      cases rest with
      | nil => simp
      | cons second rest =>
          refine iff_of_false ?_ (by simp)
          intro hpairwise
          have hdiffer := List.rel_of_pairwise_cons hpairwise
            (List.mem_cons_self (a := second))
          rw [h first (by simp), h second (by simp)] at hdiffer
          contradiction

theorem sender_set_iff
    {sockets : List RequestSocket} {socket : ℕ} {waiting : RequestSocket}
    {answer : Option Incoming}
    (hwaiting : sockets[socket]? = some waiting)
    (h : ∀ other ∈ sockets, ∀ incoming, other.answer = some incoming →
      incoming.address = other.sent.address ∧
        incoming.port = other.sent.port) :
    (∀ other ∈ sockets.set socket ⟨waiting.sent, false, answer⟩,
        ∀ incoming, other.answer = some incoming →
          incoming.address = other.sent.address ∧
            incoming.port = other.sent.port) ↔
      ∀ incoming, answer = some incoming →
        incoming.address = waiting.sent.address ∧
          incoming.port = waiting.sent.port := by
  constructor
  · intro hset incoming hanswer
    have hinside : socket < sockets.length :=
      (List.getElem?_eq_some_iff.mp hwaiting).1
    exact hset ⟨waiting.sent, false, answer⟩
      (List.mem_set hinside _) incoming hanswer
  · intro hanswer other hother
    rcases List.mem_or_eq_of_mem_set hother with hold | rfl
    · exact h other hold
    · exact hanswer

/-- A step keeps responses with their requests exactly if it is none of those
that the network would have to leave out. -/
theorem responsesMatch_step
    {sockets next : List RequestSocket} {event : IoEvent}
    (hsame : SameIdentity sockets) (h : ResponsesMatch sockets)
    (hstep : ioStep sockets event = some next) :
    ResponsesMatch next ↔ MatchKept sockets event := by
  have hsameNext := sameIdentity_step hsame hstep
  have hshort : sockets.length ≤ 1 := (identities_iff hsame).mp h.identities
  have hfinished {socket : ℕ} {answer : Option Incoming}
      (hfinish : finish sockets socket answer = some next) :
      ResponsesMatch next ↔
        ∀ waiting, sockets[socket]? = some waiting →
          ∀ incoming, answer = some incoming →
            incoming.address = waiting.sent.address ∧
              incoming.port = waiting.sent.port := by
    obtain ⟨waiting, hwaiting, rfl⟩ := finish_cases hfinish
    have hiff := @sender_set_iff sockets socket waiting answer hwaiting
      h.sender
    constructor
    · intro hnext other hother
      rw [hwaiting] at hother
      cases hother
      exact hiff.mp hnext.sender
    · intro hanswer
      constructor
      · exact hiff.mpr (hanswer waiting hwaiting)
      · rw [identities_iff hsameNext, List.length_set]
        exact hshort
  cases event with
  | request request =>
      cases hstep
      constructor
      · intro hnext
        have hlength := (identities_iff hsameNext).mp hnext.identities
        rw [List.length_append, List.length_singleton] at hlength
        exact List.eq_nil_of_length_eq_zero (by omega)
      · intro hnil
        have hnil' : sockets = [] := hnil
        subst hnil'
        constructor
        · simp
        · simp
  | arrive socket incoming =>
      rw [hfinished hstep]
      simp [MatchKept]
  | expire socket =>
      rw [hfinished hstep]
      simp [MatchKept]

/-- Responses stay with their requests throughout a run exactly if the run has
a single request and what arrives first at its socket comes from where it was
sent to. -/
theorem responsesMatch_iff (events : List IoEvent) :
    StatesMeet ioStep ResponsesMatch [] events ↔
      StepsMeet ioStep MatchKept [] events := by
  apply @statesMeet_iff_stepsMeet _ _ _ SameIdentity
  · intro sockets event next hsame hstep
    exact sameIdentity_step hsame hstep
  · intro sockets event next hsame h hstep
    exact responsesMatch_step hsame h hstep
  · simp [SameIdentity]
  · exact ⟨by simp, .nil⟩

def readOfOneDevice : IoRequest :=
  ⟨[192, 168, 1, 2], fun _ => 0, 0, 0, 0, .read⟩

def stranger : Incoming := ⟨[10, 0, 0, 9], 4444, [1]⟩

/-- The read is answered by a stranger, and a second read has the identity of
the first. -/
theorem responsesMatch_fails_on_foreign_datagram :
    (¬ ∀ events, StatesMeet ioStep ResponsesMatch [] events) ∧
    (¬ StatesMeet ioStep ResponsesMatch []
        [.request readOfOneDevice, .arrive 0 stranger]) ∧
    (RequestSocket.published
        ⟨readOfOneDevice.datagram, false, some stranger⟩ =
      some (CStrings.asciiBytes "\x7b\"response\": \"01\" \x7d")) ∧
    ¬ StatesMeet ioStep ResponsesMatch []
        [.request readOfOneDevice, .request readOfOneDevice] := by
  have hforeign : ¬ StatesMeet ioStep ResponsesMatch []
      [.request readOfOneDevice, .arrive 0 stranger] := by
    intro h
    have hfinal := (h.2 _ rfl).2 _ rfl
    have hport := (hfinal.sender _ List.mem_cons_self stranger rfl).2
    revert hport
    decide
  refine ⟨fun h => hforeign (h _), hforeign, by decide, ?_⟩
  intro h
  have hfinal := (h.2 _ rfl).2 _ rfl
  exact List.rel_of_pairwise_cons hfinal.identities List.mem_cons_self rfl

end ProfinetIo
