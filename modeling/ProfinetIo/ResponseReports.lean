import ProfinetIo.RequestAddressing
import Mathlib.Tactic

/-!
# What a request reports

`send_read_IO_Packet` and `send_write_IO_Packet` report an unresolved host, but
a failed `sendto` and a time-out fall through to the `return 0` of a request
that has been answered.  `mqtt_msg_hdlr` looks neither at the return value nor
at the size: whatever happened, a supported operation ends with a published
text and with 0.
-/

namespace ProfinetIo

open ByteMemory CStrings

/-- The request was sent and this datagram came back in time. -/
def Answered (net : Network) (ip packet response : List UInt8) : Prop :=
  ∃ address, net.gethostbyname ip = some address ∧
    0 ≤ net.sendto ⟨address, 34964, packet⟩ ∧
    net.recvfrom.map Subtype.val = some response

def SenderReports (net : Network) (ip packet : List UInt8)
    (result : IoResult) : Prop :=
  result.ret = 0 ↔
    ∃ response, Answered net ip packet response ∧
      result.response = some response

/-- The outcomes of the network that the senders tell apart. -/
def OutcomeReported (net : Network) (ip packet : List UInt8) : Prop :=
  net.gethostbyname ip = none ∨ ∃ response, Answered net ip packet response

theorem senderReports_iff (net : Network) (ip packet : List UInt8) :
    SenderReports net ip packet (sendIoPacket net ip packet) ↔
      OutcomeReported net ip packet := by
  unfold SenderReports OutcomeReported Answered sendIoPacket
  cases hhost : net.gethostbyname ip with
  | none => simp
  | some address =>
      by_cases hsend : net.sendto ⟨address, 34964, packet⟩ < 0
      · simp [hsend, Int.not_le.mpr hsend]
      · simp only [if_neg hsend, Int.not_lt.mp hsend, Option.some.injEq,
          true_iff, reduceCtorEq, false_or, exists_eq_left', true_and,
          and_self]

theorem sendIoPacket_ret_of_resolved
    {net : Network} {ip address : List UInt8}
    (h : net.gethostbyname ip = some address) (packet : List UInt8) :
    (sendIoPacket net ip packet).ret = 0 := by
  simp only [sendIoPacket, h]
  split_ifs <;> rfl

theorem sendIoPacket_response_of_timeout
    {net : Network} (h : net.recvfrom = none) (ip packet : List UInt8) :
    (sendIoPacket net ip packet).response = none := by
  unfold sendIoPacket
  cases net.gethostbyname ip with
  | none => rfl
  | some address =>
      simp only [h]
      split_ifs <;> rfl

/-! ## The handler -/

namespace HandlerCall

def ip (call : HandlerCall) : List UInt8 :=
  stringAt call.out ProfinetReq.ip

def result (call : HandlerCall) : HandlerResult :=
  mqttMsgHdlr call.tokener call.net call.heap call.payload call.len

def readPacket (call : HandlerCall) : List UInt8 :=
  slice (readBuffer call.heap call.api call.slot call.subSlot) 0 datagramSize

def writePacket (call : HandlerCall) : List UInt8 :=
  slice (writeBuffer call.heap call.api call.slot call.subSlot
    (requestedData call.tokener call.payload)) 0 datagramSize

def GotResponse (call : HandlerCall) : Prop :=
  (call.IsRead ∧
      ∃ response, Answered call.net call.ip call.readPacket response) ∨
    (call.IsWrite ∧
      ∃ response, Answered call.net call.ip call.writePacket response)

/-- A response is published, and 0 returned, only for a request that was
answered; otherwise the call returns -1. -/
structure Reports (call : HandlerCall) : Prop where
  published : call.result.published ≠ none → call.GotResponse
  success : call.result.ret = 0 → call.GotResponse
  failure : ¬ call.GotResponse → call.result.ret = -1

variable {call : HandlerCall}

theorem result_of_read (h : call.IsRead) :
    call.result =
      publishResponse (sendIoPacket call.net call.ip call.readPacket) :=
  mqttMsgHdlr_of_read h call.net call.heap call.len

theorem result_of_write (h : call.IsWrite) :
    call.result =
      publishResponse (sendIoPacket call.net call.ip call.writePacket) :=
  mqttMsgHdlr_of_write h call.net call.heap call.len

theorem result_of_supported (h : call.IsRead ∨ call.IsWrite) :
    call.result.ret = 0 ∧ call.result.published ≠ none := by
  rcases h with hread | hwrite
  · rw [result_of_read hread]
    exact ⟨rfl, nofun⟩
  · rw [result_of_write hwrite]
    exact ⟨rfl, nofun⟩

theorem result_of_unsupported (hread : ¬ call.IsRead)
    (hwrite : ¬ call.IsWrite) :
    call.result.ret = -1 ∧ call.result.published = none := by
  have hresult : call.result = ⟨-1, [], none⟩ :=
    mqttMsgHdlr_of_unsupported hread hwrite call.net call.heap call.len
  rw [hresult]
  exact ⟨rfl, rfl⟩

theorem reports_iff (call : HandlerCall) :
    call.Reports ↔
      (¬ call.IsRead ∧ ¬ call.IsWrite) ∨ call.GotResponse := by
  by_cases hsupported : call.IsRead ∨ call.IsWrite
  · obtain ⟨hret, hpublished⟩ := result_of_supported hsupported
    constructor
    · intro h
      exact Or.inr (h.success hret)
    · intro h
      have hresponse : call.GotResponse := by
        rcases h with ⟨hread, hwrite⟩ | hresponse
        · exact absurd hsupported (not_or.mpr ⟨hread, hwrite⟩)
        · exact hresponse
      exact ⟨fun _ => hresponse, fun _ => hresponse,
        fun hnone => absurd hresponse hnone⟩
  · obtain ⟨hread, hwrite⟩ := not_or.mp hsupported
    obtain ⟨hret, hpublished⟩ := result_of_unsupported hread hwrite
    refine iff_of_true ?_ (Or.inl ⟨hread, hwrite⟩)
    constructor
    · intro h
      exact absurd hpublished h
    · intro h
      rw [hret] at h
      contradiction
    · intro _
      exact hret

end HandlerCall

/-- The senders report what happened unless the datagram could not be sent or
nothing came back; the handler only if the request was answered or the
operation is not supported. -/
theorem failure_reported_iff
    (net : Network) (heap : Memory) (ip : List UInt8) (api slot subslot : ℕ)
    (data : List UInt8) (call : HandlerCall) :
    let readPacket := slice (readBuffer heap api slot subslot) 0 datagramSize
    let writePacket :=
      slice (writeBuffer heap api slot subslot data) 0 datagramSize
    (SenderReports net ip readPacket
        (sendReadIoPacket net heap ip api slot subslot) ↔
      OutcomeReported net ip readPacket) ∧
    (SenderReports net ip writePacket
        (sendWriteIoPacket net heap ip api slot subslot data) ↔
      OutcomeReported net ip writePacket) ∧
    (call.Reports ↔ (¬ call.IsRead ∧ ¬ call.IsWrite) ∨ call.GotResponse) :=
  ⟨senderReports_iff net ip _, senderReports_iff net ip _,
    HandlerCall.reports_iff call⟩

theorem not_answered_of_silence (ip packet response : List UInt8) :
    ¬ Answered silentNetwork ip packet response := by
  rintro ⟨address, -, -, hresponse⟩
  contradiction

/-- A write that times out is a success of the sender and an empty response of
the handler. -/
theorem failure_not_reported_on_timeout :
    (¬ ∀ (net : Network) (heap : Memory) (ip : List UInt8)
        (api slot subslot : ℕ) (data : List UInt8),
      SenderReports net ip
        (slice (writeBuffer heap api slot subslot data) 0 datagramSize)
        (sendWriteIoPacket net heap ip api slot subslot data)) ∧
    farthestWrite.IsWrite ∧
    farthestWrite.result.ret = 0 ∧
    farthestWrite.result.published =
      some (asciiBytes "\x7b\"response\": \"\" \x7d") ∧
    ¬ farthestWrite.Reports := by
  have hwrite : farthestWrite.IsWrite := by
    unfold HandlerCall.IsWrite
    decide
  have hret := (HandlerCall.result_of_supported (Or.inr hwrite)).1
  refine ⟨?_, hwrite, hret, ?_, ?_⟩
  · intro h
    have hret : (sendWriteIoPacket silentNetwork (fun _ => 0) [] 0 0 0
        []).ret = 0 := sendIoPacket_ret_of_resolved rfl _
    obtain ⟨response, hresponse, -⟩ :=
      (h silentNetwork (fun _ => 0) [] 0 0 0 []).mp hret
    exact not_answered_of_silence _ _ _ hresponse
  · have hnone : (sendIoPacket farthestWrite.net farthestWrite.ip
        farthestWrite.writePacket).response = none :=
      sendIoPacket_response_of_timeout rfl _ _
    rw [HandlerCall.result_of_write hwrite, publishResponse, hnone]
    rfl
  · intro h
    rcases h.success hret with ⟨-, response, hresponse⟩ |
      ⟨-, response, hresponse⟩
    · exact not_answered_of_silence _ _ _ hresponse
    · exact not_answered_of_silence _ _ _ hresponse

end ProfinetIo
