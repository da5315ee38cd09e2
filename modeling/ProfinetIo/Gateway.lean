import ProfinetIo.DatagramFormat
import ProfinetIo.HexTokens
import ProfinetIo.ResponseReports
import Mathlib.Tactic

/-!
# The gateway that the handler implements

What the program is for: a client on one side asks for a read or a write of a
submodule, a device on the other side reads a datagram and answers, and the
client reads the answer in a text.  `serve` is one such exchange in the terms
of the two sides.  The handler is shown to be this gateway for every JSON
object that spells a request, and neither side notices the strings, the byte
order and the hexadecimal digits in between.
-/

namespace ProfinetIo

open ByteMemory CStrings RecordCodecs

/-! ## The two sides -/

inductive Command where
  | read
  | write (data : List UInt8)
  deriving DecidableEq

def Command.name : Command → List UInt8
  | .read => asciiBytes "read"
  | .write _ => asciiBytes "write"

def Command.data : Command → List UInt8
  | .read => []
  | .write data => data

/-- A command and the submodule that it is for. -/
structure DeviceRequest where
  command : Command
  api : ℕ
  slot : ℕ
  subSlot : ℕ
  deriving DecidableEq

structure ClientRequest extends DeviceRequest where
  host : List UInt8
  api_lt : api < 4294967296
  slot_lt : slot < 65536
  subSlot_lt : subSlot < 65536
  data_length_le : command.data.length ≤ 24

/-- A device reads the request header in network order, and as many bytes of
data as it says. -/
def deviceRequest (bytes : List UInt8) : Option DeviceRequest :=
  (ioDatagramCodec.decode bytes).bind fun ((_, _, hdr, area), _) =>
    if hdr.blockType = 0x0009 then
      some ⟨.read, hdr.api, hdr.slot, hdr.subslot⟩
    else if hdr.blockType = 0x0008 ∧ hdr.recordDataLength ≤ 24 then
      some ⟨.write (area.val.take hdr.recordDataLength), hdr.api, hdr.slot,
        hdr.subslot⟩
    else none

/-- A client reads the bytes that are spelled between the quotes. -/
def clientAnswer (text : List UInt8) : List UInt8 :=
  writeData ((text.drop 14).takeWhile (· ≠ 34))

/-! ## The gateway -/

namespace ClientRequest

/-- The request header in network order. -/
def header (request : ClientRequest) : ReqHdr :=
  match request.command with
  | .read =>
      ⟨0x0009, 0x003c, 1, 0, 0x000a, zeroOctets 16, request.api, request.slot,
        request.subSlot, 0, 0xf840, 0x8000⟩
  | .write data =>
      ⟨0x0008, 0x003f, 1, 0, 0x1001, (writeReqHdr 0 0 0 0).arUuid,
        request.api, request.slot, request.subSlot, 0, 0xf840, data.length⟩

def wire (request : ClientRequest) : List UInt8 :=
  ioDatagramCodec.encode
    (rpcHeader (if request.command = .read then 0x05 else 0x03), pnioArgs,
      request.header, dataArea request.command.data)

end ClientRequest

/-- One exchange: nothing is sent to a host that does not resolve, and a client
that gets no answer gets an empty one. -/
def serve (net : Network) (request : ClientRequest) : HandlerResult :=
  match net.gethostbyname request.host with
  | none => ⟨0, [], some (responseText [])⟩
  | some address =>
      let datagram : Datagram := ⟨address, 34964, request.wire⟩
      let answer :=
        if net.sendto datagram < 0 then none
        else net.recvfrom.map Subtype.val
      ⟨0, [datagram], some (responseText (answer.getD []))⟩

/-! ## How a request is spelled -/

/-- The bytes as tokens of one or two digits. -/
def SpellsData (data text : List UInt8) : Prop :=
  ∃ spelled, List.Forall₂ Spells spelled data ∧ Spaced 32 text spelled

/-- The values under the keys spell the request; the data of a read may be
anything. -/
structure Asks (fields : JsonFields) (request : ClientRequest) : Prop where
  host : ∃ text, fields.ip = some text ∧ text.val = request.host ∧
    text.val.length < 32
  op : ∃ text, fields.op = some text ∧
    sameIgnoringCase text.val request.command.name
  api : DecimalKey 64 request.api fields.api
  slot : DecimalKey 16 request.slot fields.slot
  subSlot : DecimalKey 16 request.subSlot fields.subSlot
  data : request.command ≠ .read → ∃ text, fields.data = some text ∧
    text.val.length < 128 ∧ SpellsData request.command.data text.val

/-! ## The datagram -/

section Header

variable {api slot subSlot : ℕ}

theorem readReqHdr_swapped
    (hapi : api < 4294967296) (hslot : slot < 65536)
    (hsubSlot : subSlot < 65536) :
    (readReqHdr (byteSwap 4 api) (byteSwap 2 slot)
        (byteSwap 2 subSlot)).swapped =
      ⟨0x0009, 0x003c, 1, 0, 0x000a, zeroOctets 16, api, slot, subSlot, 0,
        0xf840, 0x8000⟩ := by
  have hconstants : byteSwap 2 0x0900 = 0x0009 ∧ byteSwap 2 0x3c00 = 0x003c ∧
      byteSwap 2 0x0a00 = 0x000a ∧ byteSwap 2 0x0000 = 0 ∧
      byteSwap 2 0x40f8 = 0xf840 ∧ byteSwap 4 0x800000 = 0x8000 := by decide
  simp only [readReqHdr, ReqHdr.swapped, byteSwap_byteSwap_mod, hconstants]
  norm_num [Nat.mod_eq_of_lt, hapi, hslot, hsubSlot]

theorem writeReqHdr_swapped
    {len : ℕ} (hapi : api < 4294967296) (hslot : slot < 65536)
    (hsubSlot : subSlot < 65536) (hlen : len < 4294967296) :
    (writeReqHdr (byteSwap 4 api) (byteSwap 2 slot) (byteSwap 2 subSlot)
        len).swapped =
      ⟨0x0008, 0x003f, 1, 0, 0x1001, (writeReqHdr 0 0 0 0).arUuid, api, slot,
        subSlot, 0, 0xf840, len⟩ := by
  have hconstants : byteSwap 2 0x0800 = 0x0008 ∧ byteSwap 2 0x3f00 = 0x003f ∧
      byteSwap 2 0x0110 = 0x1001 ∧ byteSwap 2 0x0000 = 0 ∧
      byteSwap 2 0x40f8 = 0xf840 := by decide
  simp only [writeReqHdr, ReqHdr.swapped, byteSwap_byteSwap_mod, hconstants]
  norm_num [Nat.mod_eq_of_lt, hapi, hslot, hsubSlot, hlen]

end Header

namespace ClientRequest

variable {request : ClientRequest}

theorem wire_of_read (h : request.command = .read) :
    request.wire =
      ioDatagramCodec.encode (readRecord (byteSwap 4 request.api)
        (byteSwap 2 request.slot) (byteSwap 2 request.subSlot)) := by
  rw [readRecord, readReqHdr_swapped request.api_lt request.slot_lt
    request.subSlot_lt]
  simp [wire, header, h, Command.data]

theorem wire_of_write {data : List UInt8} (h : request.command = .write data) :
    request.wire =
      ioDatagramCodec.encode (writeRecord (byteSwap 4 request.api)
        (byteSwap 2 request.slot) (byteSwap 2 request.subSlot) data) := by
  have hlength := request.data_length_le
  rw [h] at hlength
  have hlen : data.length < 4294967296 := by
    simp only [Command.data] at hlength
    omega
  rw [writeRecord, writeReqHdr_swapped request.api_lt request.slot_lt
    request.subSlot_lt hlen]
  simp [wire, header, h, Command.data]

theorem wire_decode (request : ClientRequest) :
    ioDatagramCodec.decode request.wire = some
      ((rpcHeader (if request.command = .read then 0x05 else 0x03), pnioArgs,
        request.header, dataArea request.command.data), []) := by
  have hdecode := ioDatagramCodec.decode_encode
    (rpcHeader (if request.command = .read then 0x05 else 0x03), pnioArgs,
      request.header, dataArea request.command.data) []
  have hoption :
      (if request.command = .read then 0x05 else 0x03) < 65536 := by
    split_ifs <;> decide
  rw [List.append_nil] at hdecode
  refine hdecode ?_
  cases hcommand : request.command with
  | read =>
      have hheader := @readReqHdr_swapped request.api request.slot
        request.subSlot request.api_lt request.slot_lt request.subSlot_lt
      simp only [header, hcommand, ← hheader] at hoption ⊢
      exact ioDatagramCodec_valid hoption _ _
  | write data =>
      have hlength := request.data_length_le
      rw [hcommand] at hlength
      have hlen : data.length < 4294967296 := by
        simp only [Command.data] at hlength
        omega
      have hheader := @writeReqHdr_swapped request.api request.slot
        request.subSlot data.length request.api_lt request.slot_lt
        request.subSlot_lt hlen
      simp only [header, hcommand, ← hheader] at hoption ⊢
      exact ioDatagramCodec_valid hoption _ _

/-- A device reads the request that is on the wire. -/
theorem deviceRequest_wire (request : ClientRequest) :
    deviceRequest request.wire = some request.toDeviceRequest := by
  have hlength := request.data_length_le
  rw [deviceRequest, request.wire_decode]
  cases hrequest : request.toDeviceRequest with
  | mk command api slot subSlot =>
      cases command with
      | read => simp [header, hrequest]
      | write data =>
          simp only [hrequest, Command.data] at hlength
          simp [header, hrequest, hlength, Command.data, dataArea_take]

end ClientRequest

/-! ## The handler -/

theorem length_eq_of_sameIgnoringCase
    {left right : List UInt8} (h : sameIgnoringCase left right) :
    left.length = right.length := by
  have hlength := congrArg List.length h
  rwa [List.length_map, List.length_map] at hlength

theorem SpellsData.writeData_eq {data text : List UInt8}
    (h : SpellsData data text) : writeData text = data := by
  obtain ⟨spelled, hspells, hspaced⟩ := h
  rw [writeData, tokens_of_spaced hspaced (tokens_of_spelled hspells)]
  exact map_of_spelled hspells

theorem publishResponse_sendIoPacket
    (net : Network) (request : ClientRequest) :
    publishResponse (sendIoPacket net request.host request.wire) =
      serve net request := by
  unfold sendIoPacket serve
  cases net.gethostbyname request.host with
  | none => rfl
  | some address =>
      dsimp only
      split_ifs <;> rfl

namespace Asks

variable {call : HandlerCall} {fields : JsonFields} {request : ClientRequest}

theorem addressed (h : Asks fields request)
    (hparsed : call.tokener call.payload = some fields) :
    Addressed call request.api request.slot request.subSlot :=
  ⟨⟨fields, hparsed, h.api, h.slot, h.subSlot⟩, request.api_lt,
    request.slot_lt, request.subSlot_lt⟩

theorem call_ip (h : Asks fields request)
    (hparsed : call.tokener call.payload = some fields) :
    call.ip = request.host := by
  obtain ⟨text, htext, hhost, hlength⟩ := h.host
  rw [← hhost]
  exact @stringAt_out call fields hparsed [] _ _ text rfl htext hlength

theorem call_op (h : Asks fields request)
    (hparsed : call.tokener call.payload = some fields) :
    sameIgnoringCase (stringAt call.out ProfinetReq.op)
      request.command.name := by
  obtain ⟨text, htext, hsame⟩ := h.op
  have hlength := length_eq_of_sameIgnoringCase hsame
  have hname : request.command.name.length ≤ 5 := by
    cases request.command with
    | read => decide
    | write data => exact (show (asciiBytes "write").length ≤ 5 by decide)
  have hread := @stringAt_out call fields hparsed
    [⟨32, by decide, fields.ip⟩] _ _ text rfl htext
    (by simp only; omega)
  have hop : stringAt call.out ProfinetReq.op = text.val := hread
  rwa [hop]

theorem call_data (h : Asks fields request)
    (hparsed : call.tokener call.payload = some fields)
    (hwrite : request.command ≠ .read) :
    call.data = request.command.data := by
  obtain ⟨text, htext, hlength, hspells⟩ := h.data hwrite
  have hread := @stringAt_out call fields hparsed
    [⟨32, by decide, fields.ip⟩, ⟨18, by decide, fields.op⟩,
      ⟨64, by decide, fields.api⟩, ⟨16, by decide, fields.slot⟩,
      ⟨16, by decide, fields.subSlot⟩] _ _ text rfl htext hlength
  have hdata : stringAt (parsedReq call.tokener call.payload)
      ProfinetReq.data = text.val := hread
  rw [HandlerCall.data, requestedData, hdata, hspells.writeData_eq]

theorem result_eq (h : Asks fields request)
    (hparsed : call.tokener call.payload = some fields) :
    call.result = serve call.net request := by
  obtain ⟨hapi, hslot, hsubSlot⟩ := (h.addressed hparsed).swapped
  have hip := h.call_ip hparsed
  have hop := h.call_op hparsed
  have hdata := h.call_data hparsed
  rw [← publishResponse_sendIoPacket]
  cases hcommand : request.command with
  | read =>
      rw [hcommand] at hop
      rw [HandlerCall.result_of_read hop, hip, HandlerCall.readPacket,
        readDatagram_eq_encode, hapi, hslot, hsubSlot,
        ClientRequest.wire_of_read hcommand]
  | write data =>
      rw [hcommand] at hop hdata
      have hdata' : requestedData call.tokener call.payload = data :=
        hdata nofun
      rw [HandlerCall.result_of_write hop, hip, HandlerCall.writePacket,
        writeDatagram_eq_encode, hdata', hapi, hslot, hsubSlot,
        ClientRequest.wire_of_write hcommand]

end Asks

/-! ## The client's side -/

theorem quote_not_mem_hexText (response : List UInt8) :
    34 ∉ hexText response := by
  have hdigits : ∀ byte, (34 : UInt8) ∉ hexByte byte := by
    intro byte h
    have hdigit := hexDigit_isSome_of_mem h
    revert hdigit
    decide
  induction response with
  | nil => exact List.not_mem_nil
  | cons byte bytes ih =>
      cases bytes with
      | nil => exact hdigits byte
      | cons next bytes =>
          rw [hexText_cons_cons]
          simp only [List.mem_append, not_or]
          exact ⟨hdigits byte, by decide, ih⟩

/-- A client reads back what was published. -/
theorem clientAnswer_responseText (response : List UInt8) :
    clientAnswer (responseText response) = response := by
  have hopening : (asciiBytes "\x7b\"response\": \"").length = 14 := by decide
  have hclosing : asciiBytes "\" \x7d" = 34 :: asciiBytes " \x7d" := by decide
  have hdrop : (responseText response).drop 14 =
      hexText response ++ 34 :: asciiBytes " \x7d" := by
    rw [responseText, List.append_assoc, List.drop_left' hopening, hclosing]
  have hquoted : ((responseText response).drop 14).takeWhile (· ≠ 34) =
      hexText response := by
    rw [hdrop, List.takeWhile_append_of_pos]
    · simp
    · intro byte hbyte
      rw [decide_eq_true_eq]
      rintro rfl
      exact quote_not_mem_hexText response hbyte
  rw [clientAnswer, hquoted, writeData_hexText]

/-! ## The exchange -/

section Exchange

variable {call : HandlerCall} {fields : JsonFields} {request : ClientRequest}

theorem Asks.deviceRequest_of_sent
    (h : Asks fields request)
    (hparsed : call.tokener call.payload = some fields)
    {datagram : Datagram} (hsent : datagram ∈ call.sent) :
    deviceRequest datagram.bytes = some request.toDeviceRequest := by
  have hresult : call.sent = (serve call.net request).sent :=
    congrArg HandlerResult.sent (h.result_eq hparsed)
  rw [hresult] at hsent
  unfold serve at hsent
  cases hhost : call.net.gethostbyname request.host with
  | none => simp [hhost] at hsent
  | some address =>
      simp only [hhost, List.mem_singleton] at hsent
      rw [hsent]
      exact request.deviceRequest_wire

/-- What a device answers to the request it reads is what the client reads in
the published text. -/
theorem answer_reaches_client
    {device : DeviceRequest → Option (List UInt8)}
    (hparsed : call.tokener call.payload = some fields)
    (hasks : Asks fields request)
    (hhost : call.net.gethostbyname request.host ≠ none)
    (hsend : ∀ datagram ∈ call.sent, 0 ≤ call.net.sendto datagram)
    (hanswer : ∀ datagram ∈ call.sent, call.net.recvfrom.map Subtype.val =
      (deviceRequest datagram.bytes).bind device)
    (hfits : ∀ answer, device request.toDeviceRequest = some answer →
      answer.length ≤ 677) :
    ∃ text, call.result.published = some text ∧ text.length < mqttResSize ∧
      clientAnswer text = (device request.toDeviceRequest).getD [] := by
  obtain ⟨address, haddress⟩ := Option.ne_none_iff_exists'.mp hhost
  have hresult := hasks.result_eq hparsed
  have hsent : ⟨address, 34964, request.wire⟩ ∈ call.sent := by
    have hserved : call.sent = (serve call.net request).sent :=
      congrArg HandlerResult.sent hresult
    rw [hserved]
    simp [serve, haddress]
  have hreceived : call.net.recvfrom.map Subtype.val =
      device request.toDeviceRequest := by
    rw [hanswer _ hsent, hasks.deviceRequest_of_sent hparsed hsent,
      Option.bind_some]
  have hlength : ((device request.toDeviceRequest).getD []).length ≤ 677 := by
    cases hdevice : device request.toDeviceRequest with
    | none => simp
    | some answer => exact hfits answer hdevice
  refine ⟨responseText ((device request.toDeviceRequest).getD []), ?_, ?_,
    clientAnswer_responseText _⟩
  · rw [hresult]
    simp [serve, haddress, Int.not_lt.mpr (hsend _ hsent), hreceived]
  · rw [responseText_length, mqttResSize]
    omega

end Exchange

/-- A write of two bytes, as a client spells it. -/
def twoByteFields : JsonFields where
  ip := some ⟨asciiBytes "plc", zero_notMem_plc⟩
  op := some ⟨asciiBytes "Write", by decide⟩
  api := some ⟨asciiBytes "00", by decide⟩
  slot := some ⟨asciiBytes "02", by decide⟩
  subSlot := some ⟨asciiBytes "32769", by decide⟩
  data := some ⟨asciiBytes " a FF", by decide⟩

def twoByteRequest : ClientRequest where
  command := .write [10, 255]
  api := 0
  slot := 2
  subSlot := 32769
  host := asciiBytes "plc"
  api_lt := by decide
  slot_lt := by decide
  subSlot_lt := by decide
  data_length_le := by decide

def answeredCall (answer : { bytes : List UInt8 // bytes.length ≤ 2048 }) :
    HandlerCall where
  tokener := fun _ => some twoByteFields
  net := { silentNetwork with recvfrom := some answer }
  heap := fun _ => 0
  payload := fun _ => 0
  len := 0

theorem asks_twoByteFields : Asks twoByteFields twoByteRequest where
  host := ⟨_, rfl, rfl, by decide⟩
  op := ⟨_, rfl, by decide⟩
  api := ⟨_, rfl, by decide, by decide, by decide, by decide⟩
  slot := ⟨_, rfl, by decide, by decide, by decide, by decide⟩
  subSlot := ⟨_, rfl, by decide, by decide, by decide, by decide⟩
  data := by
    intro _
    refine ⟨_, rfl, by decide, [asciiBytes "a", asciiBytes "FF"], ?_,
      .more 1 (asciiBytes "a") (.last 0 (asciiBytes "FF"))⟩
    exact .cons (Or.inl ⟨97, rfl, Or.inl rfl⟩)
      (.cons (Or.inr ⟨70, 70, rfl, Or.inr rfl, Or.inr rfl⟩) .nil)

theorem answer_to_twoByteRequest :
    ∃ text, (answeredCall ⟨[1, 2, 3], by decide⟩).result.published =
        some text ∧ text.length < mqttResSize ∧
      clientAnswer text = [1, 2, 3] := by
  have hanswer := @answer_reaches_client
    (answeredCall ⟨[1, 2, 3], by decide⟩) _ _
    (fun request => if request.slot = 2 then some [1, 2, 3] else none)
    rfl asks_twoByteFields nofun
  refine hanswer ?_ ?_ ?_
  · intro datagram _
    exact Int.natCast_nonneg _
  · intro datagram hsent
    rw [asks_twoByteFields.deviceRequest_of_sent rfl hsent]
    rfl
  · intro answer h
    cases h
    decide

end ProfinetIo
