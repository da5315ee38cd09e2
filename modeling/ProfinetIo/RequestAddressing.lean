import ProfinetIo.DecimalStrings
import ProfinetIo.RequestFields
import ProfinetIo.WriteRequests
import Mathlib.Tactic

/-!
# Addressing on the wire

`mqtt_msg_hdlr` swaps the bytes of the numbers it reads and the builders store
them in host order, so that they stand in a datagram in network order.  They
are all that two requests of one operation can differ in, besides the record
length and the data of a write.
-/

namespace ProfinetIo

open ByteMemory CStrings

/-- What one call of the handler depends on. -/
structure HandlerCall where
  tokener : JsonTokener
  net : Network
  heap : Memory
  payload : Memory
  len : ℕ

namespace HandlerCall

def sent (call : HandlerCall) : List Datagram :=
  (mqttMsgHdlr call.tokener call.net call.heap call.payload call.len).sent

def out (call : HandlerCall) : List UInt8 :=
  parsedReq call.tokener call.payload

def IsRead (call : HandlerCall) : Prop :=
  sameIgnoringCase (stringAt call.out ProfinetReq.op) (asciiBytes "read")

def IsWrite (call : HandlerCall) : Prop :=
  sameIgnoringCase (stringAt call.out ProfinetReq.op) (asciiBytes "write")

end HandlerCall

/-- A key holds the value as a decimal string. -/
def DecimalKey (capacity value : ℕ) (key : Option CString) : Prop :=
  ∃ text, key = some text ∧ DecimalString capacity value text.val

/-- The addressing that the JSON text gives in decimal. -/
structure Addressed (call : HandlerCall) (api slot subSlot : ℕ) : Prop where
  keys : ∃ fields, call.tokener call.payload = some fields ∧
    DecimalKey 64 api fields.api ∧ DecimalKey 16 slot fields.slot ∧
    DecimalKey 16 subSlot fields.subSlot
  apiRange : api < 4294967296
  slotRange : slot < 65536
  subSlotRange : subSlot < 65536

/-- The addressing as a reader of the datagram decodes it. -/
structure CarriesAddress (api slot subSlot : ℕ) (bytes : List UInt8) :
    Prop where
  api : bigEndianValue ((bytes.drop 124).take 4) = api
  slot : bigEndianValue ((bytes.drop 128).take 2) = slot
  subSlot : bigEndianValue ((bytes.drop 130).take 2) = subSlot

/-- Two datagrams of one size agree outside the addressing, up to the byte at
`limit`. -/
structure AgreeOutside (limit : ℕ) (bytes bytes' : List UInt8) : Prop where
  size : bytes.length = bytes'.length
  same : ∀ i, i < 124 ∨ (132 ≤ i ∧ i < limit) → bytes[i]? = bytes'[i]?

/-! ## The parts of a datagram -/

def ReqHdr.front (h : ReqHdr) : List UInt8 :=
  littleEndian 2 h.blockType ++ littleEndian 2 h.length ++
    [h.versionHigh, h.versionLow] ++ littleEndian 2 h.seqNbr ++ h.arUuid.val

def ReqHdr.addressing (h : ReqHdr) : List UInt8 :=
  littleEndian 4 h.api ++ (littleEndian 2 h.slot ++ littleEndian 2 h.subslot)

def ReqHdr.record (h : ReqHdr) : List UInt8 :=
  littleEndian 2 h.padding ++ littleEndian 2 h.index

theorem ReqHdr.encode_eq (h : ReqHdr) :
    h.encode = h.front ++ (h.addressing ++
      (h.record ++ littleEndian 4 h.recordDataLength)) := by
  simp [ReqHdr.encode, ReqHdr.front, ReqHdr.addressing, ReqHdr.record]

/-- A datagram of either operation: `front` and `record` hold no data of the
request. -/
structure DatagramParts where
  front : List UInt8
  addressing : List UInt8
  record : List UInt8
  rest : List UInt8
  front_length : front.length = 124
  addressing_length : addressing.length = 8
  record_length : record.length = 4
  rest_length : rest.length = 28

def DatagramParts.bytes (parts : DatagramParts) : List UInt8 :=
  parts.front ++ (parts.addressing ++ (parts.record ++ parts.rest))

namespace DatagramParts

theorem bytes_length (parts : DatagramParts) : parts.bytes.length = 164 := by
  simp [bytes, parts.front_length, parts.addressing_length,
    parts.record_length, parts.rest_length]

theorem take_drop_addressing
    (parts : DatagramParts) {offset width : ℕ} (h : offset + width ≤ 8) :
    (parts.bytes.drop (124 + offset)).take width =
      (parts.addressing.drop offset).take width := by
  have hoffset : offset ≤ parts.addressing.length := by
    rw [parts.addressing_length]
    omega
  have hwidth : width ≤ (parts.addressing.drop offset).length := by
    rw [List.length_drop, parts.addressing_length]
    omega
  rw [bytes, ← List.drop_drop, List.drop_left' parts.front_length,
    List.drop_append_of_le_length hoffset,
    List.take_append_of_le_length hwidth]

theorem getElem?_front (parts : DatagramParts) {i : ℕ} (h : i < 124) :
    parts.bytes[i]? = parts.front[i]? :=
  List.getElem?_append_left (by rw [parts.front_length]; exact h)

theorem getElem?_behind (parts : DatagramParts) {i : ℕ} (h : 132 ≤ i) :
    parts.bytes[i]? = (parts.record ++ parts.rest)[i - 132]? := by
  have hfront : parts.front.length ≤ i := by
    rw [parts.front_length]
    omega
  have haddressing : parts.addressing.length ≤ i - parts.front.length := by
    rw [parts.front_length, parts.addressing_length]
    omega
  rw [bytes, List.getElem?_append_right hfront,
    List.getElem?_append_right haddressing, parts.front_length,
    parts.addressing_length, Nat.sub_sub]

theorem getElem?_record (parts : DatagramParts) {i : ℕ} (hlow : 132 ≤ i)
    (hhigh : i < 136) : parts.bytes[i]? = parts.record[i - 132]? := by
  have hroom : i - 132 < parts.record.length := by
    rw [parts.record_length]
    omega
  rw [parts.getElem?_behind hlow, List.getElem?_append_left hroom]

end DatagramParts

def readParts (api slot subslot : ℕ) : DatagramParts where
  front := (rpcHeader 0x05).encode ++ pnioArgs.encode ++
    (readReqHdr api slot subslot).front
  addressing := (readReqHdr api slot subslot).addressing
  record := (readReqHdr api slot subslot).record
  rest := littleEndian 4 (readReqHdr api slot subslot).recordDataLength ++
    List.replicate 24 0
  front_length := by simp [ReqHdr.front]
  addressing_length := by simp [ReqHdr.addressing]
  record_length := by simp [ReqHdr.record]
  rest_length := by simp

def writeParts (api slot subslot : ℕ) (data : List UInt8) :
    DatagramParts where
  front := (rpcHeader 0x03).encode ++ pnioArgs.encode ++
    (writeReqHdr api slot subslot data.length).front
  addressing := (writeReqHdr api slot subslot data.length).addressing
  record := (writeReqHdr api slot subslot data.length).record
  rest := littleEndian 4
      (writeReqHdr api slot subslot data.length).recordDataLength ++
    (data ++ List.replicate 24 0).take 24
  front_length := by simp [ReqHdr.front]
  addressing_length := by simp [ReqHdr.addressing]
  record_length := by simp [ReqHdr.record]
  rest_length := by simp

theorem readDatagram_eq (heap : Memory) (api slot subslot : ℕ) :
    slice (readBuffer heap api slot subslot) 0 datagramSize =
      (readParts api slot subslot).bytes := by
  have hlength : ((rpcHeader 0x05).encode ++ pnioArgs.encode ++
      (readReqHdr api slot subslot).encode).length = 140 := by
    simp
  have hslice := @slice_store_zeroed heap
    ((rpcHeader 0x05).encode ++ pnioArgs.encode ++
      (readReqHdr api slot subslot).encode) [] 24 2048 (by simp)
  rw [hlength, List.append_nil, List.nil_append, List.take_replicate] at hslice
  have hbuffer : readBuffer heap api slot subslot = _ :=
    store_headers (osBufAlloc 2048 heap) 0x05 (readReqHdr api slot subslot)
  have hparts : (rpcHeader 0x05).encode ++ pnioArgs.encode ++
      (readReqHdr api slot subslot).encode ++ List.replicate 24 0 =
      (readParts api slot subslot).bytes := by
    rw [ReqHdr.encode_eq]
    simp only [readParts, DatagramParts.bytes, List.append_assoc]
  rw [hbuffer, ← hparts]
  exact hslice

theorem writeDatagram_eq_parts
    (heap : Memory) (api slot subslot : ℕ) (data : List UInt8) :
    slice (writeBuffer heap api slot subslot data) 0 datagramSize =
      (writeParts api slot subslot data).bytes := by
  rw [writeDatagram_eq, writeHeaders, ReqHdr.encode_eq]
  simp only [writeParts, DatagramParts.bytes, List.append_assoc]

/-! ## What the parts say -/

theorem carriesAddress_of_swapped
    {parts : DatagramParts} {api slot subSlot : ℕ}
    (hparts : parts.addressing = bigEndian 4 api ++
      (bigEndian 2 slot ++ bigEndian 2 subSlot))
    (hapi : api < 4294967296) (hslot : slot < 65536)
    (hsubSlot : subSlot < 65536) :
    CarriesAddress api slot subSlot parts.bytes := by
  have hdrop : (parts.addressing.drop 4) =
      bigEndian 2 slot ++ bigEndian 2 subSlot := by
    rw [hparts]
    exact List.drop_left' (by simp)
  have hdropSlot : (parts.addressing.drop 6) = bigEndian 2 subSlot := by
    rw [show 6 = 4 + 2 by rfl, ← List.drop_drop, hdrop]
    exact List.drop_left' (by simp)
  constructor
  · have htake := @DatagramParts.take_drop_addressing parts 0 4 (by decide)
    rw [hparts, List.drop_zero, List.take_left' (by simp)] at htake
    rw [htake]
    exact bigEndianValue_bigEndian hapi
  · have htake := @DatagramParts.take_drop_addressing parts 4 2 (by decide)
    rw [hdrop, List.take_left' (by simp)] at htake
    rw [htake]
    exact bigEndianValue_bigEndian hslot
  · have htake := @DatagramParts.take_drop_addressing parts 6 2 (by decide)
    have hall : (bigEndian 2 subSlot).take 2 = bigEndian 2 subSlot :=
      List.take_of_length_le (by simp)
    rw [hdropSlot, hall] at htake
    rw [htake]
    exact bigEndianValue_bigEndian hsubSlot

theorem agreeOutside_of_front
    {parts parts' : DatagramParts} {limit : ℕ}
    (hfront : parts.front = parts'.front)
    (hbehind : ∀ i, 132 ≤ i → i < limit →
      parts.bytes[i]? = parts'.bytes[i]?) :
    AgreeOutside limit parts.bytes parts'.bytes := by
  constructor
  · rw [parts.bytes_length, parts'.bytes_length]
  · intro i hi
    rcases hi with hlow | ⟨hlow, hhigh⟩
    · rw [parts.getElem?_front hlow, parts'.getElem?_front hlow, hfront]
    · exact hbehind i hlow hhigh

/-! ## Calls of the handler -/

namespace HandlerCall

def api (call : HandlerCall) : ℕ :=
  ntohl (atoi (stringAt call.out ProfinetReq.api))

def slot (call : HandlerCall) : ℕ :=
  ntohs (atoi (stringAt call.out ProfinetReq.slot))

def subSlot (call : HandlerCall) : ℕ :=
  ntohs (atoi (stringAt call.out ProfinetReq.subSlot))

variable {call : HandlerCall} {datagram : Datagram}

theorem bytes_of_read (h : call.IsRead) (hsent : datagram ∈ call.sent) :
    datagram.bytes =
      (readParts call.api call.slot call.subSlot).bytes := by
  unfold sent at hsent
  rw [mqttMsgHdlr_of_read h] at hsent
  simp only [publishResponse, sendReadIoPacket, sendIoPacket_sent,
    readDatagram_eq, List.mem_map] at hsent
  obtain ⟨address, -, rfl⟩ := hsent
  rfl

theorem bytes_of_write (h : call.IsWrite) (hsent : datagram ∈ call.sent) :
    datagram.bytes =
      (writeParts call.api call.slot call.subSlot
        (requestedData call.tokener call.payload)).bytes := by
  unfold sent at hsent
  rw [mqttMsgHdlr_of_write h] at hsent
  simp only [publishResponse, sendWriteIoPacket, sendIoPacket_sent,
    writeDatagram_eq_parts, List.mem_map] at hsent
  obtain ⟨address, -, rfl⟩ := hsent
  rfl

theorem isRead_or_isWrite (hsent : datagram ∈ call.sent) :
    call.IsRead ∨ call.IsWrite := by
  by_contra h
  rw [not_or] at h
  unfold sent at hsent
  rw [mqttMsgHdlr_of_unsupported h.1 h.2] at hsent
  exact absurd hsent List.not_mem_nil

end HandlerCall

/-! ## From the JSON text to the numbers -/

theorem ntohl_atoi {capacity value : ℕ} {text : List UInt8}
    (h : DecimalString capacity value text) (hvalue : value < 4294967296) :
    ntohl (atoi text) = byteSwap 4 value := by
  have hmod := @DecimalString.atoi_emod text capacity value h 32 (by decide)
    hvalue
  rw [ntohl]
  exact congrArg (byteSwap 4) hmod

theorem ntohs_atoi {capacity value : ℕ} {text : List UInt8}
    (h : DecimalString capacity value text) (hvalue : value < 65536) :
    ntohs (atoi text) = byteSwap 2 value := by
  have hmod := @DecimalString.atoi_emod text capacity value h 16 (by decide)
    hvalue
  rw [ntohs]
  exact congrArg (byteSwap 2) hmod

section Keys

variable {call : HandlerCall} {fields : JsonFields}

theorem out_of_parsed (h : call.tokener call.payload = some fields) :
    call.out = copyFields (reqFields fields) 0
      (List.replicate (totalCapacity (reqFields fields)) 0) := by
  rw [HandlerCall.out, parsedReq, h, jsonToStruct_eq_copyFields,
    totalCapacity_reqFields]

/-- A key whose string is shorter than its array is read back, whatever the
other keys are. -/
theorem stringAt_out
    (h : call.tokener call.payload = some fields)
    {before after : List StringField} {field : StringField} {text : CString}
    (hfields : reqFields fields = before ++ field :: after)
    (hvalue : field.value = some text)
    (hlt : text.val.length < field.capacity) :
    stringAt call.out (totalCapacity before) = text.val := by
  have hread := @stringAt_copyFields_of_lt field text hvalue hlt before after
    0 (List.replicate (totalCapacity (reqFields fields)) 0)
    (by rw [hfields, List.length_replicate, Nat.zero_add])
  rw [Nat.zero_add, ← hfields] at hread
  rw [out_of_parsed h]
  exact hread

end Keys

theorem Addressed.swapped {call : HandlerCall} {api slot subSlot : ℕ}
    (h : Addressed call api slot subSlot) :
    call.api = byteSwap 4 api ∧ call.slot = byteSwap 2 slot ∧
      call.subSlot = byteSwap 2 subSlot := by
  obtain ⟨fields, hparsed, ⟨apiText, hapi, hapiText⟩,
    ⟨slotText, hslot, hslotText⟩, ⟨subSlotText, hsubSlot, hsubSlotText⟩⟩ :=
    h.keys
  have hapiRange := h.apiRange
  have hslotRange := h.slotRange
  have hsubSlotRange := h.subSlotRange
  have hapiRead := @stringAt_out call fields hparsed
    [⟨32, by decide, fields.ip⟩, ⟨18, by decide, fields.op⟩] _ _ apiText rfl
    hapi (hapiText.length_lt (hapiRange.trans (by decide)))
  have hslotRead := @stringAt_out call fields hparsed
    [⟨32, by decide, fields.ip⟩, ⟨18, by decide, fields.op⟩,
      ⟨64, by decide, fields.api⟩] _ _ slotText rfl hslot
    (hslotText.length_lt (hslotRange.trans (by decide)))
  have hsubSlotRead := @stringAt_out call fields hparsed
    [⟨32, by decide, fields.ip⟩, ⟨18, by decide, fields.op⟩,
      ⟨64, by decide, fields.api⟩, ⟨16, by decide, fields.slot⟩] _ _
    subSlotText rfl hsubSlot
    (hsubSlotText.length_lt (hsubSlotRange.trans (by decide)))
  refine ⟨?_, ?_, ?_⟩
  · rw [← ntohl_atoi hapiText hapiRange, ← hapiRead]
    rfl
  · rw [← ntohs_atoi hslotText hslotRange, ← hslotRead]
    rfl
  · rw [← ntohs_atoi hsubSlotText hsubSlotRange, ← hsubSlotRead]
    rfl

/-! ## The wire -/

/-- Every datagram carries the addressing of its request, and nothing else
of it but the record length and the data of a write. -/
theorem addressing_on_the_wire :
    (∀ (call : HandlerCall) (api slot subSlot : ℕ),
      Addressed call api slot subSlot →
        ∀ datagram ∈ call.sent,
          CarriesAddress api slot subSlot datagram.bytes) ∧
    (∀ call call' : HandlerCall, call.IsRead → call'.IsRead →
      ∀ datagram ∈ call.sent, ∀ datagram' ∈ call'.sent,
        AgreeOutside 164 datagram.bytes datagram'.bytes) ∧
    (∀ call call' : HandlerCall, call.IsWrite → call'.IsWrite →
      ∀ datagram ∈ call.sent, ∀ datagram' ∈ call'.sent,
        AgreeOutside 136 datagram.bytes datagram'.bytes) := by
  refine ⟨?_, ?_, ?_⟩
  · intro call api slot subSlot h datagram hsent
    obtain ⟨hapi, hslot, hsubSlot⟩ := h.swapped
    rcases HandlerCall.isRead_or_isWrite hsent with hread | hwrite
    · rw [HandlerCall.bytes_of_read hread hsent]
      refine carriesAddress_of_swapped ?_ h.apiRange h.slotRange
        h.subSlotRange
      simp [readParts, ReqHdr.addressing, readReqHdr, hapi, hslot, hsubSlot]
    · rw [HandlerCall.bytes_of_write hwrite hsent]
      refine carriesAddress_of_swapped ?_ h.apiRange h.slotRange
        h.subSlotRange
      simp [writeParts, ReqHdr.addressing, writeReqHdr, hapi, hslot, hsubSlot]
  · intro call call' hread hread' datagram hsent datagram' hsent'
    rw [HandlerCall.bytes_of_read hread hsent,
      HandlerCall.bytes_of_read hread' hsent']
    apply agreeOutside_of_front
    · rfl
    · intro i hlow _
      rw [DatagramParts.getElem?_behind _ hlow,
        DatagramParts.getElem?_behind _ hlow]
      rfl
  · intro call call' hwrite hwrite' datagram hsent datagram' hsent'
    rw [HandlerCall.bytes_of_write hwrite hsent,
      HandlerCall.bytes_of_write hwrite' hsent']
    apply agreeOutside_of_front
    · rfl
    · intro i hlow hhigh
      rw [DatagramParts.getElem?_record _ hlow hhigh,
        DatagramParts.getElem?_record _ hlow hhigh]
      rfl

/-- A write to the largest addresses. -/
def farthestWrite : HandlerCall where
  tokener := fun _ => some
    { ip := some ⟨asciiBytes "plc", zero_notMem_plc⟩
      op := some ⟨asciiBytes "write", zero_notMem_write⟩
      api := some ⟨asciiBytes "4294967295", by decide⟩
      slot := some ⟨asciiBytes "65535", by decide⟩
      subSlot := some ⟨asciiBytes "032768", by decide⟩
      data := some ⟨asciiBytes "0a", by decide⟩ }
  net := silentNetwork
  heap := fun _ => 0
  payload := fun _ => 0
  len := 0

theorem addressing_of_farthest_write :
    ∃ datagram ∈ farthestWrite.sent,
      CarriesAddress 4294967295 65535 32768 datagram.bytes := by
  have hop : farthestWrite.IsWrite := by
    unfold HandlerCall.IsWrite
    decide
  have hhost : silentNetwork.gethostbyname
      (stringAt farthestWrite.out ProfinetReq.ip) =
      some [192, 168, 1, 2] := rfl
  have hsent := write_sent hop hhost (fun _ => 0) 0
  have haddressed : Addressed farthestWrite 4294967295 65535 32768 := by
    refine ⟨⟨_, rfl, ⟨_, rfl, ?_⟩, ⟨_, rfl, ?_⟩, ⟨_, rfl, ?_⟩⟩,
      by decide, by decide, by decide⟩
    · exact ⟨by decide, by decide, by decide, by decide⟩
    · exact ⟨by decide, by decide, by decide, by decide⟩
    · exact ⟨by decide, by decide, by decide, by decide⟩
  have hmem : _ ∈ farthestWrite.sent :=
    hsent ▸ List.mem_singleton_self _
  exact ⟨_, hmem, addressing_on_the_wire.1 farthestWrite _ _ _ haddressed _
    hmem⟩

end ProfinetIo
