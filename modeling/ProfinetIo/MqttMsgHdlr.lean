import ProfinetIo.CStrings
import ProfinetIo.PnioPackets
import Mathlib.Tactic

/-!
# The MQTT request handler

`mqtt_msg_hdlr` parses a JSON text into the fixed-size strings of a
`profinet_req_t`, which lie one behind the other in 274 bytes, and sends a
read or a write datagram depending on the operation.  It publishes whatever
response it has, and looks at no return value on the way.
-/

namespace ProfinetIo

open ByteMemory CStrings

/-! ## Parsing -/

/-- A string as `json_object_get_string` returns it. -/
abbrev CString := { text : List UInt8 // 0 ∉ text }

/-- The values found under the six keys, `none` for an absent one. -/
structure JsonFields where
  ip : Option CString
  op : Option CString
  api : Option CString
  slot : Option CString
  subSlot : Option CString
  data : Option CString

/-- The JSON parser with the six lookups, on the text at the start of a memory;
`none` if the text does not parse. -/
abbrev JsonTokener := Memory → Option JsonFields

namespace ProfinetReq

def ip : ℕ := 0
def op : ℕ := 32
def api : ℕ := 50
def slot : ℕ := 114
def subSlot : ℕ := 130
def data : ℕ := 146
def size : ℕ := 274

end ProfinetReq

def copyField (offset : ℕ) (value : Option CString) (out : List UInt8) :
    List UInt8 :=
  match value with
  | none => out
  | some text => strcpy out offset text.val

/-- `json_to_struct` on the outcome of the parser. -/
def jsonToStruct (parsed : Option JsonFields) (out : List UInt8) :
    ℤ × List UInt8 :=
  match parsed with
  | none => (-1, out)
  | some fields =>
      let out := copyField ProfinetReq.ip fields.ip out
      let out := copyField ProfinetReq.op fields.op out
      let out := copyField ProfinetReq.api fields.api out
      let out := copyField ProfinetReq.slot fields.slot out
      let out := copyField ProfinetReq.subSlot fields.subSlot out
      let out := copyField ProfinetReq.data fields.data out
      (0, out)

/-- The zeroed `profinet_req_t` after `json_to_struct`, whose return value the
handler drops. -/
def parsedReq (tokener : JsonTokener) (payload : Memory) : List UInt8 :=
  (jsonToStruct (tokener payload) (List.replicate ProfinetReq.size 0)).2

/-! ## Numbers -/

def hexDigit (ch : UInt8) : Option ℤ :=
  if 48 ≤ ch ∧ ch ≤ 57 then some (ch.toNat - 48)
  else if 97 ≤ ch ∧ ch ≤ 102 then some (ch.toNat - 97 + 10)
  else if 65 ≤ ch ∧ ch ≤ 70 then some (ch.toNat - 65 + 10)
  else none

/-- One pass of the loop on `nResult` and `nDigitMult`, from the last character
to the first. -/
def hexStep (ch : UInt8) (acc : ℤ × ℤ) : ℤ × ℤ :=
  let nResult :=
    match hexDigit ch with
    | some digit => toInt32 (acc.1 + toInt32 (digit * acc.2))
    | none => acc.1
  (nResult, toInt32 (acc.2 * 16))

def hexToInt (hex : List UInt8) : ℤ := (hex.foldr hexStep (0, 1)).1

def toUChar (value : ℤ) : UInt8 := UInt8.ofNat (value % 256).toNat

def ntohl (value : ℤ) : ℕ := byteSwap 4 (value % 4294967296).toNat

def ntohs (value : ℤ) : ℕ := byteSwap 2 (value % 65536).toNat

def writeData (data : List UInt8) : List UInt8 :=
  (tokens 32 data).map fun token => toUChar (hexToInt token)

/-! ## The response text -/

def upperHexDigit (value : ℕ) : UInt8 :=
  if value < 10 then UInt8.ofNat (48 + value) else UInt8.ofNat (55 + value)

def hexByte (byte : UInt8) : List UInt8 :=
  [upperHexDigit (byte.toNat / 16), upperHexDigit (byte.toNat % 16)]

def hexText : List UInt8 → List UInt8
  | [] => []
  | [byte] => hexByte byte
  | byte :: bytes => hexByte byte ++ [32] ++ hexText bytes

def responseText (response : List UInt8) : List UInt8 :=
  asciiBytes "\x7b\"response\": \"" ++ hexText response ++ asciiBytes "\" \x7d"

/-! ## The handler -/

/-- The return value, the datagrams handed to `sendto`, and the text handed to
`send_mqtt_pub_default`. -/
structure HandlerResult where
  ret : ℤ
  sent : List Datagram
  published : Option (List UInt8)

/-- The end both branches have in common; `len` is zero without a response. -/
def publishResponse (result : IoResult) : HandlerResult :=
  ⟨0, result.sent, some (responseText (result.response.getD []))⟩

def mqttMsgHdlr (tokener : JsonTokener) (net : Network) (heap payload : Memory)
    (_len : ℕ) : HandlerResult :=
  let out := parsedReq tokener payload
  let ip := stringAt out ProfinetReq.ip
  let op := stringAt out ProfinetReq.op
  let api := ntohl (atoi (stringAt out ProfinetReq.api))
  let slot := ntohs (atoi (stringAt out ProfinetReq.slot))
  let subSlot := ntohs (atoi (stringAt out ProfinetReq.subSlot))
  if sameIgnoringCase op (asciiBytes "read") then
    publishResponse (sendReadIoPacket net heap ip api slot subSlot)
  else if sameIgnoringCase op (asciiBytes "write") then
    publishResponse (sendWriteIoPacket net heap ip api slot subSlot
      (writeData (stringAt out ProfinetReq.data)))
  else
    ⟨-1, [], none⟩

section Handler

variable {tokener : JsonTokener} {payload : Memory}

theorem mqttMsgHdlr_of_read
    (hop : sameIgnoringCase
      (stringAt (parsedReq tokener payload) ProfinetReq.op)
      (asciiBytes "read"))
    (net : Network) (heap : Memory) (len : ℕ) :
    mqttMsgHdlr tokener net heap payload len =
      let out := parsedReq tokener payload
      publishResponse (sendReadIoPacket net heap
        (stringAt out ProfinetReq.ip)
        (ntohl (atoi (stringAt out ProfinetReq.api)))
        (ntohs (atoi (stringAt out ProfinetReq.slot)))
        (ntohs (atoi (stringAt out ProfinetReq.subSlot)))) := by
  simp only [mqttMsgHdlr, if_pos hop]

theorem mqttMsgHdlr_of_write
    (hop : sameIgnoringCase
      (stringAt (parsedReq tokener payload) ProfinetReq.op)
      (asciiBytes "write"))
    (net : Network) (heap : Memory) (len : ℕ) :
    mqttMsgHdlr tokener net heap payload len =
      let out := parsedReq tokener payload
      publishResponse (sendWriteIoPacket net heap
        (stringAt out ProfinetReq.ip)
        (ntohl (atoi (stringAt out ProfinetReq.api)))
        (ntohs (atoi (stringAt out ProfinetReq.slot)))
        (ntohs (atoi (stringAt out ProfinetReq.subSlot)))
        (writeData (stringAt out ProfinetReq.data))) := by
  have hread : ¬ sameIgnoringCase
      (stringAt (parsedReq tokener payload) ProfinetReq.op)
      (asciiBytes "read") := by
    intro h
    have hsame := h.symm.trans hop
    revert hsame
    decide
  simp only [mqttMsgHdlr, if_neg hread, if_pos hop]

theorem mqttMsgHdlr_of_unsupported
    (hread : ¬ sameIgnoringCase
      (stringAt (parsedReq tokener payload) ProfinetReq.op)
      (asciiBytes "read"))
    (hwrite : ¬ sameIgnoringCase
      (stringAt (parsedReq tokener payload) ProfinetReq.op)
      (asciiBytes "write"))
    (net : Network) (heap : Memory) (len : ℕ) :
    mqttMsgHdlr tokener net heap payload len = ⟨-1, [], none⟩ := by
  simp only [mqttMsgHdlr, if_neg hread, if_neg hwrite]

end Handler

end ProfinetIo
