import ProfinetIo.MqttMsgHdlr
import Mathlib.Tactic

/-!
# Which requests send a datagram

The handler has no validation step.  A datagram goes out when the operation is
known and the host resolves; the numbers and the data are whatever `atoi` and
the hexadecimal conversion make of their texts.
-/

namespace ProfinetIo

open ByteMemory CStrings

def Supported (op : List UInt8) : Prop :=
  sameIgnoringCase op (asciiBytes "read") ∨
    sameIgnoringCase op (asciiBytes "write")

instance (op : List UInt8) : Decidable (Supported op) :=
  inferInstanceAs (Decidable (_ ∨ _))

/-- What the handler checks before it sends. -/
structure RequestGate (tokener : JsonTokener) (net : Network)
    (heap payload : Memory) (len : ℕ) : Prop where
  sent_iff :
    (mqttMsgHdlr tokener net heap payload len).sent ≠ [] ↔
      Supported (stringAt (parsedReq tokener payload) ProfinetReq.op) ∧
        (net.gethostbyname
          (stringAt (parsedReq tokener payload) ProfinetReq.ip)).isSome
  at_most_one : (mqttMsgHdlr tokener net heap payload len).sent.length ≤ 1
  unsupported :
    ¬ Supported (stringAt (parsedReq tokener payload) ProfinetReq.op) →
      mqttMsgHdlr tokener net heap payload len = ⟨-1, [], none⟩
  unparsed : tokener payload = none →
    mqttMsgHdlr tokener net heap payload len = ⟨-1, [], none⟩

section Gate

variable {tokener : JsonTokener} {net : Network} {heap payload : Memory}
  {len : ℕ}

theorem mqttMsgHdlr_of_not_supported
    (h : ¬ Supported
      (stringAt (parsedReq tokener payload) ProfinetReq.op)) :
    mqttMsgHdlr tokener net heap payload len = ⟨-1, [], none⟩ :=
  mqttMsgHdlr_of_unsupported (fun hread => h (Or.inl hread))
    (fun hwrite => h (Or.inr hwrite)) net heap len

theorem mqttMsgHdlr_sent_of_supported
    (h : Supported (stringAt (parsedReq tokener payload) ProfinetReq.op)) :
    ∃ packet, (mqttMsgHdlr tokener net heap payload len).sent =
      (sendIoPacket net
        (stringAt (parsedReq tokener payload) ProfinetReq.ip) packet).sent := by
  rcases h with hread | hwrite
  · rw [mqttMsgHdlr_of_read hread]
    exact ⟨_, rfl⟩
  · rw [mqttMsgHdlr_of_write hwrite]
    exact ⟨_, rfl⟩

theorem op_of_unparsed (h : tokener payload = none) :
    stringAt (parsedReq tokener payload) ProfinetReq.op = [] := by
  rw [parsedReq, h]
  decide

end Gate

theorem requestGate
    (tokener : JsonTokener) (net : Network) (heap payload : Memory) (len : ℕ) :
    RequestGate tokener net heap payload len := by
  by_cases hop : Supported
      (stringAt (parsedReq tokener payload) ProfinetReq.op)
  · obtain ⟨packet, hsent⟩ :=
      @mqttMsgHdlr_sent_of_supported tokener net heap payload len hop
    constructor
    · rw [hsent, sendIoPacket_sent_ne_nil_iff]
      simp [hop]
    · rw [hsent]
      exact sendIoPacket_sent_length_le net _ packet
    · intro hnot
      exact absurd hop hnot
    · intro hnone
      rw [op_of_unparsed hnone] at hop
      exact absurd hop (by decide)
  · have hresult := @mqttMsgHdlr_of_not_supported tokener net heap payload len
      hop
    constructor
    · rw [hresult]
      simp [hop]
    · rw [hresult]
      simp
    · intro _
      exact hresult
    · intro _
      exact hresult

/-! ## The validation the handler does not have -/

def DecimalBelow (bound : ℕ) (value : Option CString) : Prop :=
  ∃ text, value = some text ∧ text.val ≠ [] ∧
    (∀ byte ∈ text.val, isDigit byte = true) ∧ decimalValue text.val < bound

def HexData (value : Option CString) : Prop :=
  ∃ text, value = some text ∧ tokens 32 text.val ≠ [] ∧
    ∀ token ∈ tokens 32 text.val, token.length ≤ 2 ∧
      ∀ ch ∈ token, (hexDigit ch).isSome

structure ValidRequest (fields : JsonFields) : Prop where
  ip : fields.ip.isSome
  api : DecimalBelow 4294967296 fields.api
  slot : DecimalBelow 65536 fields.slot
  subSlot : DecimalBelow 65536 fields.subSlot
  data : (∃ op, fields.op = some op ∧
    sameIgnoringCase op.val (asciiBytes "write")) → HexData fields.data

theorem mqttMsgHdlr_sends_invalid :
    ¬ ∀ (tokener : JsonTokener) (net : Network) (heap payload : Memory)
        (len : ℕ),
      ((mqttMsgHdlr tokener net heap payload len).sent ≠ [] →
        ∃ fields, tokener payload = some fields ∧ ValidRequest fields) ∧
      ((¬ ∃ fields, tokener payload = some fields ∧ ValidRequest fields) →
        (mqttMsgHdlr tokener net heap payload len).sent = [] ∧
          (mqttMsgHdlr tokener net heap payload len).ret = -1) := by
  intro h
  let tokener : JsonTokener := fun _ =>
    some ⟨some ⟨asciiBytes "plc", by decide⟩, some ⟨asciiBytes "read", by decide⟩,
      some ⟨asciiBytes "0", by decide⟩, some ⟨asciiBytes "65537", by decide⟩,
      some ⟨asciiBytes "1", by decide⟩, none⟩
  let net : Network := ⟨fun _ => some [192, 168, 1, 2], fun _ => 164, none⟩
  have hop : Supported
      (stringAt (parsedReq tokener fun _ => 0) ProfinetReq.op) := by decide
  obtain ⟨packet, hsent⟩ :=
    @mqttMsgHdlr_sent_of_supported tokener net (fun _ => 0) (fun _ => 0) 0 hop
  have hnonempty :
      (mqttMsgHdlr tokener net (fun _ => 0) (fun _ => 0) 0).sent ≠ [] := by
    rw [hsent, sendIoPacket_sent_ne_nil_iff]
    rfl
  obtain ⟨fields, hfields, hvalid⟩ :=
    (h tokener net (fun _ => 0) (fun _ => 0) 0).1 hnonempty
  cases hfields
  obtain ⟨text, htext, -, -, hbound⟩ := hvalid.slot
  cases htext
  revert hbound
  decide

end ProfinetIo
