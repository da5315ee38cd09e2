import ProfinetIo.MqttMsgHdlr
import Mathlib.Tactic

/-!
# Which bytes a message depends on

`msgarrvd` hands over a payload with its length, and `mqtt_msg_hdlr` gives the
payload to a parser that reads up to the first zero byte.  The length is never
looked at.  A message is therefore independent of the memory behind it exactly
when it brings its own zero byte, which MQTT payloads do not have to.
-/

namespace ProfinetIo

open ByteMemory CStrings

/-- The memories agree up to the first zero byte, which is included. -/
def SameCString (mem mem' : Memory) : Prop :=
  ∀ k, (∀ j < k, mem j ≠ 0) → mem k = mem' k

def ReadsCString (tokener : JsonTokener) : Prop :=
  ∀ mem mem', SameCString mem mem' → tokener mem = tokener mem'

section SameCString

variable {mem mem' : Memory}

theorem SameCString.nonzero (h : SameCString mem mem') {n : ℕ}
    (hmem : ∀ k < n, mem k ≠ 0) : ∀ k < n, mem' k ≠ 0 := by
  intro k hk
  rw [← h k fun j hj => hmem j (hj.trans hk)]
  exact hmem k hk

theorem SameCString.symm (h : SameCString mem mem') :
    SameCString mem' mem := by
  intro k hk
  have hall : ∀ j < k, mem j ≠ 0 := by
    intro j hj
    induction j using Nat.strong_induction_on with
    | _ j ih =>
        rw [h j fun i hi => ih i hi (hi.trans hj)]
        exact hk j hj
  exact (h k hall).symm

theorem nonzero_of_slice {text : List UInt8} (htext : 0 ∉ text)
    (h : slice mem 0 text.length = text) : ∀ k < text.length, mem k ≠ 0 := by
  intro k hk hzero
  have hbyte := slice_eq_iff.mp h k hk
  rw [Nat.zero_add, hzero] at hbyte
  exact htext (hbyte ▸ List.getElem_mem hk)

theorem SameCString.slice_eq {text : List UInt8} (htext : 0 ∉ text)
    (h : SameCString mem mem')
    (hmem : slice mem 0 (text.length + 1) = text ++ [0]) :
    slice mem' 0 (text.length + 1) = text ++ [0] := by
  have hfront : slice mem 0 text.length = text := by
    rw [slice_add] at hmem
    exact (List.append_inj hmem (slice_length _ _ _)).1
  have hnonzero := nonzero_of_slice htext hfront
  rw [← hmem]
  apply slice_congr
  intro k hk
  rw [Nat.zero_add]
  exact (h k fun j hj => hnonzero j (by omega)).symm

end SameCString

/-- Two memories that agree on the bytes of the message make the handler parse
the same fields and do the same, whatever the parser makes of a C string. -/
def OnlyPayloadMatters (bytes : List UInt8) : Prop :=
  ∀ tokener, ReadsCString tokener → ∀ (net : Network) (heap payload payload'),
    slice payload 0 bytes.length = bytes →
    slice payload' 0 bytes.length = bytes →
      parsedReq tokener payload = parsedReq tokener payload' ∧
      mqttMsgHdlr tokener net heap payload bytes.length =
        mqttMsgHdlr tokener net heap payload' bytes.length

/-! ## Messages with a zero byte -/

theorem sameCString_of_slice
    {payload payload' : Memory} {bytes : List UInt8} (hzero : 0 ∈ bytes)
    (h : slice payload 0 bytes.length = bytes)
    (h' : slice payload' 0 bytes.length = bytes) :
    SameCString payload payload' := by
  obtain ⟨at', hat, hbyte⟩ := List.getElem_of_mem hzero
  have hpayload := slice_eq_iff.mp h
  have hpayload' := slice_eq_iff.mp h'
  intro k hk
  have hinside : k ≤ at' := by
    by_contra hbehind
    apply hk at' (by omega)
    have hat' := hpayload at' hat
    rwa [Nat.zero_add, hbyte] at hat'
  have hleft := hpayload k (by omega)
  have hright := hpayload' k (by omega)
  rw [Nat.zero_add] at hleft hright
  rw [hleft, hright]

theorem mqttMsgHdlr_congr
    {tokener : JsonTokener} {payload payload' : Memory}
    (h : tokener payload = tokener payload') (net : Network) (heap : Memory)
    (len : ℕ) :
    mqttMsgHdlr tokener net heap payload len =
      mqttMsgHdlr tokener net heap payload' len := by
  have hreq : parsedReq tokener payload = parsedReq tokener payload' := by
    rw [parsedReq, h, parsedReq]
  simp only [mqttMsgHdlr, hreq]

/-! ## Messages without one -/

def readFields : JsonFields where
  ip := none
  op := some ⟨asciiBytes "read", by decide⟩
  api := none
  slot := none
  subSlot := none
  data := none

/-- A parser that finds a read operation in every string of more than `size`
bytes. -/
def longTextTokener (size : ℕ) : JsonTokener := fun mem =>
  if ∀ k < size + 1, mem k ≠ 0 then some readFields else none

theorem longTextTokener_reads (size : ℕ) :
    ReadsCString (longTextTokener size) := by
  intro mem mem' hsame
  have hiff : (∀ k < size + 1, mem k ≠ 0) ↔ ∀ k < size + 1, mem' k ≠ 0 :=
    ⟨hsame.nonzero, hsame.symm.nonzero⟩
  simp only [longTextTokener, hiff]

theorem parsedReq_ne_of_readFields
    {tokener : JsonTokener} {payload payload' : Memory}
    (h : tokener payload = some readFields) (h' : tokener payload' = none) :
    parsedReq tokener payload ≠ parsedReq tokener payload' := by
  rw [parsedReq, parsedReq, h, h']
  decide

/-- A message is independent of what follows it exactly if it contains a zero
byte. -/
theorem onlyPayloadMatters_iff (bytes : List UInt8) :
    OnlyPayloadMatters bytes ↔ 0 ∈ bytes := by
  constructor
  · intro h
    by_contra hnone
    have hslice (filler : UInt8) :
        slice (store (fun _ => filler) 0 bytes) 0 bytes.length = bytes :=
      slice_store_self _ 0 bytes
    have hlast (filler : UInt8) :
        store (fun _ => filler) 0 bytes bytes.length = filler :=
      store_outside (by omega)
    have hsame := (h (longTextTokener bytes.length)
      (longTextTokener_reads bytes.length) ⟨fun _ => none, fun _ => 0, none⟩
      (fun _ => 0) _ _ (hslice 1) (hslice 0)).1
    refine parsedReq_ne_of_readFields ?_ ?_ hsame
    · apply if_pos
      intro k hk
      rcases Nat.lt_succ_iff_lt_or_eq.mp hk with hinside | rfl
      · exact nonzero_of_slice hnone (hslice 1) k hinside
      · rw [hlast]
        decide
    · apply if_neg
      intro hall
      exact hall bytes.length (by omega) (hlast 0)
  · intro hzero tokener htokener net heap payload payload' h h'
    have hparsed := htokener _ _ (sameCString_of_slice hzero h h')
    refine ⟨?_, mqttMsgHdlr_congr hparsed net heap _⟩
    rw [parsedReq, hparsed, parsedReq]

def oneTextTokener (text : List UInt8) : JsonTokener := fun mem =>
  if slice mem 0 (text.length + 1) = text ++ [0] then some readFields else none

theorem oneTextTokener_reads {text : List UInt8} (htext : 0 ∉ text) :
    ReadsCString (oneTextTokener text) := by
  intro mem mem' hsame
  have hiff : slice mem 0 (text.length + 1) = text ++ [0] ↔
      slice mem' 0 (text.length + 1) = text ++ [0] :=
    ⟨hsame.slice_eq htext, hsame.symm.slice_eq htext⟩
  simp only [oneTextTokener, hiff]

/-- A message cut off before its closing brace is completed by the byte that
follows it. -/
theorem onlyPayloadMatters_fails_on_cut_message :
    ¬ ∀ bytes : List UInt8, OnlyPayloadMatters bytes := by
  intro h
  have hcut := h (asciiBytes "\x7b\"op\":\"read\"")
    (oneTextTokener (asciiBytes "\x7b\"op\":\"read\"\x7d"))
    (oneTextTokener_reads (by decide)) ⟨fun _ => none, fun _ => 0, none⟩
    (fun _ => 0)
    (store (fun _ => 0) 0 (asciiBytes "\x7b\"op\":\"read\"\x7d"))
    (store (fun _ => 0) 0 (asciiBytes "\x7b\"op\":\"read\""))
    (by decide) (by decide)
  exact parsedReq_ne_of_readFields (if_pos (by decide)) (if_neg (by decide))
    hcut.1

end ProfinetIo
