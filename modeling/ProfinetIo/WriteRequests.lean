import ProfinetIo.MqttMsgHdlr
import Mathlib.Tactic

/-!
# Write requests

A write request hands one datagram of 164 bytes to `sendto` however many bytes
its data has.  The headers announce all of them, and the 24 bytes behind the
record length take the first of them.
-/

namespace ProfinetIo

open ByteMemory CStrings

def requestedData (tokener : JsonTokener) (payload : Memory) : List UInt8 :=
  writeData (stringAt (parsedReq tokener payload) ProfinetReq.data)

/-- The request hands one datagram to `sendto`, and it carries the data. -/
def WriteCarriesData (tokener : JsonTokener) (net : Network)
    (heap payload : Memory) (len : ℕ) : Prop :=
  ∃ datagram, (mqttMsgHdlr tokener net heap payload len).sent = [datagram] ∧
    CarriesData (requestedData tokener payload) datagram.bytes

section Write

variable {tokener : JsonTokener} {net : Network} {payload : Memory}
  {address : List UInt8}

theorem write_sent
    (hop : sameIgnoringCase
      (stringAt (parsedReq tokener payload) ProfinetReq.op)
      (asciiBytes "write"))
    (hhost : net.gethostbyname
      (stringAt (parsedReq tokener payload) ProfinetReq.ip) = some address)
    (heap : Memory) (len : ℕ) :
    (mqttMsgHdlr tokener net heap payload len).sent =
      [⟨address, 34964,
        slice (writeBuffer heap
          (ntohl (atoi (stringAt (parsedReq tokener payload) ProfinetReq.api)))
          (ntohs (atoi (stringAt (parsedReq tokener payload) ProfinetReq.slot)))
          (ntohs (atoi
            (stringAt (parsedReq tokener payload) ProfinetReq.subSlot)))
          (requestedData tokener payload)) 0 datagramSize⟩] := by
  rw [mqttMsgHdlr_of_write hop]
  simp only [publishResponse, sendWriteIoPacket, sendIoPacket_sent, hhost,
    requestedData]
  rfl

theorem writeCarriesData_of_write
    (hop : sameIgnoringCase
      (stringAt (parsedReq tokener payload) ProfinetReq.op)
      (asciiBytes "write"))
    (hhost : net.gethostbyname
      (stringAt (parsedReq tokener payload) ProfinetReq.ip) = some address)
    (heap : Memory) (len : ℕ) :
    WriteCarriesData tokener net heap payload len ↔
      (requestedData tokener payload).length ≤ 24 := by
  have hsent := write_sent hop hhost heap len
  constructor
  · rintro ⟨datagram, hdatagram, hcarries⟩
    rw [hsent, List.cons.injEq] at hdatagram
    rw [← hdatagram.1] at hcarries
    exact (carriesData_iff _ _ _ _ _).mp hcarries
  · intro hroom
    exact ⟨_, hsent, (carriesData_iff _ _ _ _ _).mpr hroom⟩

end Write

/-- A write request whose host is known carries its data exactly when that has
at most 24 bytes. -/
theorem writeCarriesData_iff
    (tokener : JsonTokener) (net : Network) (heap payload : Memory) (len : ℕ)
    (hop : sameIgnoringCase
      (stringAt (parsedReq tokener payload) ProfinetReq.op)
      (asciiBytes "write"))
    (hhost : (net.gethostbyname
      (stringAt (parsedReq tokener payload) ProfinetReq.ip)).isSome) :
    WriteCarriesData tokener net heap payload len ↔
      (tokens 32
        (stringAt (parsedReq tokener payload) ProfinetReq.data)).length ≤
          24 := by
  obtain ⟨address, haddress⟩ := Option.isSome_iff_exists.mp hhost
  rw [writeCarriesData_of_write hop haddress, requestedData, writeData,
    List.length_map]

theorem zero_notMem_plc : 0 ∉ asciiBytes "plc" := by decide

theorem zero_notMem_write : 0 ∉ asciiBytes "write" := by decide

def writeTokener (data : CString) : JsonTokener := fun _ =>
  some ⟨some ⟨asciiBytes "plc", zero_notMem_plc⟩,
    some ⟨asciiBytes "write", zero_notMem_write⟩,
    some ⟨asciiBytes "0", by decide⟩, some ⟨asciiBytes "1", by decide⟩,
    some ⟨asciiBytes "1", by decide⟩, some data⟩

def silentNetwork : Network where
  gethostbyname := fun _ => some [192, 168, 1, 2]
  sendto := fun datagram => datagram.bytes.length
  recvfrom := none

theorem writeCarriesData_two_bytes :
    WriteCarriesData (writeTokener ⟨asciiBytes "0a ff", by decide⟩)
        silentNetwork (fun _ => 0) (fun _ => 0) 0 ↔
      (tokens 32 (stringAt
        (parsedReq (writeTokener ⟨asciiBytes "0a ff", by decide⟩) fun _ => 0)
        ProfinetReq.data)).length ≤ 24 :=
  writeCarriesData_iff _ _ _ _ _ (by decide) (by decide)

theorem writeCarriesData_fails_on_25_bytes :
    ¬ ∀ (tokener : JsonTokener) (net : Network) (heap payload : Memory)
        (len : ℕ),
      sameIgnoringCase (stringAt (parsedReq tokener payload) ProfinetReq.op)
        (asciiBytes "write") →
      (net.gethostbyname
        (stringAt (parsedReq tokener payload) ProfinetReq.ip)).isSome →
      (stringAt (parsedReq tokener payload) ProfinetReq.data).length ≤ 127 →
        WriteCarriesData tokener net heap payload len := by
  intro h
  let data : CString :=
    ⟨asciiBytes "1 1 1 1 1 1 1 1 1 1 1 1 1 1 1 1 1 1 1 1 1 1 1 1 1", by decide⟩
  have hcarries := h (writeTokener data) silentNetwork (fun _ => 0)
    (fun _ => 0) 0 (by decide) (by decide) (by decide)
  have hop : sameIgnoringCase
      (stringAt (parsedReq (writeTokener data) fun _ => 0) ProfinetReq.op)
      (asciiBytes "write") := by decide
  have hhost : silentNetwork.gethostbyname
      (stringAt (parsedReq (writeTokener data) fun _ => 0) ProfinetReq.ip) =
      some [192, 168, 1, 2] := rfl
  rw [writeCarriesData_of_write hop hhost] at hcarries
  revert hcarries
  decide

end ProfinetIo
