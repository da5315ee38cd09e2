import ProfinetIo.DeviceTables
import ProfinetIo.ExtractBlocks
import Mathlib.Tactic

/-!
# Receiving a frame

One call of `recieve_profinet_packets`.  The frame lies at the start of a
zeroed buffer of 65536 bytes; neither its length nor the `ddl` it claims is
compared with anything.  The header is read field by field, behind an 802.1Q
tag if there is one, and two tests decide whether the payload is handed to
the block parser.
-/

namespace ProfinetIo

open ByteMemory

/-! ## The header -/

/-- `struct pack`, with `traversed` where the payload begins. -/
structure Pack where
  sourceMac : Octets 6
  destMac : Octets 6
  packetType : ℕ
  frameId : ℕ
  serviceId : UInt8
  serviceType : UInt8
  xid : ℕ
  reserveOrDelay : ℕ
  ddl : ℕ
  traversed : ℕ

/-- `((uint16_t)buffer[k]<<8)|(uint16_t)buffer[k+1]`. -/
def word16 (buffer : Memory) (k : ℕ) : ℕ :=
  ((buffer k).toNat <<< 8) ||| (buffer (k + 1)).toNat

def word32 (buffer : Memory) (k : ℕ) : ℕ :=
  ((buffer k).toNat <<< 24) ||| ((buffer (k + 1)).toNat <<< 16) |||
    ((buffer (k + 2)).toNat <<< 8) ||| (buffer (k + 3)).toNat

def typeOffset (buffer : Memory) : ℕ :=
  if buffer 12 = 0x81 ∧ buffer 13 = 0x00 then 16 else 12

def parseHeader (buffer : Memory) : Pack :=
  let traversed := typeOffset buffer
  { destMac := Octets.ofMemory buffer 0 6
    sourceMac := Octets.ofMemory buffer 6 6
    packetType := word16 buffer traversed
    frameId := word16 buffer (traversed + 2)
    serviceId := buffer (traversed + 4)
    serviceType := buffer (traversed + 5)
    xid := word32 buffer (traversed + 6)
    reserveOrDelay := word16 buffer (traversed + 10)
    ddl := word16 buffer (traversed + 12)
    traversed := traversed + 14 }

/-! ## The acceptance tests -/

/-- What `printf(" packet type: %.4x\n", p.packet_type)` returns: the number of
characters printed. -/
def printedPacketType : ℕ := 14 + 4 + 1

/-- `ETHTYPE_PROFINET == p.packet_type | printf(..)`. -/
def typeTest (p : Pack) : Bool :=
  decide ((if ethtypeProfinet = p.packetType then 1 else 0) |||
    printedPacketType ≠ 0)

def identifyTest (p : Pack) : Bool :=
  decide (pfDcpIdResFrameId = p.frameId) &&
    decide (pfDcpServiceIdentify = p.serviceId.toNat) &&
    decide (pfDcpServiceTypeSuccess = p.serviceType.toNat)

/-- The test of the second branch, which compares the frame id with a service
and the source address with the multicast address. -/
def helloTest (p : Pack) : Bool :=
  decide (pfDcpServiceHello = p.frameId) &&
    decide (pfDcpServiceHello = p.serviceId.toNat) &&
    decide (pfDcpServiceTypeSuccess = p.serviceType.toNat) &&
    decide (p.sourceMac = dcpMcAddress)

theorem typeTest_true (p : Pack) : typeTest p = true := by
  unfold typeTest
  split_ifs <;> decide

theorem not_identifyTest_and_helloTest (p : Pack) :
    ¬ (identifyTest p = true ∧ helloTest p = true) := by
  simp only [identifyTest, helloTest, Bool.and_eq_true, decide_eq_true_eq]
  rintro ⟨⟨⟨hidentify, -⟩, -⟩, ⟨⟨hhello, -⟩, -⟩, -⟩
  rw [← hidentify] at hhello
  exact absurd hhello (by decide)

/-! ## One reception -/

/-- A frame and what the memory it meets happens to hold: the heap behind the
receive buffer and behind the parser's copy, and a freshly allocated device
record. -/
structure Reception where
  frame : List UInt8
  heap : Memory
  copyHeap : Memory
  fresh : Device
  frame_length_le : frame.length ≤ 65536

namespace Reception

def buffer (r : Reception) : Memory :=
  store (store r.heap 0 (List.replicate 65536 0)) 0 r.frame

def pack (r : Reception) : Pack := parseHeader r.buffer

def payload (r : Reception) : List UInt8 :=
  slice r.buffer r.pack.traversed r.pack.ddl

def headerReads (r : Reception) : List ℕ := List.range r.pack.traversed

end Reception

structure ReceiveState where
  table : DeviceTable
  top : List Device

/-- The record a frame is to be stored in, with the index of its node if it is
one of the list. -/
def chooseDevice (r : Reception) (top : List Device) :
    Option (Option ℕ × Device) :=
  match findDeviceByMAC top r.pack.sourceMac with
  | .null => some (none, { r.fresh with mac := r.pack.sourceMac })
  | .node index => top[index]?.map fun node => (some index, node)
  | .undefined => none

/-- What both branches do with the record: the payload is parsed into it, and
it gets the source address.  A fresh record is not linked into the list. -/
def storeDevice (r : Reception) (top : List Device) : Option (List Device) :=
  (chooseDevice r top).bind fun (index, dev) =>
    (extractBlocksFromPacket r.payload dev r.copyHeap).map fun parsed =>
      let dev := { parsed.device with mac := r.pack.sourceMac }
      match index with
      | none => top
      | some index => top.set index dev

def identifyBranch (r : Reception) (s : ReceiveState) : Option ReceiveState :=
  (storeDevice r s.top).map fun top => { s with top := top }

def helloBranch (r : Reception) (s : ReceiveState) : Option ReceiveState :=
  (storeDevice r s.top).map fun top =>
    { table := addDevice s.table r.pack.sourceMac, top := top }

/-- `recieve_profinet_packets` on a received frame; `none` where a lookup
without a defined value is used. -/
def recieveProfinetPackets (r : Reception) (s : ReceiveState) :
    Option ReceiveState :=
  let p := r.pack
  if typeTest p then
    (if identifyTest p && !check s.table p.sourceMac then identifyBranch r s
      else some s).bind fun s =>
        if helloTest p && !check s.table p.sourceMac then helloBranch r s
        else some s
  else
    some s

/-- The calls of `extract_blocks_from_packet`, as offset and length of the
payload in the buffer. -/
def handed (table : DeviceTable) (r : Reception) : List (ℕ × ℕ) :=
  let p := r.pack
  if typeTest p then
    (if identifyTest p && !check table p.sourceMac then [(p.traversed, p.ddl)]
      else []) ++
    (if helloTest p && !check table p.sourceMac then [(p.traversed, p.ddl)]
      else [])
  else
    []

def accepts (table : DeviceTable) (p : Pack) : Bool :=
  (identifyTest p || helloTest p) && !check table p.sourceMac

theorem accepts_iff {table : DeviceTable} {p : Pack} :
    accepts table p = true ↔
      (identifyTest p = true ∨ helloTest p = true) ∧
        check table p.sourceMac = false := by
  simp [accepts]

theorem helloTest_of_identifyTest
    {p : Pack} (h : identifyTest p = true) : helloTest p = false := by
  simpa [h] using not_identifyTest_and_helloTest p

theorem handed_eq (table : DeviceTable) (r : Reception) :
    handed table r =
      if accepts table r.pack then [(r.pack.traversed, r.pack.ddl)]
      else [] := by
  unfold handed accepts
  by_cases hidentify : identifyTest r.pack = true
  · have hhello := helloTest_of_identifyTest hidentify
    simp [typeTest_true, hidentify, hhello]
  · simp [typeTest_true, hidentify]

/-- An accepted frame takes one branch, any other leaves the state alone. -/
theorem recieveProfinetPackets_eq (r : Reception) (s : ReceiveState) :
    recieveProfinetPackets r s =
      if accepts s.table r.pack then
        if identifyTest r.pack then identifyBranch r s else helloBranch r s
      else some s := by
  unfold recieveProfinetPackets accepts
  by_cases hidentify : identifyTest r.pack = true
  · have hhello := helloTest_of_identifyTest hidentify
    simp [typeTest_true, hidentify, hhello]
  · simp [typeTest_true, hidentify]

end ProfinetIo
