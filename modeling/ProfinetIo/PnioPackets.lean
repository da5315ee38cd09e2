import ProfinetIo.ProfinetHeader
import Mathlib.Tactic

/-!
# The read and write datagrams

`send_read_IO_Packet` and `send_write_IO_Packet` overlay packed structures on
a zeroed buffer and send its first 164 bytes.  A structure is encoded in
declaration order with the integers of a little-endian host; fields that no
assignment reaches stay zero.  The write header lies on the storage of the
read header, and the data is copied to where its eight-byte array begins,
whatever its length.
-/

namespace ProfinetIo

open ByteMemory

/-! ## Packed structures -/

/-- `os_DCEorRPC_t`. -/
structure DceOrRpc where
  version : UInt8
  packetType : UInt8
  flag : ℕ
  dataRep : Octets 3
  serialHigh : UInt8
  objectUuid : Octets 16
  interface : Octets 16
  activity : Octets 16
  serverBoot : ℕ
  interfaceVersion : ℕ
  sequence : ℕ
  option : ℕ
  interfaceHint : ℕ
  activityHint : ℕ
  fragmentLength : ℕ
  fragmentNum : ℕ
  authProto : UInt8
  serialLow : UInt8

def DceOrRpc.encode (h : DceOrRpc) : List UInt8 :=
  [h.version, h.packetType] ++ littleEndian 2 h.flag ++ h.dataRep.val ++
    [h.serialHigh] ++ h.objectUuid.val ++ h.interface.val ++ h.activity.val ++
    littleEndian 4 h.serverBoot ++ littleEndian 4 h.interfaceVersion ++
    littleEndian 4 h.sequence ++ littleEndian 2 h.option ++
    littleEndian 2 h.interfaceHint ++ littleEndian 2 h.activityHint ++
    littleEndian 2 h.fragmentLength ++ littleEndian 2 h.fragmentNum ++
    [h.authProto, h.serialLow]

@[simp] theorem DceOrRpc.encode_length (h : DceOrRpc) :
    h.encode.length = 80 := by
  simp [DceOrRpc.encode]

/-- The five integers in front of the request header in `os_pnio_t`. -/
structure PnIoArgs where
  maxArg : ℕ
  argLength : ℕ
  maxcount : ℕ
  offset : ℕ
  actualCount : ℕ

def PnIoArgs.encode (h : PnIoArgs) : List UInt8 :=
  littleEndian 4 h.maxArg ++ littleEndian 4 h.argLength ++
    littleEndian 4 h.maxcount ++ littleEndian 4 h.offset ++
    littleEndian 4 h.actualCount

@[simp] theorem PnIoArgs.encode_length (h : PnIoArgs) :
    h.encode.length = 20 := by
  simp [PnIoArgs.encode]

/-- The fields that `os_read_reqhdr_t` and `os_write_reqhdr_t` have in common,
which are all of either but the last ones. -/
structure ReqHdr where
  blockType : ℕ
  length : ℕ
  versionHigh : UInt8
  versionLow : UInt8
  seqNbr : ℕ
  arUuid : Octets 16
  api : ℕ
  slot : ℕ
  subslot : ℕ
  padding : ℕ
  index : ℕ
  recordDataLength : ℕ

def ReqHdr.encode (h : ReqHdr) : List UInt8 :=
  littleEndian 2 h.blockType ++ littleEndian 2 h.length ++
    [h.versionHigh, h.versionLow] ++ littleEndian 2 h.seqNbr ++ h.arUuid.val ++
    littleEndian 4 h.api ++ littleEndian 2 h.slot ++ littleEndian 2 h.subslot ++
    littleEndian 2 h.padding ++ littleEndian 2 h.index ++
    littleEndian 4 h.recordDataLength

@[simp] theorem ReqHdr.encode_length (h : ReqHdr) : h.encode.length = 40 := by
  simp [ReqHdr.encode]

/-! ## The builders -/

def noFackFlag : ℕ := 0x0008
def activityHint : ℕ := 0xffff
def interfaceHint : ℕ := 0xffff
def fragmentLength : ℕ := 0x54
def fragmentNumber : ℕ := 0x00

def zeroOctets (n : ℕ) : Octets n :=
  ⟨List.replicate n 0, List.length_replicate⟩

/-- The RPC header, the same for both operations but for `option`. -/
def rpcHeader (option : ℕ) : DceOrRpc where
  version := 4
  packetType := 0x00
  flag := noFackFlag
  dataRep := ⟨[0x10, 0x00, 0x00], rfl⟩
  serialHigh := 0x00
  objectUuid := ⟨[0x00, 0x00, 0xa0, 0xde, 0x97, 0x6c, 0xd1, 0x11, 0x82, 0x71,
    0x00, 0x00, 0x00, 0x00, 0x00, 0x00], rfl⟩
  interface := ⟨[0x02, 0x00, 0xa0, 0xde, 0x97, 0x6c, 0xd1, 0x11, 0x82, 0x71,
    0x00, 0xa0, 0x24, 0x42, 0xdf, 0x7d], rfl⟩
  activity := ⟨[0xdb, 0xab, 0xba, 0xec, 0x1d, 0x00, 0x54, 0x43, 0x50, 0xb2,
    0x0b, 0x01, 0x63, 0x0a, 0xba, 0xfd], rfl⟩
  serverBoot := 0x00
  interfaceVersion := 0x01
  sequence := 0
  option := option
  interfaceHint := interfaceHint
  activityHint := activityHint
  fragmentLength := fragmentLength
  fragmentNum := fragmentNumber
  authProto := 0x00
  serialLow := 0x00

def pnioArgs : PnIoArgs where
  maxArg := 0x8040
  argLength := 0x40
  maxcount := 0x8040
  offset := byteSwap 4 0
  actualCount := 0x40

def readReqHdr (api slot subslot : ℕ) : ReqHdr where
  blockType := 0x0900
  length := 0x3c00
  versionHigh := 1
  versionLow := 0
  seqNbr := 0x0a00
  arUuid := zeroOctets 16
  api := api
  slot := slot
  subslot := subslot
  padding := 0x0000
  index := 0x40f8
  recordDataLength := 0x800000

def writeReqHdr (api slot subslot len : ℕ) : ReqHdr where
  blockType := 0x0800
  length := 0x3f00
  versionHigh := 1
  versionLow := 0
  seqNbr := 0x0110
  arUuid := ⟨[0x10, 0x01, 0x00, 0x00, 0x00, 0x00, 0x00, 0x00, 0x00, 0x00, 0x00,
    0x00, 0x00, 0x00, 0x00, 0x00], rfl⟩
  api := api
  slot := slot
  subslot := subslot
  padding := 0x0000
  index := 0x40f8
  recordDataLength := byteSwap 4 len

/-- The payload of `os_buf_alloc(length)`, followed by the rest of the heap. -/
def osBufAlloc (length : ℕ) (heap : Memory) : Memory :=
  store heap 0 (List.replicate length 0)

/-- The buffer of a read request; `target_ar_uuid` and `padding2` stay
zero. -/
def readBuffer (heap : Memory) (api slot subslot : ℕ) : Memory :=
  let buf := osBufAlloc 2048 heap
  let buf := store buf 0 (rpcHeader 0x05).encode
  let buf := store buf 80 pnioArgs.encode
  store buf 100 (readReqHdr api slot subslot).encode

def writeBuffer (heap : Memory) (api slot subslot : ℕ) (data : List UInt8) :
    Memory :=
  let buf := osBufAlloc 2048 heap
  let buf := store buf 0 (rpcHeader 0x03).encode
  let buf := store buf 80 pnioArgs.encode
  let buf := store buf 100 (writeReqHdr api slot subslot data.length).encode
  store buf 140 data

/-- `sizeof(os_DCEorRPC_t) + sizeof(os_pnio_t)`, the final `dst_pos`. -/
def datagramSize : ℕ := 80 + 84

/-! ## Sending -/

structure Datagram where
  address : List UInt8
  port : ℕ
  bytes : List UInt8
  deriving DecidableEq, Repr

/-- What the resolver and the socket answer: the address of a host, the value
of `sendto`, and the datagram received before the time-out. -/
structure Network where
  gethostbyname : List UInt8 → Option (List UInt8)
  sendto : Datagram → ℤ
  recvfrom : Option { bytes : List UInt8 // bytes.length ≤ 2048 }

/-- The return value, the datagrams handed to `sendto`, and the response if
one was stored with its size. -/
structure IoResult where
  ret : ℤ
  sent : List Datagram
  response : Option (List UInt8)

def sendIoPacket (net : Network) (ip packet : List UInt8) : IoResult :=
  match net.gethostbyname ip with
  | none => ⟨-1, [], none⟩
  | some address =>
      let datagram : Datagram := ⟨address, 34964, packet⟩
      if net.sendto datagram < 0 then ⟨0, [datagram], none⟩
      else ⟨0, [datagram], net.recvfrom.map Subtype.val⟩

def sendReadIoPacket (net : Network) (heap : Memory) (ip : List UInt8)
    (api slot subslot : ℕ) : IoResult :=
  sendIoPacket net ip (slice (readBuffer heap api slot subslot) 0 datagramSize)

def sendWriteIoPacket (net : Network) (heap : Memory) (ip : List UInt8)
    (api slot subslot : ℕ) (data : List UInt8) : IoResult :=
  sendIoPacket net ip
    (slice (writeBuffer heap api slot subslot data) 0 datagramSize)

theorem sendIoPacket_sent (net : Network) (ip packet : List UInt8) :
    (sendIoPacket net ip packet).sent =
      (net.gethostbyname ip).toList.map fun address =>
        ⟨address, 34964, packet⟩ := by
  unfold sendIoPacket
  cases net.gethostbyname ip with
  | none => rfl
  | some address =>
      simp only
      split_ifs <;> rfl

theorem sendIoPacket_sent_ne_nil_iff
    {net : Network} {ip packet : List UInt8} :
    (sendIoPacket net ip packet).sent ≠ [] ↔ (net.gethostbyname ip).isSome := by
  rw [sendIoPacket_sent]
  cases net.gethostbyname ip with
  | none => simp
  | some address => simp

theorem sendIoPacket_sent_length_le (net : Network) (ip packet : List UInt8) :
    (sendIoPacket net ip packet).sent.length ≤ 1 := by
  rw [sendIoPacket_sent]
  cases net.gethostbyname ip with
  | none => simp
  | some address => simp

/-! ## The bytes of a write datagram -/

/-- The three structures lie one behind the other. -/
theorem store_headers (buf : Memory) (option : ℕ) (hdr : ReqHdr) :
    store (store (store buf 0 (rpcHeader option).encode) 80 pnioArgs.encode)
        100 hdr.encode =
      store buf 0
        ((rpcHeader option).encode ++ pnioArgs.encode ++ hdr.encode) := by
  have hargs := store_append buf 0 (rpcHeader option).encode pnioArgs.encode
  have hheader := store_append buf 0
    ((rpcHeader option).encode ++ pnioArgs.encode) hdr.encode
  simp only [List.length_append, DceOrRpc.encode_length,
    PnIoArgs.encode_length, Nat.zero_add, Nat.reduceAdd] at hargs hheader
  rw [hargs, hheader]

def writeHeaders (api slot subslot len : ℕ) : List UInt8 :=
  (rpcHeader 0x03).encode ++ pnioArgs.encode ++
    (writeReqHdr api slot subslot len).encode

@[simp] theorem writeHeaders_length (api slot subslot len : ℕ) :
    (writeHeaders api slot subslot len).length = 140 := by
  simp [writeHeaders]

theorem writeBuffer_eq_store
    (heap : Memory) (api slot subslot : ℕ) (data : List UInt8) :
    writeBuffer heap api slot subslot data =
      store (osBufAlloc 2048 heap) 0
        (writeHeaders api slot subslot data.length ++ data) := by
  have hdata := store_append (osBufAlloc 2048 heap) 0
    (writeHeaders api slot subslot data.length) data
  rw [writeHeaders_length, Nat.zero_add, writeHeaders,
    ← store_headers] at hdata
  exact hdata

/-- The datagram is the headers and the first 24 bytes of the data, filled up
with zeros. -/
theorem writeDatagram_eq
    (heap : Memory) (api slot subslot : ℕ) (data : List UInt8) :
    slice (writeBuffer heap api slot subslot data) 0 datagramSize =
      writeHeaders api slot subslot data.length ++
        (data ++ List.replicate 24 0).take 24 := by
  have hslice := @slice_store_zeroed heap
    (writeHeaders api slot subslot data.length) data 24 2048 (by simp)
  rw [writeHeaders_length] at hslice
  rw [writeBuffer_eq_store]
  exact hslice

@[simp] theorem writeDatagram_length
    (heap : Memory) (api slot subslot : ℕ) (data : List UInt8) :
    (slice (writeBuffer heap api slot subslot data) 0 datagramSize).length =
      164 := by
  simp [datagramSize]

/-! ## What a write datagram says about itself -/

/-- The datagram announces and carries the data, and its lengths are those it
has. -/
structure CarriesData (data bytes : List UInt8) : Prop where
  recordDataLength :
    bigEndianValue ((bytes.drop 136).take 4) = data.length
  content : (bytes.drop 140).take data.length = data
  fragmentLength :
    littleEndianValue ((bytes.drop 74).take 2) = bytes.length - 80
  argLength :
    littleEndianValue ((bytes.drop 84).take 4) = bytes.length - 80 - 20
  actualCount :
    littleEndianValue ((bytes.drop 96).take 4) = bytes.length - 80 - 20

theorem writeHeaders_recordDataLength (api slot subslot len : ℕ) :
    (writeHeaders api slot subslot len).drop 136 = bigEndian 4 len := by
  have hrecord : littleEndian 4 (writeReqHdr api slot subslot len).recordDataLength
      = bigEndian 4 len := by
    simp [writeReqHdr]
  rw [← hrecord, writeHeaders, ReqHdr.encode, ← List.append_assoc]
  exact List.drop_left' (by simp)

theorem writeHeaders_rpc (api slot subslot len : ℕ) :
    ((writeHeaders api slot subslot len).drop 74).take 2 = [0x54, 0x00] := by
  rw [writeHeaders, List.append_assoc,
    List.drop_append_of_le_length (by simp),
    List.take_append_of_le_length (by simp)]
  decide

theorem writeHeaders_args
    {offset width : ℕ} (h : offset + width ≤ 20)
    (api slot subslot len : ℕ) :
    ((writeHeaders api slot subslot len).drop (80 + offset)).take width =
      (pnioArgs.encode.drop offset).take width := by
  rw [writeHeaders, List.append_assoc, ← List.drop_drop,
    List.drop_left' (by simp), List.drop_append_of_le_length (by simp; omega),
    List.take_append_of_le_length (by simp; omega)]

theorem carriesData_iff
    (heap : Memory) (api slot subslot : ℕ) (data : List UInt8) :
    CarriesData data
        (slice (writeBuffer heap api slot subslot data) 0 datagramSize) ↔
      data.length ≤ 24 := by
  have hlength := writeDatagram_length heap api slot subslot data
  constructor
  · intro h
    have hcontent := congrArg List.length h.content
    rw [List.length_take, List.length_drop, hlength] at hcontent
    omega
  · intro hroom
    rw [writeDatagram_eq] at hlength ⊢
    constructor
    · rw [List.drop_append_of_le_length (by simp),
        writeHeaders_recordDataLength, List.take_left' (by simp)]
      exact bigEndianValue_bigEndian (by omega)
    · rw [List.drop_left' (by simp), List.take_take,
        Nat.min_eq_left hroom, List.take_left]
    · rw [hlength, List.drop_append_of_le_length (by simp),
        List.take_append_of_le_length (by simp), writeHeaders_rpc]
      rfl
    · rw [hlength, List.drop_append_of_le_length (by simp),
        List.take_append_of_le_length (by simp), show 84 = 80 + 4 by rfl,
        writeHeaders_args (by decide)]
      rfl
    · rw [hlength, List.drop_append_of_le_length (by simp),
        List.take_append_of_le_length (by simp), show 96 = 80 + 16 by rfl,
        writeHeaders_args (by decide)]
      rfl

end ProfinetIo
