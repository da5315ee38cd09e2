import ProfinetIo.RecordCodecs
import ProfinetIo.RequestAddressing
import Mathlib.Tactic

/-!
# The format of the read and write datagrams

The packed structures of a datagram as codecs.  The RPC header announces
little-endian integers, and what follows it belongs to the device and is in
network order: the program writes the request header with the integers of its
host, so it stores swapped values for a device to read back.
-/

namespace ProfinetIo

open ByteMemory CStrings RecordCodecs

/-! ## The structures -/

def dceOrRpcCodec : Codec DceOrRpc :=
  (Codec.byte.pair <| Codec.byte.pair <| (Codec.little 2).pair <|
    (Codec.octets 3).pair <| Codec.byte.pair <| (Codec.octets 16).pair <|
    (Codec.octets 16).pair <| (Codec.octets 16).pair <|
    (Codec.little 4).pair <| (Codec.little 4).pair <| (Codec.little 4).pair <|
    (Codec.little 2).pair <| (Codec.little 2).pair <| (Codec.little 2).pair <|
    (Codec.little 2).pair <| (Codec.little 2).pair <|
    Codec.byte.pair Codec.byte).map
    (fun (version, packetType, flag, dataRep, serialHigh, objectUuid,
        interface, activity, serverBoot, interfaceVersion, sequence, option,
        interfaceHint, activityHint, fragmentLength, fragmentNum, authProto,
        serialLow) =>
      ⟨version, packetType, flag, dataRep, serialHigh, objectUuid, interface,
        activity, serverBoot, interfaceVersion, sequence, option,
        interfaceHint, activityHint, fragmentLength, fragmentNum, authProto,
        serialLow⟩)
    (fun h => (h.version, h.packetType, h.flag, h.dataRep, h.serialHigh,
      h.objectUuid, h.interface, h.activity, h.serverBoot, h.interfaceVersion,
      h.sequence, h.option, h.interfaceHint, h.activityHint, h.fragmentLength,
      h.fragmentNum, h.authProto, h.serialLow))
    (fun _ => rfl) (fun _ => rfl)

def pnIoArgsCodec : Codec PnIoArgs :=
  ((Codec.little 4).pair <| (Codec.little 4).pair <| (Codec.little 4).pair <|
    (Codec.little 4).pair (Codec.little 4)).map
    (fun (maxArg, argLength, maxcount, offset, actualCount) =>
      ⟨maxArg, argLength, maxcount, offset, actualCount⟩)
    (fun h => (h.maxArg, h.argLength, h.maxcount, h.offset, h.actualCount))
    (fun _ => rfl) (fun _ => rfl)

/-- The request header in the byte order of `integer`. -/
def reqHdrCodec (integer : ℕ → Codec ℕ) : Codec ReqHdr :=
  ((integer 2).pair <| (integer 2).pair <| Codec.byte.pair <|
    Codec.byte.pair <| (integer 2).pair <| (Codec.octets 16).pair <|
    (integer 4).pair <| (integer 2).pair <| (integer 2).pair <|
    (integer 2).pair <| (integer 2).pair (integer 4)).map
    (fun (blockType, length, versionHigh, versionLow, seqNbr, arUuid, api,
        slot, subslot, padding, index, recordDataLength) =>
      ⟨blockType, length, versionHigh, versionLow, seqNbr, arUuid, api, slot,
        subslot, padding, index, recordDataLength⟩)
    (fun h => (h.blockType, h.length, h.versionHigh, h.versionLow, h.seqNbr,
      h.arUuid, h.api, h.slot, h.subslot, h.padding, h.index,
      h.recordDataLength))
    (fun _ => rfl) (fun _ => rfl)

theorem dceOrRpcCodec_encode (h : DceOrRpc) :
    dceOrRpcCodec.encode h = h.encode := by
  rw [dceOrRpcCodec, Codec.map_encode]
  simp [DceOrRpc.encode]

theorem pnIoArgsCodec_encode (h : PnIoArgs) :
    pnIoArgsCodec.encode h = h.encode := by
  rw [pnIoArgsCodec, Codec.map_encode]
  simp [PnIoArgs.encode]

/-! ## The two byte orders -/

/-- The header whose integers have the bytes of `h` in the other order. -/
def ReqHdr.swapped (h : ReqHdr) : ReqHdr :=
  { h with
    blockType := byteSwap 2 h.blockType
    length := byteSwap 2 h.length
    seqNbr := byteSwap 2 h.seqNbr
    api := byteSwap 4 h.api
    slot := byteSwap 2 h.slot
    subslot := byteSwap 2 h.subslot
    padding := byteSwap 2 h.padding
    index := byteSwap 2 h.index
    recordDataLength := byteSwap 4 h.recordDataLength }

/-- What the host writes is what a reader in network order takes for the
swapped header. -/
theorem reqHdrCodec_big_encode (h : ReqHdr) :
    (reqHdrCodec Codec.big).encode h.swapped = h.encode := by
  rw [reqHdrCodec, Codec.map_encode]
  simp [ReqHdr.encode, ReqHdr.swapped, bigEndian_byteSwap]

theorem reqHdrCodec_big_valid (h : ReqHdr) :
    (reqHdrCodec Codec.big).Valid h.swapped := by
  rw [reqHdrCodec, Codec.map_valid]
  simp only [Codec.pair_valid, Codec.big_valid, Codec.byte_valid,
    Codec.octets_valid, ReqHdr.swapped, byteSwap_lt, and_self]

/-! ## The datagrams -/

def ioDatagramCodec : Codec (DceOrRpc × PnIoArgs × ReqHdr × Octets 24) :=
  dceOrRpcCodec.pair <| pnIoArgsCodec.pair <|
    (reqHdrCodec Codec.big).pair (Codec.octets 24)

/-- The 24 bytes behind the request header. -/
def dataArea (data : List UInt8) : Octets 24 :=
  ⟨(data ++ List.replicate 24 0).take 24, by simp⟩

def readRecord (api slot subslot : ℕ) :
    DceOrRpc × PnIoArgs × ReqHdr × Octets 24 :=
  (rpcHeader 0x05, pnioArgs, (readReqHdr api slot subslot).swapped,
    dataArea [])

def writeRecord (api slot subslot : ℕ) (data : List UInt8) :
    DceOrRpc × PnIoArgs × ReqHdr × Octets 24 :=
  (rpcHeader 0x03, pnioArgs,
    (writeReqHdr api slot subslot data.length).swapped, dataArea data)

theorem ioDatagramCodec_encode
    (rpc : DceOrRpc) (args : PnIoArgs) (hdr : ReqHdr) (area : Octets 24) :
    ioDatagramCodec.encode (rpc, args, hdr.swapped, area) =
      rpc.encode ++ (args.encode ++ (hdr.encode ++ area.val)) := by
  simp [ioDatagramCodec, dceOrRpcCodec_encode, pnIoArgsCodec_encode,
    reqHdrCodec_big_encode]

theorem dceOrRpcCodec_valid_rpcHeader {option : ℕ} (h : option < 65536) :
    dceOrRpcCodec.Valid (rpcHeader option) := by
  rw [dceOrRpcCodec, Codec.map_valid]
  simp only [Codec.pair_valid, Codec.byte_valid, Codec.octets_valid,
    Codec.little_valid, rpcHeader]
  norm_num [noFackFlag, interfaceHint, activityHint, fragmentLength,
    fragmentNumber]
  exact h

theorem pnIoArgsCodec_valid_pnioArgs : pnIoArgsCodec.Valid pnioArgs := by
  rw [pnIoArgsCodec, Codec.map_valid]
  simp only [Codec.pair_valid, Codec.little_valid, pnioArgs]
  decide

theorem ioDatagramCodec_valid
    {option : ℕ} (h : option < 65536) (hdr : ReqHdr) (area : Octets 24) :
    ioDatagramCodec.Valid (rpcHeader option, pnioArgs, hdr.swapped, area) :=
  ⟨dceOrRpcCodec_valid_rpcHeader h, pnIoArgsCodec_valid_pnioArgs,
    reqHdrCodec_big_valid hdr, trivial⟩

theorem readDatagram_eq_encode (heap : Memory) (api slot subslot : ℕ) :
    slice (readBuffer heap api slot subslot) 0 datagramSize =
      ioDatagramCodec.encode (readRecord api slot subslot) := by
  rw [readDatagram_eq, readRecord, ioDatagramCodec_encode, ReqHdr.encode_eq]
  simp [DatagramParts.bytes, readParts, dataArea]

theorem writeDatagram_eq_encode
    (heap : Memory) (api slot subslot : ℕ) (data : List UInt8) :
    slice (writeBuffer heap api slot subslot data) 0 datagramSize =
      ioDatagramCodec.encode (writeRecord api slot subslot data) := by
  rw [writeDatagram_eq, writeRecord, ioDatagramCodec_encode, writeHeaders]
  simp [dataArea]

/-! ## Requests with the same datagram -/

/-- A datagram has room for the length and the first 24 bytes of the data. -/
structure SameData (data data' : List UInt8) : Prop where
  length : data.length % 4294967296 = data'.length % 4294967296
  area : dataArea data = dataArea data'

theorem dataArea_take {data : List UInt8} (h : data.length ≤ 24) :
    (dataArea data).val.take data.length = data := by
  rw [dataArea, List.take_take, Nat.min_eq_left h, List.take_left]

theorem sameData_iff_of_short
    {data data' : List UInt8} (h : data.length ≤ 24)
    (h' : data'.length ≤ 24) : SameData data data' ↔ data = data' := by
  constructor
  · rintro ⟨hlength, harea⟩
    have hsame : data.length = data'.length := by omega
    rw [← dataArea_take h, ← dataArea_take h', harea, hsame]
  · rintro rfl
    exact ⟨rfl, rfl⟩

theorem readRecord_eq_iff
    {api slot subslot api' slot' subslot' : ℕ}
    (hapi : api < 4294967296) (hslot : slot < 65536)
    (hsubslot : subslot < 65536) (hapi' : api' < 4294967296)
    (hslot' : slot' < 65536) (hsubslot' : subslot' < 65536) :
    readRecord api slot subslot = readRecord api' slot' subslot' ↔
      api = api' ∧ slot = slot' ∧ subslot = subslot' := by
  simp only [readRecord, readReqHdr, ReqHdr.swapped, Prod.mk.injEq,
    ReqHdr.mk.injEq, byteSwap_eq_iff, true_and, and_true]
  norm_num [Nat.mod_eq_of_lt, hapi, hslot, hsubslot, hapi', hslot', hsubslot']

theorem writeRecord_eq_iff
    {api slot subslot api' slot' subslot' : ℕ} {data data' : List UInt8}
    (hapi : api < 4294967296) (hslot : slot < 65536)
    (hsubslot : subslot < 65536) (hapi' : api' < 4294967296)
    (hslot' : slot' < 65536) (hsubslot' : subslot' < 65536) :
    writeRecord api slot subslot data = writeRecord api' slot' subslot' data' ↔
      (api = api' ∧ slot = slot' ∧ subslot = subslot') ∧
        SameData data data' := by
  have hdata : SameData data data' ↔
      data.length % 4294967296 = data'.length % 4294967296 ∧
        dataArea data = dataArea data' :=
    ⟨fun h => ⟨h.length, h.area⟩, fun h => ⟨h.1, h.2⟩⟩
  rw [hdata]
  simp only [writeRecord, writeReqHdr, ReqHdr.swapped, Prod.mk.injEq,
    ReqHdr.mk.injEq, byteSwap_byteSwap_mod, byteSwap_eq_iff, true_and]
  norm_num [Nat.mod_eq_of_lt, hapi, hslot, hsubslot, hapi', hslot', hsubslot',
    and_assoc]

theorem readRecord_ne_writeRecord
    (api slot subslot api' slot' subslot' : ℕ) (data : List UInt8) :
    readRecord api slot subslot ≠ writeRecord api' slot' subslot' data := by
  intro h
  have hoption := congrArg (fun record => record.1.option) h
  revert hoption
  simp [readRecord, writeRecord, rpcHeader]

namespace HandlerCall

def data (call : HandlerCall) : List UInt8 :=
  requestedData call.tokener call.payload

theorem api_lt (call : HandlerCall) : call.api < 4294967296 :=
  byteSwap_lt 4 _

theorem slot_lt (call : HandlerCall) : call.slot < 65536 := byteSwap_lt 2 _

theorem subSlot_lt (call : HandlerCall) : call.subSlot < 65536 :=
  byteSwap_lt 2 _

def SameAddressing (call call' : HandlerCall) : Prop :=
  call.api = call'.api ∧ call.slot = call'.slot ∧
    call.subSlot = call'.subSlot

/-- The calls ask for the same operation on the same submodule, and for a write
with the same data as far as a datagram shows it. -/
def SameRequest (call call' : HandlerCall) : Prop :=
  call.SameAddressing call' ∧
    (call.IsRead ∧ call'.IsRead ∨
      call.IsWrite ∧ call'.IsWrite ∧ SameData call.data call'.data)

variable {call call' : HandlerCall} {datagram datagram' : Datagram}

theorem bytes_eq_encode_of_read
    (h : call.IsRead) (hsent : datagram ∈ call.sent) :
    datagram.bytes =
      ioDatagramCodec.encode
        (readRecord call.api call.slot call.subSlot) := by
  rw [bytes_of_read h hsent, ← readDatagram_eq_encode call.heap,
    readDatagram_eq]

theorem bytes_eq_encode_of_write
    (h : call.IsWrite) (hsent : datagram ∈ call.sent) :
    datagram.bytes =
      ioDatagramCodec.encode
        (writeRecord call.api call.slot call.subSlot call.data) := by
  rw [bytes_of_write h hsent, ← writeDatagram_eq_parts call.heap,
    writeDatagram_eq_encode]
  rfl

theorem not_isRead_and_isWrite : ¬ (call.IsRead ∧ call.IsWrite) := by
  rintro ⟨hread, hwrite⟩
  have hsame := hread.symm.trans hwrite
  revert hsame
  decide

end HandlerCall

/-- Two calls send the same bytes exactly if they ask for the same thing, and
data of at most 24 bytes is told apart. -/
theorem sentBytes_eq_iff :
    (∀ call call' : HandlerCall, ∀ datagram ∈ call.sent,
      ∀ datagram' ∈ call'.sent,
        (datagram.bytes = datagram'.bytes ↔ call.SameRequest call')) ∧
    ∀ data data' : List UInt8, data.length ≤ 24 → data'.length ≤ 24 →
      (SameData data data' ↔ data = data') := by
  refine ⟨?_, fun data data' => sameData_iff_of_short⟩
  intro call call' datagram hsent datagram' hsent'
  have hreadValid : ∀ c : HandlerCall,
      ioDatagramCodec.Valid (readRecord c.api c.slot c.subSlot) :=
    fun c => ioDatagramCodec_valid (by decide) _ _
  have hwriteValid : ∀ c : HandlerCall,
      ioDatagramCodec.Valid (writeRecord c.api c.slot c.subSlot c.data) :=
    fun c => ioDatagramCodec_valid (by decide) _ _
  unfold HandlerCall.SameRequest HandlerCall.SameAddressing
  rcases HandlerCall.isRead_or_isWrite hsent with hread | hwrite
  · have hnot : ¬ call.IsWrite :=
      fun h => HandlerCall.not_isRead_and_isWrite ⟨hread, h⟩
    rw [HandlerCall.bytes_eq_encode_of_read hread hsent]
    rcases HandlerCall.isRead_or_isWrite hsent' with hread' | hwrite'
    · rw [HandlerCall.bytes_eq_encode_of_read hread' hsent',
        ioDatagramCodec.encode_inj_iff (hreadValid call) (hreadValid call'),
        readRecord_eq_iff call.api_lt call.slot_lt call.subSlot_lt
          call'.api_lt call'.slot_lt call'.subSlot_lt]
      simp [hread, hread', hnot]
    · have hnot' : ¬ call'.IsRead :=
        fun h => HandlerCall.not_isRead_and_isWrite ⟨h, hwrite'⟩
      rw [HandlerCall.bytes_eq_encode_of_write hwrite' hsent',
        ioDatagramCodec.encode_inj_iff (hreadValid call) (hwriteValid call')]
      simp [readRecord_ne_writeRecord, hnot, hnot']
  · have hnot : ¬ call.IsRead :=
      fun h => HandlerCall.not_isRead_and_isWrite ⟨h, hwrite⟩
    rw [HandlerCall.bytes_eq_encode_of_write hwrite hsent]
    rcases HandlerCall.isRead_or_isWrite hsent' with hread' | hwrite'
    · have hnot' : ¬ call'.IsWrite :=
        fun h => HandlerCall.not_isRead_and_isWrite ⟨hread', h⟩
      rw [HandlerCall.bytes_eq_encode_of_read hread' hsent',
        ioDatagramCodec.encode_inj_iff (hwriteValid call) (hreadValid call')]
      simp [(readRecord_ne_writeRecord _ _ _ _ _ _ _).symm, hnot, hnot']
    · rw [HandlerCall.bytes_eq_encode_of_write hwrite' hsent',
        ioDatagramCodec.encode_inj_iff (hwriteValid call) (hwriteValid call'),
        writeRecord_eq_iff call.api_lt call.slot_lt call.subSlot_lt
          call'.api_lt call'.slot_lt call'.subSlot_lt]
      simp [hwrite, hwrite', hnot]

/-- A write to the first submodule. -/
def plainWrite (data : CString) : HandlerCall where
  tokener := fun _ => some
    { ip := some ⟨asciiBytes "plc", zero_notMem_plc⟩
      op := some ⟨asciiBytes "write", zero_notMem_write⟩
      api := none
      slot := none
      subSlot := none
      data := some data }
  net := silentNetwork
  heap := fun _ => 0
  payload := fun _ => 0
  len := 0

/-- The last of 25 bytes does not reach the device. -/
theorem sentBytes_eq_of_long_writes :
    ∀ datagram ∈ (plainWrite
        ⟨asciiBytes "0 0 0 0 0 0 0 0 0 0 0 0 0 0 0 0 0 0 0 0 0 0 0 0 1",
          by decide⟩).sent,
      ∀ datagram' ∈ (plainWrite
        ⟨asciiBytes "0 0 0 0 0 0 0 0 0 0 0 0 0 0 0 0 0 0 0 0 0 0 0 0 2",
          by decide⟩).sent,
        datagram.bytes = datagram'.bytes := by
  intro datagram hsent datagram' hsent'
  refine (sentBytes_eq_iff.1 _ _ datagram hsent datagram' hsent').mpr
    ⟨⟨by decide, by decide, by decide⟩,
      Or.inr ⟨by unfold HandlerCall.IsWrite; decide,
        by unfold HandlerCall.IsWrite; decide, by decide, by decide⟩⟩

end ProfinetIo
