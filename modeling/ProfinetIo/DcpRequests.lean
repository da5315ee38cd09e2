import ProfinetIo.FrameFormat
import ProfinetIo.InterleavedRuns
import ProfinetIo.Registration
import Mathlib.Tactic

/-!
# The DCP requests

`discover_devices`, `send_get_req`, `send_set_req` and `set_ip_config` build
their frames in the same way: the headers on a zeroed buffer of 60 bytes, one
block by `pf_dcp_put_block`, and the length of what it has written put into the
header afterwards.  They differ in the addresses, the service and the block.
-/

namespace ProfinetIo

open ByteMemory InterleavedRuns RecordCodecs TransitionRuns

/-! ## The builder -/

/-- What one of the four senders puts into its frame. -/
structure DcpRequest where
  destMac : Octets 6
  frameId : ℕ
  header : PfDcpHeader
  opt : UInt8
  sub : UInt8
  valueLength : ℕ
  value : Option Memory

/-- The frame handed to `send`; `heap` is what lies behind the buffer. -/
def dcpRequest (fuel : ℕ) (heap : Memory) (srcAddress : Octets 6)
    (request : DcpRequest) : Option (List UInt8) :=
  let ethHdr : EthHdr := ⟨request.destMac, srcAddress, htons ethtypeProfinet⟩
  let buf := osBufAlloc 60 heap
  let buf := store buf 0 ethHdr.encode
  let buf := store buf 14 (frameIdBytes request.frameId)
  let buf := store buf 16 request.header.encode
  let dstStartPos := 26
  (pfDcpPutBlock fuel 60 request.opt request.sub true 0 request.valueLength
    request.value ⟨some buf, dstStartPos⟩).bind fun (_, s) =>
      s.bytes.map fun buf =>
        slice (store buf 24 (littleEndian 2 (htons (s.pos - dstStartPos)))) 0 60

def pfDcpOptAll : UInt8 := 0xff
def pfDcpSubAll : UInt8 := 0xff

def identifyRequest : DcpRequest where
  destMac := dcpMcAddress
  frameId := pfDcpIdReqFrameId
  header := ⟨UInt8.ofNat pfDcpServiceIdentify,
    UInt8.ofNat pfDcpServiceTypeRequest, htonl 1, htons 1, htons 0⟩
  opt := pfDcpOptAll
  sub := pfDcpSubAll
  valueLength := 0
  value := none

def getRequest (destMac : Octets 6) : DcpRequest where
  destMac := destMac
  frameId := pfDcpGetSetFrameId
  header := ⟨UInt8.ofNat pfDcpServiceGet, UInt8.ofNat pfDcpServiceTypeRequest,
    htonl 2, htons 1, htons 0⟩
  opt := pfDcpOptAll
  sub := pfDcpSubAll
  valueLength := 0
  value := none

/-- The value is a null pointer, but its length is not zero. -/
def setRequest (destMac : Octets 6) : DcpRequest where
  destMac := destMac
  frameId := pfDcpGetSetFrameId
  header := ⟨UInt8.ofNat pfDcpServiceSet, UInt8.ofNat pfDcpServiceTypeRequest,
    htonl 2, htons 0, htons 0⟩
  opt := pfDcpOptIp
  sub := pfDcpSubIpPar
  valueLength := 4
  value := none

def ipConfigRequest (stack : Memory) (mac : Octets 6)
    (ip subnet gateway : Octets 4) : DcpRequest where
  destMac := mac
  frameId := pfDcpGetSetFrameId
  header := setIpConfigDcpHeader
  opt := pfDcpOptIp
  sub := pfDcpSubIpPar
  valueLength := 14
  value := some (store stack 0 (ipParams ip subnet gateway))

def discoverDevices (fuel : ℕ) (heap : Memory) (srcAddress : Octets 6) :
    Option (List UInt8) :=
  dcpRequest fuel heap srcAddress identifyRequest

def sendGetReq (fuel : ℕ) (heap : Memory) (srcAddress destMac : Octets 6) :
    Option (List UInt8) :=
  dcpRequest fuel heap srcAddress (getRequest destMac)

def sendSetReq (fuel : ℕ) (heap : Memory) (srcAddress destMac : Octets 6) :
    Option (List UInt8) :=
  dcpRequest fuel heap srcAddress (setRequest destMac)

theorem setIpConfig_eq_dcpRequest
    (fuel : ℕ) (heap stack : Memory) (srcAddress mac : Octets 6)
    (ip subnet gateway : Octets 4) :
    setIpConfig fuel heap stack srcAddress mac ip subnet gateway =
      dcpRequest fuel heap srcAddress
        (ipConfigRequest stack mac ip subnet gateway) := rfl

/-! ## The bytes of a frame -/

theorem frameIdBytes_eq (frameId : ℕ) :
    frameIdBytes frameId = bigEndian 2 frameId := by
  have hlow : frameId &&& 0x00ff = frameId % 256 :=
    Nat.and_two_pow_sub_one_eq_mod frameId 8
  have hhigh : (frameId &&& 0xff00) >>> 8 = frameId / 256 % 256 := by
    have hshift : (frameId &&& 0xff00) >>> 8 = frameId >>> 8 &&& 0xff :=
      Nat.shiftRight_and_distrib
    rw [hshift, Nat.shiftRight_eq_div_pow]
    exact Nat.and_two_pow_sub_one_eq_mod (frameId / 256) 8
  rw [frameIdBytes, hlow, hhigh]
  simp only [bigEndian, List.nil_append, List.cons_append, List.cons.injEq,
    and_true]
  constructor <;> rw [← UInt8.toNat_inj] <;>
    simp only [UInt8.toNat_ofNat'] <;> omega

namespace DcpRequest

/-- The block that the writer leaves in the frame. -/
def block (request : DcpRequest) : List UInt8 :=
  let value := valueBytes request.valueLength request.value
  blockHeader request.opt request.sub request.valueLength ++ value ++
    List.replicate (value.length % 2) 0

/-- The header as a receiver is meant to read it. -/
def fields (request : DcpRequest) (srcAddress : Octets 6) : HeaderFields where
  destMac := request.destMac
  sourceMac := srcAddress
  packetType := ethtypeProfinet
  frameId := request.frameId
  serviceId := request.header.serviceId
  serviceType := request.header.serviceType
  xid := byteSwap 4 request.header.xid
  reserveOrDelay := byteSwap 2 request.header.responseDelayFactor
  ddl := request.block.length

/-- The header up to the length. -/
def front (request : DcpRequest) (srcAddress : Octets 6) : List UInt8 :=
  request.destMac.val ++ (srcAddress.val ++
    (bigEndian 2 ethtypeProfinet ++ (bigEndian 2 request.frameId ++
      ([request.header.serviceId, request.header.serviceType] ++
        (littleEndian 4 request.header.xid ++
          littleEndian 2 request.header.responseDelayFactor)))))

variable {request : DcpRequest} {srcAddress : Octets 6}

@[simp] theorem front_length :
    (request.front srcAddress).length = 24 := by
  simp [front]

theorem headers_eq :
    (EthHdr.mk request.destMac srcAddress (htons ethtypeProfinet)).encode ++
        frameIdBytes request.frameId ++ request.header.encode =
      request.front srcAddress ++
        littleEndian 2 request.header.dataLength := by
  simp [EthHdr.encode, PfDcpHeader.encode, front, frameIdBytes_eq, htons]

theorem encode_fields :
    headerCodec.encode (request.fields srcAddress) =
      request.front srcAddress ++ bigEndian 2 request.block.length := by
  rw [headerCodec_encode]
  simp [HeaderFields.behindAddresses, fields, front, bigEndian_byteSwap]

theorem block_length_le (h : request.valueLength < 30) :
    4 ≤ request.block.length ∧ request.block.length ≤ 34 := by
  have hvalue : (valueBytes request.valueLength request.value).length ≤
      request.valueLength := by
    cases request.value <;> simp [valueBytes]
  simp only [block, List.length_append, blockHeader_length,
    List.length_replicate]
  omega

end DcpRequest

section Frame

variable {request : DcpRequest}

theorem dcpRequest_buffer (heap : Memory) (srcAddress : Octets 6) :
    store (store (store (osBufAlloc 60 heap) 0
        (EthHdr.mk request.destMac srcAddress (htons ethtypeProfinet)).encode)
        14 (frameIdBytes request.frameId)) 16 request.header.encode =
      store (osBufAlloc 60 heap) 0 (request.front srcAddress ++
        littleEndian 2 request.header.dataLength) := by
  have hframeId := store_append (osBufAlloc 60 heap) 0
    (EthHdr.mk request.destMac srcAddress (htons ethtypeProfinet)).encode
    (frameIdBytes request.frameId)
  have hheader := store_append (osBufAlloc 60 heap) 0
    ((EthHdr.mk request.destMac srcAddress (htons ethtypeProfinet)).encode ++
      frameIdBytes request.frameId) request.header.encode
  rw [EthHdr.encode_length] at hframeId
  rw [List.length_append, EthHdr.encode_length, frameIdBytes_eq,
    bigEndian_length, ← frameIdBytes_eq] at hheader
  rw [← DcpRequest.headers_eq, ← hheader, ← hframeId]

theorem pfDcpPutBlock_of_request
    (h : request.valueLength < 30) (fuel : ℕ) (bytes : Memory) :
    pfDcpPutBlock (fuel + 1) 60 request.opt request.sub true 0
        request.valueLength request.value ⟨some bytes, 26⟩ =
      some (0, ⟨some (store bytes 26 request.block),
        26 + request.block.length⟩) := by
  have hput := @pfDcpPutBlock_of_header 60 26 request.valueLength request.opt
    request.sub true 0 request.value bytes (fuel + 1) (by decide) (by decide)
    (by decide) (by omega) (Nat.succ_pos fuel)
  have hwritten : writtenBytes 26 60 request.valueLength request.value =
      valueBytes request.valueLength request.value := by
    rw [writtenBytes, if_pos (by omega)]
  rw [hwritten] at hput
  exact hput

/-- The frame is the header with the length of the block, the block, and zeros,
whatever the memory around the buffer holds. -/
theorem dcpRequest_eq
    (h : request.valueLength < 30) (fuel : ℕ) (heap : Memory)
    (srcAddress : Octets 6) :
    dcpRequest (fuel + 1) heap srcAddress request =
      some (headerCodec.encode (request.fields srcAddress) ++
        (request.block ++ List.replicate (34 - request.block.length) 0)) := by
  have hbounds := DcpRequest.block_length_le h
  have hblock := store_append (osBufAlloc 60 heap) 0
    (request.front srcAddress ++ littleEndian 2 request.header.dataLength)
    request.block
  have hlength : (request.front srcAddress ++
      littleEndian 2 request.header.dataLength).length = 26 := by simp
  rw [hlength, Nat.zero_add, List.append_assoc] at hblock
  have hpatch := @store_store_within (osBufAlloc 60 heap) 0
    (request.front srcAddress) (littleEndian 2 request.header.dataLength)
    (bigEndian 2 request.block.length) request.block (by simp)
  rw [DcpRequest.front_length, Nat.zero_add] at hpatch
  have hzeroed := @slice_store_zeroed heap
    (request.front srcAddress ++
      (bigEndian 2 request.block.length ++ request.block)) []
    (34 - request.block.length) 60 (by simp; omega)
  have hsize : (request.front srcAddress ++
      (bigEndian 2 request.block.length ++ request.block)).length +
        (34 - request.block.length) = 60 := by
    simp
    omega
  rw [hsize, List.append_nil, List.nil_append, List.take_replicate,
    Nat.min_self] at hzeroed
  have hddl : littleEndian 2 (htons (26 + request.block.length - 26)) =
      bigEndian 2 request.block.length := by
    rw [Nat.add_sub_cancel_left, htons, littleEndian_byteSwap]
  simp only [dcpRequest, dcpRequest_buffer, pfDcpPutBlock_of_request h,
    Option.bind_some, Option.map_some, hblock, hddl, hpatch]
  congr 1
  refine hzeroed.trans ?_
  rw [DcpRequest.encode_fields]
  simp only [List.append_assoc]

end Frame

/-! ## What a receiver makes of a request -/

/-- Behind a tag or not, the frame is parsed to these fields and this
payload. -/
def ReadsAs (frame : List UInt8) (h : HeaderFields) (payload : List UInt8) :
    Prop :=
  ∀ tag (r : Reception), r.frame = withTag tag frame →
    r.pack.fields = h ∧ r.payload = payload

/-- A request that fits into its frame, as the program's own do. -/
structure DcpRequest.Fits (request : DcpRequest) : Prop where
  valueLength : request.valueLength < 30
  frameId : request.frameId < 65536

theorem DcpRequest.Fits.valid {request : DcpRequest} (h : request.Fits)
    (srcAddress : Octets 6) :
    headerCodec.Valid (request.fields srcAddress) := by
  have hblock := (DcpRequest.block_length_le h.valueLength).2
  rw [headerCodec_valid]
  refine ⟨?_, h.frameId, byteSwap_lt 4 _, byteSwap_lt 2 _, ?_⟩
  · simp only [DcpRequest.fields]
    decide
  · simp only [DcpRequest.fields]
    omega

theorem DcpRequest.Fits.reads {request : DcpRequest} (h : request.Fits)
    (fuel : ℕ) (heap : Memory) (srcAddress : Octets 6) :
    ∃ frame, dcpRequest (fuel + 1) heap srcAddress request = some frame ∧
      frame.length = 60 ∧
      ReadsAs frame (request.fields srcAddress) request.block := by
  have hblock := DcpRequest.block_length_le h.valueLength
  refine ⟨_, dcpRequest_eq h.valueLength fuel heap srcAddress, ?_, ?_⟩
  · rw [List.length_append, headerCodec.encode_length, headerCodec_size,
      List.length_append, List.length_replicate]
    omega
  · intro tag r hframe
    have htype : tag = none →
        (request.fields srcAddress).packetType ≠ 0x8100 := by
      intro _
      simp only [DcpRequest.fields]
      decide
    have hfields := (pack_of_headerFrame (h.valid srcAddress) htype hframe).1
    have hpayload := payload_of_headerFrame (h.valid srcAddress) htype hframe
      (by simp [DcpRequest.fields])
    refine ⟨hfields, hpayload.trans ?_⟩
    exact List.take_left' rfl

section Requests

variable (destMac srcAddress : Octets 6)

theorem fits_identifyRequest : identifyRequest.Fits := ⟨by decide, by decide⟩

theorem fits_getRequest : (getRequest destMac).Fits :=
  ⟨by simp [getRequest], by simp [getRequest, pfDcpGetSetFrameId]⟩

theorem fits_setRequest : (setRequest destMac).Fits :=
  ⟨by simp [setRequest], by simp [setRequest, pfDcpGetSetFrameId]⟩

theorem fits_ipConfigRequest (stack : Memory) (ip subnet gateway : Octets 4) :
    (ipConfigRequest stack destMac ip subnet gateway).Fits :=
  ⟨by simp [ipConfigRequest], by simp [ipConfigRequest, pfDcpGetSetFrameId]⟩

theorem identifyRequest_fields :
    identifyRequest.fields srcAddress =
      ⟨dcpMcAddress, srcAddress, 0x8892, 0xfefe, 5, 0, 1, 1, 4⟩ := by
  have hnumbers : byteSwap 4 (htonl 1) = 1 ∧ byteSwap 2 (htons 1) = 1 ∧
      identifyRequest.block.length = 4 := by decide
  obtain ⟨hxid, hdelay, hlength⟩ := hnumbers
  simp only [DcpRequest.fields, hlength]
  simp only [identifyRequest, hxid, hdelay]
  rfl

theorem getRequest_fields :
    (getRequest destMac).fields srcAddress =
      ⟨destMac, srcAddress, 0x8892, 0xfefd, 3, 0, 2, 1, 4⟩ := by
  have hnumbers : byteSwap 4 (htonl 2) = 2 ∧ byteSwap 2 (htons 1) = 1 := by
    decide
  simp only [DcpRequest.fields, getRequest, hnumbers.1, hnumbers.2]
  rfl

theorem setRequest_fields :
    (setRequest destMac).fields srcAddress =
      ⟨destMac, srcAddress, 0x8892, 0xfefd, 4, 0, 2, 0, 4⟩ := by
  have hnumbers : byteSwap 4 (htonl 2) = 2 ∧ byteSwap 2 (htons 0) = 0 := by
    decide
  simp only [DcpRequest.fields, setRequest, hnumbers.1, hnumbers.2]
  rfl

theorem getRequest_block :
    (getRequest destMac).block = [0xff, 0xff, 0, 0] := by
  simp [DcpRequest.block, getRequest, blockHeader, valueBytes, bigEndian,
    pfDcpOptAll, pfDcpSubAll]

theorem setRequest_block : (setRequest destMac).block = [1, 2, 0, 4] := by
  simp [DcpRequest.block, setRequest, blockHeader, valueBytes, bigEndian,
    pfDcpOptIp, pfDcpSubIpPar]

end Requests

/-- The three requests without a value come out as they are meant; the block of
the set request announces four bytes that are not in its payload. -/
theorem requests_read_back
    (fuel : ℕ) (heap : Memory) (srcAddress destMac : Octets 6) :
    (∃ frame, discoverDevices (fuel + 1) heap srcAddress = some frame ∧
      frame.length = 60 ∧
      ReadsAs frame ⟨dcpMcAddress, srcAddress, 0x8892, 0xfefe, 5, 0, 1, 1, 4⟩
        [0xff, 0xff, 0, 0]) ∧
    (∃ frame, sendGetReq (fuel + 1) heap srcAddress destMac = some frame ∧
      frame.length = 60 ∧
      ReadsAs frame ⟨destMac, srcAddress, 0x8892, 0xfefd, 3, 0, 2, 1, 4⟩
        [0xff, 0xff, 0, 0]) ∧
    (∃ frame, sendSetReq (fuel + 1) heap srcAddress destMac = some frame ∧
      frame.length = 60 ∧
      ReadsAs frame ⟨destMac, srcAddress, 0x8892, 0xfefd, 4, 0, 2, 0, 4⟩
        [1, 2, 0, 4]) := by
  have hidentify := fits_identifyRequest.reads fuel heap srcAddress
  have hget := (fits_getRequest destMac).reads fuel heap srcAddress
  have hset := (fits_setRequest destMac).reads fuel heap srcAddress
  rw [identifyRequest_fields] at hidentify
  rw [getRequest_fields, getRequest_block] at hget
  rw [setRequest_fields, setRequest_block] at hset
  exact ⟨hidentify, hget, hset⟩

/-! ## Requests between the responses -/

/-- The frames that the program hands to `send`. -/
inductive SentFrame (frame : List UInt8) : Prop where
  | discoverDevices (fuel : ℕ) (heap : Memory) (srcAddress : Octets 6)
      (h : discoverDevices (fuel + 1) heap srcAddress = some frame)
  | sendGetReq (fuel : ℕ) (heap : Memory) (srcAddress destMac : Octets 6)
      (h : sendGetReq (fuel + 1) heap srcAddress destMac = some frame)
  | sendSetReq (fuel : ℕ) (heap : Memory) (srcAddress destMac : Octets 6)
      (h : sendSetReq (fuel + 1) heap srcAddress destMac = some frame)
  | setIpConfig (fuel : ℕ) (heap stack : Memory) (srcAddress mac : Octets 6)
      (ip subnet gateway : Octets 4)
      (h : setIpConfig (fuel + 1) heap stack srcAddress mac ip subnet gateway =
        some frame)

/-- The frame of a request from any station, tagged or not. -/
def IsRequestFrame (r : Reception) : Prop :=
  ∃ frame tag, SentFrame frame ∧ r.frame = withTag tag frame

theorem DcpRequest.Fits.readsAs
    {request : DcpRequest} (h : request.Fits) {fuel : ℕ} {heap : Memory}
    {srcAddress : Octets 6} {frame : List UInt8}
    (hframe : dcpRequest (fuel + 1) heap srcAddress request = some frame) :
    ReadsAs frame (request.fields srcAddress) request.block := by
  obtain ⟨frame', hframe', -, hreads⟩ := h.reads fuel heap srcAddress
  rw [hframe, Option.some.injEq] at hframe'
  exact hframe' ▸ hreads

theorem SentFrame.reads {frame : List UInt8} (h : SentFrame frame) :
    ∃ fields payload, ReadsAs frame fields payload ∧
      (fields.frameId = pfDcpIdReqFrameId ∨
        fields.frameId = pfDcpGetSetFrameId) := by
  cases h with
  | discoverDevices fuel heap srcAddress h =>
      exact ⟨_, _, fits_identifyRequest.readsAs h, Or.inl rfl⟩
  | sendGetReq fuel heap srcAddress destMac h =>
      exact ⟨_, _, (fits_getRequest destMac).readsAs h, Or.inr rfl⟩
  | sendSetReq fuel heap srcAddress destMac h =>
      exact ⟨_, _, (fits_setRequest destMac).readsAs h, Or.inr rfl⟩
  | setIpConfig fuel heap stack srcAddress mac ip subnet gateway h =>
      rw [setIpConfig_eq_dcpRequest] at h
      exact ⟨_, _, (fits_ipConfigRequest mac stack ip subnet gateway).readsAs h,
        Or.inr rfl⟩

/-- Frames with a foreign frame id pass neither test. -/
theorem recieve_of_frameId
    {r : Reception} (hidentify : r.pack.frameId ≠ pfDcpIdResFrameId)
    (hhello : r.pack.frameId ≠ pfDcpServiceHello) (g : Registration) :
    g.recieve r = some g := by
  have hnot : accepts g.state.table r.pack = false := by
    simp [accepts, identifyTest, helloTest, hidentify.symm, hhello.symm]
  have hstate : recieveProfinetPackets r g.state = some g.state := by
    rw [recieveProfinetPackets_eq, if_neg (by simp [hnot])]
  have hhanded : handed g.state.table r = [] := by
    rw [handed_eq, if_neg (by simp [hnot])]
  rw [Registration.recieve, hstate, Option.map_some, if_pos hhanded]

theorem IsRequestFrame.recieve {r : Reception} (h : IsRequestFrame r)
    (g : Registration) : g.recieve r = some g := by
  obtain ⟨frame, tag, hsent, hr⟩ := h
  obtain ⟨fields, payload, hreads, hframeId⟩ := hsent.reads
  have hsame : r.pack.frameId = fields.frameId :=
    congrArg HeaderFields.frameId (hreads tag r hr).1
  rw [← hsame] at hframeId
  have hforeign : r.pack.frameId ≠ pfDcpIdResFrameId ∧
      r.pack.frameId ≠ pfDcpServiceHello := by
    rcases hframeId with h | h
    · rw [h]
      decide
    · rw [h]
      decide
  exact recieve_of_frameId hforeign.1 hforeign.2 g

/-- Wherever request frames arrive between others, and from whatever station,
they change nothing. -/
theorem requests_transparent
    {keeps : Reception → Bool}
    (hrequests : ∀ r, keeps r = false → IsRequestFrame r)
    (g : Registration) (receptions : List Reception) :
    run Registration.recieve g (receptions.filter keeps) =
      run Registration.recieve g receptions :=
  run_filter (fun g r hr => (hrequests r hr).recieve g) g receptions

/-- A station that hears its own discovery twice. -/
theorem requests_transparent_of_discovery :
    let frame := headerCodec.encode (identifyRequest.fields dcpSrcAddress) ++
      (identifyRequest.block ++ List.replicate 30 0)
    let r : Reception :=
      ⟨frame, fun _ => 0, fun _ => 0, emptyDevice, by decide⟩
    run Registration.recieve Registration.initial
        ([r, r].filter fun r => decide (r.frame ≠ frame)) =
      run Registration.recieve Registration.initial [r, r] := by
  intro frame r
  apply requests_transparent
  intro r hr
  have hsame : r.frame = frame := by simpa using hr
  exact ⟨frame, none, .discoverDevices 0 (fun _ => 0) dcpSrcAddress
    (dcpRequest_eq (by decide) 0 _ _), hsame⟩

end ProfinetIo
