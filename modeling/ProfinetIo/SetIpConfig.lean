import ProfinetIo.PnioPackets
import ProfinetIo.WholeBlocks
import Mathlib.Tactic

/-!
# The IP configuration frame

`set_ip_config` overlays an Ethernet and a DCP header on a zeroed buffer of 60
bytes, lets `pf_dcp_put_block` write the IP parameter block, and puts the
length of the block into the header afterwards.  The three addresses are the
octets that the numbers read from the operator are narrowed to.
-/

namespace ProfinetIo

open ByteMemory

def htons (value : ℕ) : ℕ := byteSwap 2 value

def htonl (value : ℕ) : ℕ := byteSwap 4 value

/-- `os_ethhdr_t`. -/
structure EthHdr where
  dest : Octets 6
  src : Octets 6
  type : ℕ

def EthHdr.encode (h : EthHdr) : List UInt8 :=
  h.dest.val ++ h.src.val ++ littleEndian 2 h.type

@[simp] theorem EthHdr.encode_length (h : EthHdr) : h.encode.length = 14 := by
  simp [EthHdr.encode]

/-- `pf_dcp_header_t`. -/
structure PfDcpHeader where
  serviceId : UInt8
  serviceType : UInt8
  xid : ℕ
  responseDelayFactor : ℕ
  dataLength : ℕ

def PfDcpHeader.encode (h : PfDcpHeader) : List UInt8 :=
  [h.serviceId, h.serviceType] ++ littleEndian 4 h.xid ++
    littleEndian 2 h.responseDelayFactor ++ littleEndian 2 h.dataLength

@[simp] theorem PfDcpHeader.encode_length (h : PfDcpHeader) :
    h.encode.length = 10 := by
  simp [PfDcpHeader.encode]

def dcpSrcAddress : Octets 6 := ⟨[0xc8, 0x1f, 0x66, 0x43, 0x6a, 0x45], rfl⟩

/-- The two assignments that insert a frame id. -/
def frameIdBytes (frameId : ℕ) : List UInt8 :=
  [UInt8.ofNat ((frameId &&& 0xff00) >>> 8), UInt8.ofNat (frameId &&& 0x00ff)]

def setIpConfigEthHdr (srcAddress mac : Octets 6) : EthHdr where
  dest := mac
  src := srcAddress
  type := htons ethtypeProfinet

def setIpConfigDcpHeader : PfDcpHeader where
  serviceId := UInt8.ofNat pfDcpServiceSet
  serviceType := UInt8.ofNat pfDcpServiceTypeRequest
  xid := htonl 2
  responseDelayFactor := htons 0
  dataLength := htons 0

def ipParams (ip subnet gateway : Octets 4) : List UInt8 :=
  [0x00, 0x0e] ++ ip.val ++ subnet.val ++ gateway.val

@[simp] theorem ipParams_length (ip subnet gateway : Octets 4) :
    (ipParams ip subnet gateway).length = 14 := by
  simp [ipParams]

/-- The frame handed to `send`.  `heap` and `stack` are what lies behind the
buffer and behind `ip_params`. -/
def setIpConfig (fuel : ℕ) (heap stack : Memory) (srcAddress mac : Octets 6)
    (ip subnet gateway : Octets 4) : Option (List UInt8) :=
  let buf := osBufAlloc 60 heap
  let buf := store buf 0 (setIpConfigEthHdr srcAddress mac).encode
  let buf := store buf 14 (frameIdBytes pfDcpGetSetFrameId)
  let buf := store buf 16 setIpConfigDcpHeader.encode
  let dstStartPos := 26
  (pfDcpPutBlock fuel 60 pfDcpOptIp pfDcpSubIpPar true 0 14
    (some (store stack 0 (ipParams ip subnet gateway)))
    ⟨some buf, dstStartPos⟩).bind fun (_, s) =>
      s.bytes.map fun buf =>
        slice (store buf 24 (littleEndian 2 (htons (s.pos - dstStartPos)))) 0 60

/-! ## The bytes of the frame -/

/-- What lies between the addresses and the block. -/
def ipConfigHeader : List UInt8 :=
  [0x88, 0x92, 0xfe, 0xfd, 0x04, 0x00, 0x00, 0x00, 0x00, 0x02, 0x00, 0x00,
    0x00, 0x12]

def ipConfigBlock (ip subnet gateway : Octets 4) : DcpBlock where
  option := pfDcpOptIp
  suboption := pfDcpSubIpPar
  info := 0x000e
  value := ip.val ++ subnet.val ++ gateway.val
  option_ne_zero := by decide
  length_lt := by simp

theorem ipConfigBlock_blockLength (ip subnet gateway : Octets 4) :
    (ipConfigBlock ip subnet gateway).blockLength = 14 := by
  simp [DcpBlock.blockLength, ipConfigBlock]

theorem ipConfigBlock_encode_length (ip subnet gateway : Octets 4) :
    (ipConfigBlock ip subnet gateway).encode.length = 18 := by
  simp [ipConfigBlock_blockLength]

def ipConfigFrame (srcAddress mac : Octets 6) (ip subnet gateway : Octets 4) :
    List UInt8 :=
  mac.val ++ (srcAddress.val ++ (ipConfigHeader ++
    ((ipConfigBlock ip subnet gateway).encode ++ List.replicate 16 0)))

theorem ipConfigFrame_length
    (srcAddress mac : Octets 6) (ip subnet gateway : Octets 4) :
    (ipConfigFrame srcAddress mac ip subnet gateway).length = 60 := by
  simp only [ipConfigFrame, List.length_append, Octets.length,
    ipConfigBlock_encode_length, List.length_replicate]
  rfl

/-- Everything in front of the block, before the length is known. -/
def setIpConfigHeaders (srcAddress mac : Octets 6) : List UInt8 :=
  (setIpConfigEthHdr srcAddress mac).encode ++
    frameIdBytes pfDcpGetSetFrameId ++ setIpConfigDcpHeader.encode

@[simp] theorem setIpConfigHeaders_length (srcAddress mac : Octets 6) :
    (setIpConfigHeaders srcAddress mac).length = 26 := by
  simp [setIpConfigHeaders, frameIdBytes]

theorem setIpConfigHeaders_eq (srcAddress mac : Octets 6) :
    setIpConfigHeaders srcAddress mac =
      mac.val ++ (srcAddress.val ++ ipConfigHeader.take 12) ++ [0, 0] := by
  have hfields : littleEndian 2 (htons ethtypeProfinet) ++
      frameIdBytes pfDcpGetSetFrameId ++ setIpConfigDcpHeader.encode =
      ipConfigHeader.take 12 ++ [0, 0] := by decide
  simp only [setIpConfigHeaders, EthHdr.encode, setIpConfigEthHdr,
    List.append_assoc] at hfields ⊢
  rw [hfields]

theorem setIpConfig_buffer
    (heap : Memory) (srcAddress mac : Octets 6) :
    store (store (store (osBufAlloc 60 heap) 0
        (setIpConfigEthHdr srcAddress mac).encode) 14
        (frameIdBytes pfDcpGetSetFrameId)) 16 setIpConfigDcpHeader.encode =
      store (osBufAlloc 60 heap) 0 (setIpConfigHeaders srcAddress mac) := by
  have hframeId := store_append (osBufAlloc 60 heap) 0
    (setIpConfigEthHdr srcAddress mac).encode (frameIdBytes pfDcpGetSetFrameId)
  have hheader := store_append (osBufAlloc 60 heap) 0
    ((setIpConfigEthHdr srcAddress mac).encode ++
      frameIdBytes pfDcpGetSetFrameId) setIpConfigDcpHeader.encode
  rw [EthHdr.encode_length] at hframeId
  rw [List.length_append, EthHdr.encode_length] at hheader
  rw [setIpConfigHeaders, ← hheader, ← hframeId]
  rfl

theorem encodeBlock_ipParams (stack : Memory) (ip subnet gateway : Octets 4) :
    encodeBlock pfDcpOptIp pfDcpSubIpPar (valueBytes 14
        (some (store stack 0 (ipParams ip subnet gateway)))) =
      (ipConfigBlock ip subnet gateway).encode := by
  have hvalue : valueBytes 14
      (some (store stack 0 (ipParams ip subnet gateway))) =
      ipParams ip subnet gateway := by
    have hself := slice_store_self stack 0 (ipParams ip subnet gateway)
    rwa [ipParams_length] at hself
  rw [hvalue]
  simp [DcpBlock.encode, DcpBlock.content, ipConfigBlock, ipParams, bigEndian]

/-- The frame that is sent, whatever the memory around the buffers holds. -/
theorem setIpConfig_eq
    (fuel : ℕ) (heap stack : Memory) (srcAddress mac : Octets 6)
    (ip subnet gateway : Octets 4) :
    setIpConfig (fuel + 1) heap stack srcAddress mac ip subnet gateway =
      some (ipConfigFrame srcAddress mac ip subnet gateway) := by
  have hput := @pfDcpPutBlock_of_fits 60 26 14 pfDcpOptIp pfDcpSubIpPar true 0
    (some (store stack 0 (ipParams ip subnet gateway)))
    (store (osBufAlloc 60 heap) 0 (setIpConfigHeaders srcAddress mac))
    (fuel + 1) (by decide) (by decide) (Or.inr ⟨by simp, by decide⟩)
    (Nat.succ_pos fuel)
  have hstore := store_append (osBufAlloc 60 heap) 0
    (setIpConfigHeaders srcAddress mac)
    (ipConfigBlock ip subnet gateway).encode
  rw [setIpConfigHeaders_length, Nat.zero_add] at hstore
  simp only [encodeBlock_ipParams, ipConfigBlock_encode_length, hstore] at hput
  simp only [setIpConfig, setIpConfig_buffer, hput, Option.bind_some,
    Option.map_some]
  have hlength : littleEndian 2 (htons (26 + 18 - 26)) =
      ipConfigHeader.drop 12 := by decide
  have hpatch := @store_store_within (osBufAlloc 60 heap) 0
    (mac.val ++ (srcAddress.val ++ ipConfigHeader.take 12)) [0, 0]
    (ipConfigHeader.drop 12) (ipConfigBlock ip subnet gateway).encode rfl
  have hzeroed := @slice_store_zeroed heap
    (mac.val ++ (srcAddress.val ++ ipConfigHeader.take 12) ++
      (ipConfigHeader.drop 12 ++ (ipConfigBlock ip subnet gateway).encode))
    [] 16 60 (by simp [ipConfigBlock_blockLength, ipConfigHeader])
  have hoffset : 0 + (mac.val ++ (srcAddress.val ++
      ipConfigHeader.take 12)).length = 24 := by
    simp [ipConfigHeader]
  have hfront : (mac.val ++ (srcAddress.val ++ ipConfigHeader.take 12) ++
      (ipConfigHeader.drop 12 ++
        (ipConfigBlock ip subnet gateway).encode)).length + 16 = 60 := by
    simp [ipConfigBlock_blockLength, ipConfigHeader]
  rw [hoffset] at hpatch
  rw [hfront, List.append_nil] at hzeroed
  rw [setIpConfigHeaders_eq, List.append_assoc, hlength, hpatch]
  congr 1
  refine hzeroed.trans ?_
  rw [ipConfigFrame, List.nil_append, List.take_replicate, Nat.min_self]
  simp only [List.append_assoc]
  rw [← List.append_assoc (ipConfigHeader.take 12), List.take_append_drop]

end ProfinetIo
