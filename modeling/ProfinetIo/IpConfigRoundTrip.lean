import ProfinetIo.ExtractBlocksExactness
import ProfinetIo.RecieveFrames
import ProfinetIo.SetIpConfig
import Mathlib.Tactic

/-!
# Receiving an IP configuration frame

The frame that `set_ip_config` sends is read back by the header parse of the
receiver, behind an 802.1Q tag as well as without one, and its payload leaves
the three addresses in the device.  The decoded length 14 lies below 128, so
the plain `char` of the block parser does no harm here, and the addresses are
copied as bytes.
-/

namespace ProfinetIo

open ByteMemory WhileLoop

/-- The frame as it travels: as sent, or with a tag behind the addresses. -/
def withTag (tag : Option (UInt8 × UInt8)) (frame : List UInt8) : List UInt8 :=
  match tag with
  | none => frame
  | some (high, low) =>
      frame.take 12 ++ ([0x81, 0x00, high, low] ++ frame.drop 12)

structure IpConfigParsed (srcAddress mac : Octets 6) (p : Pack) : Prop where
  destMac : p.destMac = mac
  sourceMac : p.sourceMac = srcAddress
  packetType : p.packetType = 0x8892
  frameId : p.frameId = 0xfefd
  serviceId : p.serviceId = 4
  serviceType : p.serviceType = 0
  xid : p.xid = 2
  ddl : p.ddl = 18

/-- The parser stores the three addresses and reads nothing behind the
payload. -/
def StoresAddresses (r : Reception) (ip subnet gateway : Octets 4) : Prop :=
  ∀ device, ∃ s,
    extractBlocksFromPacket r.payload device r.copyHeap = some s ∧
      s.device.ip = ip ∧ s.device.subnet = subnet ∧
      s.device.gateway = gateway ∧ ∀ k ∈ s.reads, k < r.pack.ddl

/-! ## The header -/

section Header

variable {buffer : Memory} {srcAddress mac : Octets 6}

theorem Octets.ofMemory_of_holds
    {n start : ℕ} {octets : Octets n} (h : Holds buffer start octets.val) :
    Octets.ofMemory buffer start n = octets := by
  apply Subtype.ext
  have hbytes : slice buffer start octets.val.length = octets.val := h
  rwa [Octets.length] at hbytes

/-- The header parse gives back the fields that stand behind the
addresses. -/
theorem parseHeader_of_holds
    (hmac : Holds buffer 0 mac.val) (hsrc : Holds buffer 6 srcAddress.val)
    (hheader : Holds buffer (typeOffset buffer) ipConfigHeader) :
    IpConfigParsed srcAddress mac (parseHeader buffer) := by
  have hbytes := slice_eq_iff.mp hheader
  have hbyte (k : ℕ) (hk : k < 14) :
      buffer (typeOffset buffer + k) = ipConfigHeader.get ⟨k, hk⟩ :=
    hbytes k hk
  have h0 := hbyte 0 (by decide)
  rw [Nat.add_zero] at h0
  constructor
  · exact Octets.ofMemory_of_holds hmac
  · exact Octets.ofMemory_of_holds hsrc
  · simp only [parseHeader, word16, h0, hbyte 1 (by decide)]
    decide
  · simp only [parseHeader, word16, Nat.add_assoc, Nat.reduceAdd,
      hbyte 2 (by decide), hbyte 3 (by decide)]
    decide
  · exact hbyte 4 (by decide)
  · exact hbyte 5 (by decide)
  · simp only [parseHeader, word32, Nat.add_assoc, Nat.reduceAdd,
      hbyte 6 (by decide), hbyte 7 (by decide), hbyte 8 (by decide),
      hbyte 9 (by decide)]
    decide
  · simp only [parseHeader, word16, Nat.add_assoc, Nat.reduceAdd,
      hbyte 12 (by decide), hbyte 13 (by decide)]
    decide

end Header

/-! ## The payload -/

/-- A payload of one well-formed IP parameter block leaves its addresses in
the device and is read to its end only. -/
theorem extractBlocksFromPacket_of_ipPar
    {b : DcpBlock} (hwell : b.WellFormedIpPar) (device : Device)
    (heap : Memory) :
    ∃ s, extractBlocksFromPacket b.encode device heap = some s ∧
      s.device.addresses = b.value ∧ ∀ k ∈ s.reads, k < b.encode.length := by
  obtain ⟨hkind, hlength⟩ := hwell
  have hholds := payloadCopy_holds b.encode heap
  have hascii : b.AsciiLength := by
    simp [DcpBlock.AsciiLength, hlength]
  have hdecoded := hholds.decodeHeader_blockLength_iff.mpr hascii
  have hdecodedKind := hholds.decodeHeader_kind
  have hencoded : b.encode.length = 18 := by simp [hlength]
  have hvalue : b.value.length = 12 := by
    simp only [DcpBlock.blockLength] at hlength
    omega
  have hrun : ParserRun b.encode.length (payloadCopy b.encode heap) device
      [.block (decodeHeader (payloadCopy b.encode heap) 0)] := by
    rw [parserRun_iff]
    constructor
    · intro before item after hsplit
      obtain ⟨rfl, rfl, rfl⟩ : before = [] ∧
          .block (decodeHeader (payloadCopy b.encode heap) 0) = item ∧
          after = [] := by
        cases before with
        | nil => simpa using hsplit
        | cons first before => simp at hsplit
      exact ⟨by simp [hencoded], hholds.itemAt_eq⟩
    · simp [Item.steps, Block.branchMove, hdecoded, hdecodedKind, hkind,
        hlength]
  refine ⟨_, extractBlocksFromPacket_eq_replay hrun, ?_, ?_⟩
  · have hslice := @slice_within (payloadCopy b.encode heap) 0 6 12 b.encode
      hholds (by simp [hlength])
    have hcontent := b.drop_take_encode
    rw [hvalue] at hcontent
    rw [hcontent] at hslice
    rw [replay_addresses]
    simpa [headersOfItems, addressesOfHeaders, ParserState.initial,
      hdecodedKind, hkind] using hslice
  · have hreach := Item.forall_reads_iff
      (.block (decodeHeader (payloadCopy b.encode heap) 0)) 0 b.encode.length
    intro k hk
    rw [replay_reads] at hk
    simp only [ParserState.initial, List.nil_append, readsOfItems,
      List.append_nil, List.mem_map] at hk
    obtain ⟨j, hj, rfl⟩ := hk
    refine hreach.mpr ?_ j hj
    simp [Item.reach, hdecodedKind, hkind, hencoded]

theorem ipConfigBlock_wellFormed (ip subnet gateway : Octets 4) :
    (ipConfigBlock ip subnet gateway).WellFormedIpPar :=
  ⟨rfl, ipConfigBlock_blockLength ip subnet gateway⟩

theorem addresses_inj
    {device : Device} {ip subnet gateway : Octets 4}
    (h : device.addresses = ip.val ++ subnet.val ++ gateway.val) :
    device.ip = ip ∧ device.subnet = subnet ∧ device.gateway = gateway := by
  rw [Device.addresses] at h
  obtain ⟨hfront, hgateway⟩ := List.append_inj h (by simp)
  obtain ⟨hip, hsubnet⟩ := List.append_inj hfront (by simp)
  exact ⟨Subtype.ext hip, Subtype.ext hsubnet, Subtype.ext hgateway⟩

/-! ## The round trip -/

section RoundTrip

variable {srcAddress mac : Octets 6} {ip subnet gateway : Octets 4}
  {tag : Option (UInt8 × UInt8)} {r : Reception}

/-- Where the parts of the frame lie in the receive buffer. -/
theorem holds_of_frame
    (h : r.frame =
      withTag tag (ipConfigFrame srcAddress mac ip subnet gateway)) :
    Holds r.buffer 0 mac.val ∧ Holds r.buffer 6 srcAddress.val ∧
      Holds r.buffer (typeOffset r.buffer) ipConfigHeader ∧
      Holds r.buffer (typeOffset r.buffer + 14)
        (ipConfigBlock ip subnet gateway).encode := by
  have hframe : Holds r.buffer 0 r.frame := slice_store_self _ _ _
  rw [h] at hframe
  cases tag with
  | none =>
      simp only [withTag, ipConfigFrame, holds_append, Octets.length,
        Nat.zero_add, Nat.reduceAdd] at hframe
      obtain ⟨hmac, hsrc, hheader, hblock, -⟩ := hframe
      have htype : typeOffset r.buffer = 12 := by
        have hbyte : r.buffer 12 = 0x88 :=
          slice_eq_iff.mp hheader 0 (by decide)
        simp [typeOffset, hbyte]
      rw [htype]
      exact ⟨hmac, hsrc, hheader, hblock⟩
  | some tag =>
      have htake : (ipConfigFrame srcAddress mac ip subnet gateway).take 12 =
          mac.val ++ srcAddress.val := by
        rw [ipConfigFrame, ← List.append_assoc]
        exact List.take_left' (by simp)
      have hdrop : (ipConfigFrame srcAddress mac ip subnet gateway).drop 12 =
          ipConfigHeader ++ ((ipConfigBlock ip subnet gateway).encode ++
            List.replicate 16 0) := by
        rw [ipConfigFrame, ← List.append_assoc]
        exact List.drop_left' (by simp)
      simp only [withTag, htake, hdrop, holds_append, List.length_append,
        Octets.length, Nat.zero_add, Nat.reduceAdd] at hframe
      obtain ⟨⟨hmac, hsrc⟩, htag, hheader, hblock, -⟩ := hframe
      have hhigh : r.buffer 12 = 0x81 := slice_eq_iff.mp htag 0 (by simp)
      have hlow : r.buffer 13 = 0x00 := slice_eq_iff.mp htag 1 (by simp)
      have htype : typeOffset r.buffer = 16 := by
        simp [typeOffset, hhigh, hlow]
      rw [htype]
      exact ⟨hmac, hsrc, hheader, hblock⟩

end RoundTrip

theorem setIpConfig_roundTrip
    (fuel : ℕ) (heap stack : Memory) (srcAddress mac : Octets 6)
    (ip subnet gateway : Octets 4) :
    ∃ frame,
      setIpConfig (fuel + 1) heap stack srcAddress mac ip subnet gateway =
          some frame ∧
        frame.length = 60 ∧
        ∀ tag (r : Reception), r.frame = withTag tag frame →
          IpConfigParsed srcAddress mac r.pack ∧
            StoresAddresses r ip subnet gateway := by
  refine ⟨_, setIpConfig_eq fuel heap stack srcAddress mac ip subnet gateway,
    ipConfigFrame_length srcAddress mac ip subnet gateway, ?_⟩
  intro tag r hframe
  obtain ⟨hmac, hsrc, hheader, hblock⟩ := holds_of_frame hframe
  have hparsed : IpConfigParsed srcAddress mac r.pack :=
    parseHeader_of_holds hmac hsrc hheader
  have hpayload : r.payload = (ipConfigBlock ip subnet gateway).encode := by
    have hslice : slice r.buffer (typeOffset r.buffer + 14)
        (ipConfigBlock ip subnet gateway).encode.length =
        (ipConfigBlock ip subnet gateway).encode := hblock
    rw [ipConfigBlock_encode_length] at hslice
    rw [Reception.payload, hparsed.ddl]
    exact hslice
  refine ⟨hparsed, ?_⟩
  intro device
  obtain ⟨s, hs, haddresses, hreads⟩ := extractBlocksFromPacket_of_ipPar
    (ipConfigBlock_wellFormed ip subnet gateway) device r.copyHeap
  obtain ⟨hip, hsubnet, hgateway⟩ := addresses_inj haddresses
  rw [ipConfigBlock_encode_length] at hreads
  rw [hpayload, hparsed.ddl]
  exact ⟨s, hs, hip, hsubnet, hgateway, hreads⟩

end ProfinetIo
