import ProfinetIo.FrameFormat
import ProfinetIo.InterleavedRuns
import ProfinetIo.KeyedRecords
import ProfinetIo.MacTable
import ProfinetIo.Registration
import Mathlib.Tactic

/-!
# What a station's frames do to its record

The receiver looks a station up by its MAC in the list of records and in the
table.  In a list with nodes the lookup has no value for a station without a
record, so a run is defined only as long as no such station is heard.  Seen from
one station, it is then the run of its own frames, however the frames of other
stations come between them.  A response leaves the station's addresses in its
record if the parser meets every block of it.
-/

namespace ProfinetIo

open ByteMemory InterleavedRuns KeyedRecords TransitionRuns

/-! ## One station -/

/-- The record after the payload has been parsed into it; what is parsed for a
station without one is lost. -/
def refreshed (r : Reception) : Option Device → Option (Option Device)
  | none => some none
  | some record =>
      (extractBlocksFromPacket r.payload record r.copyHeap).map fun parsed =>
        some { parsed.device with mac := r.pack.sourceMac }

section Store

variable {r : Reception} {top top' : List Device}

/-- The source's record is refreshed, and every other one is left alone. -/
theorem storeDevice_cases (h : storeDevice r top = some top') :
    top'.map Device.mac = top.map Device.mac ∧
      refreshed r (lookup Device.mac top r.pack.sourceMac) =
        some (lookup Device.mac top' r.pack.sourceMac) ∧
      ∀ mac, mac ≠ r.pack.sourceMac →
        lookup Device.mac top' mac = lookup Device.mac top mac := by
  obtain ⟨⟨index, dev⟩, hchosen, hparsed⟩ := Option.bind_eq_some_iff.mp h
  obtain ⟨parsed, hextracted, rfl⟩ := Option.map_eq_some_iff.mp hparsed
  unfold chooseDevice findDeviceByMAC findDevice at hchosen
  cases top with
  | nil =>
      cases hchosen
      exact ⟨rfl, rfl, fun _ _ => rfl⟩
  | cons first rest =>
      simp only [List.isEmpty_cons, Bool.false_eq_true, if_false] at hchosen
      cases hplace : (first :: rest).findIdx? fun node =>
          node.mac = r.pack.sourceMac with
      | none => simp [hplace] at hchosen
      | some place =>
          rw [hplace] at hchosen
          simp only [Option.map_eq_some_iff] at hchosen
          obtain ⟨node, hnode, hpair⟩ := hchosen
          cases hpair
          have hrecord :
              ({ parsed.device with mac := r.pack.sourceMac } : Device).mac =
                r.pack.sourceMac := rfl
          have hlookup := lookup_set hrecord hplace
          rw [getElem?_of_findIdx? hplace] at hnode
          refine ⟨keys_set hrecord hplace, ?_, ?_⟩
          · rw [hlookup, if_pos rfl, hnode, refreshed, hextracted,
              Option.map_some]
          · intro mac hmac
            rw [hlookup, if_neg hmac]

end Store

section Step

variable {g next : Registration} {r : Reception}

theorem recieve_accepted (h : g.recieve r = some next)
    (haccepts : accepts g.state.table r.pack = true) :
    storeDevice r g.state.top = some next.state.top ∧
      next.state.table =
        if helloTest r.pack then addDevice g.state.table r.pack.sourceMac
        else g.state.table := by
  obtain ⟨state, hstate, rfl⟩ := Option.map_eq_some_iff.mp h
  rw [recieveProfinetPackets_eq, if_pos haccepts] at hstate
  cases hidentify : identifyTest r.pack with
  | true =>
      rw [hidentify, if_pos rfl] at hstate
      obtain ⟨top, htop, rfl⟩ := Option.map_eq_some_iff.mp hstate
      exact ⟨htop, by rw [helloTest_of_identifyTest hidentify]; rfl⟩
  | false =>
      have hhello : helloTest r.pack = true := by
        have htests := (accepts_iff.mp haccepts).1
        simpa [hidentify] using htests
      rw [hidentify, if_neg Bool.false_ne_true] at hstate
      obtain ⟨top, htop, rfl⟩ := Option.map_eq_some_iff.mp hstate
      exact ⟨htop, by rw [hhello, if_pos rfl]⟩

end Step

/-! ## A response -/

/-- The parser meets every block, and the last one with addresses is well
formed. -/
structure AddressesInStep (record : Device) (blocks : List DcpBlock) :
    Prop where
  ascii : ∀ b ∈ blocks, b.AsciiLength
  reached : ∀ before b after, blocks = before ++ b :: after →
    stepsOfBlocks before < (encodeBlocks blocks).length
  finished : (encodeBlocks blocks).length ≤ stepsOfBlocks blocks
  lastIpPar : ∀ before b after, blocks = before ++ b :: after →
    b.kind = .ipPar → (∀ c ∈ after, c.kind ≠ .ipPar) →
    b.blockLength = 14 ∨
      ((encodeBlocks (b :: after)).drop 6).take 12 =
        expectedAddresses record blocks

def responseHeader (destMac source : Octets 6) (xid length : ℕ) :
    HeaderFields :=
  ⟨destMac, source, ethtypeProfinet, pfDcpIdResFrameId, 5, 1, xid, 0, length⟩

theorem responseHeader_valid
    {xid length : ℕ} (hxid : xid < 4294967296) (hlength : length < 65536)
    (destMac source : Octets 6) :
    headerCodec.Valid (responseHeader destMac source xid length) ∧
      (responseHeader destMac source xid length).packetType ≠ 0x8100 := by
  rw [headerCodec_valid]
  simp only [responseHeader]
  exact ⟨⟨by decide, by decide, hxid, by decide, hlength⟩, by decide⟩

theorem AddressesInStep.parsed
    {record : Device} {blocks : List DcpBlock}
    (h : AddressesInStep record blocks) (heap : Memory) :
    ∃ parsed,
      extractBlocksFromPacket (encodeBlocks blocks) record heap =
          some parsed ∧
        parsed.device.addresses = expectedAddresses record blocks := by
  obtain ⟨parsed, hparsed⟩ :=
    extractBlocksFromPacket_total (encodeBlocks blocks) record heap
  obtain ⟨ran, hrun, -⟩ := exists_parserRun hparsed
  have hmem := payloadCopy_holds (encodeBlocks blocks) heap
  have hheaders :=
    headers_eq_of_inStep h.ascii h.reached h.finished hmem hrun
  have haddresses := replay_addresses
    (payloadCopy (encodeBlocks blocks) heap) ran (ParserState.initial record)
  simp only [ParserState.initial, hheaders] at haddresses
  refine ⟨_, extractBlocksFromPacket_eq_replay hrun, haddresses.trans ?_⟩
  exact addresses_iff_lastIpPar.mpr h.lastIpPar heap

section Response

variable {destMac source : Octets 6} {xid : ℕ} {blocks : List DcpBlock}
  {padding : List UInt8} {tag : Option (UInt8 × UInt8)} {r : Reception}
  {record : Device}

theorem pack_of_response
    (hxid : xid < 4294967296) (hlength : (encodeBlocks blocks).length < 65536)
    (hframe : r.frame = withTag tag
      (headerCodec.encode (responseHeader destMac source xid
        (encodeBlocks blocks).length) ++ (encodeBlocks blocks ++ padding))) :
    r.pack.sourceMac = source ∧ identifyTest r.pack = true ∧
      r.payload = encodeBlocks blocks := by
  obtain ⟨hvalid, hproto⟩ := responseHeader_valid hxid hlength destMac source
  have htype := fun (_ : tag = none) => hproto
  obtain ⟨hfields, -, -⟩ := pack_of_headerFrame hvalid htype hframe
  refine ⟨congrArg HeaderFields.sourceMac hfields, ?_, ?_⟩
  · exact identifyTest_iff.mpr
      ⟨congrArg HeaderFields.frameId hfields,
        congrArg (fun h => h.serviceId.toNat) hfields,
        congrArg (fun h => h.serviceType.toNat) hfields⟩
  · rw [payload_of_headerFrame hvalid htype hframe (by simp [responseHeader])]
    exact List.take_left' rfl

theorem refreshed_of_response
    (hpayload : r.payload = encodeBlocks blocks)
    (hinStep : AddressesInStep record blocks) :
    ∃ record', refreshed r (some record) = some (some record') ∧
      record'.addresses = expectedAddresses record blocks := by
  obtain ⟨parsed, hparsed, haddresses⟩ := hinStep.parsed r.copyHeap
  rw [← hpayload] at hparsed
  refine ⟨{ parsed.device with mac := r.pack.sourceMac }, ?_, haddresses⟩
  rw [refreshed, hparsed, Option.map_some]

end Response

def stationNameBlock : DcpBlock where
  option := pfDcpOptDeviceProperties
  suboption := pfDcpSubDevPropName
  info := 0
  value := [112, 108, 99, 49]
  option_ne_zero := by decide
  length_lt := by decide

def namedBlocks (ip : Octets 4) : List DcpBlock :=
  [stationNameBlock, ipConfigBlock ip ip ip]

theorem namedBlocks_length (ip : Octets 4) :
    (encodeBlocks (namedBlocks ip)).length = 28 := by
  simp [namedBlocks, stationNameBlock, ipConfigBlock, DcpBlock.blockLength]

theorem expectedAddresses_namedBlocks (record : Device) (ip : Octets 4) :
    expectedAddresses record (namedBlocks ip) =
      ip.val ++ ip.val ++ ip.val :=
  @addressesAfter_of_last [stationNameBlock] [] _
    (ipConfigBlock_wellFormed ip ip ip) (fun _ hc => absurd hc List.not_mem_nil)
    record.addresses

theorem addressesInStep_namedBlocks (record : Device) (ip : Octets 4) :
    AddressesInStep record (namedBlocks ip) := by
  have hkind := (ipConfigBlock_wellFormed ip ip ip).1
  have hsize := ipConfigBlock_blockLength ip ip ip
  have hname : stationNameBlock.steps = 11 := by decide
  have hip : (ipConfigBlock ip ip ip).steps = 19 := by
    simp [DcpBlock.steps, hkind, hsize]
  have hlength := namedBlocks_length ip
  have hplaces : ∀ {before b after},
      namedBlocks ip = before ++ b :: after →
        before = [] ∧ b = stationNameBlock ∨
          before = [stationNameBlock] ∧ b = ipConfigBlock ip ip ip := by
    intro before b after hsplit
    rcases before with _ | ⟨first, _ | ⟨second, before⟩⟩
    · exact Or.inl ⟨rfl, (List.cons.inj hsplit).1.symm⟩
    · obtain ⟨hfirst, hrest⟩ := List.cons.inj hsplit
      exact Or.inr ⟨by rw [hfirst], (List.cons.inj hrest).1.symm⟩
    · simp [namedBlocks] at hsplit
  constructor
  · intro b hb
    simp only [namedBlocks, List.mem_cons, List.not_mem_nil, or_false] at hb
    rcases hb with rfl | rfl
    · exact ⟨by decide, by decide⟩
    · rw [DcpBlock.AsciiLength, hsize]
      decide
  · intro before b after hsplit
    rw [hlength]
    rcases hplaces hsplit with ⟨rfl, -⟩ | ⟨rfl, -⟩
    · decide
    · simp [stepsOfBlocks, hname]
  · rw [hlength]
    simp [stepsOfBlocks, namedBlocks, hname, hip]
  · intro before b after hsplit hipPar _
    rcases hplaces hsplit with ⟨-, rfl⟩ | ⟨-, rfl⟩
    · exact absurd hipPar (by decide)
    · exact Or.inl hsize

def namedResponse (source : Octets 6) (ip : Octets 4) : Reception where
  frame := headerCodec.encode (responseHeader dcpMcAddress source 1
    (encodeBlocks (namedBlocks ip)).length) ++
      (encodeBlocks (namedBlocks ip) ++ [])
  heap := fun _ => 0
  copyHeap := fun _ => 0
  fresh := emptyDevice
  frame_length_le := by
    rw [List.length_append, headerCodec.encode_length, headerCodec_size,
      List.append_nil, namedBlocks_length]
    decide

section Runs

variable {g next : Registration} {r : Reception}

theorem storeDevice_defined_iff (r : Reception) (top : List Device) :
    (∃ top', storeDevice r top = some top') ↔
      top = [] ∨ r.pack.sourceMac ∈ top.map Device.mac := by
  cases top with
  | nil => simp [storeDevice_nil]
  | cons first rest =>
      cases hplace : (first :: rest).findIdx? fun node =>
          node.mac = r.pack.sourceMac with
      | none =>
          have hmissing := findIdx?_eq_none_iff_not_mem.mp hplace
          refine iff_of_false ?_ (by simpa using hmissing)
          rintro ⟨top', htop⟩
          simp [storeDevice, chooseDevice, findDeviceByMAC, findDevice,
            hplace] at htop
      | some place =>
          have hmem : r.pack.sourceMac ∈ (first :: rest).map Device.mac := by
            by_contra hmissing
            rw [findIdx?_eq_none_iff_not_mem.mpr hmissing] at hplace
            contradiction
          have hinside : place < (first :: rest).length :=
            (List.findIdx?_eq_some_iff_getElem.mp hplace).1
          obtain ⟨parsed, hparsed⟩ := extractBlocksFromPacket_total r.payload
            (first :: rest)[place] r.copyHeap
          refine iff_of_true ?_ (Or.inr hmem)
          simp [storeDevice, chooseDevice, findDeviceByMAC, findDevice, hplace,
            List.getElem?_eq_getElem hinside, hparsed]

theorem recieve_defined_iff :
    (∃ next, g.recieve r = some next) ↔
      (accepts g.state.table r.pack = true → g.state.top = [] ∨
        r.pack.sourceMac ∈ g.state.top.map Device.mac) := by
  cases haccepts : accepts g.state.table r.pack with
  | true =>
      rw [forall_prop_of_true rfl, ← storeDevice_defined_iff]
      constructor
      · rintro ⟨next, hnext⟩
        exact ⟨_, (recieve_accepted hnext haccepts).1⟩
      · rintro ⟨top, htop⟩
        have hdefined : ∃ state,
            recieveProfinetPackets r g.state = some state := by
          rw [recieveProfinetPackets_eq, if_pos haccepts, identifyBranch,
            helloBranch, htop, Option.map_some, Option.map_some]
          split_ifs
          · exact ⟨_, rfl⟩
          · exact ⟨_, rfl⟩
        obtain ⟨state, hstate⟩ := hdefined
        exact ⟨_, by rw [Registration.recieve, hstate, Option.map_some]⟩
  | false =>
      have hstate : recieveProfinetPackets r g.state = some g.state := by
        rw [recieveProfinetPackets_eq, if_neg (by simp [haccepts])]
      refine iff_of_true ?_ fun haccepted =>
        absurd haccepted Bool.false_ne_true
      exact ⟨_, by rw [Registration.recieve, hstate, Option.map_some]⟩

/-- The table as frames leave it: the one row that it has holds nothing, or the
multicast address. -/
def DeviceTable.InDeclaredRow (table : DeviceTable) : Prop :=
  table.known = [] ∨ table.known = [dcpMcAddress]

theorem DeviceTable.InDeclaredRow.count_le {table : DeviceTable}
    (h : table.InDeclaredRow) : table.deviceCount ≤ devicesRows := by
  rw [← table.known_length]
  rcases h with hnone | hone
  · simp [hnone]
  · simp [hone, devicesRows]

end Runs

/-- A response from a station that has a record and is not in the table, tagged
or not and with any padding, leaves the station's addresses in its record if
the parser meets every block, and nothing else changes. -/
theorem response_reaches_record
    {destMac source : Octets 6} {xid : ℕ} {blocks : List DcpBlock}
    {padding : List UInt8} {tag : Option (UInt8 × UInt8)} {r : Reception}
    {record : Device} {g : Registration}
    (hxid : xid < 4294967296) (hlength : (encodeBlocks blocks).length < 65536)
    (hframe : r.frame = withTag tag
      (headerCodec.encode (responseHeader destMac source xid
        (encodeBlocks blocks).length) ++ (encodeBlocks blocks ++ padding)))
    (hrecord : lookup Device.mac g.state.top source = some record)
    (hunknown : check g.state.table source = false)
    (hinStep : AddressesInStep record blocks) :
    ∃ next record', g.recieve r = some next ∧
      lookup Device.mac next.state.top source = some record' ∧
      record'.addresses = expectedAddresses record blocks ∧
      next.state.table = g.state.table ∧
      ∀ other, other ≠ source →
        lookup Device.mac next.state.top other =
          lookup Device.mac g.state.top other := by
  obtain ⟨hsource, hidentify, hpayload⟩ :=
    pack_of_response hxid hlength hframe
  have haccepts : accepts g.state.table r.pack = true :=
    accepts_iff.mpr ⟨Or.inl hidentify, hsource ▸ hunknown⟩
  obtain ⟨next, hnext⟩ : ∃ next, g.recieve r = some next :=
    recieve_defined_iff.mpr fun _ =>
      Or.inr (hsource ▸ mem_of_lookup hrecord)
  obtain ⟨hstore, htable⟩ := recieve_accepted hnext haccepts
  obtain ⟨-, hrefreshed, hothers⟩ := storeDevice_cases hstore
  obtain ⟨record', hparsed, haddresses⟩ :=
    refreshed_of_response hpayload hinStep
  rw [hsource] at hrefreshed hothers
  rw [hrecord, hparsed, Option.some.injEq] at hrefreshed
  rw [helloTest_of_identifyTest hidentify, if_neg Bool.false_ne_true]
    at htable
  exact ⟨next, record', hnext, hrefreshed.symm, haddresses, htable, hothers⟩

/-- A station with a record of its own sends its name and its addresses. -/
theorem response_reaches_record_of_named :
    let ip : Octets 4 := ⟨[192, 168, 1, 20], rfl⟩
    let g : Registration :=
      ⟨⟨DeviceTable.initial, [{ emptyDevice with mac := dcpSrcAddress }]⟩, []⟩
    ∃ next record, g.recieve (namedResponse dcpSrcAddress ip) = some next ∧
      lookup Device.mac next.state.top dcpSrcAddress = some record ∧
      record.addresses = ip.val ++ ip.val ++ ip.val := by
  intro ip g
  obtain ⟨next, record, hnext, hrecord, haddresses, -, -⟩ :=
    @response_reaches_record dcpMcAddress dcpSrcAddress 1 (namedBlocks ip) []
      none (namedResponse dcpSrcAddress ip)
      { emptyDevice with mac := dcpSrcAddress } g (by decide)
      (by rw [namedBlocks_length]; decide) rfl (by decide) rfl
      (addressesInStep_namedBlocks _ ip)
  exact ⟨next, record, hnext, hrecord,
    haddresses.trans (expectedAddresses_namedBlocks _ ip)⟩

end ProfinetIo
