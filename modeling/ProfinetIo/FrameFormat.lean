import ProfinetIo.IpConfigRoundTrip
import ProfinetIo.RecordCodecs
import Mathlib.Tactic

/-!
# The header of a DCP frame

What the receiver parses and what the senders overlay on their buffers is one
record of 26 bytes in network order, which an 802.1Q tag may split behind the
two addresses.  The receiver's parse is compared with the codec of that record
in both directions.
-/

namespace ProfinetIo

open ByteMemory RecordCodecs

/-- The fields of a `struct pack`. -/
structure HeaderFields where
  destMac : Octets 6
  sourceMac : Octets 6
  packetType : ℕ
  frameId : ℕ
  serviceId : UInt8
  serviceType : UInt8
  xid : ℕ
  reserveOrDelay : ℕ
  ddl : ℕ

def Pack.fields (p : Pack) : HeaderFields :=
  ⟨p.destMac, p.sourceMac, p.packetType, p.frameId, p.serviceId,
    p.serviceType, p.xid, p.reserveOrDelay, p.ddl⟩

def headerCodec : Codec HeaderFields :=
  ((Codec.octets 6).pair <| (Codec.octets 6).pair <| (Codec.big 2).pair <|
    (Codec.big 2).pair <| Codec.byte.pair <| Codec.byte.pair <|
    (Codec.big 4).pair <| (Codec.big 2).pair (Codec.big 2)).map
    (fun (destMac, sourceMac, packetType, frameId, serviceId, serviceType,
        xid, reserveOrDelay, ddl) =>
      ⟨destMac, sourceMac, packetType, frameId, serviceId, serviceType, xid,
        reserveOrDelay, ddl⟩)
    (fun h => (h.destMac, h.sourceMac, h.packetType, h.frameId, h.serviceId,
      h.serviceType, h.xid, h.reserveOrDelay, h.ddl))
    (fun _ => rfl) (fun _ => rfl)

/-- What stands behind the addresses. -/
def HeaderFields.behindAddresses (h : HeaderFields) : List UInt8 :=
  bigEndian 2 h.packetType ++ (bigEndian 2 h.frameId ++
    ([h.serviceId, h.serviceType] ++ (bigEndian 4 h.xid ++
      (bigEndian 2 h.reserveOrDelay ++ bigEndian 2 h.ddl))))

@[simp] theorem HeaderFields.behindAddresses_length (h : HeaderFields) :
    h.behindAddresses.length = 14 := by
  simp [HeaderFields.behindAddresses]

theorem headerCodec_encode (h : HeaderFields) :
    headerCodec.encode h =
      h.destMac.val ++ (h.sourceMac.val ++ h.behindAddresses) := by
  rw [headerCodec, Codec.map_encode]
  simp [HeaderFields.behindAddresses]

theorem headerCodec_valid {h : HeaderFields} :
    headerCodec.Valid h ↔
      h.packetType < 65536 ∧ h.frameId < 65536 ∧ h.xid < 4294967296 ∧
        h.reserveOrDelay < 65536 ∧ h.ddl < 65536 := by
  rw [headerCodec, Codec.map_valid]
  simp

theorem headerCodec_size : headerCodec.size = 26 := rfl

/-! ## Words -/

theorem word16_eq_value (buffer : Memory) (k : ℕ) :
    word16 buffer k = bigEndianValue (slice buffer k 2) := by
  have hlow := (buffer (k + 1)).toNat_lt
  have hor := Nat.shiftLeft_add_eq_or_of_lt hlow (buffer k).toNat
  rw [word16, ← hor, Nat.shiftLeft_eq]
  simp [slice, bigEndianValue, littleEndianValue, List.range_succ]
  omega

theorem word16_lt (buffer : Memory) (k : ℕ) : word16 buffer k < 65536 := by
  have h := littleEndianValue_lt (slice buffer k 2).reverse
  rw [List.length_reverse, slice_length] at h
  rw [word16_eq_value, bigEndianValue]
  exact h

theorem word32_eq_words (buffer : Memory) (k : ℕ) :
    word32 buffer k =
      word16 buffer k * 65536 + word16 buffer (k + 2) := by
  have hor := Nat.shiftLeft_add_eq_or_of_lt
    (show word16 buffer (k + 2) < 2 ^ 16 from word16_lt buffer (k + 2))
    (word16 buffer k)
  rw [Nat.shiftLeft_eq] at hor
  rw [show 65536 = 2 ^ 16 by rfl, hor, ← Nat.shiftLeft_eq]
  simp only [word32, word16, Nat.shiftLeft_or_distrib, ← Nat.shiftLeft_add,
    Nat.add_assoc, Nat.reduceAdd, Nat.or_assoc]

theorem word32_eq_value (buffer : Memory) (k : ℕ) :
    word32 buffer k = bigEndianValue (slice buffer k 4) := by
  rw [word32_eq_words, word16_eq_value, word16_eq_value]
  simp [slice, bigEndianValue, littleEndianValue, List.range_succ,
    Nat.add_assoc]
  omega

theorem bigEndian_word16 (buffer : Memory) (k : ℕ) :
    bigEndian 2 (word16 buffer k) = slice buffer k 2 := by
  have h := bigEndian_of_bigEndianValue (slice buffer k 2)
  rwa [slice_length, ← word16_eq_value] at h

theorem bigEndian_word32 (buffer : Memory) (k : ℕ) :
    bigEndian 4 (word32 buffer k) = slice buffer k 4 := by
  have h := bigEndian_of_bigEndianValue (slice buffer k 4)
  rwa [slice_length, ← word32_eq_value] at h

theorem word32_lt (buffer : Memory) (k : ℕ) :
    word32 buffer k < 4294967296 := by
  have h := littleEndianValue_lt (slice buffer k 4).reverse
  rw [List.length_reverse, slice_length] at h
  rw [word32_eq_value, bigEndianValue]
  exact h

/-! ## The parse -/

/-- The bytes the parse reads, wherever the tag has moved them. -/
def headerBytes (buffer : Memory) : List UInt8 :=
  slice buffer 0 12 ++ slice buffer (typeOffset buffer) 14

theorem parseHeader_valid (buffer : Memory) :
    headerCodec.Valid (parseHeader buffer).fields := by
  rw [headerCodec_valid]
  exact ⟨word16_lt _ _, word16_lt _ _, word32_lt _ _, word16_lt _ _,
    word16_lt _ _⟩

theorem behindAddresses_parseHeader (buffer : Memory) :
    (parseHeader buffer).fields.behindAddresses =
      slice buffer (typeOffset buffer) 14 := by
  have hservice (k : ℕ) : [buffer k, buffer (k + 1)] = slice buffer k 2 := rfl
  have hparts : slice buffer (typeOffset buffer) 14 =
      slice buffer (typeOffset buffer) (2 + (2 + (2 + (4 + (2 + 2))))) := rfl
  rw [hparts, slice_add, slice_add, slice_add, slice_add, slice_add]
  simp only [HeaderFields.behindAddresses, Pack.fields, parseHeader,
    bigEndian_word16, bigEndian_word32, ← hservice, Nat.add_assoc,
    Nat.reduceAdd]

theorem encode_parseHeader (buffer : Memory) :
    headerCodec.encode (parseHeader buffer).fields = headerBytes buffer := by
  rw [headerCodec_encode, behindAddresses_parseHeader, ← List.append_assoc]
  have haddresses := slice_add buffer 0 6 6
  rw [headerBytes, haddresses]
  rfl

theorem parseHeader_fields_iff {buffer : Memory} {h : HeaderFields}
    (hvalid : headerCodec.Valid h) :
    (parseHeader buffer).fields = h ↔
      headerBytes buffer = headerCodec.encode h := by
  rw [← encode_parseHeader,
    headerCodec.encode_inj_iff (parseHeader_valid buffer) hvalid]

/-- Where a frame that starts with a header has its parts. -/
theorem holds_of_headerFrame
    {h : HeaderFields} {rest : List UInt8} {tag : Option (UInt8 × UInt8)}
    {r : Reception}
    (hframe : r.frame = withTag tag (headerCodec.encode h ++ rest)) :
    Holds r.buffer 0 (h.destMac.val ++ h.sourceMac.val) ∧
      match tag with
      | none => Holds r.buffer 12 (h.behindAddresses ++ rest)
      | some (high, low) =>
          Holds r.buffer 12 [0x81, 0x00, high, low] ∧
            Holds r.buffer 16 (h.behindAddresses ++ rest) := by
  have hholds : Holds r.buffer 0 r.frame := slice_store_self _ _ _
  have hsplit : headerCodec.encode h ++ rest =
      (h.destMac.val ++ h.sourceMac.val) ++ (h.behindAddresses ++ rest) := by
    rw [headerCodec_encode]
    simp only [List.append_assoc]
  have hlength : (h.destMac.val ++ h.sourceMac.val).length = 12 := by simp
  rw [hframe, hsplit] at hholds
  cases tag with
  | none =>
      obtain ⟨haddresses, hbehind⟩ := holds_append.mp hholds
      rw [hlength, Nat.zero_add] at hbehind
      exact ⟨haddresses, hbehind⟩
  | some tag =>
      simp only [withTag, List.take_left' hlength, List.drop_left' hlength]
        at hholds
      obtain ⟨haddresses, hbehind⟩ := holds_append.mp hholds
      rw [hlength, Nat.zero_add] at hbehind
      obtain ⟨htag, hrest⟩ := holds_append.mp hbehind
      exact ⟨haddresses, htag, hrest⟩

section HeaderFrame

variable {h : HeaderFields} {rest : List UInt8}
  {tag : Option (UInt8 × UInt8)} {r : Reception}

theorem typeOffset_of_headerFrame
    (hvalid : headerCodec.Valid h) (htype : tag = none → h.packetType ≠ 0x8100)
    (hframe : r.frame = withTag tag (headerCodec.encode h ++ rest)) :
    typeOffset r.buffer = (if tag = none then 12 else 16) ∧
      Holds r.buffer (typeOffset r.buffer) (h.behindAddresses ++ rest) := by
  obtain ⟨-, hparts⟩ := holds_of_headerFrame hframe
  cases tag with
  | none =>
      have hword : word16 r.buffer 12 = h.packetType := by
        obtain ⟨hbehind, -⟩ := holds_append.mp hparts
        rw [HeaderFields.behindAddresses] at hbehind
        obtain ⟨hpacketType, -⟩ := holds_append.mp hbehind
        have hslice : slice r.buffer 12 2 = bigEndian 2 h.packetType := by
          simpa [Holds] using hpacketType
        rw [word16_eq_value, hslice,
          bigEndianValue_bigEndian (headerCodec_valid.mp hvalid).1]
      have hnot : ¬ (r.buffer 12 = 0x81 ∧ r.buffer 13 = 0x00) := by
        rintro ⟨hhigh, hlow⟩
        have htagged : word16 r.buffer 12 = 0x8100 := by
          simp [word16, hhigh, hlow]
        exact htype rfl (hword.symm.trans htagged)
      have hoffset : typeOffset r.buffer = 12 := if_neg hnot
      rw [hoffset]
      exact ⟨rfl, hparts⟩
  | some tag =>
      obtain ⟨htag, hbehind⟩ := hparts
      have hhigh : r.buffer 12 = 0x81 := slice_eq_iff.mp htag 0 (by simp)
      have hlow : r.buffer 13 = 0x00 := slice_eq_iff.mp htag 1 (by simp)
      have hoffset : typeOffset r.buffer = 16 := if_pos ⟨hhigh, hlow⟩
      rw [hoffset]
      exact ⟨rfl, hbehind⟩

/-- The parse gives the header back, and ends where the rest begins. -/
theorem pack_of_headerFrame
    (hvalid : headerCodec.Valid h) (htype : tag = none → h.packetType ≠ 0x8100)
    (hframe : r.frame = withTag tag (headerCodec.encode h ++ rest)) :
    r.pack.fields = h ∧
      r.pack.traversed = (if tag = none then 26 else 30) ∧
      Holds r.buffer r.pack.traversed rest := by
  obtain ⟨hoffset, hbehind⟩ := typeOffset_of_headerFrame hvalid htype hframe
  obtain ⟨hheader, hrest⟩ := holds_append.mp hbehind
  obtain ⟨haddresses, -⟩ := holds_of_headerFrame hframe
  have htraversed : r.pack.traversed = typeOffset r.buffer + 14 := rfl
  rw [HeaderFields.behindAddresses_length, ← htraversed] at hrest
  have hfront : slice r.buffer 0 12 = h.destMac.val ++ h.sourceMac.val := by
    simpa [Holds] using haddresses
  have hback : slice r.buffer (typeOffset r.buffer) 14 =
      h.behindAddresses := by
    simpa [Holds] using hheader
  refine ⟨?_, ?_, hrest⟩
  · rw [Reception.pack, parseHeader_fields_iff hvalid, headerBytes, hfront,
      hback, headerCodec_encode, List.append_assoc]
  · rw [htraversed, hoffset]
    split_ifs <;> rfl

theorem payload_of_headerFrame
    (hvalid : headerCodec.Valid h) (htype : tag = none → h.packetType ≠ 0x8100)
    (hframe : r.frame = withTag tag (headerCodec.encode h ++ rest))
    (hddl : h.ddl ≤ rest.length) : r.payload = rest.take h.ddl := by
  obtain ⟨hfields, -, hrest⟩ := pack_of_headerFrame hvalid htype hframe
  have hlength : r.pack.ddl = h.ddl := congrArg HeaderFields.ddl hfields
  have hslice := @slice_within r.buffer r.pack.traversed 0 h.ddl rest hrest
    (by omega)
  rw [Reception.payload, hlength]
  simpa using hslice

end HeaderFrame

/-- Encoding what was parsed gives the bytes that were read, and parsing what
was encoded gives the fields, with the payload that they announce. -/
theorem header_round_trip :
    (∀ r : Reception, headerCodec.Valid r.pack.fields ∧
      headerCodec.encode r.pack.fields = headerBytes r.buffer) ∧
    ∀ (h : HeaderFields) (rest : List UInt8) (tag : Option (UInt8 × UInt8))
      (r : Reception), headerCodec.Valid h →
        (tag = none → h.packetType ≠ 0x8100) →
        r.frame = withTag tag (headerCodec.encode h ++ rest) →
          r.pack.fields = h ∧
            r.pack.traversed = (if tag = none then 26 else 30) ∧
            (h.ddl ≤ rest.length → r.payload = rest.take h.ddl) := by
  refine ⟨fun r => ⟨parseHeader_valid r.buffer, encode_parseHeader r.buffer⟩,
    ?_⟩
  intro h rest tag r hvalid htype hframe
  obtain ⟨hfields, htraversed, -⟩ := pack_of_headerFrame hvalid htype hframe
  exact ⟨hfields, htraversed, payload_of_headerFrame hvalid htype hframe⟩

/-- A tagged frame of another protocol is parsed like any other. -/
theorem header_round_trip_of_tagged_frame :
    let h : HeaderFields := ⟨dcpMcAddress, dcpSrcAddress, 0x8100, 0x1234, 5, 0,
      0xdeadbeef, 1, 2⟩
    let r : Reception := ⟨withTag (some (0xe0, 0x07))
      (headerCodec.encode h ++ [1, 2, 3]), fun _ => 0, fun _ => 0, emptyDevice,
      by decide⟩
    r.pack.fields = h ∧ r.payload = [1, 2] := by
  intro h r
  have hvalid : headerCodec.Valid h := headerCodec_valid.mpr (by decide)
  obtain ⟨hfields, -, hpayload⟩ :=
    header_round_trip.2 h [1, 2, 3] (some (0xe0, 0x07)) r hvalid nofun rfl
  exact ⟨hfields, hpayload (by decide)⟩

end ProfinetIo
