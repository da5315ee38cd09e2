import ProfinetIo.ByteMemory
import Mathlib.Tactic

/-!
# Codecs of fixed-size records

A codec writes the values of a type as byte strings of one size and reads them
back from the front of a longer string.  Its laws make the valid values and the
strings of that size the same thing, and they are kept by the two ways in which
a packed structure is built: fields behind each other, and a structure for a
tuple of fields.
-/

namespace RecordCodecs

open ByteMemory

structure Codec (α : Type*) where
  size : ℕ
  Valid : α → Prop
  encode : α → List UInt8
  decode : List UInt8 → Option (α × List UInt8)
  encode_length : ∀ value, (encode value).length = size
  decode_encode : ∀ value rest, Valid value →
    decode (encode value ++ rest) = some (value, rest)
  encode_of_decode : ∀ bytes value rest, decode bytes = some (value, rest) →
    Valid value ∧ bytes = encode value ++ rest
  decode_total : ∀ bytes, size ≤ bytes.length →
    ∃ value rest, decode bytes = some (value, rest)

namespace Codec

variable {α β : Type*}

/-! ## What the laws say -/

theorem encode_append_inj
    (codec : Codec α) {value value' : α} {rest rest' : List UInt8}
    (hvalid : codec.Valid value) (hvalid' : codec.Valid value')
    (h : codec.encode value ++ rest = codec.encode value' ++ rest') :
    value = value' ∧ rest = rest' := by
  have hdecode := codec.decode_encode value rest hvalid
  rw [h, codec.decode_encode value' rest' hvalid', Option.some.injEq,
    Prod.mk.injEq] at hdecode
  exact ⟨hdecode.1.symm, hdecode.2.symm⟩

theorem encode_inj_iff
    (codec : Codec α) {value value' : α} (hvalid : codec.Valid value)
    (hvalid' : codec.Valid value') :
    codec.encode value = codec.encode value' ↔ value = value' := by
  constructor
  · intro h
    exact (codec.encode_append_inj hvalid hvalid' (congrArg (· ++ []) h)).1
  · intro h
    rw [h]

/-! ## Fields -/

/-- A codec of the strings of `width` bytes by a pair of inverse functions. -/
def ofBytes (width : ℕ) (Valid : α → Prop) (encode : α → List UInt8)
    (value : List UInt8 → α)
    (encode_length : ∀ a, (encode a).length = width)
    (value_encode : ∀ a, Valid a → value (encode a) = a)
    (encode_value : ∀ bytes, bytes.length = width →
      Valid (value bytes) ∧ encode (value bytes) = bytes) : Codec α where
  size := width
  Valid := Valid
  encode := encode
  decode := fun bytes =>
    if width ≤ bytes.length then
      some (value (bytes.take width), bytes.drop width)
    else none
  encode_length := encode_length
  decode_encode := by
    intro a rest hvalid
    have hlength : width ≤ (encode a ++ rest).length := by
      rw [List.length_append, encode_length]
      omega
    rw [if_pos hlength, List.take_left' (encode_length a),
      List.drop_left' (encode_length a), value_encode a hvalid]
  encode_of_decode := by
    intro bytes a rest h
    split_ifs at h with hlength
    cases h
    have htake : (bytes.take width).length = width := by
      rw [List.length_take]
      omega
    obtain ⟨hvalid, hencode⟩ := encode_value _ htake
    exact ⟨hvalid, by rw [hencode, List.take_append_drop]⟩
  decode_total := by
    intro bytes hlength
    exact ⟨_, _, if_pos hlength⟩

def byte : Codec UInt8 :=
  ofBytes 1 (fun _ => True) (fun value => [value])
    (fun bytes => bytes.headD 0) (fun _ => rfl) (fun _ _ => rfl) (by
      intro bytes hlength
      obtain ⟨value, rfl⟩ := List.length_eq_one_iff.mp hlength
      exact ⟨trivial, rfl⟩)

/-- An integer in the byte order of a little-endian host. -/
def little (width : ℕ) : Codec ℕ :=
  ofBytes width (fun value => value < 256 ^ width) (littleEndian width)
    littleEndianValue (littleEndian_length width)
    (fun _ => littleEndianValue_littleEndian) (by
      rintro bytes rfl
      exact ⟨littleEndianValue_lt bytes,
        littleEndian_of_littleEndianValue bytes⟩)

/-- An integer in network byte order. -/
def big (width : ℕ) : Codec ℕ :=
  ofBytes width (fun value => value < 256 ^ width) (bigEndian width)
    bigEndianValue (bigEndian_length width)
    (fun _ => bigEndianValue_bigEndian) (by
      rintro bytes rfl
      refine ⟨?_, bigEndian_of_bigEndianValue bytes⟩
      rw [bigEndianValue, ← List.length_reverse]
      exact littleEndianValue_lt bytes.reverse)

def octets (n : ℕ) : Codec { bytes : List UInt8 // bytes.length = n } where
  size := n
  Valid := fun _ => True
  encode := Subtype.val
  decode := fun bytes =>
    if h : n ≤ bytes.length then
      some (⟨bytes.take n, by rw [List.length_take]; omega⟩, bytes.drop n)
    else none
  encode_length := Subtype.property
  decode_encode := by
    rintro ⟨bytes, rfl⟩ rest -
    have hlength : bytes.length ≤ (bytes ++ rest).length := by
      rw [List.length_append]
      omega
    rw [dif_pos hlength]
    simp
  encode_of_decode := by
    intro bytes value rest h
    split_ifs at h
    cases h
    exact ⟨trivial, (List.take_append_drop n bytes).symm⟩
  decode_total := by
    intro bytes hlength
    exact ⟨_, _, dif_pos hlength⟩

/-! ## Structures -/

/-- One field behind the other. -/
def pair (first : Codec α) (second : Codec β) : Codec (α × β) where
  size := first.size + second.size
  Valid := fun value => first.Valid value.1 ∧ second.Valid value.2
  encode := fun value => first.encode value.1 ++ second.encode value.2
  decode := fun bytes =>
    (first.decode bytes).bind fun (value, rest) =>
      (second.decode rest).map fun (value', rest) => ((value, value'), rest)
  encode_length := by
    intro value
    rw [List.length_append, first.encode_length, second.encode_length]
  decode_encode := by
    rintro ⟨value, value'⟩ rest ⟨hvalid, hvalid'⟩
    rw [List.append_assoc, first.decode_encode value _ hvalid,
      Option.bind_some]
    simp only
    rw [second.decode_encode value' rest hvalid', Option.map_some]
  encode_of_decode := by
    rintro bytes ⟨value, value'⟩ rest h
    obtain ⟨⟨front, middle⟩, hfirst, hrest⟩ := Option.bind_eq_some_iff.mp h
    obtain ⟨⟨back, last⟩, hsecond, hall⟩ := Option.map_eq_some_iff.mp hrest
    cases hall
    obtain ⟨hvalid, rfl⟩ := first.encode_of_decode _ _ _ hfirst
    obtain ⟨hvalid', rfl⟩ := second.encode_of_decode _ _ _ hsecond
    exact ⟨⟨hvalid, hvalid'⟩, by rw [List.append_assoc]⟩
  decode_total := by
    intro bytes hlength
    obtain ⟨value, rest, hfirst⟩ := first.decode_total bytes (by omega)
    obtain ⟨-, rfl⟩ := first.encode_of_decode _ _ _ hfirst
    rw [List.length_append, first.encode_length] at hlength
    obtain ⟨value', rest', hsecond⟩ := second.decode_total rest (by omega)
    exact ⟨(value, value'), rest', by simp [hfirst, hsecond]⟩

/-- The same bytes for another type, by a pair of inverse functions. -/
def map (codec : Codec α) (pack : α → β) (unpack : β → α)
    (unpack_pack : ∀ value, unpack (pack value) = value)
    (pack_unpack : ∀ value, pack (unpack value) = value) : Codec β where
  size := codec.size
  Valid := fun value => codec.Valid (unpack value)
  encode := fun value => codec.encode (unpack value)
  decode := fun bytes =>
    (codec.decode bytes).map fun (value, rest) => (pack value, rest)
  encode_length := fun value => codec.encode_length (unpack value)
  decode_encode := by
    intro value rest hvalid
    simp only [codec.decode_encode _ rest hvalid, Option.map_some, pack_unpack]
  encode_of_decode := by
    intro bytes value rest h
    obtain ⟨⟨value', rest'⟩, hdecode, hall⟩ := Option.map_eq_some_iff.mp h
    cases hall
    rw [unpack_pack]
    exact codec.encode_of_decode bytes value' rest hdecode
  decode_total := by
    intro bytes hlength
    obtain ⟨value, rest, hdecode⟩ := codec.decode_total bytes hlength
    exact ⟨pack value, rest, by rw [hdecode, Option.map_some]⟩

/-! ## Reading a layout back -/

section Layouts

variable {value : α} {value' : β}

@[simp] theorem byte_encode (value : UInt8) : byte.encode value = [value] :=
  rfl

@[simp] theorem byte_valid (value : UInt8) : byte.Valid value := trivial

@[simp] theorem little_encode (width value : ℕ) :
    (little width).encode value = littleEndian width value := rfl

@[simp] theorem little_valid (width value : ℕ) :
    (little width).Valid value ↔ value < 256 ^ width := Iff.rfl

@[simp] theorem big_encode (width value : ℕ) :
    (big width).encode value = bigEndian width value := rfl

@[simp] theorem big_valid (width value : ℕ) :
    (big width).Valid value ↔ value < 256 ^ width := Iff.rfl

@[simp] theorem octets_encode
    {n : ℕ} (value : { bytes : List UInt8 // bytes.length = n }) :
    (octets n).encode value = value.val := rfl

@[simp] theorem octets_valid
    {n : ℕ} (value : { bytes : List UInt8 // bytes.length = n }) :
    (octets n).Valid value := trivial

@[simp] theorem pair_encode (first : Codec α) (second : Codec β) :
    (first.pair second).encode (value, value') =
      first.encode value ++ second.encode value' := rfl

@[simp] theorem pair_valid (first : Codec α) (second : Codec β) :
    (first.pair second).Valid (value, value') ↔
      first.Valid value ∧ second.Valid value' := Iff.rfl

theorem map_encode
    (codec : Codec α) (pack : α → β) (unpack : β → α)
    (hunpack : ∀ value, unpack (pack value) = value)
    (hpack : ∀ value, pack (unpack value) = value) (value : β) :
    (codec.map pack unpack hunpack hpack).encode value =
      codec.encode (unpack value) := rfl

theorem map_valid
    (codec : Codec α) (pack : α → β) (unpack : β → α)
    (hunpack : ∀ value, unpack (pack value) = value)
    (hpack : ∀ value, pack (unpack value) = value) (value : β) :
    (codec.map pack unpack hunpack hpack).Valid value ↔
      codec.Valid (unpack value) := Iff.rfl

end Layouts

end Codec

end RecordCodecs
