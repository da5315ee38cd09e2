import ProfinetIo.ExtractBlocks
import Mathlib.Tactic

/-!
# Well-formed DCP blocks

The grammar a payload is meant to follow, independent of the parser: a block
is an option, a suboption, a big-endian length, its content, and a zero byte
when the content has odd length.  In a response the content starts with two
bytes of block info, which the length counts.
-/

namespace ProfinetIo

open ByteMemory

def encodeBlock (option suboption : UInt8) (content : List UInt8) :
    List UInt8 :=
  option :: suboption ::
    (bigEndian 2 content.length ++ content ++
      List.replicate (content.length % 2) 0)

@[simp] theorem encodeBlock_length
    (option suboption : UInt8) (content : List UInt8) :
    (encodeBlock option suboption content).length =
      content.length + 4 + content.length % 2 := by
  simp [encodeBlock]
  omega

/-- A block of a response: its option is not the reserved one that a padding
byte looks like, and its length fits the 16-bit field. -/
structure DcpBlock where
  option : UInt8
  suboption : UInt8
  info : UInt16
  value : List UInt8
  option_ne_zero : option ≠ 0
  length_lt : value.length + 2 < 65536

namespace DcpBlock

def blockLength (b : DcpBlock) : ℕ := b.value.length + 2

def content (b : DcpBlock) : List UInt8 := bigEndian 2 b.info.toNat ++ b.value

def encode (b : DcpBlock) : List UInt8 :=
  encodeBlock b.option b.suboption b.content

def kind (b : DcpBlock) : BlockKind := blockKind b.option b.suboption

@[simp] theorem content_length (b : DcpBlock) :
    b.content.length = b.blockLength := by
  simp [content, blockLength, Nat.add_comm]

@[simp] theorem encode_length (b : DcpBlock) :
    b.encode.length = b.blockLength + 4 + b.blockLength % 2 := by
  simp [encode]

theorem blockLength_lt (b : DcpBlock) : b.blockLength < 65536 := b.length_lt

theorem encode_eq (b : DcpBlock) :
    b.encode =
      [b.option, b.suboption, UInt8.ofNat (b.blockLength / 256),
        UInt8.ofNat b.blockLength] ++
      (b.content ++ List.replicate (b.blockLength % 2) 0) := by
  simp [encode, encodeBlock, bigEndian]

theorem drop_take_encode (b : DcpBlock) :
    (b.encode.drop 6).take b.value.length = b.value := by
  have hdrop : b.encode.drop 6 =
      b.value ++ List.replicate (b.blockLength % 2) 0 := by
    simp [encode_eq, content, bigEndian]
  rw [hdrop, List.take_left]

end DcpBlock

def encodeBlocks (blocks : List DcpBlock) : List UInt8 :=
  blocks.flatMap DcpBlock.encode

@[simp] theorem encodeBlocks_nil : encodeBlocks [] = [] := rfl

@[simp] theorem encodeBlocks_cons (b : DcpBlock) (blocks : List DcpBlock) :
    encodeBlocks (b :: blocks) = b.encode ++ encodeBlocks blocks := by
  simp [encodeBlocks]

@[simp] theorem encodeBlocks_append (left right : List DcpBlock) :
    encodeBlocks (left ++ right) = encodeBlocks left ++ encodeBlocks right := by
  simp [encodeBlocks]

def blockStarts : ℕ → List DcpBlock → List (ℕ × ℕ)
  | _, [] => []
  | start, b :: blocks =>
      (start, b.blockLength) :: blockStarts (start + b.encode.length) blocks

@[simp] theorem blockStarts_length (start : ℕ) (blocks : List DcpBlock) :
    (blockStarts start blocks).length = blocks.length := by
  induction blocks generalizing start with
  | nil => rfl
  | cons b blocks ih => simp [blockStarts, ih]

theorem mem_blockStarts_of_split
    (start : ℕ) (before after : List DcpBlock) (b : DcpBlock) :
    (start + (encodeBlocks before).length, b.blockLength) ∈
      blockStarts start (before ++ b :: after) := by
  induction before generalizing start with
  | nil => simp [blockStarts]
  | cons first before ih =>
      have h := ih (start + first.encode.length)
      simp only [List.cons_append, blockStarts, List.mem_cons]
      right
      simpa [Nat.add_assoc] using h

def DcpBlock.WellFormedIpPar (b : DcpBlock) : Prop :=
  b.kind = .ipPar ∧ b.blockLength = 14

instance (b : DcpBlock) : Decidable b.WellFormedIpPar :=
  inferInstanceAs (Decidable (_ ∧ _))

/-- The stored addresses after a payload: those of its last well-formed IP
parameter block, or the ones there were. -/
def addressesAfter (stored : List UInt8) (blocks : List DcpBlock) :
    List UInt8 :=
  blocks.foldl (fun stored b => if b.WellFormedIpPar then b.value else stored)
    stored

def expectedAddresses (device : Device) (blocks : List DcpBlock) : List UInt8 :=
  addressesAfter device.addresses blocks

theorem addressesAfter_length
    {stored : List UInt8} (h : stored.length = 12) (blocks : List DcpBlock) :
    (addressesAfter stored blocks).length = 12 := by
  unfold addressesAfter
  induction blocks generalizing stored with
  | nil => exact h
  | cons b blocks ih =>
      rw [List.foldl_cons]
      by_cases hwell : b.WellFormedIpPar
      · rw [if_pos hwell]
        apply ih
        have hlength := hwell.2
        simp only [DcpBlock.blockLength] at hlength
        omega
      · rw [if_neg hwell]
        exact ih h

theorem addressesAfter_of_no_ipPar
    {blocks : List DcpBlock} (h : ∀ b ∈ blocks, b.kind ≠ .ipPar)
    (stored : List UInt8) : addressesAfter stored blocks = stored := by
  unfold addressesAfter
  induction blocks with
  | nil => rfl
  | cons b blocks ih =>
      have hb : ¬ b.WellFormedIpPar := fun hwell => h b (by simp) hwell.1
      rw [List.foldl_cons, if_neg hb]
      exact ih fun c hc => h c (by simp [hc])

theorem addressesAfter_of_last
    {before after : List DcpBlock} {b : DcpBlock} (hwell : b.WellFormedIpPar)
    (hafter : ∀ c ∈ after, c.kind ≠ .ipPar) (stored : List UInt8) :
    addressesAfter stored (before ++ b :: after) = b.value := by
  have hrest := addressesAfter_of_no_ipPar hafter b.value
  unfold addressesAfter at hrest ⊢
  rw [List.foldl_append, List.foldl_cons, if_pos hwell, hrest]

theorem expectedAddresses_length (device : Device) (blocks : List DcpBlock) :
    (expectedAddresses device blocks).length = 12 :=
  addressesAfter_length device.addresses_length blocks

end ProfinetIo
