import ProfinetIo.DcpBlocks
import ProfinetIo.ExtractBlocksWalk
import Mathlib.Tactic

/-!
# Exactness of the parser on well-formed payloads

A well-formed payload is a list of blocks.  This module finds out on which of
them the parser acts on every block header and on nothing else, prints the
values it should print, and leaves the right addresses in the device.

Everything the parser leaves behind is a function of the headers it acted
on.  The headers are right when no length byte reaches 128, and when `i`,
which gains one or two on `pl` at a known block and falls behind at an unknown
one, stays below the length until the last block and no longer.
-/

namespace ProfinetIo

open ByteMemory WhileLoop

/-! ## What is asked of the parser -/

structure ParsedExactly (device : Device) (blocks : List DcpBlock)
    (s : ParserState) : Prop where
  headers : s.headers.map (fun h => (h.1, h.2.blockLength)) =
    blockStarts 0 blocks
  printed : s.printed =
    (blocks.filter fun b => b.kind = .text).map DcpBlock.value
  addresses : s.device.addresses = expectedAddresses device blocks

/-- The parser is exact on a payload whatever the heap holds past the copy. -/
def ExactOn (device : Device) (blocks : List DcpBlock) : Prop :=
  ∀ heap, ∃ s,
    extractBlocksFromPacket (encodeBlocks blocks) device heap = some s ∧
      ParsedExactly device blocks s

/-! ## The condition -/

/-- How far `i` moves while a block and its padding byte are consumed. -/
def DcpBlock.steps (b : DcpBlock) : ℕ :=
  (if b.kind = .silent then 0 else b.blockLength + 4) + 1 +
    2 * (b.blockLength % 2)

def stepsOfBlocks (blocks : List DcpBlock) : ℕ :=
  (blocks.map DcpBlock.steps).sum

def DcpBlock.AsciiLength (b : DcpBlock) : Prop :=
  b.blockLength / 256 < 128 ∧ b.blockLength % 256 < 128

structure InStep (device : Device) (blocks : List DcpBlock) : Prop where
  ascii : ∀ b ∈ blocks, b.AsciiLength
  noText : ∀ b ∈ blocks, b.kind ≠ .text
  reached : ∀ before b after, blocks = before ++ b :: after →
    stepsOfBlocks before < (encodeBlocks blocks).length
  finished : (encodeBlocks blocks).length ≤ stepsOfBlocks blocks
  lastIpPar : ∀ before b after, blocks = before ++ b :: after →
    b.kind = .ipPar → (∀ c ∈ after, c.kind ≠ .ipPar) →
    b.blockLength = 14 ∨
      ((encodeBlocks (b :: after)).drop 6).take 12 =
        expectedAddresses device blocks

/-! ## Blocks in memory -/

def Holds (mem : Memory) (start : ℕ) (bytes : List UInt8) : Prop :=
  slice mem start bytes.length = bytes

theorem holds_append
    {mem : Memory} {start : ℕ} {left right : List UInt8} :
    Holds mem start (left ++ right) ↔
      Holds mem start left ∧ Holds mem (start + left.length) right :=
  slice_append_iff

theorem payloadCopy_holds (payload : List UInt8) (heap : Memory) :
    Holds (payloadCopy payload heap) 0 payload :=
  slice_store_self heap 0 payload

section Header

variable {mem : Memory} {start : ℕ} {b : DcpBlock}

theorem Holds.header_bytes (h : Holds mem start b.encode) :
    mem start = b.option ∧ mem (start + 1) = b.suboption ∧
      mem (start + 2) = UInt8.ofNat (b.blockLength / 256) ∧
      mem (start + 3) = UInt8.ofNat b.blockLength := by
  rw [b.encode_eq, holds_append] at h
  have hbytes := slice_eq_iff.mp h.1
  exact ⟨hbytes 0 (by simp), hbytes 1 (by simp), hbytes 2 (by simp),
    hbytes 3 (by simp)⟩

theorem Holds.decodeHeader_kind (h : Holds mem start b.encode) :
    (decodeHeader mem start).kind = b.kind := by
  obtain ⟨hoption, hsuboption, -, -⟩ := h.header_bytes
  simp [Block.kind, DcpBlock.kind, decodeHeader, hoption, hsuboption]

theorem Holds.decodeHeader_blockLength_iff (h : Holds mem start b.encode) :
    (decodeHeader mem start).blockLength = b.blockLength ↔ b.AsciiLength := by
  obtain ⟨-, -, hhigh, hlow⟩ := h.header_bytes
  have hiff := charLength_bigEndian_iff b.blockLength_lt
    (show (0 : ℕ) < 128 by decide)
  simpa [decodeHeader, hhigh, hlow, DcpBlock.AsciiLength] using hiff

theorem Holds.itemAt_eq (h : Holds mem start b.encode) :
    itemAt mem start = .block (decodeHeader mem start) := by
  have hne : mem start ≠ 0 := by
    rw [h.header_bytes.1]
    exact b.option_ne_zero
  rw [itemAt, if_neg hne]

theorem Holds.padding
    (h : Holds mem start b.encode) (hodd : b.blockLength % 2 = 1) :
    itemAt mem (start + (b.blockLength + 4)) = .padding := by
  have hlast : b.encode =
      (b.option :: b.suboption ::
        (bigEndian 2 b.content.length ++ b.content)) ++ [0] := by
    simp [DcpBlock.encode, encodeBlock, hodd]
  rw [hlast, holds_append] at h
  have hbyte := slice_eq_iff.mp h.2 0 (by simp)
  have haddress : start +
      (b.option :: b.suboption ::
        (bigEndian 2 b.content.length ++ b.content)).length + 0 =
      start + (b.blockLength + 4) := by
    simp
    omega
  rw [haddress] at hbyte
  rw [itemAt, if_pos (by simpa using hbyte)]

end Header

/-! ## The items of a list of blocks -/

def blockHeaders (mem : Memory) : ℕ → List DcpBlock → List (ℕ × Block)
  | _, [] => []
  | start, b :: blocks =>
      (start, decodeHeader mem start) ::
        blockHeaders mem (start + b.encode.length) blocks

def itemsOfBlocks (mem : Memory) : ℕ → List DcpBlock → List Item
  | _, [] => []
  | start, b :: blocks =>
      .block (decodeHeader mem start) ::
        (List.replicate (b.blockLength % 2) .padding ++
          itemsOfBlocks mem (start + b.encode.length) blocks)

theorem blockHeaders_length
    (mem : Memory) (start : ℕ) (blocks : List DcpBlock) :
    (blockHeaders mem start blocks).length = blocks.length := by
  induction blocks generalizing start with
  | nil => rfl
  | cons b blocks ih => simp [blockHeaders, ih]

theorem blockHeaders_append
    (mem : Memory) (start : ℕ) (left right : List DcpBlock) :
    blockHeaders mem start (left ++ right) =
      blockHeaders mem start left ++
        blockHeaders mem (start + (encodeBlocks left).length) right := by
  induction left generalizing start with
  | nil => simp [blockHeaders]
  | cons b left ih => simp [blockHeaders, ih, Nat.add_assoc]

theorem split_of_itemsOfBlocks
    {mem : Memory} {start : ℕ} {blocks : List DcpBlock}
    {before after : List Item} {header : Block}
    (h : itemsOfBlocks mem start blocks =
      before ++ .block header :: after) :
    ∃ left b right, blocks = left ++ b :: right ∧
      before = itemsOfBlocks mem start left := by
  induction blocks generalizing start before with
  | nil => simp [itemsOfBlocks] at h
  | cons b blocks ih =>
      cases before with
      | nil => exact ⟨[], b, blocks, rfl, rfl⟩
      | cons first before =>
          simp only [itemsOfBlocks, List.cons_append, List.cons.injEq] at h
          obtain ⟨rfl, h⟩ := h
          rcases Nat.mod_two_eq_zero_or_one b.blockLength with heven | hodd
          · rw [heven] at h
            obtain ⟨left, c, right, hsplit, hbefore⟩ := ih (by simpa using h)
            refine ⟨b :: left, c, right, by simp [hsplit], ?_⟩
            simp [itemsOfBlocks, heven, hbefore]
          · rw [hodd] at h
            cases before with
            | nil => simp at h
            | cons second before =>
                simp only [List.replicate_one, List.cons_append,
                  List.nil_append, List.cons.injEq] at h
                obtain ⟨rfl, h⟩ := h
                obtain ⟨left, c, right, hsplit, hbefore⟩ := ih h
                refine ⟨b :: left, c, right, by simp [hsplit], ?_⟩
                simp [itemsOfBlocks, hodd, hbefore]

section Ascii

variable {mem : Memory} {start : ℕ} {blocks : List DcpBlock}

theorem sizeOfItems_padding (count : ℕ) :
    sizeOfItems (List.replicate count .padding) = count := by
  simp [sizeOfItems, Item.size]

theorem stepsOfItems_padding (count : ℕ) :
    stepsOfItems (List.replicate count .padding) = 2 * count := by
  simp [stepsOfItems, Item.steps, Nat.mul_comm]

theorem headersOfItems_padding (start count : ℕ) :
    headersOfItems start (List.replicate count .padding) = [] := by
  induction count generalizing start with
  | zero => rfl
  | succ count ih => simp [List.replicate_succ, headersOfItems, ih]

theorem Holds.chained_block
    {b : DcpBlock} (h : Holds mem start b.encode) (hascii : b.AsciiLength) :
    Chained mem start (.block (decodeHeader mem start) ::
      List.replicate (b.blockLength % 2) .padding) := by
  have hlength := h.decodeHeader_blockLength_iff.mpr hascii
  refine ⟨h.itemAt_eq, ?_⟩
  rcases Nat.mod_two_eq_zero_or_one b.blockLength with heven | hodd
  · simp [heven, Chained]
  · rw [hodd]
    refine ⟨?_, trivial⟩
    simpa [Item.size, hlength] using h.padding hodd

theorem Holds.head_and_tail
    {b : DcpBlock} (hascii : ∀ c ∈ b :: blocks, c.AsciiLength)
    (h : Holds mem start (encodeBlocks (b :: blocks))) :
    Holds mem start b.encode ∧
      (decodeHeader mem start).blockLength = b.blockLength ∧
      (∀ c ∈ blocks, c.AsciiLength) ∧
      Holds mem (start + b.encode.length) (encodeBlocks blocks) := by
  rw [encodeBlocks_cons, holds_append] at h
  obtain ⟨hb, hblocks⟩ := List.forall_mem_cons.mp hascii
  exact ⟨h.1, h.1.decodeHeader_blockLength_iff.mpr hb, hblocks, h.2⟩

theorem itemsOfBlocks_chained
    (hascii : ∀ b ∈ blocks, b.AsciiLength)
    (h : Holds mem start (encodeBlocks blocks)) :
    Chained mem start (itemsOfBlocks mem start blocks) := by
  induction blocks generalizing start with
  | nil => trivial
  | cons b blocks ih =>
      obtain ⟨hfirst, hlength, htail, hholds⟩ := h.head_and_tail hascii
      have hrest := ih htail hholds
      rw [itemsOfBlocks, ← List.cons_append, chained_append]
      refine ⟨hfirst.chained_block (hascii b (by simp)), ?_⟩
      simpa [sizeOfItems_padding, Item.size, hlength] using hrest

theorem sizeOfItems_itemsOfBlocks
    (hascii : ∀ b ∈ blocks, b.AsciiLength)
    (h : Holds mem start (encodeBlocks blocks)) :
    sizeOfItems (itemsOfBlocks mem start blocks) =
      (encodeBlocks blocks).length := by
  induction blocks generalizing start with
  | nil => rfl
  | cons b blocks ih =>
      obtain ⟨-, hlength, htail, hholds⟩ := h.head_and_tail hascii
      have hrest := ih htail hholds
      rw [itemsOfBlocks, sizeOfItems_cons, sizeOfItems_append,
        sizeOfItems_padding, hrest]
      simp only [Item.size, hlength, encodeBlocks_cons, List.length_append,
        DcpBlock.encode_length]
      omega

theorem stepsOfItems_itemsOfBlocks
    (hascii : ∀ b ∈ blocks, b.AsciiLength)
    (h : Holds mem start (encodeBlocks blocks)) :
    stepsOfItems (itemsOfBlocks mem start blocks) = stepsOfBlocks blocks := by
  induction blocks generalizing start with
  | nil => rfl
  | cons b blocks ih =>
      obtain ⟨hfirst, hlength, htail, hholds⟩ := h.head_and_tail hascii
      have hkind := hfirst.decodeHeader_kind
      have hrest := ih htail hholds
      simp only [itemsOfBlocks, stepsOfItems_cons, stepsOfItems_append,
        stepsOfItems_padding, hrest, Item.steps, Block.branchMove, hlength,
        hkind]
      simp only [stepsOfBlocks, List.map_cons, List.sum_cons, DcpBlock.steps]
      omega

theorem headersOfItems_itemsOfBlocks
    (hascii : ∀ b ∈ blocks, b.AsciiLength)
    (h : Holds mem start (encodeBlocks blocks)) :
    headersOfItems start (itemsOfBlocks mem start blocks) =
      blockHeaders mem start blocks := by
  induction blocks generalizing start with
  | nil => rfl
  | cons b blocks ih =>
      obtain ⟨-, hlength, htail, hholds⟩ := h.head_and_tail hascii
      have hrest := ih htail hholds
      simp only [itemsOfBlocks, headersOfItems, headersOfItems_append,
        headersOfItems_padding, sizeOfItems_padding, blockHeaders, hlength,
        List.nil_append]
      rw [← hrest, DcpBlock.encode_length]
      simp [Nat.add_assoc]

theorem blockHeaders_map
    (hascii : ∀ b ∈ blocks, b.AsciiLength)
    (h : Holds mem start (encodeBlocks blocks)) :
    (blockHeaders mem start blocks).map (fun e => (e.1, e.2.blockLength)) =
      blockStarts start blocks := by
  induction blocks generalizing start with
  | nil => rfl
  | cons b blocks ih =>
      obtain ⟨-, hlength, htail, hholds⟩ := h.head_and_tail hascii
      have hrest := ih htail hholds
      simpa [blockHeaders, blockStarts, hlength] using hrest

end Ascii

/-! ## The headers a run acts on -/

section Run

variable {device : Device} {blocks : List DcpBlock} {mem : Memory}
  {ran : List Item}

theorem stepsOfItems_le_of_prefix
    {left right : List Item} (h : left <+: right) :
    stepsOfItems left ≤ stepsOfItems right := by
  obtain ⟨more, rfl⟩ := h
  simp

theorem headersOfItems_length_le_of_prefix
    {left right : List Item} (start : ℕ) (h : left <+: right) :
    (headersOfItems start left).length ≤
      (headersOfItems start right).length := by
  obtain ⟨more, rfl⟩ := h
  rw [headersOfItems_append]
  simp

theorem headersOfItems_eq_of_prefix
    {left right : List Item} (start : ℕ) (h : left <+: right)
    (hrest : ∀ before header after, right = before ++ .block header :: after →
      before.length < left.length) :
    headersOfItems start left = headersOfItems start right := by
  obtain ⟨more, rfl⟩ := h
  have hmore : ∀ items, items <:+ more → ∀ start,
      headersOfItems start items = [] := by
    intro items
    induction items with
    | nil => intro _ _; rfl
    | cons item items ih =>
        rintro ⟨skipped, hskipped⟩ start
        cases item with
        | padding =>
            exact ih ⟨skipped ++ [.padding], by simpa using hskipped⟩ _
        | block header =>
            have hlt := hrest (left ++ skipped) header items (by
              simp [← hskipped])
            simp at hlt
  rw [headersOfItems_append, hmore more List.suffix_rfl, List.append_nil]

theorem Holds.of_split
    {before after : List DcpBlock} {b : DcpBlock}
    (hmem : Holds mem 0 (encodeBlocks blocks))
    (hsplit : blocks = before ++ b :: after) :
    Holds mem 0 (encodeBlocks before) ∧
      Holds mem (encodeBlocks before).length (encodeBlocks (b :: after)) := by
  rw [hsplit, encodeBlocks_append, holds_append, Nat.zero_add] at hmem
  exact hmem

theorem headers_eq_of_inStep
    (hascii : ∀ b ∈ blocks, b.AsciiLength)
    (hreached : ∀ before b after, blocks = before ++ b :: after →
      stepsOfBlocks before < (encodeBlocks blocks).length)
    (hfinished : (encodeBlocks blocks).length ≤ stepsOfBlocks blocks)
    (hmem : Holds mem 0 (encodeBlocks blocks))
    (hrun : ParserRun (encodeBlocks blocks).length mem device ran) :
    headersOfItems 0 ran = blockHeaders mem 0 blocks := by
  have hsteps := stepsOfItems_itemsOfBlocks hascii hmem
  have hprefix := hrun.prefix_of_finished
    (itemsOfBlocks_chained hascii hmem) (by omega)
  have hstop := (parserRun_iff.mp hrun).2
  rw [← headersOfItems_itemsOfBlocks hascii hmem]
  apply headersOfItems_eq_of_prefix 0 hprefix
  intro before header after hsplit
  obtain ⟨left, b, right, hblocks, rfl⟩ := split_of_itemsOfBlocks hsplit
  have hlt := hreached left b right hblocks
  have hleft : stepsOfItems (itemsOfBlocks mem 0 left) =
      stepsOfBlocks left := by
    apply stepsOfItems_itemsOfBlocks
    · intro c hc
      exact hascii c (by simp [hblocks, hc])
    · exact (hmem.of_split hblocks).1
  by_contra hlong
  have hran : ran <+: itemsOfBlocks mem 0 left :=
    List.prefix_of_prefix_length_le hprefix ⟨_, hsplit.symm⟩ (by omega)
  have hle := stepsOfItems_le_of_prefix hran
  omega

theorem ascii_of_headers
    (hmem : Holds mem 0 (encodeBlocks blocks)) (hchained : Chained mem 0 ran)
    (hheaders : (headersOfItems 0 ran).map (fun h => (h.1, h.2.blockLength)) =
      blockStarts 0 blocks) :
    ∀ b ∈ blocks, b.AsciiLength := by
  intro b hb
  obtain ⟨before, after, hsplit⟩ := List.append_of_mem hb
  have hstart := mem_blockStarts_of_split 0 before after b
  rw [← hsplit, ← hheaders] at hstart
  obtain ⟨entry, hentry, heq⟩ := List.mem_map.mp hstart
  simp only [Nat.zero_add, Prod.mk.injEq] at heq
  obtain ⟨hoffset, hlength⟩ := heq
  have hblock := (hmem.of_split hsplit).2
  rw [encodeBlocks_cons, holds_append] at hblock
  rw [hchained.header_eq entry hentry, hoffset] at hlength
  exact hblock.1.decodeHeader_blockLength_iff.mp hlength

theorem reached_of_headers
    (hascii : ∀ b ∈ blocks, b.AsciiLength)
    (hmem : Holds mem 0 (encodeBlocks blocks))
    (hrun : ParserRun (encodeBlocks blocks).length mem device ran)
    (hcount : (headersOfItems 0 ran).length = blocks.length) :
    ∀ before b after, blocks = before ++ b :: after →
      stepsOfBlocks before < (encodeBlocks blocks).length := by
  intro before b after hsplit
  by_contra hlate
  have hbefore := (hmem.of_split hsplit).1
  have hasciiBefore : ∀ c ∈ before, c.AsciiLength := by
    intro c hc
    exact hascii c (by simp [hsplit, hc])
  have hsteps := stepsOfItems_itemsOfBlocks hasciiBefore hbefore
  have hprefix := hrun.prefix_of_finished
    (itemsOfBlocks_chained hasciiBefore hbefore) (by omega)
  have hle := headersOfItems_length_le_of_prefix 0 hprefix
  rw [headersOfItems_itemsOfBlocks hasciiBefore hbefore,
    blockHeaders_length, hcount, hsplit] at hle
  simp at hle

/-- If `i` is still below the length after the last block, a non-zero byte
past the copy is taken for one more block. -/
theorem finished_of_headers
    (hascii : ∀ b ∈ blocks, b.AsciiLength)
    (hmem : Holds mem 0 (encodeBlocks blocks))
    (hpast : mem (encodeBlocks blocks).length ≠ 0)
    (hrun : ParserRun (encodeBlocks blocks).length mem device ran)
    (hcount : (headersOfItems 0 ran).length = blocks.length) :
    (encodeBlocks blocks).length ≤ stepsOfBlocks blocks := by
  by_contra hearly
  have hsteps := stepsOfItems_itemsOfBlocks hascii hmem
  obtain ⟨more, rfl⟩ := hrun.continues_of_unfinished
    (itemsOfBlocks_chained hascii hmem) (by omega)
  rw [sizeOfItems_itemsOfBlocks hascii hmem, itemAt, if_neg hpast,
    headersOfItems_append, headersOfItems_itemsOfBlocks hascii hmem] at hcount
  simp [headersOfItems, blockHeaders_length] at hcount

end Run

/-! ## What the headers leave behind -/

section Effects

variable {mem : Memory} {start : ℕ} {blocks : List DcpBlock}

/-- The vendor and name branches print as many bytes as the length counts,
which is two more than the value has. -/
theorem printed_lengths
    (hascii : ∀ b ∈ blocks, b.AsciiLength)
    (h : Holds mem start (encodeBlocks blocks)) :
    (printedOfHeaders mem (blockHeaders mem start blocks)).map List.length =
      (blocks.filter fun b => b.kind = .text).map DcpBlock.blockLength := by
  induction blocks generalizing start with
  | nil => rfl
  | cons b blocks ih =>
      obtain ⟨hfirst, hlength, htail, hholds⟩ := h.head_and_tail hascii
      have hrest := ih htail hholds
      simp only [printedOfHeaders] at hrest
      by_cases hkind : b.kind = .text
      · simpa [blockHeaders, printedOfHeaders, hfirst.decodeHeader_kind, hkind,
          hlength] using hrest
      · simpa [blockHeaders, printedOfHeaders, hfirst.decodeHeader_kind,
          hkind] using hrest

theorem printed_eq_iff
    (hascii : ∀ b ∈ blocks, b.AsciiLength)
    (h : Holds mem start (encodeBlocks blocks)) :
    printedOfHeaders mem (blockHeaders mem start blocks) =
        (blocks.filter fun b => b.kind = .text).map DcpBlock.value ↔
      ∀ b ∈ blocks, b.kind ≠ .text := by
  have hlengths := printed_lengths hascii h
  constructor
  · intro hprinted b hb htext
    rw [hprinted, List.map_map, List.map_inj_left] at hlengths
    have hvalue := hlengths b (by simp [hb, htext])
    simp [DcpBlock.blockLength] at hvalue
  · intro hnone
    have hfilter : (blocks.filter fun b => b.kind = .text) = [] := by
      rw [List.filter_eq_nil_iff]
      intro b hb
      simpa using hnone b hb
    rw [hfilter] at hlengths ⊢
    simpa using hlengths

theorem addressesOfHeaders_of_no_ipPar
    {addresses : List UInt8} (h : Holds mem start (encodeBlocks blocks))
    (hnone : ∀ b ∈ blocks, b.kind ≠ .ipPar) :
    addressesOfHeaders mem addresses (blockHeaders mem start blocks) =
      addresses := by
  induction blocks generalizing start with
  | nil => rfl
  | cons b blocks ih =>
      rw [encodeBlocks_cons, holds_append] at h
      have hb : b.kind ≠ .ipPar := hnone b (by simp)
      have hrest := ih h.2 fun c hc => hnone c (by simp [hc])
      simpa [blockHeaders, addressesOfHeaders, h.1.decodeHeader_kind, hb]
        using hrest

theorem addressesOfHeaders_of_last
    {addresses : List UInt8} {before after : List DcpBlock} {b : DcpBlock}
    (h : Holds mem 0 (encodeBlocks blocks))
    (hsplit : blocks = before ++ b :: after) (hkind : b.kind = .ipPar)
    (hafter : ∀ c ∈ after, c.kind ≠ .ipPar) :
    addressesOfHeaders mem addresses (blockHeaders mem 0 blocks) =
      slice mem ((encodeBlocks before).length + 6) 12 := by
  have hblock := (h.of_split hsplit).2
  rw [encodeBlocks_cons, holds_append] at hblock
  have hrest : addressesOfHeaders mem
      (slice mem ((encodeBlocks before).length + 6) 12)
      (blockHeaders mem ((encodeBlocks before).length + b.encode.length)
        after) =
      slice mem ((encodeBlocks before).length + 6) 12 :=
    addressesOfHeaders_of_no_ipPar hblock.2 hafter
  rw [hsplit, blockHeaders_append, Nat.zero_add, addressesOfHeaders,
    List.foldl_append, blockHeaders, List.foldl_cons,
    hblock.1.decodeHeader_kind, if_pos hkind]
  exact hrest

theorem no_ipPar_or_last (blocks : List DcpBlock) :
    (∀ b ∈ blocks, b.kind ≠ .ipPar) ∨
      ∃ before b after, blocks = before ++ b :: after ∧
        b.kind = .ipPar ∧ ∀ c ∈ after, c.kind ≠ .ipPar := by
  induction blocks with
  | nil => simp
  | cons first blocks ih =>
      rcases ih with hnone | ⟨before, b, after, rfl, hkind, hafter⟩
      · by_cases hfirst : first.kind = .ipPar
        · exact Or.inr ⟨[], first, blocks, rfl, hfirst, hnone⟩
        · left
          intro b hb
          rcases List.mem_cons.mp hb with rfl | hb
          · exact hfirst
          · exact hnone b hb
      · exact Or.inr ⟨first :: before, b, after, rfl, hkind, hafter⟩

theorem take_addresses_of_wellFormed
    {device : Device} {before after : List DcpBlock} {b : DcpBlock}
    (hsplit : blocks = before ++ b :: after) (hwell : b.WellFormedIpPar)
    (hafter : ∀ c ∈ after, c.kind ≠ .ipPar) :
    ((encodeBlocks (b :: after)).drop 6).take 12 =
      expectedAddresses device blocks := by
  have hvalue : b.value.length = 12 := by
    have hlength := hwell.2
    simp only [DcpBlock.blockLength] at hlength
    omega
  rw [expectedAddresses, hsplit, addressesAfter_of_last hwell hafter,
    encodeBlocks_cons, List.drop_append_of_le_length (by simp [hwell.2]),
    List.take_append_of_le_length (by simp [hwell.2]), ← hvalue]
  exact b.drop_take_encode

end Effects

/-! ## The exact condition -/

section Exact

variable {device : Device} {blocks : List DcpBlock} {heap : Memory}

theorem parsedExactly_iff
    {ran : List Item}
    (hrun : ParserRun (encodeBlocks blocks).length
      (payloadCopy (encodeBlocks blocks) heap) device ran) :
    (∃ s, extractBlocksFromPacket (encodeBlocks blocks) device heap = some s ∧
      ParsedExactly device blocks s) ↔
      (headersOfItems 0 ran).map (fun h => (h.1, h.2.blockLength)) =
          blockStarts 0 blocks ∧
        printedOfHeaders (payloadCopy (encodeBlocks blocks) heap)
            (headersOfItems 0 ran) =
          (blocks.filter fun b => b.kind = .text).map DcpBlock.value ∧
        addressesOfHeaders (payloadCopy (encodeBlocks blocks) heap)
            device.addresses (headersOfItems 0 ran) =
          expectedAddresses device blocks := by
  have hreplay := extractBlocksFromPacket_eq_replay hrun
  have hheaders := replay_headers (payloadCopy (encodeBlocks blocks) heap) ran
    (ParserState.initial device)
  have hprinted := replay_printed (payloadCopy (encodeBlocks blocks) heap) ran
    (ParserState.initial device)
  have haddresses := replay_addresses
    (payloadCopy (encodeBlocks blocks) heap) ran (ParserState.initial device)
  simp only [ParserState.initial, List.nil_append]
    at hheaders hprinted haddresses
  rw [← hprinted, ← haddresses, ← hheaders]
  constructor
  · rintro ⟨s, hs, hexact⟩
    rw [hreplay, Option.some.injEq] at hs
    subst hs
    exact ⟨hexact.headers, hexact.printed, hexact.addresses⟩
  · rintro ⟨h1, h2, h3⟩
    exact ⟨_, hreplay, h1, h2, h3⟩

theorem exists_run_of_exactOn (h : ExactOn device blocks) (heap : Memory) :
    ∃ ran, ParserRun (encodeBlocks blocks).length
        (payloadCopy (encodeBlocks blocks) heap) device ran ∧
      (headersOfItems 0 ran).map (fun h => (h.1, h.2.blockLength)) =
          blockStarts 0 blocks ∧
      printedOfHeaders (payloadCopy (encodeBlocks blocks) heap)
          (headersOfItems 0 ran) =
        (blocks.filter fun b => b.kind = .text).map DcpBlock.value ∧
      addressesOfHeaders (payloadCopy (encodeBlocks blocks) heap)
          device.addresses (headersOfItems 0 ran) =
        expectedAddresses device blocks := by
  obtain ⟨s, hs, hexact⟩ := h heap
  obtain ⟨ran, hrun, -⟩ := exists_parserRun hs
  exact ⟨ran, hrun, (parsedExactly_iff hrun).mp ⟨s, hs, hexact⟩⟩

theorem headers_in_step_of_exactOn (h : ExactOn device blocks) :
    (∀ b ∈ blocks, b.AsciiLength) ∧
      (∀ before b after, blocks = before ++ b :: after →
        stepsOfBlocks before < (encodeBlocks blocks).length) ∧
      (encodeBlocks blocks).length ≤ stepsOfBlocks blocks := by
  obtain ⟨ran, hrun, hheaders, -, -⟩ := exists_run_of_exactOn h fun _ => 1
  have hmem := payloadCopy_holds (encodeBlocks blocks) fun _ => 1
  have hascii := ascii_of_headers hmem hrun.chained hheaders
  have hcount : (headersOfItems 0 ran).length = blocks.length := by
    simpa using congrArg List.length hheaders
  have hpast : payloadCopy (encodeBlocks blocks) (fun _ => 1)
      (encodeBlocks blocks).length ≠ 0 := by
    rw [payloadCopy, store_outside (by omega)]
    decide
  exact ⟨hascii, reached_of_headers hascii hmem hrun hcount,
    finished_of_headers hascii hmem hpast hrun hcount⟩

/-- The last IP parameter block has to be followed by its twelve bytes within
the payload, because the rest comes from the heap. -/
theorem room_of_slices
    {start : ℕ} {payload expected : List UInt8}
    (h : ∀ heap, slice (payloadCopy payload heap) start 12 = expected) :
    start + 12 ≤ payload.length := by
  by_contra hshort
  have hlast (value : UInt8) : expected.getD 11 0 = value := by
    rw [← h fun _ => value, slice_getD (by decide), payloadCopy,
      store_outside (by omega)]
  exact absurd ((hlast 0).symm.trans (hlast 1)) (by decide)

/-- Acting on the headers of the blocks leaves the expected addresses behind,
whatever the heap holds, exactly if the last IP parameter block is well formed
or followed by them. -/
theorem addresses_iff_lastIpPar :
    (∀ heap, addressesOfHeaders (payloadCopy (encodeBlocks blocks) heap)
        device.addresses
        (blockHeaders (payloadCopy (encodeBlocks blocks) heap) 0 blocks) =
      expectedAddresses device blocks) ↔
    ∀ before b after, blocks = before ++ b :: after →
      b.kind = .ipPar → (∀ c ∈ after, c.kind ≠ .ipPar) →
      b.blockLength = 14 ∨
        ((encodeBlocks (b :: after)).drop 6).take 12 =
          expectedAddresses device blocks := by
  have hmem (heap : Memory) := payloadCopy_holds (encodeBlocks blocks) heap
  constructor
  · intro h before b after hsplit hkind hafter
    have hslice (heap : Memory) :
        slice (payloadCopy (encodeBlocks blocks) heap)
            ((encodeBlocks before).length + 6) 12 =
          expectedAddresses device blocks := by
      rw [← addressesOfHeaders_of_last (hmem heap) hsplit hkind hafter]
      exact h heap
    have hroom := room_of_slices hslice
    rw [hsplit, encodeBlocks_append, List.length_append] at hroom
    right
    rw [← hslice fun _ => 0,
      slice_within ((hmem fun _ => 0).of_split hsplit).2 (by omega)]
  · intro h heap
    rcases no_ipPar_or_last blocks with
      hnone | ⟨before, b, after, hsplit, hkind, hafter⟩
    · rw [addressesOfHeaders_of_no_ipPar (hmem heap) hnone, expectedAddresses,
        addressesAfter_of_no_ipPar hnone]
    · have hexpected : ((encodeBlocks (b :: after)).drop 6).take 12 =
          expectedAddresses device blocks := by
        rcases h before b after hsplit hkind hafter with h14 | hbytes
        · exact take_addresses_of_wellFormed hsplit ⟨hkind, h14⟩ hafter
        · exact hbytes
      have hroom := congrArg List.length hexpected
      rw [expectedAddresses_length, List.length_take, List.length_drop]
        at hroom
      rw [addressesOfHeaders_of_last (hmem heap) hsplit hkind hafter,
        ← hexpected]
      exact slice_within ((hmem heap).of_split hsplit).2 (by omega)

end Exact

/-- The parser is exact on a well-formed payload precisely when it stays in
step with it. -/
theorem exactOn_iff_inStep (device : Device) (blocks : List DcpBlock) :
    ExactOn device blocks ↔ InStep device blocks := by
  have hmem (heap : Memory) := payloadCopy_holds (encodeBlocks blocks) heap
  constructor
  · intro h
    obtain ⟨hascii, hreached, hfinished⟩ := headers_in_step_of_exactOn h
    have heffects (heap : Memory) :
        printedOfHeaders (payloadCopy (encodeBlocks blocks) heap)
            (blockHeaders (payloadCopy (encodeBlocks blocks) heap) 0 blocks) =
          (blocks.filter fun b => b.kind = .text).map DcpBlock.value ∧
        addressesOfHeaders (payloadCopy (encodeBlocks blocks) heap)
            device.addresses
            (blockHeaders (payloadCopy (encodeBlocks blocks) heap) 0 blocks) =
          expectedAddresses device blocks := by
      obtain ⟨ran, hrun, -, hprinted, haddresses⟩ :=
        exists_run_of_exactOn h heap
      rw [headers_eq_of_inStep hascii hreached hfinished (hmem heap) hrun]
        at hprinted haddresses
      exact ⟨hprinted, haddresses⟩
    have hnoText := (printed_eq_iff hascii (hmem fun _ => 0)).mp
      (heffects fun _ => 0).1
    have hlastIpPar := addresses_iff_lastIpPar.mp fun heap => (heffects heap).2
    exact ⟨hascii, hnoText, hreached, hfinished, hlastIpPar⟩
  · intro h heap
    obtain ⟨s, hs⟩ :=
      extractBlocksFromPacket_total (encodeBlocks blocks) device heap
    obtain ⟨ran, hrun, -⟩ := exists_parserRun hs
    rw [parsedExactly_iff hrun, headers_eq_of_inStep h.ascii h.reached
      h.finished (hmem heap) hrun]
    have hprinted := (printed_eq_iff h.ascii (hmem heap)).mpr h.noText
    have haddresses := addresses_iff_lastIpPar.mpr h.lastIpPar heap
    exact ⟨blockHeaders_map h.ascii (hmem heap), hprinted, haddresses⟩

theorem exactOn_fails_on_name :
    ¬ ∀ (device : Device) (blocks : List DcpBlock),
      (encodeBlocks blocks).length ≤ 65535 → ExactOn device blocks := by
  intro h
  have hname := h emptyDevice
    [⟨pfDcpOptDeviceProperties, pfDcpSubDevPropName, 0, [65], by decide,
      by decide⟩] (by decide) fun _ => 0
  obtain ⟨s, hs, hexact⟩ := hname
  have hprinted := hexact.printed
  have heq := congrArg (Option.map ParserState.printed) hs
  rw [Option.map_some, hprinted] at heq
  revert heq
  decide

end ProfinetIo
