import ProfinetIo.ProfinetHeader
import ProfinetIo.WhileLoop
import Mathlib.Tactic

/-!
# The DCP block parser

`extract_blocks_from_packet` copies the payload and walks it with two
cursors: the pointer `pl`, which decides what is read, and the index `i`,
which decides when to stop.  The state below keeps both, the device record
being filled, and what the walk does to the outside: the offsets read
through `pl`, the block headers it acts on, and the bytes it prints one by
one.  Offsets count from the start of the copy; memory past the copy is
whatever the heap holds.
-/

namespace ProfinetIo

open ByteMemory WhileLoop

structure ParserState where
  i : ℕ
  pl : ℕ
  device : Device
  reads : List ℕ
  headers : List (ℕ × Block)
  printed : List (List UInt8)

namespace ParserState

def initial (device : Device) : ParserState :=
  ⟨0, 0, device, [], [], []⟩

def readAt (indices : List ℕ) (s : ParserState) : ParserState :=
  { s with reads := s.reads ++ indices.map (s.pl + ·) }

/-- `i=i+b.block_length+4`. -/
def advance (b : Block) (s : ParserState) : ParserState :=
  { s with i := s.i + b.blockLength + 4 }

/-- The character loop of the vendor and name branches: `j` runs from 6 to
`block_length+5` inclusive. -/
def printBytes (mem : Memory) (b : Block) (s : ParserState) : ParserState :=
  { s.readAt (List.range' 6 b.blockLength) with
    printed := s.printed ++ [slice mem (s.pl + 6) b.blockLength] }

def copyAddresses (mem : Memory) (s : ParserState) : ParserState :=
  { s.readAt (List.range' 6 12) with
    device := { s.device with
      ip := Octets.ofMemory mem (s.pl + 6) 4
      subnet := Octets.ofMemory mem (s.pl + 10) 4
      gateway := Octets.ofMemory mem (s.pl + 14) 4 } }

end ParserState

/-- `((uint16_t)(pl[2])<<8)|(uint16_t)pl[3]`, with `pl` a pointer to plain
`char`. -/
def charLength (high low : UInt8) : ℕ :=
  (charToUint16 high <<< 8) ||| charToUint16 low

/-- `(uint16_t)(pl[4]<<8)|(uint16_t)pl[5]`. -/
def charInfo (high low : UInt8) : ℕ :=
  ((charToInt high * 256) % 65536).toNat ||| charToUint16 low

/-- The header fields assembled at the top of every pass. -/
def decodeHeader (mem : Memory) (pl : ℕ) : Block where
  option := mem pl
  suboption := mem (pl + 1)
  blockLength := charLength (mem (pl + 2)) (mem (pl + 3))
  blockInfo := charInfo (mem (pl + 4)) (mem (pl + 5))

def optIp (mem : Memory) (b : Block) (s : ParserState) : ParserState :=
  if b.suboption = pfDcpSubIpMac then s.advance b
  else if b.suboption = pfDcpSubIpPar then (s.advance b).copyAddresses mem
  else if b.suboption = pfDcpSubIpSuite then s.advance b
  else s

def optDeviceProperties (mem : Memory) (b : Block) (s : ParserState) :
    ParserState :=
  if b.suboption = pfDcpSubDevPropVendor then (s.printBytes mem b).advance b
  else if b.suboption = pfDcpSubDevPropName then (s.printBytes mem b).advance b
  else if b.suboption = pfDcpSubDevPropId then
    (s.readAt (List.range' 6 4)).advance b
  else if b.suboption = pfDcpSubDevPropRole then (s.readAt [6]).advance b
  else if b.suboption = pfDcpSubDevPropOptions then s
  else s

def optControl (b : Block) (s : ParserState) : ParserState :=
  if b.suboption = pfDcpSubControlStart then s.advance b
  else if b.suboption = pfDcpSubControlStop then s.advance b
  else if b.suboption = pfDcpSubControlSignal then s.advance b
  else if b.suboption = pfDcpSubControlResponse then s.advance b
  else if b.suboption = pfDcpSubControlFactoryReset then s.advance b
  else s

def dispatch (mem : Memory) (b : Block) (s : ParserState) : ParserState :=
  if b.option = pfDcpOptReserved0 then { s with i := s.i + b.blockLength }
  else if b.option = pfDcpOptIp then optIp mem b s
  else if b.option = pfDcpOptDeviceProperties then optDeviceProperties mem b s
  else if b.option = pfDcpOptDhcp then s.advance b
  else if b.option = pfDcpOptReserved4 then s.advance b
  else if b.option = pfDcpOptControl then optControl b s
  else if b.option = pfDcpOptDeviceInitiative then s.advance b
  else s

/-- One pass of the `for` loop, its increment included. -/
def extractPass (mem : Memory) (s : ParserState) : ParserState :=
  let b := decodeHeader mem s.pl
  let s := s.readAt (List.range 6)
  if b.option ≠ 0 then
    let s := dispatch mem b { s with headers := s.headers ++ [(s.pl, b)] }
    { s with pl := s.pl + (b.blockLength + 4), i := s.i + 1 }
  else
    { s with pl := s.pl + 1, i := s.i + 1 + 1 }

def extractRunning (length : ℕ) (s : ParserState) : Bool :=
  decide (s.i < length)

/-- The copy of the payload, followed by the rest of the heap. -/
def payloadCopy (payload : List UInt8) (heap : Memory) : Memory :=
  store heap 0 payload

/-- `extract_blocks_from_packet` on a payload of `length` bytes.  The result
is `none` only if `length` passes do not end the loop. -/
def extractBlocksFromPacket
    (payload : List UInt8) (device : Device) (heap : Memory) :
    Option ParserState :=
  whileFuel (extractRunning payload.length)
    (extractPass (payloadCopy payload heap))
    payload.length (ParserState.initial device)

/-! ## The decoded length -/

theorem charLength_of_lt
    {high low : UInt8} (hhigh : high.toNat < 128) (hlow : low.toNat < 128) :
    charLength high low = high.toNat * 256 + low.toNat := by
  unfold charLength
  rw [charToUint16_of_lt hhigh, charToUint16_of_lt hlow,
    ← Nat.shiftLeft_add_eq_or_of_lt (by omega), Nat.shiftLeft_eq]

theorem charLength_ge_of_low
    {high low : UInt8} (hlow : 128 ≤ low.toNat) :
    65408 ≤ charLength high low := by
  have hle : charToUint16 low ≤ charLength high low := Nat.right_le_or
  rw [charToUint16_of_ge hlow] at hle
  omega

theorem charLength_ge_of_high
    {high low : UInt8} (hhigh : 128 ≤ high.toNat) :
    16744448 ≤ charLength high low := by
  have hle : charToUint16 high <<< 8 ≤ charLength high low := Nat.left_le_or
  rw [charToUint16_of_ge hhigh, Nat.shiftLeft_eq] at hle
  omega

/-- The decoder gives back a length, or that length plus a shift below 128,
only when both length bytes are below 128. -/
theorem charLength_bigEndian_iff
    {value shift : ℕ} (hvalue : value < 65536) (hshift : shift < 128) :
    charLength (UInt8.ofNat (value / 256)) (UInt8.ofNat value) =
        value + shift ↔
      shift = 0 ∧ value / 256 < 128 ∧ value % 256 < 128 := by
  have hhigh : (UInt8.ofNat (value / 256)).toNat = value / 256 := by
    simp only [UInt8.toNat_ofNat']
    omega
  have hlow : (UInt8.ofNat value).toNat = value % 256 := by
    simp only [UInt8.toNat_ofNat']
  by_cases h1 : value / 256 < 128
  · by_cases h2 : value % 256 < 128
    · rw [charLength_of_lt (by omega) (by omega), hhigh, hlow]
      omega
    · have hge : 65408 ≤ charLength (UInt8.ofNat (value / 256))
          (UInt8.ofNat value) := charLength_ge_of_low (by omega)
      omega
  · have hge : 16744448 ≤ charLength (UInt8.ofNat (value / 256))
        (UInt8.ofNat value) := charLength_ge_of_high (by omega)
    omega

/-! ## One pass -/

/-- What a branch of the switch does, as far as the walk is concerned. -/
inductive BlockKind where
  | plain
  | silent
  | ipPar
  | text
  | id
  | role
  deriving DecidableEq, Repr

def blockKind (option suboption : UInt8) : BlockKind :=
  if option = pfDcpOptIp then
    if suboption = pfDcpSubIpPar then .ipPar
    else if suboption = pfDcpSubIpMac ∨ suboption = pfDcpSubIpSuite then .plain
    else .silent
  else if option = pfDcpOptDeviceProperties then
    if suboption = pfDcpSubDevPropVendor ∨ suboption = pfDcpSubDevPropName then
      .text
    else if suboption = pfDcpSubDevPropId then .id
    else if suboption = pfDcpSubDevPropRole then .role
    else .silent
  else if option = pfDcpOptControl then
    if suboption = pfDcpSubControlStart ∨ suboption = pfDcpSubControlStop ∨
        suboption = pfDcpSubControlSignal ∨
        suboption = pfDcpSubControlResponse ∨
        suboption = pfDcpSubControlFactoryReset then .plain
    else .silent
  else if option = pfDcpOptDhcp ∨ option = pfDcpOptReserved4 ∨
      option = pfDcpOptDeviceInitiative then .plain
  else .silent

def Block.kind (b : Block) : BlockKind := blockKind b.option b.suboption

def Block.branchReads (b : Block) : List ℕ :=
  match b.kind with
  | .ipPar => List.range' 6 12
  | .text => List.range' 6 b.blockLength
  | .id => List.range' 6 4
  | .role => [6]
  | .plain | .silent => []

def Block.branchMove (b : Block) : ℕ :=
  if b.kind = .silent then 0 else b.blockLength + 4

def ParserState.branch (mem : Memory) (b : Block) (s : ParserState) :
    ParserState where
  i := s.i + b.branchMove
  pl := s.pl
  device := if b.kind = .ipPar then (s.copyAddresses mem).device else s.device
  reads := s.reads ++ b.branchReads.map (s.pl + ·)
  headers := s.headers
  printed := s.printed ++
    if b.kind = .text then [slice mem (s.pl + 6) b.blockLength] else []

theorem advance_eq_branch
    {mem : Memory} {b : Block} (hkind : b.kind = .plain) (s : ParserState) :
    s.advance b = s.branch mem b := by
  simp [ParserState.branch, ParserState.advance, Block.branchMove,
    Block.branchReads, hkind, Nat.add_assoc]

theorem silent_eq_branch
    {mem : Memory} {b : Block} (hkind : b.kind = .silent) (s : ParserState) :
    s = s.branch mem b := by
  simp [ParserState.branch, Block.branchMove, Block.branchReads, hkind]

theorem readAt_advance_eq_branch
    {mem : Memory} {b : Block} (hkind : b.kind = .id ∨ b.kind = .role)
    (s : ParserState) :
    (s.readAt b.branchReads).advance b = s.branch mem b := by
  rcases hkind with hkind | hkind
  · simp [ParserState.branch, ParserState.advance, ParserState.readAt,
      Block.branchMove, hkind, Nat.add_assoc]
  · simp [ParserState.branch, ParserState.advance, ParserState.readAt,
      Block.branchMove, hkind, Nat.add_assoc]

theorem printBytes_advance_eq_branch
    {mem : Memory} {b : Block} (hkind : b.kind = .text) (s : ParserState) :
    (s.printBytes mem b).advance b = s.branch mem b := by
  simp [ParserState.branch, ParserState.advance, ParserState.printBytes,
    ParserState.readAt, Block.branchMove, Block.branchReads, hkind,
    Nat.add_assoc]

theorem copyAddresses_eq_branch
    {mem : Memory} {b : Block} (hkind : b.kind = .ipPar) (s : ParserState) :
    (s.advance b).copyAddresses mem = s.branch mem b := by
  simp [ParserState.branch, ParserState.advance, ParserState.copyAddresses,
    ParserState.readAt, Block.branchMove, Block.branchReads, hkind,
    Nat.add_assoc]

theorem optIp_eq_branch
    {mem : Memory} {b : Block} (h : b.option = pfDcpOptIp) (s : ParserState) :
    optIp mem b s = s.branch mem b := by
  unfold optIp
  split_ifs with hmac hpar hsuite
  · apply advance_eq_branch
    simp [Block.kind, blockKind, h, hmac, pfDcpSubIpMac, pfDcpSubIpPar]
  · apply copyAddresses_eq_branch
    simp [Block.kind, blockKind, h, hpar]
  · apply advance_eq_branch
    simp [Block.kind, blockKind, h, hsuite, pfDcpSubIpSuite, pfDcpSubIpPar]
  · apply silent_eq_branch
    simp [Block.kind, blockKind, h, hmac, hpar, hsuite]

theorem optDeviceProperties_eq_branch
    {mem : Memory} {b : Block} (h : b.option = pfDcpOptDeviceProperties)
    (s : ParserState) :
    optDeviceProperties mem b s = s.branch mem b := by
  have hip : ¬ b.option = pfDcpOptIp := by rw [h]; decide
  unfold optDeviceProperties
  split_ifs with hvendor hname hid hrole hoptions
  · apply printBytes_advance_eq_branch
    simp only [Block.kind, blockKind, if_neg hip, if_pos h,
      if_pos (Or.inl hvendor)]
  · apply printBytes_advance_eq_branch
    simp only [Block.kind, blockKind, if_neg hip, if_pos h,
      if_pos (Or.inr hname)]
  · have hkind : b.kind = .id := by
      rw [Block.kind, h, hid]
      decide
    have hreads : b.branchReads = List.range' 6 4 := by
      simp [Block.branchReads, hkind]
    rw [← hreads]
    exact readAt_advance_eq_branch (Or.inl hkind) s
  · have hkind : b.kind = .role := by
      rw [Block.kind, h, hrole]
      decide
    have hreads : b.branchReads = [6] := by
      simp [Block.branchReads, hkind]
    rw [← hreads]
    exact readAt_advance_eq_branch (Or.inr hkind) s
  all_goals
    apply silent_eq_branch
    simp only [Block.kind, blockKind, if_neg hip, if_pos h, hvendor, hname,
      hid, hrole, or_self, if_false]

theorem optControl_eq_branch
    {mem : Memory} {b : Block} (h : b.option = pfDcpOptControl)
    (s : ParserState) :
    optControl b s = s.branch mem b := by
  have hip : ¬ b.option = pfDcpOptIp := by rw [h]; decide
  have hprops : ¬ b.option = pfDcpOptDeviceProperties := by rw [h]; decide
  have hplain
      (hsub : b.suboption = pfDcpSubControlStart ∨
        b.suboption = pfDcpSubControlStop ∨
        b.suboption = pfDcpSubControlSignal ∨
        b.suboption = pfDcpSubControlResponse ∨
        b.suboption = pfDcpSubControlFactoryReset) :
      s.advance b = s.branch mem b := by
    apply advance_eq_branch
    simp only [Block.kind, blockKind, if_neg hip, if_neg hprops, if_pos h,
      if_pos hsub]
  unfold optControl
  split_ifs with hstart hstop hsignal hresponse hreset
  · exact hplain (Or.inl hstart)
  · exact hplain (Or.inr (Or.inl hstop))
  · exact hplain (Or.inr (Or.inr (Or.inl hsignal)))
  · exact hplain (Or.inr (Or.inr (Or.inr (Or.inl hresponse))))
  · exact hplain (Or.inr (Or.inr (Or.inr (Or.inr hreset))))
  · apply silent_eq_branch
    simp only [Block.kind, blockKind, if_neg hip, if_neg hprops, if_pos h,
      hstart, hstop, hsignal, hresponse, hreset, or_self, if_false]

theorem dispatch_eq_branch
    {mem : Memory} {b : Block} (h : b.option ≠ 0) (s : ParserState) :
    dispatch mem b s = s.branch mem b := by
  have hreserved : ¬ b.option = pfDcpOptReserved0 := h
  unfold dispatch
  rw [if_neg hreserved]
  split_ifs with hip hprops hdhcp hres4 hcontrol hinit
  · exact optIp_eq_branch hip s
  · exact optDeviceProperties_eq_branch hprops s
  · apply advance_eq_branch
    have hc : ¬ b.option = pfDcpOptControl := by rw [hdhcp]; decide
    simp only [Block.kind, blockKind, if_neg hip, if_neg hprops, if_neg hc,
      if_pos (Or.inl hdhcp)]
  · apply advance_eq_branch
    have hc : ¬ b.option = pfDcpOptControl := by rw [hres4]; decide
    simp only [Block.kind, blockKind, if_neg hip, if_neg hprops, if_neg hc,
      if_pos (Or.inr (Or.inl hres4))]
  · exact optControl_eq_branch hcontrol s
  · apply advance_eq_branch
    simp only [Block.kind, blockKind, if_neg hip, if_neg hprops,
      if_neg hcontrol, if_pos (Or.inr (Or.inr hinit))]
  · apply silent_eq_branch
    simp [Block.kind, blockKind, hip, hprops, hdhcp, hres4, hcontrol, hinit]

theorem extractPass_of_block
    {mem : Memory} {s : ParserState} (h : mem s.pl ≠ 0) :
    extractPass mem s =
      let b := decodeHeader mem s.pl
      { i := s.i + b.branchMove + 1
        pl := s.pl + (b.blockLength + 4)
        device :=
          if b.kind = .ipPar then (s.copyAddresses mem).device else s.device
        reads := s.reads ++ (List.range 6 ++ b.branchReads).map (s.pl + ·)
        headers := s.headers ++ [(s.pl, b)]
        printed := s.printed ++
          if b.kind = .text then [slice mem (s.pl + 6) b.blockLength]
          else [] } := by
  have hoption : (decodeHeader mem s.pl).option ≠ 0 := h
  simp only [extractPass, if_pos hoption, dispatch_eq_branch hoption]
  simp [ParserState.branch, ParserState.readAt, ParserState.copyAddresses,
    List.append_assoc]

theorem extractPass_of_padding
    {mem : Memory} {s : ParserState} (h : mem s.pl = 0) :
    extractPass mem s =
      { s with
        i := s.i + 2
        pl := s.pl + 1
        reads := s.reads ++ (List.range 6).map (s.pl + ·) } := by
  have hoption : ¬ (decodeHeader mem s.pl).option ≠ 0 := by
    simpa [decodeHeader] using h
  simp only [extractPass, if_neg hoption, ParserState.readAt]

theorem extractPass_i_lt (mem : Memory) (s : ParserState) :
    s.i < (extractPass mem s).i := by
  by_cases h : mem s.pl = 0
  · rw [extractPass_of_padding h]
    simp
  · rw [extractPass_of_block h]
    simp only
    omega

theorem extractBlocksFromPacket_total
    (payload : List UInt8) (device : Device) (heap : Memory) :
    ∃ s, extractBlocksFromPacket payload device heap = some s := by
  apply whileFuel_total_of_rank fun s => payload.length - s.i
  · intro s hrunning
    have hlt := extractPass_i_lt (payloadCopy payload heap) s
    simp only [extractRunning, decide_eq_true_eq] at hrunning
    omega
  · exact Nat.sub_le _ _

end ProfinetIo
