import ProfinetIo.DcpBlocks
import Mathlib.Tactic

/-!
# The block writer

The writers of `prepareBlock.c` share a buffer pointer and a 16-bit position.
Each of them makes its own room check and skips silently when it fails:
`pf_put_byte` asks for one byte, `pf_put_mem` for one byte more than it
copies, and `pf_dcp_put_block` for the value without the header.  The padding
loop repeats a `pf_put_byte` that may have no room left, in which case it does
not return.
-/

namespace ProfinetIo

open ByteMemory WhileLoop

/-- The buffer behind `p_bytes`, `none` for a null pointer, and `*p_pos`. -/
structure PutState where
  bytes : Option Memory
  pos : ℕ

def pfPutByte (val : UInt8) (resLen : ℕ) (s : PutState) : PutState :=
  match if resLen ≤ s.pos then none else s.bytes with
  | none => s
  | some bytes =>
      { bytes := some (store bytes s.pos [val]), pos := (s.pos + 1) % 65536 }

def pfPutMem (src : Memory) (srcSize resLen : ℕ) (s : PutState) : PutState :=
  match if resLen ≤ s.pos + srcSize then none else s.bytes with
  | none => s
  | some bytes =>
      { bytes := some (store bytes s.pos (slice src 0 srcSize))
        pos := (s.pos + srcSize) % 65536 }

def pfPutUint16 (isBigEndian : Bool) (val resLen : ℕ) (s : PutState) :
    PutState :=
  if isBigEndian then
    pfPutByte (UInt8.ofNat val) resLen
      (pfPutByte (UInt8.ofNat (val / 256)) resLen s)
  else
    pfPutByte (UInt8.ofNat (val / 256)) resLen
      (pfPutByte (UInt8.ofNat val) resLen s)

def pfPutUint32 (isBigEndian : Bool) (val resLen : ℕ) (s : PutState) :
    PutState :=
  if isBigEndian then
    let s := pfPutByte (UInt8.ofNat (val / 16777216)) resLen s
    let s := pfPutByte (UInt8.ofNat (val / 65536)) resLen s
    let s := pfPutByte (UInt8.ofNat (val / 256)) resLen s
    pfPutByte (UInt8.ofNat val) resLen s
  else
    let s := pfPutByte (UInt8.ofNat val) resLen s
    let s := pfPutByte (UInt8.ofNat (val / 256)) resLen s
    let s := pfPutByte (UInt8.ofNat (val / 65536)) resLen s
    pfPutByte (UInt8.ofNat (val / 16777216)) resLen s

def putHeaderAndValue (dstMax : ℕ) (opt sub : UInt8) (valueLength : ℕ)
    (value : Option Memory) (s : PutState) : PutState :=
  let bLen := valueLength
  let s := pfPutByte opt dstMax s
  let s := pfPutByte sub dstMax s
  let s := pfPutUint16 true bLen dstMax s
  match value with
  | none => s
  | some src => if 0 < valueLength then pfPutMem src valueLength dstMax s else s

/-- `while ((*p_dst_pos) & 1)`. -/
def padToEven (dstMax fuel : ℕ) (s : PutState) : Option PutState :=
  whileFuel (fun s => decide (s.pos % 2 = 1)) (pfPutByte 0 dstMax) fuel s

/-- `pf_dcp_put_block` with its return value.  Neither `with_block_info` nor
`block_info` is used. -/
def pfDcpPutBlock (fuel dstMax : ℕ) (opt sub : UInt8) (_withBlockInfo : Bool)
    (_blockInfo : UInt16) (valueLength : ℕ) (value : Option Memory)
    (s : PutState) : Option (ℤ × PutState) :=
  if s.pos + valueLength < dstMax then
    (padToEven dstMax fuel
      (putHeaderAndValue dstMax opt sub valueLength value s)).map fun s => (0, s)
  else
    some (0, s)

/-! ## The single writers -/

theorem pfPutByte_of_null (val : UInt8) (resLen pos : ℕ) :
    pfPutByte val resLen ⟨none, pos⟩ = ⟨none, pos⟩ := by
  simp [pfPutByte]

theorem pfPutMem_of_null (src : Memory) (srcSize resLen pos : ℕ) :
    pfPutMem src srcSize resLen ⟨none, pos⟩ = ⟨none, pos⟩ := by
  simp [pfPutMem]

section Writers

variable {bytes : Memory} {pos resLen : ℕ}

theorem pfPutByte_of_room
    (hpos : pos < resLen) (hres : resLen < 65536) (val : UInt8) :
    pfPutByte val resLen ⟨some bytes, pos⟩ =
      ⟨some (store bytes pos [val]), pos + 1⟩ := by
  simp only [pfPutByte, if_neg (Nat.not_le.mpr hpos)]
  rw [Nat.mod_eq_of_lt (by omega)]

theorem pfPutByte_of_full
    (hpos : resLen ≤ pos) (val : UInt8) :
    pfPutByte val resLen ⟨some bytes, pos⟩ = ⟨some bytes, pos⟩ := by
  simp only [pfPutByte, if_pos hpos]

theorem pfPutMem_of_room
    {srcSize : ℕ} (hpos : pos + srcSize < resLen) (hres : resLen < 65536)
    (src : Memory) :
    pfPutMem src srcSize resLen ⟨some bytes, pos⟩ =
      ⟨some (store bytes pos (slice src 0 srcSize)), pos + srcSize⟩ := by
  simp only [pfPutMem, if_neg (Nat.not_le.mpr hpos)]
  rw [Nat.mod_eq_of_lt (by omega)]

theorem pfPutMem_of_full
    {srcSize : ℕ} (hpos : resLen ≤ pos + srcSize) (src : Memory) :
    pfPutMem src srcSize resLen ⟨some bytes, pos⟩ = ⟨some bytes, pos⟩ := by
  simp only [pfPutMem, if_pos hpos]

/-- A run of single-byte writes keeps what there is room for. -/
theorem foldl_pfPutByte
    (hpos : pos ≤ resLen) (hres : resLen < 65536) (vals : List UInt8) :
    vals.foldl (fun s val => pfPutByte val resLen s) ⟨some bytes, pos⟩ =
      ⟨some (store bytes pos (vals.take (resLen - pos))),
        pos + min vals.length (resLen - pos)⟩ := by
  induction vals generalizing bytes pos with
  | nil => simp
  | cons val vals ih =>
      rw [List.foldl_cons]
      by_cases hroom : pos < resLen
      · have htake : (val :: vals).take (resLen - pos) =
            [val] ++ vals.take (resLen - (pos + 1)) := by
          rw [show resLen - pos = resLen - (pos + 1) + 1 by omega]
          simp
        have hstore := store_append bytes pos [val]
          (vals.take (resLen - (pos + 1)))
        rw [pfPutByte_of_room hroom hres, ih (by omega), htake, ← hstore]
        simp only [List.length_cons, List.length_nil, PutState.mk.injEq,
          Nat.zero_add, true_and]
        omega
      · have hzero : resLen - pos = 0 := by omega
        rw [pfPutByte_of_full (by omega), ih hpos, hzero]
        simp

end Writers

/-! ## The whole block -/

def blockHeader (opt sub : UInt8) (valueLength : ℕ) : List UInt8 :=
  opt :: sub :: bigEndian 2 valueLength

@[simp] theorem blockHeader_length (opt sub : UInt8) (valueLength : ℕ) :
    (blockHeader opt sub valueLength).length = 4 := by
  simp [blockHeader]

def valueBytes (valueLength : ℕ) : Option Memory → List UInt8
  | none => []
  | some src => slice src 0 valueLength

section Block

variable {bytes : Memory} {pos dstMax valueLength fuel : ℕ} {opt sub : UInt8}
  {withBlockInfo : Bool} {blockInfo : UInt16} {value : Option Memory}

theorem putHeaderAndValue_eq (s : PutState) :
    putHeaderAndValue dstMax opt sub valueLength value s =
      match value with
      | none =>
          (blockHeader opt sub valueLength).foldl
            (fun s val => pfPutByte val dstMax s) s
      | some src =>
          if 0 < valueLength then
            pfPutMem src valueLength dstMax
              ((blockHeader opt sub valueLength).foldl
                (fun s val => pfPutByte val dstMax s) s)
          else
            (blockHeader opt sub valueLength).foldl
              (fun s val => pfPutByte val dstMax s) s := by
  simp [putHeaderAndValue, pfPutUint16, blockHeader, bigEndian]

theorem putHeaderAndValue_of_no_header
    (hpos : pos ≤ dstMax) (hmax : dstMax < 65536) (hroom : dstMax < pos + 4) :
    putHeaderAndValue dstMax opt sub valueLength value ⟨some bytes, pos⟩ =
      ⟨some (store bytes pos
        ((blockHeader opt sub valueLength).take (dstMax - pos))), dstMax⟩ := by
  have hheader := @foldl_pfPutByte bytes pos dstMax hpos hmax
    (blockHeader opt sub valueLength)
  have hend : pos + min (blockHeader opt sub valueLength).length (dstMax - pos)
      = dstMax := by
    rw [blockHeader_length]
    omega
  rw [hend] at hheader
  rw [putHeaderAndValue_eq, hheader]
  cases value with
  | none => rfl
  | some src =>
      simp only
      split_ifs with hvalue
      · exact pfPutMem_of_full (by omega) src
      · rfl

def writtenBytes (pos dstMax valueLength : ℕ) (value : Option Memory) :
    List UInt8 :=
  if pos + 4 + valueLength < dstMax then valueBytes valueLength value else []

theorem putHeaderAndValue_of_header
    (hmax : dstMax < 65536) (hroom : pos + 4 ≤ dstMax) :
    putHeaderAndValue dstMax opt sub valueLength value ⟨some bytes, pos⟩ =
      ⟨some (store bytes pos (blockHeader opt sub valueLength ++
          writtenBytes pos dstMax valueLength value)),
        pos + 4 + (writtenBytes pos dstMax valueLength value).length⟩ := by
  have hheader := @foldl_pfPutByte bytes pos dstMax (by omega) hmax
    (blockHeader opt sub valueLength)
  rw [List.take_of_length_le (by rw [blockHeader_length]; omega),
    blockHeader_length, Nat.min_eq_left (by omega)] at hheader
  rw [putHeaderAndValue_eq, hheader, ← store_append, blockHeader_length]
  cases value with
  | none => simp [writtenBytes, valueBytes]
  | some src =>
      simp only [writtenBytes, valueBytes]
      by_cases hvalue : 0 < valueLength
      · rw [if_pos hvalue]
        by_cases hfits : pos + 4 + valueLength < dstMax
        · rw [if_pos hfits, pfPutMem_of_room hfits hmax, slice_length]
        · rw [if_neg hfits, pfPutMem_of_full (by omega)]
          simp
      · have hzero : valueLength = 0 := by omega
        simp [hzero]

theorem padToEven_of_even
    {s : PutState} (h : s.pos % 2 = 0) : padToEven dstMax fuel s = some s :=
  whileFuel_of_stopped (by simp [h]) fuel

theorem padToEven_of_room
    (hodd : pos % 2 = 1) (hroom : pos < dstMax) (hmax : dstMax < 65536)
    (hfuel : 0 < fuel) :
    padToEven dstMax fuel ⟨some bytes, pos⟩ =
      some ⟨some (store bytes pos [0]), pos + 1⟩ := by
  obtain ⟨extra, rfl⟩ : ∃ extra, fuel = extra + 1 := ⟨fuel - 1, by omega⟩
  unfold padToEven
  rw [whileFuel_succ_of_running (by simp [hodd]),
    pfPutByte_of_room hroom hmax]
  exact whileFuel_of_stopped (by simp; omega) extra

/-- At an odd position with no room the padding loop spins for ever. -/
theorem padToEven_of_full
    (hodd : pos % 2 = 1) (hfull : dstMax ≤ pos) (fuel : ℕ) :
    padToEven dstMax fuel ⟨some bytes, pos⟩ = none := by
  cases hpadded : padToEven dstMax fuel ⟨some bytes, pos⟩ with
  | none => rfl
  | some after =>
      refine absurd ⟨fuel, hpadded⟩ (not_returns_of_stuck ?_ ?_)
      · simp [hodd]
      · exact pfPutByte_of_full hfull 0

theorem pfDcpPutBlock_of_enter
    (h : pos + valueLength < dstMax) :
    pfDcpPutBlock fuel dstMax opt sub withBlockInfo blockInfo valueLength value
        ⟨some bytes, pos⟩ =
      (padToEven dstMax fuel (putHeaderAndValue dstMax opt sub valueLength
        value ⟨some bytes, pos⟩)).map fun s => (0, s) := by
  rw [pfDcpPutBlock, if_pos h]

theorem pfDcpPutBlock_of_skip
    {s : PutState} (h : dstMax ≤ s.pos + valueLength) :
    pfDcpPutBlock fuel dstMax opt sub withBlockInfo blockInfo valueLength value
        s = some (0, s) := by
  rw [pfDcpPutBlock, if_neg (by omega)]

theorem pfDcpPutBlock_mono
    {fuel' : ℕ} {s : PutState} {result : ℤ × PutState} (hle : fuel ≤ fuel')
    (h : pfDcpPutBlock fuel dstMax opt sub withBlockInfo blockInfo valueLength
      value s = some result) :
    pfDcpPutBlock fuel' dstMax opt sub withBlockInfo blockInfo valueLength value
      s = some result := by
  unfold pfDcpPutBlock at h ⊢
  split_ifs at h ⊢ with henter
  · obtain ⟨padded, hpadded, hresult⟩ := Option.map_eq_some_iff.mp h
    have hmono : padToEven dstMax fuel' _ = some padded :=
      whileFuel_mono hle hpadded
    rw [hmono, Option.map_some, hresult]
  · exact h

theorem padToEven_keeps_bytes
    {start len : ℕ} {after : PutState} (hmax : dstMax < 65536)
    (hbehind : start + len ≤ pos)
    (h : padToEven dstMax fuel ⟨some bytes, pos⟩ = some after) :
    ∃ bytes', after.bytes = some bytes' ∧
      slice bytes' start len = slice bytes start len := by
  have hkept := Returns.invariant
    (fun s => start + len ≤ s.pos ∧ ∃ bytes', s.bytes = some bytes' ∧
      slice bytes' start len = slice bytes start len) ?_
    ⟨hbehind, bytes, rfl, rfl⟩ ⟨fuel, h⟩
  · exact hkept.2
  · rintro ⟨current, at'⟩ - ⟨hat, bytes', hcurrent, hslice⟩
    simp only at hcurrent
    subst hcurrent
    by_cases hroom : at' < dstMax
    · rw [pfPutByte_of_room hroom hmax]
      refine ⟨by simp only at hat ⊢; omega, _, rfl, ?_⟩
      rw [slice_store_disjoint (by simp only at hat; omega), hslice]
    · rw [pfPutByte_of_full (by omega)]
      exact ⟨hat, bytes', rfl, hslice⟩

theorem pfDcpPutBlock_header
    {ret : ℤ} {after : PutState} (hmax : dstMax < 65536)
    (hroom : pos + 4 ≤ dstMax) (henter : pos + valueLength < dstMax)
    (h : pfDcpPutBlock fuel dstMax opt sub withBlockInfo blockInfo valueLength
      value ⟨some bytes, pos⟩ = some (ret, after)) :
    ∃ bytes', after.bytes = some bytes' ∧
      slice bytes' pos 4 = blockHeader opt sub valueLength := by
  rw [pfDcpPutBlock_of_enter henter, putHeaderAndValue_of_header hmax hroom] at h
  obtain ⟨padded, hpadded, hresult⟩ := Option.map_eq_some_iff.mp h
  cases hresult
  obtain ⟨bytes', hbytes', hslice⟩ := padToEven_keeps_bytes hmax
    (Nat.le_add_right (pos + 4) _) hpadded
  refine ⟨bytes', hbytes', ?_⟩
  have hheader := @slice_store_within bytes pos 0 4 (blockHeader opt sub
    valueLength ++ writtenBytes pos dstMax valueLength value) (by simp)
  rw [hslice]
  simpa [List.take_append_of_le_length] using hheader

end Block

end ProfinetIo
