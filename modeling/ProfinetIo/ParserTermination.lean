import ProfinetIo.CStrings
import ProfinetIo.ExtractBlocks
import Mathlib.Tactic

/-!
# The parser on hostile payloads

The parser computes `block_length` and `i` in `int`.  Sign extension makes a
length byte worth up to 65535, so that a decoded length needs 24 bits, and the
sums it enters still fit.  The exact numbers of the model are therefore the
ones the program computes, `i` grows in every pass, and the loop ends after at
most as many passes as the payload has bytes.
-/

namespace ProfinetIo

open ByteMemory CStrings WhileLoop

/-! ## The decoded length in `int` -/

/-- `(uint16_t)pl[k]`, promoted to `int`. -/
def promotedChar (byte : UInt8) : BitVec 32 :=
  BitVec.ofInt 32 (charToInt byte % 65536)

/-- `(int)(((uint16_t)(pl[2])<<8)|(uint16_t)pl[3])` on 32 bits. -/
def blockLengthInt (high low : UInt8) : BitVec 32 :=
  promotedChar high <<< 8 ||| promotedChar low

theorem charToUint16_lt (byte : UInt8) : charToUint16 byte < 65536 := by
  unfold charToUint16
  omega

theorem charLength_lt (high low : UInt8) :
    charLength high low < 16777216 := by
  have hhigh := charToUint16_lt high
  have hlow := charToUint16_lt low
  unfold charLength
  apply @Nat.or_lt_two_pow _ _ 24
  · rw [Nat.shiftLeft_eq]
    omega
  · omega

theorem promotedChar_toNat (byte : UInt8) :
    (promotedChar byte).toNat = charToUint16 byte := by
  have hlt := charToUint16_lt byte
  have hcast : charToInt byte % 65536 = (charToUint16 byte : ℤ) := by
    unfold charToUint16
    omega
  rw [promotedChar, hcast, BitVec.ofInt_natCast, BitVec.toNat_ofNat,
    Nat.mod_eq_of_lt (by omega)]

theorem blockLengthInt_toInt (high low : UInt8) :
    (blockLengthInt high low).toInt = charLength high low := by
  have hhigh := charToUint16_lt high
  have hlt := charLength_lt high low
  have hshift : (promotedChar high <<< 8).toNat =
      charToUint16 high <<< 8 := by
    rw [BitVec.toNat_shiftLeft, promotedChar_toNat, Nat.mod_eq_of_lt]
    rw [Nat.shiftLeft_eq]
    omega
  have hnat : (blockLengthInt high low).toNat = charLength high low := by
    rw [blockLengthInt, BitVec.toNat_or, hshift, promotedChar_toNat,
      charLength]
  rw [BitVec.toInt_eq_toNat_of_lt (by rw [hnat]; omega), hnat]

/-- The values on the way to `block_length`, without wrapping. -/
def lengthInts (high low : UInt8) : List ℤ :=
  [charToUint16 high, (charToUint16 high <<< 8 : ℕ), charToUint16 low,
    charLength high low]

theorem lengthInts_fit (high low : UInt8) :
    ∀ value ∈ lengthInts high low, FitsInt value := by
  have hhigh := charToUint16_lt high
  have hlow := charToUint16_lt low
  have hlt := charLength_lt high low
  simp only [lengthInts, Nat.shiftLeft_eq, List.mem_cons, List.not_mem_nil,
    or_false, forall_eq_or_imp, forall_eq, FitsInt]
  omega

/-! ## The index in `int` -/

/-- The values `i` and the sums on the way to it take during a pass, without
wrapping; the last one is the increment of the `for` loop. -/
def indexInts (mem : Memory) (s : ParserState) : List ℤ :=
  let b := decodeHeader mem s.pl
  if b.option = 0 then [s.i + 1, s.i + 1 + 1]
  else if b.kind = .silent then [s.i + 1]
  else [s.i + b.blockLength, s.i + b.blockLength + 4,
    s.i + b.blockLength + 4 + 1]

theorem indexInts_getLast (mem : Memory) (s : ParserState) :
    (indexInts mem s).getLast? = some ((extractPass mem s).i : ℤ) := by
  unfold indexInts
  by_cases h : mem s.pl = 0
  · rw [extractPass_of_padding h]
    simp [decodeHeader, h, add_assoc]
  · have hoption : ¬ (decodeHeader mem s.pl).option = 0 := h
    rw [extractPass_of_block h]
    simp only [if_neg hoption, Block.branchMove]
    split_ifs with hkind
    · simp
    · simp [add_assoc]

theorem indexInts_fit
    {mem : Memory} {s : ParserState} (h : s.i < 65536) :
    ∀ value ∈ indexInts mem s, FitsInt value := by
  have hlt : (decodeHeader mem s.pl).blockLength < 16777216 :=
    charLength_lt _ _
  unfold indexInts
  dsimp only
  split_ifs with hoption hkind
  · simp only [List.mem_cons, List.not_mem_nil, or_false, forall_eq_or_imp,
      forall_eq, FitsInt]
    omega
  · simp only [List.mem_cons, List.not_mem_nil, or_false, forall_eq, FitsInt]
    omega
  · simp only [List.mem_cons, List.not_mem_nil, or_false, forall_eq_or_imp,
      forall_eq, FitsInt]
    omega

/-! ## Every pass of a run -/

/-- What is asked of one pass: `i` grows, the length is the one an `int` holds
and is not negative, and nothing overflows on the way. -/
structure PassSafe (mem : Memory) (s : ParserState) : Prop where
  increases : s.i < (extractPass mem s).i
  length : (decodeHeader mem s.pl).blockLength =
    (blockLengthInt (mem (s.pl + 2)) (mem (s.pl + 3))).toInt
  length_nonneg :
    0 ≤ (blockLengthInt (mem (s.pl + 2)) (mem (s.pl + 3))).toInt
  length_fits :
    ∀ value ∈ lengthInts (mem (s.pl + 2)) (mem (s.pl + 3)), FitsInt value
  index : (indexInts mem s).getLast? = some ((extractPass mem s).i : ℤ)
  index_fits : ∀ value ∈ indexInts mem s, FitsInt value

theorem passSafe
    {mem : Memory} {s : ParserState} (h : s.i < 65536) : PassSafe mem s := by
  have hlength := blockLengthInt_toInt (mem (s.pl + 2)) (mem (s.pl + 3))
  constructor
  · exact extractPass_i_lt mem s
  · exact hlength.symm
  · rw [hlength]
    exact Int.natCast_nonneg _
  · exact lengthInts_fit _ _
  · exact indexInts_getLast mem s
  · exact indexInts_fit h

def stateAfter (mem : Memory) (device : Device) (passes : ℕ) : ParserState :=
  (extractPass mem)^[passes] (ParserState.initial device)

theorem exists_passes
    (payload : List UInt8) (device : Device) (heap : Memory) :
    ∃ passes ≤ payload.length,
      extractBlocksFromPacket payload device heap =
        some (stateAfter (payloadCopy payload heap) device passes) ∧
      payload.length ≤
        (stateAfter (payloadCopy payload heap) device passes).i ∧
      ∀ k < passes,
        (stateAfter (payloadCopy payload heap) device k).i <
          payload.length := by
  obtain ⟨final, hfinal⟩ := extractBlocksFromPacket_total payload device heap
  obtain ⟨passes, hpasses, rfl, hstop, hrunning⟩ :=
    exists_passes_of_whileFuel hfinal
  refine ⟨passes, hpasses, hfinal, ?_, ?_⟩
  · simpa [stateAfter, extractRunning] using hstop
  · intro k hk
    simpa [stateAfter, extractRunning] using hrunning k hk

/-- On every payload the loop makes at most `length` passes, all of them
safe. -/
theorem parser_terminates_safely
    (payload : List UInt8) (device : Device) (heap : Memory)
    (hlength : payload.length ≤ 65535) :
    ∃ passes ≤ payload.length,
      extractBlocksFromPacket payload device heap =
        some (stateAfter (payloadCopy payload heap) device passes) ∧
      ∀ k < passes, PassSafe (payloadCopy payload heap)
        (stateAfter (payloadCopy payload heap) device k) := by
  obtain ⟨passes, hpasses, hfinal, -, hrunning⟩ :=
    exists_passes payload device heap
  refine ⟨passes, hpasses, hfinal, ?_⟩
  intro k hk
  have hi := hrunning k hk
  exact passSafe (by omega)

theorem parser_terminates_safely_on_high_bytes :
    ∃ passes ≤ [2, 9, 255, 255].length,
      extractBlocksFromPacket [2, 9, 255, 255] emptyDevice (fun _ => 255) =
        some (stateAfter (payloadCopy [2, 9, 255, 255] fun _ => 255)
          emptyDevice passes) ∧
      ∀ k < passes, PassSafe (payloadCopy [2, 9, 255, 255] fun _ => 255)
        (stateAfter (payloadCopy [2, 9, 255, 255] fun _ => 255)
          emptyDevice k) :=
  parser_terminates_safely [2, 9, 255, 255] emptyDevice (fun _ => 255)
    (by decide)

end ProfinetIo
