import ProfinetIo.PrepareBlock
import Mathlib.Tactic

/-!
# Writing a block and reading it back

The writer and the parser do not agree on what a block with info is.  The
writer ignores the info and lets the length count the value only; the parser
looks for the info at offset 4 and expects the length to count it.
-/

namespace ProfinetIo

open ByteMemory WhileLoop

/-- A block written with its info is decoded to the option, suboption, info
and value it was written with, the length counting the info. -/
def BlockRoundTrip (dstMax pos : ℕ) (opt sub : UInt8) (blockInfo : UInt16)
    (valueLength : ℕ) (src bytes : Memory) : Prop :=
  ∃ fuel after bytes',
    pfDcpPutBlock fuel dstMax opt sub true blockInfo valueLength (some src)
        ⟨some bytes, pos⟩ = some (0, after) ∧
      after.bytes = some bytes' ∧
      decodeHeader bytes' pos =
        ⟨opt, sub, 2 + valueLength, blockInfo.toNat⟩ ∧
      slice bytes' (pos + 6) valueLength = slice src 0 valueLength

theorem decodeHeader_blockLength_of_header
    {bytes : Memory} {pos valueLength : ℕ} {opt sub : UInt8}
    (h : slice bytes pos 4 = blockHeader opt sub valueLength) :
    (decodeHeader bytes pos).blockLength =
      charLength (UInt8.ofNat (valueLength / 256)) (UInt8.ofNat valueLength) := by
  have hslice : slice bytes pos (blockHeader opt sub valueLength).length =
      blockHeader opt sub valueLength := by
    rw [blockHeader_length]
    exact h
  have hbytes := slice_eq_iff.mp hslice
  have hhigh := hbytes 2 (by simp)
  have hlow := hbytes 3 (by simp)
  simp only [decodeHeader, hhigh, hlow]
  simp [blockHeader, bigEndian]

theorem not_blockRoundTrip
    {dstMax pos valueLength : ℕ} (opt sub : UInt8) (blockInfo : UInt16)
    (src bytes : Memory) (hmax : dstMax < 65536)
    (hfits : pos + 6 + valueLength ≤ dstMax) :
    ¬ BlockRoundTrip dstMax pos opt sub blockInfo valueLength src bytes := by
  rintro ⟨fuel, after, bytes', hput, hafter, hheader, -⟩
  obtain ⟨written, hwritten, hslice⟩ :=
    pfDcpPutBlock_header hmax (by omega) (by omega) hput
  rw [hwritten, Option.some.injEq] at hafter
  subst hafter
  have hlength := decodeHeader_blockLength_of_header hslice
  rw [hheader] at hlength
  have hshift := (@charLength_bigEndian_iff valueLength 2 (by omega)
    (by omega)).mp (by rw [← hlength, Nat.add_comm])
  exact absurd hshift.1 (by decide)

theorem not_blockRoundTrip_one_byte :
    ¬ BlockRoundTrip 60 26 pfDcpOptIp pfDcpSubIpPar 0 1 (fun _ => 7)
      (fun _ => 0) :=
  not_blockRoundTrip pfDcpOptIp pfDcpSubIpPar 0 (fun _ => 7) (fun _ => 0)
    (by decide) (by decide)

/-- A two-byte value written with block info 1 is decoded with its own bytes
as the info and with length 2. -/
theorem blockRoundTrip_fails_on_two_bytes :
    ¬ ∀ (dstMax pos valueLength : ℕ) (opt sub : UInt8) (blockInfo : UInt16)
        (src bytes : Memory),
      opt ≠ 0 → dstMax < 65536 → pos + 6 + valueLength ≤ dstMax →
        BlockRoundTrip dstMax pos opt sub blockInfo valueLength src bytes := by
  intro h
  obtain ⟨fuel, after, bytes', hput, hafter, hheader, -⟩ :=
    h 60 26 2 pfDcpOptIp pfDcpSubIpPar 1 (fun _ => 7) (fun _ => 0) (by decide)
      (by decide) (by decide)
  have hmore := pfDcpPutBlock_mono (Nat.zero_le fuel)
    (rfl : pfDcpPutBlock 0 60 pfDcpOptIp pfDcpSubIpPar true 1 2
      (some fun _ => 7) ⟨some fun _ => 0, 26⟩ = some _)
  rw [hput, Option.some.injEq, Prod.mk.injEq] at hmore
  have hbytes := hafter.symm.trans (congrArg PutState.bytes hmore.2)
  cases hbytes
  have hlength := congrArg Block.blockLength hheader
  revert hlength
  decide

end ProfinetIo
