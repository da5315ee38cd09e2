import ProfinetIo.PrepareBlock
import Mathlib.Tactic

/-!
# When the padding loop ends

The padding loop of `pf_dcp_put_block` waits for `pf_put_byte` to make the
position even, and `pf_put_byte` does nothing at the end of the buffer or
behind a null pointer.  The block writer therefore returns unless it leaves an
odd position that cannot move.
-/

namespace ProfinetIo

open ByteMemory WhileLoop

/-- The call returns, after however many passes of its loop. -/
def PutBlockReturns (dstMax : ℕ) (opt sub : UInt8) (withBlockInfo : Bool)
    (blockInfo : UInt16) (valueLength : ℕ) (value : Option Memory)
    (s : PutState) : Prop :=
  ∃ fuel result, pfDcpPutBlock fuel dstMax opt sub withBlockInfo blockInfo
    valueLength value s = some result

section Padding

variable {dstMax : ℕ}

theorem padToEven_of_null
    {pos : ℕ} (hodd : pos % 2 = 1) (fuel : ℕ) :
    padToEven dstMax fuel ⟨none, pos⟩ = none := by
  cases hpadded : padToEven dstMax fuel ⟨none, pos⟩ with
  | none => rfl
  | some after =>
      refine absurd ⟨fuel, hpadded⟩ (not_returns_of_stuck ?_ ?_)
      · simp [hodd]
      · exact pfPutByte_of_null 0 dstMax pos

theorem padToEven_returns_iff (hmax : dstMax < 65536) (s : PutState) :
    (∃ fuel after, padToEven dstMax fuel s = some after) ↔
      s.pos % 2 = 0 ∨ s.bytes ≠ none ∧ s.pos < dstMax := by
  obtain ⟨dst, pos⟩ := s
  constructor
  · rintro ⟨fuel, after, hafter⟩
    rcases Nat.mod_two_eq_zero_or_one pos with heven | hodd
    · exact Or.inl heven
    · right
      cases dst with
      | none =>
          rw [padToEven_of_null hodd] at hafter
          contradiction
      | some bytes =>
          refine ⟨by simp, ?_⟩
          by_contra hfull
          rw [padToEven_of_full hodd (Nat.not_lt.mp hfull)] at hafter
          contradiction
  · intro h
    rcases Nat.mod_two_eq_zero_or_one pos with heven | hodd
    · exact ⟨0, _, padToEven_of_even heven⟩
    · rcases h with heven | ⟨hdst, hroom⟩
      · rw [hodd] at heven
        contradiction
      · obtain ⟨bytes, rfl⟩ := Option.ne_none_iff_exists'.mp hdst
        exact ⟨1, _, padToEven_of_room hodd hroom hmax Nat.one_pos⟩

end Padding

section PutBlock

variable {dstMax pos valueLength : ℕ} {opt sub : UInt8}
  {withBlockInfo : Bool} {blockInfo : UInt16} {value : Option Memory}

theorem putBlockReturns_of_skip
    {s : PutState} (h : dstMax ≤ s.pos + valueLength) :
    PutBlockReturns dstMax opt sub withBlockInfo blockInfo valueLength value
      s :=
  ⟨0, _, pfDcpPutBlock_of_skip h⟩

theorem putBlockReturns_iff_padded
    {s : PutState} (h : s.pos + valueLength < dstMax) :
    PutBlockReturns dstMax opt sub withBlockInfo blockInfo valueLength value
        s ↔
      ∃ fuel after, padToEven dstMax fuel
        (putHeaderAndValue dstMax opt sub valueLength value s) =
          some after := by
  simp only [PutBlockReturns, pfDcpPutBlock, if_pos h, Option.map_eq_some_iff]
  constructor
  · rintro ⟨fuel, result, after, hafter, -⟩
    exact ⟨fuel, after, hafter⟩
  · rintro ⟨fuel, after, hafter⟩
    exact ⟨fuel, _, after, hafter, rfl⟩

theorem putHeaderAndValue_of_null (pos : ℕ) :
    putHeaderAndValue dstMax opt sub valueLength value ⟨none, pos⟩ =
      ⟨none, pos⟩ := by
  cases value <;>
    simp [putHeaderAndValue, pfPutUint16, pfPutByte_of_null, pfPutMem_of_null]

/-- Where the header and the value leave the position: at the end of the
buffer when the header does not fit, else behind what has been written, and
then there is room for a padding byte unless the header has filled the
buffer. -/
theorem putHeaderAndValue_pos
    (hpos : pos ≤ dstMax) (hmax : dstMax < 65536) (bytes : Memory) :
    let after := putHeaderAndValue dstMax opt sub valueLength value
      ⟨some bytes, pos⟩
    after.bytes ≠ none ∧
      (dstMax ≤ pos + 4 ∧ after.pos = dstMax ∨
        pos + 4 < dstMax ∧ after.pos < dstMax) := by
  by_cases hroom : pos + 4 ≤ dstMax
  · rw [putHeaderAndValue_of_header hmax hroom]
    simp only [writtenBytes]
    split_ifs with hvalue
    · have hlength : (valueBytes valueLength value).length ≤ valueLength := by
        cases value <;> simp [valueBytes]
      refine ⟨by simp, ?_⟩
      omega
    · refine ⟨by simp, ?_⟩
      simp only [List.length_nil]
      omega
  · rw [putHeaderAndValue_of_no_header hpos hmax (by omega)]
    exact ⟨by simp, Or.inl ⟨by omega, rfl⟩⟩

end PutBlock

/-- The block writer returns exactly if it writes nothing, or ends at an even
position, or has room for a padding byte. -/
theorem putBlockReturns_iff
    {dstMax pos : ℕ} (opt sub : UInt8) (withBlockInfo : Bool)
    (blockInfo valueLength : UInt16) (value dst : Option Memory)
    (hmax : dstMax < 65536) (hpos : pos ≤ dstMax) :
    PutBlockReturns dstMax opt sub withBlockInfo blockInfo valueLength.toNat
        value ⟨dst, pos⟩ ↔
      dstMax ≤ pos + valueLength.toNat ∨
      (dst = none ∧ pos % 2 = 0) ∨
      (dst ≠ none ∧ (dstMax % 2 = 0 ∨ pos + 4 < dstMax)) := by
  by_cases henter : pos + valueLength.toNat < dstMax
  · rw [putBlockReturns_iff_padded henter, padToEven_returns_iff hmax]
    cases dst with
    | none =>
        rw [putHeaderAndValue_of_null]
        simp [Nat.not_le.mpr henter]
    | some bytes =>
        obtain ⟨hbytes, hafter⟩ := @putHeaderAndValue_pos dstMax pos
          valueLength.toNat opt sub value hpos hmax bytes
        simp only [hbytes, Nat.not_le.mpr henter, ne_eq, not_false_eq_true,
          true_and, false_or, reduceCtorEq, false_and]
        omega
  · exact iff_of_true (putBlockReturns_of_skip (Nat.not_lt.mp henter))
      (Or.inl (Nat.not_lt.mp henter))

/-- One byte of room and nothing to put: the first byte of the header fills
the buffer, and the position stays at one. -/
theorem putBlock_hangs_on_one_byte :
    ¬ ∀ (dstMax pos : ℕ) (opt sub : UInt8) (withBlockInfo : Bool)
        (blockInfo valueLength : UInt16) (value dst : Option Memory),
      dstMax < 65536 → pos ≤ dstMax →
        PutBlockReturns dstMax opt sub withBlockInfo blockInfo
          valueLength.toNat value ⟨dst, pos⟩ := by
  intro h
  have hone := h 1 0 255 255 true 0 0 none (some fun _ => 0) (by decide)
    (by decide)
  rw [putBlockReturns_iff_padded (by decide), padToEven_returns_iff
    (by decide)] at hone
  revert hone
  decide

theorem putBlockReturns_in_a_frame :
    PutBlockReturns 60 255 255 true 0 0 none ⟨some fun _ => 0, 26⟩ :=
  (putBlockReturns_iff 255 255 true 0 0 none (some fun _ => 0) (by decide)
    (by decide)).mpr (Or.inr (Or.inr ⟨by simp, Or.inl rfl⟩))

end ProfinetIo
