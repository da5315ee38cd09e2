import ProfinetIo.PrepareBlock
import Mathlib.Tactic

/-!
# Whole blocks

When does `pf_dcp_put_block` leave either a whole block or nothing at all
behind?  The room checks overlap except in the last bytes of the buffer: a
value that would fill them is dropped after its header has gone out, and so is
a value behind a null pointer wherever it is.
-/

namespace ProfinetIo

open ByteMemory WhileLoop

/-- A whole block has been appended, its length counting the value bytes that
follow. -/
def BlockAppended (opt sub : UInt8) (valueLength : ℕ) (value : Option Memory)
    (before after : PutState) : Prop :=
  ∃ bytes, before.bytes = some bytes ∧
    after.bytes = some (store bytes before.pos
      (encodeBlock opt sub (valueBytes valueLength value))) ∧
    after.pos = before.pos +
      (encodeBlock opt sub (valueBytes valueLength value)).length

/-- Whenever the writer returns, it has appended a whole block or has left the
buffer and the position alone. -/
def WholeBlockOrNothing (dstMax : ℕ) (opt sub : UInt8) (withBlockInfo : Bool)
    (blockInfo : UInt16) (valueLength : ℕ) (value : Option Memory)
    (before : PutState) : Prop :=
  ∀ fuel ret after,
    pfDcpPutBlock fuel dstMax opt sub withBlockInfo blockInfo valueLength value
        before = some (ret, after) →
      BlockAppended opt sub valueLength value before after ∨ after = before

section Exact

variable {dstMax pos valueLength : ℕ} {opt sub : UInt8} {withBlockInfo : Bool}
  {blockInfo : UInt16} {value : Option Memory} {bytes : Memory}

theorem encodeBlock_eq_header (opt sub : UInt8) (content : List UInt8) :
    encodeBlock opt sub content =
      blockHeader opt sub content.length ++ content ++
        List.replicate (content.length % 2) 0 := by
  simp [encodeBlock, blockHeader]

theorem pfDcpPutBlock_of_header
    {fuel : ℕ} (heven : pos % 2 = 0) (hmax : dstMax < 65536)
    (hroom : pos + 4 ≤ dstMax) (henter : pos + valueLength < dstMax)
    (hfuel : 0 < fuel) :
    pfDcpPutBlock fuel dstMax opt sub withBlockInfo blockInfo valueLength value
        ⟨some bytes, pos⟩ =
      let written := writtenBytes pos dstMax valueLength value
      let block := blockHeader opt sub valueLength ++ written ++
        List.replicate (written.length % 2) 0
      some (0, ⟨some (store bytes pos block), pos + block.length⟩) := by
  have hfits : (writtenBytes pos dstMax valueLength value).length % 2 = 1 →
      pos + 4 + (writtenBytes pos dstMax valueLength value).length < dstMax := by
    unfold writtenBytes
    split_ifs with h
    · cases value with
      | none => simp [valueBytes]
      | some src => simpa [valueBytes] using fun _ => h
    · simp
  rw [pfDcpPutBlock_of_enter henter, putHeaderAndValue_of_header hmax hroom]
  generalize writtenBytes pos dstMax valueLength value = written at hfits
  rcases Nat.mod_two_eq_zero_or_one written.length with hwritten | hwritten
  · rw [padToEven_of_even (by simp only; omega)]
    simp [hwritten, Nat.add_assoc]
  · have hlast := store_append bytes pos
      (blockHeader opt sub valueLength ++ written) [0]
    rw [List.length_append, blockHeader_length, ← Nat.add_assoc] at hlast
    rw [padToEven_of_room (by omega) (hfits hwritten) hmax hfuel, hlast]
    simp [hwritten, Nat.add_assoc]

theorem pfDcpPutBlock_of_fits
    {fuel : ℕ} (heven : pos % 2 = 0) (hmax : dstMax < 65536)
    (hfits : valueLength = 0 ∧ pos + 4 ≤ dstMax ∨
      value ≠ none ∧ pos + 4 + valueLength < dstMax)
    (hfuel : 0 < fuel) :
    pfDcpPutBlock fuel dstMax opt sub withBlockInfo blockInfo valueLength value
        ⟨some bytes, pos⟩ =
      let block := encodeBlock opt sub (valueBytes valueLength value)
      some (0, ⟨some (store bytes pos block), pos + block.length⟩) := by
  have hwritten : writtenBytes pos dstMax valueLength value =
      valueBytes valueLength value := by
    unfold writtenBytes
    split_ifs with h
    · rfl
    · have hzero : valueLength = 0 := by omega
      cases value <;> simp [valueBytes, hzero]
  have hlength : (valueBytes valueLength value).length = valueLength := by
    cases value with
    | none =>
        have hzero : valueLength = 0 := by
          rcases hfits with ⟨hzero, -⟩ | ⟨hnull, -⟩
          · exact hzero
          · exact absurd rfl hnull
        simp [valueBytes, hzero]
    | some src => simp [valueBytes]
  rw [pfDcpPutBlock_of_header heven hmax (by omega) (by omega) hfuel, hwritten,
    encodeBlock_eq_header]
  simp only [hlength]

theorem not_wholeBlockOrNothing_of_dropped
    (heven : pos % 2 = 0) (hmax : dstMax < 65536) (hroom : pos + 4 ≤ dstMax)
    (henter : pos + valueLength < dstMax) (hvalue : 0 < valueLength)
    (hdropped : writtenBytes pos dstMax valueLength value = []) :
    ¬ WholeBlockOrNothing dstMax opt sub withBlockInfo blockInfo valueLength
      value ⟨some bytes, pos⟩ := by
  intro h
  have hresult := @pfDcpPutBlock_of_header dstMax pos valueLength opt sub
    withBlockInfo blockInfo value bytes 1 heven hmax hroom henter (by omega)
  simp only [hdropped, List.append_nil, List.length_nil, Nat.zero_mod,
    List.replicate_zero] at hresult
  rcases h 1 _ _ hresult with ⟨start, hstart, hafter, hpos⟩ | hsame
  · cases hstart
    have hcontent : (valueBytes valueLength value).length = 0 := by
      simp only [blockHeader_length, encodeBlock_length] at hpos
      omega
    rw [List.eq_nil_of_length_eq_zero hcontent, Option.some.injEq] at hafter
    have hhigh := congrFun hafter (pos + 2)
    have hlow := congrFun hafter (pos + 3)
    rw [store_inside (by simp), store_inside (by simp)] at hhigh hlow
    simp only [blockHeader, encodeBlock, bigEndian] at hhigh hlow
    have hhigh' := congrArg UInt8.toNat hhigh
    have hlow' := congrArg UInt8.toNat hlow
    simp at hhigh' hlow'
    omega
  · have hpos := congrArg PutState.pos hsame
    simp at hpos

/-- Between room for the first byte and room for the header, an even room
leaves half a header and an odd one an endless padding loop. -/
theorem wholeBlockOrNothing_of_no_header
    (heven : pos % 2 = 0) (hpos : pos ≤ dstMax) (hmax : dstMax < 65536)
    (hroom : dstMax < pos + 4) (henter : pos + valueLength < dstMax) :
    WholeBlockOrNothing dstMax opt sub withBlockInfo blockInfo valueLength value
        ⟨some bytes, pos⟩ ↔ dstMax % 2 = 1 := by
  have hwritten := @putHeaderAndValue_of_no_header bytes pos dstMax valueLength
    opt sub value hpos hmax hroom
  constructor
  · intro h
    by_contra hodd
    have hresult : pfDcpPutBlock 0 dstMax opt sub withBlockInfo blockInfo
        valueLength value ⟨some bytes, pos⟩ =
        some (0, ⟨some (store bytes pos
          ((blockHeader opt sub valueLength).take (dstMax - pos))), dstMax⟩) := by
      rw [pfDcpPutBlock_of_enter henter, hwritten,
        padToEven_of_even (by simp only; omega)]
      rfl
    rcases h 0 _ _ hresult with ⟨start, -, -, hafter⟩ | hsame
    · simp only [encodeBlock_length] at hafter
      omega
    · have hafter := congrArg PutState.pos hsame
      simp only at hafter
      omega
  · intro hodd fuel ret after hresult
    rw [pfDcpPutBlock_of_enter henter, hwritten,
      padToEven_of_full hodd (le_refl dstMax)] at hresult
    simp at hresult

end Exact

theorem wholeBlockOrNothing_iff
    {dstMax pos valueLength : ℕ} (opt sub : UInt8) (withBlockInfo : Bool)
    (blockInfo : UInt16) (value : Option Memory) (bytes : Memory)
    (heven : pos % 2 = 0) (hpos : pos ≤ dstMax) (hmax : dstMax < 65536)
    (hvalue : valueLength < 65536) :
    WholeBlockOrNothing dstMax opt sub withBlockInfo blockInfo valueLength value
        ⟨some bytes, pos⟩ ↔
      dstMax ≤ pos + valueLength ∨
      dstMax = pos + 1 ∨ dstMax = pos + 3 ∨
      (valueLength = 0 ∧ pos + 4 ≤ dstMax) ∨
      (value ≠ none ∧ pos + 4 + valueLength < dstMax) := by
  by_cases hskip : dstMax ≤ pos + valueLength
  · refine iff_of_true ?_ (Or.inl hskip)
    intro fuel ret after hresult
    rw [pfDcpPutBlock_of_skip hskip] at hresult
    cases hresult
    exact Or.inr rfl
  by_cases hroom : dstMax < pos + 4
  · rw [wholeBlockOrNothing_of_no_header heven hpos hmax hroom (by omega)]
    omega
  by_cases hfits : valueLength = 0 ∧ pos + 4 ≤ dstMax ∨
      value ≠ none ∧ pos + 4 + valueLength < dstMax
  · refine iff_of_true ?_ (Or.inr (Or.inr (Or.inr hfits)))
    intro fuel ret after hresult
    have hmore := pfDcpPutBlock_mono (Nat.le_succ fuel) hresult
    rw [pfDcpPutBlock_of_fits heven hmax hfits (Nat.succ_pos fuel),
      Option.some.injEq, Prod.mk.injEq] at hmore
    left
    rw [← hmore.2]
    exact ⟨bytes, rfl, rfl, rfl⟩
  · have hdropped : writtenBytes pos dstMax valueLength value = [] := by
      unfold writtenBytes
      split_ifs with hshort
      · have hnull : value = none := by
          by_contra hsome
          exact hfits (Or.inr ⟨hsome, hshort⟩)
        rw [hnull, valueBytes]
      · rfl
    have hpositive : 0 < valueLength := by
      by_contra hzero
      exact hfits (Or.inl ⟨by omega, by omega⟩)
    have hnot : ¬ WholeBlockOrNothing dstMax opt sub withBlockInfo blockInfo
        valueLength value ⟨some bytes, pos⟩ :=
      not_wholeBlockOrNothing_of_dropped heven hmax (by omega) (by omega)
        hpositive hdropped
    refine iff_of_false hnot ?_
    intro hcondition
    rcases hcondition with hskipped | hone | hthree | hwhole
    · exact hskip hskipped
    · omega
    · omega
    · exact hfits hwhole

/-- `send_set_req` passes a null pointer with a length of four. -/
theorem wholeBlockOrNothing_fails_on_null :
    ¬ ∀ (dstMax pos valueLength : ℕ) (opt sub : UInt8) (withBlockInfo : Bool)
        (blockInfo : UInt16) (value : Option Memory) (bytes : Memory),
      pos % 2 = 0 → pos ≤ dstMax → dstMax < 65536 → valueLength < 65536 →
        WholeBlockOrNothing dstMax opt sub withBlockInfo blockInfo valueLength
          value ⟨some bytes, pos⟩ := by
  intro h
  have hset := h 60 26 4 pfDcpOptIp pfDcpSubIpPar true 0 none (fun _ => 0)
    (by decide) (by decide) (by decide) (by decide)
  obtain ⟨after, hafter⟩ : ∃ after, pfDcpPutBlock 0 60 pfDcpOptIp pfDcpSubIpPar
      true 0 4 none ⟨some fun _ => 0, 26⟩ = some (0, after) ∧
      after.pos = 30 ∧ after.bytes.map (· 29) = some 4 :=
    ⟨_, rfl, rfl, rfl⟩
  rcases hset 0 0 after hafter.1 with ⟨start, hstart, hbytes, -⟩ | hsame
  · cases hstart
    have hlow := hafter.2.2
    rw [hbytes] at hlow
    revert hlow
    decide
  · have hpos := hafter.2.1
    rw [hsame] at hpos
    revert hpos
    decide

theorem wholeBlockOrNothing_of_four_bytes :
    WholeBlockOrNothing 60 pfDcpOptIp pfDcpSubIpPar true 0 4 (some fun _ => 7)
      ⟨some fun _ => 0, 26⟩ :=
  (wholeBlockOrNothing_iff pfDcpOptIp pfDcpSubIpPar true 0 (some fun _ => 7)
    (fun _ => 0) (by decide) (by decide) (by decide) (by decide)).mpr
    (Or.inr (Or.inr (Or.inr (Or.inr ⟨by simp, by decide⟩))))

end ProfinetIo
