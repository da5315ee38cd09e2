import ProfinetIo.TransitionRuns
import ProfinetIo.WholeBlocks
import Mathlib.Tactic

/-!
# Sequences of blocks

A sender fills its payload by calling `pf_dcp_put_block` once for each block.
As long as every call finds room for its header and its value with a byte to
spare, and has a value to copy, nothing is dropped: the calls leave the
concatenation of the encoded blocks behind, and the position advances by their
padded sizes.
-/

namespace ProfinetIo

open ByteMemory TransitionRuns

/-- The arguments of one call, besides the buffer and the position. -/
structure PutCall where
  opt : UInt8
  sub : UInt8
  withBlockInfo : Bool
  blockInfo : UInt16
  valueLength : ℕ
  value : Option Memory

namespace PutCall

def encode (call : PutCall) : List UInt8 :=
  encodeBlock call.opt call.sub (valueBytes call.valueLength call.value)

def paddedSize (call : PutCall) : ℕ :=
  4 + call.valueLength + call.valueLength % 2

/-- What a call has to find for nothing to be dropped. -/
structure Admitted (dstMax : ℕ) (s : PutState) (call : PutCall) : Prop where
  room : s.pos + 4 + call.valueLength < dstMax
  value : 0 < call.valueLength → call.value ≠ none

def put (fuel dstMax : ℕ) (s : PutState) (call : PutCall) : Option PutState :=
  (pfDcpPutBlock fuel dstMax call.opt call.sub call.withBlockInfo
    call.blockInfo call.valueLength call.value s).map Prod.snd

variable {dstMax : ℕ} {call : PutCall}

theorem Admitted.encode_length
    {s : PutState} (h : Admitted dstMax s call) :
    call.encode.length = call.paddedSize := by
  have hbytes : (valueBytes call.valueLength call.value).length =
      call.valueLength := by
    cases hvalue : call.value with
    | none =>
        have hzero : call.valueLength = 0 := by
          by_contra hpositive
          exact h.value (by omega) hvalue
        simp [valueBytes, hzero]
    | some src => simp [valueBytes]
  rw [encode, encodeBlock_length, hbytes, paddedSize]
  omega

/-- An admitted call appends its encoded block and returns. -/
theorem Admitted.put_eq
    {bytes : Memory} {pos : ℕ} (h : Admitted dstMax ⟨some bytes, pos⟩ call)
    (hmax : dstMax ≤ 65535) (heven : pos % 2 = 0) (fuel : ℕ) :
    put (fuel + 1) dstMax ⟨some bytes, pos⟩ call =
      some ⟨some (store bytes pos call.encode),
        pos + call.encode.length⟩ := by
  have hroom : pos + 4 + call.valueLength < dstMax := h.room
  have hfits : call.valueLength = 0 ∧ pos + 4 ≤ dstMax ∨
      call.value ≠ none ∧ pos + 4 + call.valueLength < dstMax := by
    rcases Nat.eq_zero_or_pos call.valueLength with hzero | hpositive
    · exact Or.inl ⟨hzero, by omega⟩
    · exact Or.inr ⟨h.value hpositive, hroom⟩
  rw [put, pfDcpPutBlock_of_fits heven (by omega) hfits (Nat.succ_pos fuel)]
  rfl

end PutCall

/-- The blocks lie one after the other behind the start, and the rest of the
buffer is as it was. -/
structure SequenceWritten (dstMax : ℕ) (calls : List PutCall) (bytes : Memory)
    (start : ℕ) (after : PutState) : Prop where
  content : ∃ bytes', after.bytes = some bytes' ∧
    slice bytes' start (after.pos - start) = calls.flatMap PutCall.encode ∧
    ∀ address, address < start ∨ after.pos ≤ address →
      bytes' address = bytes address
  even : after.pos % 2 = 0
  inside : calls ≠ [] ∨ start ≤ dstMax → after.pos ≤ dstMax
  size : after.pos = start + (calls.map PutCall.paddedSize).sum

section Sequence

variable {dstMax fuel : ℕ}

theorem run_put_eq
    (hmax : dstMax ≤ 65535) (calls : List PutCall) {bytes : Memory} {pos : ℕ}
    (heven : pos % 2 = 0)
    (h : StepsAllowed (PutCall.put (fuel + 1) dstMax)
      (PutCall.Admitted dstMax) ⟨some bytes, pos⟩ calls) :
    run (PutCall.put (fuel + 1) dstMax) ⟨some bytes, pos⟩ calls =
        some ⟨some (store bytes pos (calls.flatMap PutCall.encode)),
          pos + (calls.flatMap PutCall.encode).length⟩ ∧
      (calls.flatMap PutCall.encode).length =
        (calls.map PutCall.paddedSize).sum ∧
      (pos + (calls.flatMap PutCall.encode).length) % 2 = 0 ∧
      (pos ≤ dstMax → pos + (calls.flatMap PutCall.encode).length ≤
        dstMax) := by
  induction calls generalizing bytes pos with
  | nil => simp [run, heven]
  | cons call calls ih =>
      obtain ⟨hcall, hrest⟩ := h
      have hput := hcall.put_eq hmax heven fuel
      have hlength := hcall.encode_length
      have hroom : pos + 4 + call.valueLength < dstMax := hcall.room
      have hnext : (pos + call.encode.length) % 2 = 0 := by
        rw [hlength, PutCall.paddedSize]
        omega
      have hinside : pos + call.encode.length ≤ dstMax := by
        rw [hlength, PutCall.paddedSize]
        omega
      obtain ⟨hrun, hsum, heven', hbound⟩ := ih hnext (hrest _ hput)
      have hstore := store_append bytes pos call.encode
        (calls.flatMap PutCall.encode)
      rw [run_cons_of_step hput, hrun, hstore]
      simp only [List.flatMap_cons, List.length_append, List.map_cons,
        List.sum_cons, hsum, hlength, Nat.add_assoc] at heven' hbound ⊢
      simp only [hlength] at hinside
      exact ⟨trivial, trivial, heven', fun _ => hbound hinside⟩

/-- The first admitted call starts inside the buffer. -/
theorem start_le_of_allowed
    {calls : List PutCall} {s : PutState} (hne : calls ≠ [])
    (h : StepsAllowed (PutCall.put fuel dstMax)
      (PutCall.Admitted dstMax) s calls) : s.pos ≤ dstMax := by
  cases calls with
  | nil => contradiction
  | cons call calls =>
      have hroom := h.1.room
      omega

end Sequence

theorem putSequence_written
    {dstMax pos : ℕ} (fuel : ℕ) (calls : List PutCall) (bytes : Memory)
    (hmax : dstMax ≤ 65535) (heven : pos % 2 = 0)
    (h : StepsAllowed (PutCall.put (fuel + 1) dstMax)
      (PutCall.Admitted dstMax) ⟨some bytes, pos⟩ calls) :
    ∃ after,
      run (PutCall.put (fuel + 1) dstMax) ⟨some bytes, pos⟩ calls =
          some after ∧
        SequenceWritten dstMax calls bytes pos after := by
  obtain ⟨hrun, hsum, heven', hinside⟩ := run_put_eq hmax calls heven h
  refine ⟨_, hrun, ?_⟩
  constructor
  · refine ⟨_, rfl, ?_, ?_⟩
    · simp only [Nat.add_sub_cancel_left]
      exact slice_store_self bytes pos _
    · intro address houtside
      exact store_outside houtside
  · exact heven'
  · intro hstart
    apply hinside
    rcases hstart with hne | hstart
    · exact start_le_of_allowed hne h
    · exact hstart
  · simp only [hsum]

theorem putSequence_written_two_blocks :
    ∃ after,
      run (PutCall.put 1 60) ⟨some fun _ => 0, 26⟩
          [⟨pfDcpOptIp, pfDcpSubIpPar, true, 0, 3, some fun _ => 7⟩,
            ⟨pfDcpOptDhcp, 0, false, 0, 0, none⟩] = some after ∧
        SequenceWritten 60
          [⟨pfDcpOptIp, pfDcpSubIpPar, true, 0, 3, some fun _ => 7⟩,
            ⟨pfDcpOptDhcp, 0, false, 0, 0, none⟩] (fun _ => 0) 26 after := by
  apply putSequence_written 0 _ _ (by decide) (by decide)
  refine ⟨⟨by decide, by simp⟩, ?_⟩
  rintro next hnext
  cases hnext
  exact ⟨⟨by decide, by simp⟩, fun _ _ => trivial⟩

end ProfinetIo
