import ProfinetIo.PrepareBlock
import ProfinetIo.TransitionRuns
import Mathlib.Tactic

/-!
# Bounded writes

Whatever a writer of `prepareBlock.c` stores, it stores from the position on,
moves the position behind it, and keeps it inside the buffer.  What it stores
does not depend on what the buffer holds, so a sequence of calls is a single
store of the concatenated bytes.  The 16-bit position cannot wrap, because the
stored bytes would then outnumber the buffer.
-/

namespace ProfinetIo

open ByteMemory TransitionRuns

/-- A call of one of the writers, besides the buffer and the position. -/
inductive WriterCall where
  | putByte (val : UInt8)
  | putUint16 (isBigEndian : Bool) (val : UInt16)
  | putUint32 (isBigEndian : Bool) (val : UInt32)
  | putMem (src : Memory) (srcSize : UInt16)
  | putBlock (opt sub : UInt8) (withBlockInfo : Bool) (blockInfo : UInt16)
      (valueLength : UInt16) (value : Option Memory)

def writerCall (fuel dstMax : ℕ) (s : PutState) : WriterCall → Option PutState
  | .putByte val => some (pfPutByte val dstMax s)
  | .putUint16 isBigEndian val =>
      some (pfPutUint16 isBigEndian val.toNat dstMax s)
  | .putUint32 isBigEndian val =>
      some (pfPutUint32 isBigEndian val.toNat dstMax s)
  | .putMem src srcSize => some (pfPutMem src srcSize.toNat dstMax s)
  | .putBlock opt sub withBlockInfo blockInfo valueLength value =>
      (pfDcpPutBlock fuel dstMax opt sub withBlockInfo blockInfo
        valueLength.toNat value s).map Prod.snd

/-! ## Appending -/

/-- From position `pos` the action stores `vals` there and moves the position
behind them, whatever the buffer holds. -/
structure Appends (dstMax pos : ℕ) (act : PutState → Option PutState)
    (vals : List UInt8) : Prop where
  inside : pos + vals.length ≤ dstMax
  result : ∀ bytes, act ⟨some bytes, pos⟩ =
    some ⟨some (store bytes pos vals), pos + vals.length⟩

namespace Appends

variable {dstMax pos : ℕ} {act next : PutState → Option PutState}
  {vals more : List UInt8}

theorem nothing (hpos : pos ≤ dstMax)
    (h : ∀ bytes, act ⟨some bytes, pos⟩ = some ⟨some bytes, pos⟩) :
    Appends dstMax pos act [] := by
  constructor
  · simpa using hpos
  · intro bytes
    simpa using h bytes

theorem andThen (h : Appends dstMax pos act vals)
    (hnext : Appends dstMax (pos + vals.length) next more) :
    Appends dstMax pos (fun s => (act s).bind next) (vals ++ more) := by
  constructor
  · rw [List.length_append, ← Nat.add_assoc]
    exact hnext.inside
  · intro bytes
    rw [h.result, Option.bind_some, hnext.result, store_append,
      List.length_append, Nat.add_assoc]

theorem kept (h : Appends dstMax pos act vals) {bytes : Memory}
    {after : PutState} (hafter : act ⟨some bytes, pos⟩ = some after) :
    ∃ bytes', after.bytes = some bytes' ∧
      ∀ address, address < pos ∨ dstMax ≤ address →
        bytes' address = bytes address := by
  rw [h.result] at hafter
  cases hafter
  refine ⟨_, rfl, ?_⟩
  intro address haddress
  have hinside := h.inside
  apply store_outside
  omega

end Appends

/-! ## The writers -/

section Writers

variable {dstMax pos fuel : ℕ}

theorem putBytes_appends
    (hpos : pos ≤ dstMax) (hmax : dstMax < 65536) (vals : List UInt8) :
    Appends dstMax pos
      (fun s => some (vals.foldl (fun s val => pfPutByte val dstMax s) s))
      (vals.take (dstMax - pos)) := by
  have hlength : (vals.take (dstMax - pos)).length =
      min vals.length (dstMax - pos) := by
    rw [List.length_take, Nat.min_comm]
  constructor
  · omega
  · intro bytes
    rw [foldl_pfPutByte hpos hmax, hlength]

theorem pfPutMem_appends
    (hpos : pos ≤ dstMax) (hmax : dstMax < 65536) (src : Memory)
    (srcSize : ℕ) :
    ∃ vals, Appends dstMax pos
      (fun s => some (pfPutMem src srcSize dstMax s)) vals := by
  by_cases hroom : pos + srcSize < dstMax
  · refine ⟨slice src 0 srcSize, ?_, ?_⟩
    · rw [slice_length]
      omega
    · intro bytes
      rw [pfPutMem_of_room hroom hmax, slice_length]
  · refine ⟨[], Appends.nothing hpos ?_⟩
    intro bytes
    rw [pfPutMem_of_full (by omega)]

theorem putHeaderAndValue_appends
    (hpos : pos ≤ dstMax) (hmax : dstMax < 65536) (opt sub : UInt8)
    (valueLength : ℕ) (value : Option Memory) :
    ∃ vals, Appends dstMax pos
      (fun s => some (putHeaderAndValue dstMax opt sub valueLength value s))
      vals := by
  have hheader := putBytes_appends hpos hmax (blockHeader opt sub valueLength)
  cases value with
  | none =>
      refine ⟨_, hheader.inside, ?_⟩
      intro bytes
      rw [putHeaderAndValue_eq]
      exact hheader.result bytes
  | some src =>
      by_cases hvalue : 0 < valueLength
      · obtain ⟨vals, hvals⟩ :=
          pfPutMem_appends hheader.inside hmax src valueLength
        have hboth := hheader.andThen hvals
        refine ⟨_, hboth.inside, ?_⟩
        intro bytes
        rw [putHeaderAndValue_eq, ← hboth.result bytes]
        simp only [if_pos hvalue, Option.bind_some]
      · refine ⟨_, hheader.inside, ?_⟩
        intro bytes
        rw [putHeaderAndValue_eq, ← hheader.result bytes]
        simp only [if_neg hvalue]

/-- A padding loop that returns has written one byte or none. -/
theorem padToEven_appends
    (hpos : pos ≤ dstMax) (hmax : dstMax < 65536) {bytes : Memory}
    {after : PutState}
    (h : padToEven dstMax fuel ⟨some bytes, pos⟩ = some after) :
    ∃ vals, Appends dstMax pos (padToEven dstMax fuel) vals := by
  rcases Nat.mod_two_eq_zero_or_one pos with heven | hodd
  · refine ⟨[], Appends.nothing hpos ?_⟩
    intro bytes
    exact padToEven_of_even heven
  · have hroom : pos < dstMax := by
      by_contra hfull
      rw [padToEven_of_full hodd (by omega)] at h
      contradiction
    have hfuel : 0 < fuel := by
      by_contra hzero
      have hnone : fuel = 0 := by omega
      subst hnone
      simp [padToEven, WhileLoop.whileFuel, hodd] at h
    refine ⟨[0], by simpa using hroom, ?_⟩
    intro bytes
    exact padToEven_of_room hodd hroom hmax hfuel

theorem pfDcpPutBlock_appends
    (hpos : pos ≤ dstMax) (hmax : dstMax < 65536) {opt sub : UInt8}
    {withBlockInfo : Bool} {blockInfo : UInt16} {valueLength : ℕ}
    {value : Option Memory} {bytes : Memory} {result : ℤ × PutState}
    (h : pfDcpPutBlock fuel dstMax opt sub withBlockInfo blockInfo valueLength
      value ⟨some bytes, pos⟩ = some result) :
    ∃ vals, Appends dstMax pos
      (fun s => (pfDcpPutBlock fuel dstMax opt sub withBlockInfo blockInfo
        valueLength value s).map Prod.snd) vals := by
  by_cases henter : pos + valueLength < dstMax
  · obtain ⟨written, hwritten⟩ :=
      putHeaderAndValue_appends hpos hmax opt sub valueLength value
    have hstart := Option.some.inj (hwritten.result bytes)
    rw [pfDcpPutBlock_of_enter henter, hstart] at h
    obtain ⟨padded, hpadded, -⟩ := Option.map_eq_some_iff.mp h
    obtain ⟨padding, hpadding⟩ :=
      padToEven_appends hwritten.inside hmax hpadded
    have hboth := hwritten.andThen hpadding
    refine ⟨_, hboth.inside, ?_⟩
    intro bytes
    rw [pfDcpPutBlock_of_enter henter, ← hboth.result bytes, Option.map_map,
      Option.bind_some]
    exact Option.map_id'
  · refine ⟨[], Appends.nothing hpos ?_⟩
    intro bytes
    rw [pfDcpPutBlock_of_skip (Nat.not_lt.mp henter), Option.map_some]

theorem writerCall_appends
    (hpos : pos ≤ dstMax) (hmax : dstMax < 65536) {call : WriterCall}
    {bytes : Memory} {after : PutState}
    (h : writerCall fuel dstMax ⟨some bytes, pos⟩ call = some after) :
    ∃ vals, Appends dstMax pos
      (fun s => writerCall fuel dstMax s call) vals := by
  cases call with
  | putByte val => exact ⟨_, putBytes_appends hpos hmax [val]⟩
  | putUint16 isBigEndian val =>
      cases isBigEndian with
      | false =>
          exact ⟨_, putBytes_appends hpos hmax
            [UInt8.ofNat val.toNat, UInt8.ofNat (val.toNat / 256)]⟩
      | true =>
          exact ⟨_, putBytes_appends hpos hmax
            [UInt8.ofNat (val.toNat / 256), UInt8.ofNat val.toNat]⟩
  | putUint32 isBigEndian val =>
      cases isBigEndian with
      | false =>
          exact ⟨_, putBytes_appends hpos hmax
            [UInt8.ofNat val.toNat, UInt8.ofNat (val.toNat / 256),
              UInt8.ofNat (val.toNat / 65536),
              UInt8.ofNat (val.toNat / 16777216)]⟩
      | true =>
          exact ⟨_, putBytes_appends hpos hmax
            [UInt8.ofNat (val.toNat / 16777216),
              UInt8.ofNat (val.toNat / 65536),
              UInt8.ofNat (val.toNat / 256), UInt8.ofNat val.toNat]⟩
  | putMem src srcSize => exact pfPutMem_appends hpos hmax src srcSize.toNat
  | putBlock opt sub withBlockInfo blockInfo valueLength value =>
      obtain ⟨result, hresult, -⟩ := Option.map_eq_some_iff.mp h
      exact pfDcpPutBlock_appends hpos hmax hresult

end Writers

/-! ## Sequences of calls -/

/-- What one call or a sequence of calls may do from position `pos`: the bytes
stored are `vals`, whatever the buffer holds, none of them in front of the
position or from `dstMax` on, and the position moves behind them without
wrapping. -/
structure BoundedWrite (dstMax pos : ℕ) (act : PutState → Option PutState) :
    Prop where
  written : ∃ vals, Appends dstMax pos act vals
  position : ∀ bytes after, act ⟨some bytes, pos⟩ = some after →
    pos ≤ after.pos ∧ after.pos ≤ dstMax
  kept : ∀ bytes after, act ⟨some bytes, pos⟩ = some after →
    ∃ bytes', after.bytes = some bytes' ∧
      ∀ address, address < pos ∨ dstMax ≤ address →
        bytes' address = bytes address

theorem Appends.bounded
    {dstMax pos : ℕ} {act : PutState → Option PutState} {vals : List UInt8}
    (h : Appends dstMax pos act vals) : BoundedWrite dstMax pos act := by
  constructor
  · exact ⟨vals, h⟩
  · intro bytes after hafter
    rw [h.result] at hafter
    cases hafter
    exact ⟨Nat.le_add_right pos _, h.inside⟩
  · intro bytes after hafter
    exact h.kept hafter

theorem run_writerCall_appends
    {dstMax fuel : ℕ} (hmax : dstMax < 65536) (calls : List WriterCall)
    {pos : ℕ} (hpos : pos ≤ dstMax) {bytes : Memory} {after : PutState}
    (h : run (writerCall fuel dstMax) ⟨some bytes, pos⟩ calls = some after) :
    ∃ vals, Appends dstMax pos
      (fun s => run (writerCall fuel dstMax) s calls) vals := by
  induction calls generalizing pos bytes with
  | nil => exact ⟨[], Appends.nothing hpos fun _ => rfl⟩
  | cons call calls ih =>
      obtain ⟨next, hnext, hrest⟩ := Option.bind_eq_some_iff.mp h
      obtain ⟨vals, hvals⟩ := writerCall_appends hpos hmax hnext
      rw [hvals.result] at hnext
      cases hnext
      obtain ⟨more, hmore⟩ := ih hvals.inside hrest
      exact ⟨vals ++ more, hvals.andThen hmore⟩

theorem stepsMeet_boundedWrite
    {dstMax fuel : ℕ} (hmax : dstMax < 65536) (calls : List WriterCall)
    {pos : ℕ} (hpos : pos ≤ dstMax) (bytes : Memory) :
    StepsMeet (writerCall fuel dstMax)
      (fun s call => BoundedWrite dstMax s.pos
        fun s => writerCall fuel dstMax s call) ⟨some bytes, pos⟩ calls := by
  induction calls generalizing pos bytes with
  | nil => trivial
  | cons call calls ih =>
      intro next hnext
      obtain ⟨vals, hvals⟩ := writerCall_appends hpos hmax hnext
      rw [hvals.result] at hnext
      cases hnext
      exact ⟨hvals.bounded, ih hvals.inside _⟩

/-- Calls that return write inside the buffer and behind the position, one by
one and together. -/
theorem writers_bounded
    {dstMax pos : ℕ} (fuel : ℕ) (calls : List WriterCall) (bytes : Memory)
    (hmax : dstMax < 65536) (hpos : pos ≤ dstMax) :
    StepsMeet (writerCall fuel dstMax)
        (fun s call => BoundedWrite dstMax s.pos
          fun s => writerCall fuel dstMax s call) ⟨some bytes, pos⟩ calls ∧
      ∀ after, run (writerCall fuel dstMax) ⟨some bytes, pos⟩ calls =
          some after →
        BoundedWrite dstMax pos
          fun s => run (writerCall fuel dstMax) s calls := by
  refine ⟨stepsMeet_boundedWrite hmax calls hpos bytes, ?_⟩
  intro after hafter
  obtain ⟨vals, hvals⟩ := run_writerCall_appends hmax calls hpos hafter
  exact hvals.bounded

theorem writers_bounded_near_the_end :
    StepsMeet (writerCall 1 65535)
        (fun s call => BoundedWrite 65535 s.pos
          fun s => writerCall 1 65535 s call) ⟨some fun _ => 0, 65530⟩
        [.putMem (fun _ => 7) 65535, .putUint32 true 1, .putUint16 false 2] ∧
      ∀ after, run (writerCall 1 65535) ⟨some fun _ => 0, 65530⟩
          [.putMem (fun _ => 7) 65535, .putUint32 true 1,
            .putUint16 false 2] = some after →
        BoundedWrite 65535 65530
          fun s => run (writerCall 1 65535) s
            [.putMem (fun _ => 7) 65535, .putUint32 true 1,
              .putUint16 false 2] :=
  writers_bounded 1 _ _ (by decide) (by decide)

end ProfinetIo
