import ProfinetIo.PrepareBlock
import Mathlib.Tactic

/-!
# Writes of several bytes

The writers of `prepareBlock.c` that store more than one byte are compared with
a run of `pf_put_byte` calls.  `pf_put_mem` looks for room once and asks for one
byte more than it copies; `pf_put_uint16` and `pf_put_uint32` are such a run and
look for room before each byte.  The bulk writer therefore refuses an exact fit,
and the integer writers store as much of an integer as there is room for.
-/

namespace ProfinetIo

open ByteMemory

/-- One `pf_put_byte` for each byte, in order. -/
def putBytes (resLen : ℕ) (vals : List UInt8) (s : PutState) : PutState :=
  vals.foldl (fun s val => pfPutByte val resLen s) s

theorem putBytes_of_null (vals : List UInt8) (resLen pos : ℕ) :
    putBytes resLen vals ⟨none, pos⟩ = ⟨none, pos⟩ := by
  unfold putBytes
  induction vals with
  | nil => rfl
  | cons val vals ih => rw [List.foldl_cons, pfPutByte_of_null, ih]

section Room

variable {bytes : Memory} {pos resLen : ℕ} {vals : List UInt8}

theorem putBytes_pos
    (hpos : pos ≤ resLen) (hres : resLen < 65536) :
    (putBytes resLen vals ⟨some bytes, pos⟩).pos =
      pos + min vals.length (resLen - pos) := by
  unfold putBytes
  rw [foldl_pfPutByte hpos hres]

theorem putBytes_of_room
    (hroom : pos + vals.length ≤ resLen) (hres : resLen < 65536) :
    putBytes resLen vals ⟨some bytes, pos⟩ =
      ⟨some (store bytes pos vals), pos + vals.length⟩ := by
  unfold putBytes
  rw [foldl_pfPutByte (by omega) hres, List.take_of_length_le (by omega),
    Nat.min_eq_left (by omega)]

theorem putBytes_of_full
    (hfull : resLen ≤ pos) : putBytes resLen vals ⟨some bytes, pos⟩ =
      ⟨some bytes, pos⟩ := by
  unfold putBytes
  induction vals with
  | nil => rfl
  | cons val vals ih => rw [List.foldl_cons, pfPutByte_of_full hfull, ih]

end Room

/-! ## The bulk writer -/

/-- The bulk writer agrees with the run of single bytes unless the bytes, one
at least, would fill the buffer exactly. -/
theorem pfPutMem_eq_putBytes_iff
    (src : Memory) (srcSize : ℕ) (resLen : UInt16) (s : PutState)
    (hfits : s.pos + srcSize ≤ resLen.toNat) :
    pfPutMem src srcSize resLen.toNat s =
        putBytes resLen.toNat (slice src 0 srcSize) s ↔
      s.bytes = none ∨ srcSize = 0 ∨ s.pos + srcSize < resLen.toNat := by
  have hres : resLen.toNat < 65536 := resLen.toNat_lt
  rcases s with ⟨dst, pos⟩
  cases dst with
  | none => simp [pfPutMem_of_null, putBytes_of_null]
  | some bytes =>
      simp only at hfits
      have hbytewise := @putBytes_of_room bytes pos resLen.toNat
        (slice src 0 srcSize) (by simpa using hfits) hres
      rw [slice_length] at hbytewise
      rw [hbytewise]
      by_cases hroom : pos + srcSize < resLen.toNat
      · simp [pfPutMem_of_room hroom hres, hroom]
      · rw [pfPutMem_of_full (by omega)]
        constructor
        · intro h
          have hpos : pos = pos + srcSize := congrArg PutState.pos h
          exact Or.inr (Or.inl (by omega))
        · rintro (hnull | hzero | hbelow)
          · simp at hnull
          · simp [hzero]
          · exact absurd hbelow hroom

theorem pfPutMem_eq_putBytes_of_three :
    pfPutMem (fun _ => 7) 3 (10 : UInt16).toNat ⟨some fun _ => 0, 7⟩ =
        putBytes (10 : UInt16).toNat (slice (fun _ => 7) 0 3)
          ⟨some fun _ => 0, 7⟩ ↔
      (⟨some fun _ => 0, 7⟩ : PutState).bytes = none ∨ 3 = 0 ∨
        7 + 3 < (10 : UInt16).toNat :=
  pfPutMem_eq_putBytes_iff (fun _ => 7) 3 10 ⟨some fun _ => 0, 7⟩ (by decide)

theorem pfPutMem_refuses_exact_fit :
    ¬ ∀ (src : Memory) (srcSize : ℕ) (resLen : UInt16) (s : PutState),
      s.pos + srcSize ≤ resLen.toNat →
        pfPutMem src srcSize resLen.toNat s =
          putBytes resLen.toNat (slice src 0 srcSize) s := by
  intro h
  have hpos := congrArg PutState.pos
    (h (fun _ => 7) 1 1 ⟨some fun _ => 0, 0⟩ (by decide))
  have hbulk : (pfPutMem (fun _ => 7) 1 1 ⟨some fun _ => 0, 0⟩).pos = 0 := by
    decide
  have hbytewise : (putBytes 1 (slice (fun _ => 7) 0 1)
      ⟨some fun _ => 0, 0⟩).pos = 1 := by
    decide
  exact absurd (hbulk.symm.trans (hpos.trans hbytewise)) (by decide)

/-! ## Integers -/

def integerBytes (isBigEndian : Bool) (width val : ℕ) : List UInt8 :=
  if isBigEndian then bigEndian width val else littleEndian width val

def integerValue (isBigEndian : Bool) (bytes : List UInt8) : ℕ :=
  if isBigEndian then bigEndianValue bytes else littleEndianValue bytes

@[simp] theorem integerBytes_length (isBigEndian : Bool) (width val : ℕ) :
    (integerBytes isBigEndian width val).length = width := by
  unfold integerBytes
  split_ifs <;> simp

theorem integerValue_integerBytes
    {isBigEndian : Bool} {width val : ℕ} (h : val < 256 ^ width) :
    integerValue isBigEndian (integerBytes isBigEndian width val) = val := by
  unfold integerValue integerBytes
  split_ifs
  · exact bigEndianValue_bigEndian h
  · exact littleEndianValue_littleEndian h

theorem pfPutUint16_eq_putBytes
    (isBigEndian : Bool) (val resLen : ℕ) (s : PutState) :
    pfPutUint16 isBigEndian val resLen s =
      putBytes resLen (integerBytes isBigEndian 2 val) s := by
  cases isBigEndian <;>
    simp [pfPutUint16, putBytes, integerBytes, bigEndian, littleEndian]

theorem pfPutUint32_eq_putBytes
    (isBigEndian : Bool) (val resLen : ℕ) (s : PutState) :
    pfPutUint32 isBigEndian val resLen s =
      putBytes resLen (integerBytes isBigEndian 4 val) s := by
  cases isBigEndian <;>
    simp [pfPutUint32, putBytes, integerBytes, bigEndian, littleEndian,
      Nat.div_div_eq_div_mul]

/-- Either `width` bytes that decode to `val` stand where the position was and
the position is behind them, or nothing has happened. -/
def AllOrNothing (isBigEndian : Bool) (width val : ℕ) (s after : PutState) :
    Prop :=
  (∃ bytes written, s.bytes = some bytes ∧ written.length = width ∧
    integerValue isBigEndian written = val ∧
    after = ⟨some (store bytes s.pos written), s.pos + width⟩) ∨
  after = s

theorem allOrNothing_putBytes_iff
    {isBigEndian : Bool} {width val resLen : ℕ} {s : PutState}
    (hval : val < 256 ^ width) (hres : resLen < 65536)
    (hpos : s.pos ≤ resLen) :
    AllOrNothing isBigEndian width val s
        (putBytes resLen (integerBytes isBigEndian width val) s) ↔
      s.bytes = none ∨ s.pos = resLen ∨ s.pos + width ≤ resLen := by
  rcases s with ⟨dst, pos⟩
  simp only at hpos
  cases dst with
  | none => simp [AllOrNothing, putBytes_of_null]
  | some bytes =>
      constructor
      · intro h
        have hafter := @putBytes_pos bytes pos resLen
          (integerBytes isBigEndian width val) hpos hres
        rw [integerBytes_length] at hafter
        rcases h with ⟨_, _, -, -, -, hwritten⟩ | hsame
        · rw [hwritten] at hafter
          simp only at hafter ⊢
          omega
        · rw [hsame] at hafter
          simp only at hafter ⊢
          omega
      · rintro (hnull | hfull | hroom)
        · simp at hnull
        · exact Or.inr (putBytes_of_full (Nat.le_of_eq hfull.symm))
        · refine Or.inl ⟨bytes, integerBytes isBigEndian width val, rfl,
            integerBytes_length _ _ _, integerValue_integerBytes hval, ?_⟩
          rw [putBytes_of_room (by simpa using hroom) hres,
            integerBytes_length]

/-- Integers are written whole or not at all unless the end of the buffer falls
between their bytes. -/
theorem pfPutUint_allOrNothing_iff
    (isBigEndian : Bool) (val16 : UInt16) (val32 : UInt32) (resLen : UInt16)
    (s : PutState) (hpos : s.pos ≤ resLen.toNat) :
    (AllOrNothing isBigEndian 2 val16.toNat s
        (pfPutUint16 isBigEndian val16.toNat resLen.toNat s) ↔
      s.bytes = none ∨ s.pos = resLen.toNat ∨ s.pos + 2 ≤ resLen.toNat) ∧
    (AllOrNothing isBigEndian 4 val32.toNat s
        (pfPutUint32 isBigEndian val32.toNat resLen.toNat s) ↔
      s.bytes = none ∨ s.pos = resLen.toNat ∨ s.pos + 4 ≤ resLen.toNat) := by
  rw [pfPutUint16_eq_putBytes, pfPutUint32_eq_putBytes]
  constructor
  · exact allOrNothing_putBytes_iff val16.toNat_lt resLen.toNat_lt hpos
  · exact allOrNothing_putBytes_iff val32.toNat_lt resLen.toNat_lt hpos

theorem pfPutUint_allOrNothing_near_the_end :
    (AllOrNothing true 2 (513 : UInt16).toNat ⟨some fun _ => 0, 7⟩
        (pfPutUint16 true (513 : UInt16).toNat (10 : UInt16).toNat
          ⟨some fun _ => 0, 7⟩) ↔
      (⟨some fun _ => 0, 7⟩ : PutState).bytes = none ∨
        7 = (10 : UInt16).toNat ∨ 7 + 2 ≤ (10 : UInt16).toNat) ∧
    (AllOrNothing true 4 (67305985 : UInt32).toNat ⟨some fun _ => 0, 7⟩
        (pfPutUint32 true (67305985 : UInt32).toNat (10 : UInt16).toNat
          ⟨some fun _ => 0, 7⟩) ↔
      (⟨some fun _ => 0, 7⟩ : PutState).bytes = none ∨
        7 = (10 : UInt16).toNat ∨ 7 + 4 ≤ (10 : UInt16).toNat) :=
  pfPutUint_allOrNothing_iff true 513 67305985 10 ⟨some fun _ => 0, 7⟩
    (by decide)

theorem pfPutUint16_half_written :
    ¬ ∀ (isBigEndian : Bool) (val : UInt16) (resLen : UInt16) (s : PutState),
      s.pos ≤ resLen.toNat →
        AllOrNothing isBigEndian 2 val.toNat s
          (pfPutUint16 isBigEndian val.toNat resLen.toNat s) := by
  intro h
  have hpos : (pfPutUint16 true 513 1 ⟨some fun _ => 0, 0⟩).pos = 1 := by decide
  rcases h true 513 1 ⟨some fun _ => 0, 0⟩ (by decide) with
    ⟨_, _, -, -, -, hwritten⟩ | hsame
  · have hbad : 1 = 0 + 2 := hpos.symm.trans (congrArg PutState.pos hwritten)
    exact absurd hbad (by decide)
  · have hbad : 1 = 0 := hpos.symm.trans (congrArg PutState.pos hsame)
    exact absurd hbad (by decide)

end ProfinetIo
