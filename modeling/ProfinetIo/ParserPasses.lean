import ProfinetIo.ExtractBlocksBounds
import ProfinetIo.ParserTermination
import Mathlib.Tactic

/-!
# The parser pass by pass

The state after a number of passes, as a function of the memory the parser
reads: where its two cursors stand, which IP parameter headers it has acted on,
and which addresses it has stored for them.  Memories that agree on what has
been read so far lead to the same pass, and zeros behind the payload bring the
index forward least.
-/

namespace ProfinetIo

open ByteMemory WhileLoop

/-! ## Where the passes begin -/

section Passes

variable {mem : Memory} {device : Device}

@[simp] theorem stateAfter_zero (mem : Memory) (device : Device) :
    stateAfter mem device 0 = ParserState.initial device := rfl

theorem stateAfter_succ (mem : Memory) (device : Device) (k : ℕ) :
    stateAfter mem device (k + 1) =
      passItem mem (itemAt mem (stateAfter mem device k).pl)
        (stateAfter mem device k) := by
  rw [stateAfter, Function.iterate_succ_apply', ← stateAfter,
    extractPass_eq_passItem]

theorem stateAfter_pl_succ (mem : Memory) (device : Device) (k : ℕ) :
    (stateAfter mem device (k + 1)).pl =
      (stateAfter mem device k).pl +
        (itemAt mem (stateAfter mem device k).pl).size := by
  rw [stateAfter_succ]
  rfl

theorem stateAfter_i_succ (mem : Memory) (device : Device) (k : ℕ) :
    (stateAfter mem device (k + 1)).i =
      (stateAfter mem device k).i +
        (itemAt mem (stateAfter mem device k).pl).steps := by
  rw [stateAfter_succ]
  rfl

theorem Item.size_pos (item : Item) : 0 < item.size := by
  cases item <;> simp [Item.size]

theorem stateAfter_pl_strictMono (mem : Memory) (device : Device) :
    StrictMono fun k => (stateAfter mem device k).pl := by
  apply strictMono_nat_of_lt_succ
  intro k
  have hpos := (itemAt mem (stateAfter mem device k).pl).size_pos
  rw [stateAfter_pl_succ]
  omega

theorem stateAfter_i_strictMono (mem : Memory) (device : Device) :
    StrictMono fun k => (stateAfter mem device k).i := by
  apply strictMono_nat_of_lt_succ
  intro k
  have hlt := extractPass_i_lt mem (stateAfter mem device k)
  rwa [stateAfter_succ, ← extractPass_eq_passItem]

theorem lt_of_running
    {length k passes : ℕ} (hk : (stateAfter mem device k).i < length)
    (hstop : length ≤ (stateAfter mem device passes).i) : k < passes := by
  by_contra hlate
  have hmono := (stateAfter_i_strictMono mem device).monotone
    (Nat.not_lt.mp hlate)
  exact absurd (hstop.trans hmono) (Nat.not_le.mpr hk)

/-- The parser returns the state of the pass at which `i` gets to the
length. -/
theorem extractBlocksFromPacket_eq_stateAfter
    {payload : List UInt8} {heap : Memory} {passes : ℕ}
    (hstop : payload.length ≤
      (stateAfter (payloadCopy payload heap) device passes).i)
    (hrunning : ∀ k < passes,
      (stateAfter (payloadCopy payload heap) device k).i < payload.length) :
    extractBlocksFromPacket payload device heap =
      some (stateAfter (payloadCopy payload heap) device passes) := by
  obtain ⟨made, -, hresult, hmade, hbefore⟩ :=
    exists_passes payload device heap
  have hsame : made = passes := by
    rcases lt_trichotomy made passes with hlt | heq | hgt
    · have := hrunning made hlt
      omega
    · exact heq
    · have := hbefore passes hgt
      omega
  rw [hresult, hsame]

theorem stateAfter_of_parserRun
    {length : ℕ} {items before after : List Item}
    (hrun : ParserRun length mem device items)
    (hsplit : items = before ++ after) :
    stateAfter mem device before.length =
      replay (passItem mem) before (ParserState.initial device) := by
  induction before using List.reverseRecOn generalizing after with
  | nil => rfl
  | append_singleton before item ih =>
      have hprevious := @ih (item :: after) (by simpa using hsplit)
      have hitem := hrun.labelled before item after (by simpa using hsplit)
      rw [List.length_append, List.length_singleton, stateAfter_succ,
        hprevious, hitem]
      simp [replay]

end Passes

section Items

variable {device : Device} {items : List Item}

theorem ParserRun.position
    {length : ℕ} {mem : Memory} {before after : List Item}
    (hrun : ParserRun length mem device items)
    (hsplit : items = before ++ after) :
    (stateAfter mem device before.length).pl = sizeOfItems before ∧
      (stateAfter mem device before.length).i = stepsOfItems before ∧
      (stateAfter mem device before.length).headers =
        headersOfItems 0 before := by
  rw [stateAfter_of_parserRun hrun hsplit, replay_pl, replay_i, replay_headers]
  simp [ParserState.initial]

theorem exists_split_of_lt {k : ℕ} (hk : k < items.length) :
    ∃ before item after, items = before ++ item :: after ∧
      before.length = k := by
  refine ⟨items.take k, items[k], items.drop (k + 1), by simp, ?_⟩
  rw [List.length_take]
  omega

theorem ParserRun.passes
    {length : ℕ} {mem : Memory} (hrun : ParserRun length mem device items) :
    length ≤ (stateAfter mem device items.length).i ∧
      ∀ k < items.length, (stateAfter mem device k).i < length := by
  obtain ⟨hpasses, hstop⟩ := parserRun_iff.mp hrun
  constructor
  · have hposition := hrun.position (List.append_nil items).symm
    rw [hposition.2.1]
    exact hstop
  · intro k hk
    obtain ⟨before, item, after, hsplit, rfl⟩ := exists_split_of_lt hk
    rw [(hrun.position hsplit).2.1]
    exact (hpasses before item after hsplit).1

end Items

/-! ## The stored addresses -/

def ipParOffsets (headers : List (ℕ × Block)) : List ℕ :=
  (headers.filter fun h => h.2.kind = .ipPar).map Prod.fst

def lastStored (valueAt : ℕ → List UInt8) (stored : List UInt8)
    (offsets : List ℕ) : List UInt8 :=
  (offsets.getLast?.map valueAt).getD stored

section Stores

variable {mem : Memory} {device : Device}

theorem blockKind_eq_ipPar_iff {option suboption : UInt8} :
    blockKind option suboption = .ipPar ↔
      option = pfDcpOptIp ∧ suboption = pfDcpSubIpPar := by
  unfold blockKind
  split_ifs <;> simp_all

def storeAt (mem : Memory) (pl : ℕ) : List ℕ :=
  if (decodeHeader mem pl).kind = .ipPar then [pl] else []

theorem option_ne_zero_of_ipPar
    {pl : ℕ} (h : (decodeHeader mem pl).kind = .ipPar) : mem pl ≠ 0 := by
  have hoption := (blockKind_eq_ipPar_iff.mp h).1
  change mem pl = pfDcpOptIp at hoption
  rw [hoption]
  decide

theorem itemAt_of_ipPar
    {pl : ℕ} (h : (decodeHeader mem pl).kind = .ipPar) :
    itemAt mem pl = .block (decodeHeader mem pl) := by
  rw [itemAt, if_neg (option_ne_zero_of_ipPar h)]

theorem ipParOffsets_append (left right : List (ℕ × Block)) :
    ipParOffsets (left ++ right) = ipParOffsets left ++ ipParOffsets right := by
  simp [ipParOffsets]

theorem ipParOffsets_succ (mem : Memory) (device : Device) (k : ℕ) :
    ipParOffsets (stateAfter mem device (k + 1)).headers =
      ipParOffsets (stateAfter mem device k).headers ++
        storeAt mem (stateAfter mem device k).pl := by
  rw [stateAfter_succ]
  simp only [passItem, ipParOffsets_append]
  congr 1
  by_cases hkind :
      (decodeHeader mem (stateAfter mem device k).pl).kind = .ipPar
  · simp [itemAt_of_ipPar hkind, storeAt, ipParOffsets, hkind]
  · by_cases hzero : mem (stateAfter mem device k).pl = 0
    · simp [itemAt, hzero, storeAt, ipParOffsets, hkind]
    · simp [itemAt, hzero, storeAt, ipParOffsets, hkind]

theorem mem_ipParOffsets_iff {k offset : ℕ} :
    offset ∈ ipParOffsets (stateAfter mem device k).headers ↔
      ∃ j < k, (stateAfter mem device j).pl = offset ∧
        (decodeHeader mem offset).kind = .ipPar := by
  induction k with
  | zero => simp [ParserState.initial, ipParOffsets]
  | succ k ih =>
      have hnew : offset ∈ storeAt mem (stateAfter mem device k).pl ↔
          (stateAfter mem device k).pl = offset ∧
            (decodeHeader mem offset).kind = .ipPar := by
        unfold storeAt
        split_ifs with hkind
        · rw [List.mem_singleton]
          constructor
          · rintro rfl
            exact ⟨rfl, hkind⟩
          · rintro ⟨heq, -⟩
            exact heq.symm
        · simp only [List.not_mem_nil, false_iff]
          rintro ⟨rfl, hipPar⟩
          exact hkind hipPar
      rw [ipParOffsets_succ, List.mem_append, ih, hnew]
      constructor
      · rintro (⟨j, hj, hpl⟩ | hpl)
        · exact ⟨j, by omega, hpl⟩
        · exact ⟨k, by omega, hpl⟩
      · rintro ⟨j, hj, hpl⟩
        rcases Nat.lt_succ_iff_lt_or_eq.mp hj with hlt | rfl
        · exact Or.inl ⟨j, hlt, hpl⟩
        · exact Or.inr hpl

theorem ipParOffsets_filter_eq_self
    {passes offset : ℕ}
    (hearlier : ∀ j < passes, (stateAfter mem device j).pl < offset) :
    (ipParOffsets (stateAfter mem device passes).headers).filter (· < offset) =
      ipParOffsets (stateAfter mem device passes).headers := by
  rw [List.filter_eq_self]
  intro start hstart
  obtain ⟨j, hj, rfl, -⟩ := mem_ipParOffsets_iff.mp hstart
  simpa using hearlier j hj

/-- The headers before an offset are those of the passes before the first one
that begins at or past it. -/
theorem ipParOffsets_filter_lt
    {k passes offset : ℕ} (hk : k ≤ passes)
    (hreached : offset ≤ (stateAfter mem device k).pl)
    (hearlier : ∀ j < k, (stateAfter mem device j).pl < offset) :
    (ipParOffsets (stateAfter mem device passes).headers).filter (· < offset) =
      ipParOffsets (stateAfter mem device k).headers := by
  induction passes, hk using Nat.le_induction with
  | base => exact ipParOffsets_filter_eq_self hearlier
  | succ passes hk ih =>
      have hlate : offset ≤ (stateAfter mem device passes).pl :=
        hreached.trans ((stateAfter_pl_strictMono mem device).monotone hk)
      have hnone : (storeAt mem (stateAfter mem device passes).pl).filter
          (· < offset) = [] := by
        unfold storeAt
        split_ifs
        · simpa using hlate
        · rfl
      rw [ipParOffsets_succ, List.filter_append, ih, hnone, List.append_nil]

theorem lastStored_congr
    {valueAt valueAt' : ℕ → List UInt8} {stored : List UInt8}
    {offsets : List ℕ}
    (h : ∀ offset ∈ offsets, valueAt offset = valueAt' offset) :
    lastStored valueAt stored offsets = lastStored valueAt' stored offsets := by
  unfold lastStored
  cases hlast : offsets.getLast? with
  | none => rfl
  | some offset =>
      have hmem := List.mem_of_getLast? hlast
      simp [h offset hmem]

theorem stateAfter_addresses (mem : Memory) (device : Device) (k : ℕ) :
    (stateAfter mem device k).device.addresses =
      lastStored (fun offset => slice mem (offset + 6) 12) device.addresses
        (ipParOffsets (stateAfter mem device k).headers) := by
  induction k with
  | zero => rfl
  | succ k ih =>
      rw [ipParOffsets_succ, stateAfter_succ]
      by_cases hkind :
          (decodeHeader mem (stateAfter mem device k).pl).kind = .ipPar
      · simp [itemAt_of_ipPar hkind, storeAt, lastStored, passItem, hkind,
          copyAddresses_addresses]
      · rw [storeAt, if_neg hkind, List.append_nil, ← ih]
        by_cases hzero : mem (stateAfter mem device k).pl = 0
        · simp [itemAt, hzero, passItem]
        · simp [itemAt, hzero, passItem, hkind]

end Stores

/-! ## Walks over memories that agree -/

section Agreement

variable {mem mem' : Memory} {device : Device}

/-- A pass is moved by the first byte it looks at and, unless that is zero, by
the three bytes behind it. -/
theorem itemAt_moves
    {pl : ℕ} (hfirst : mem' pl = mem pl)
    (hheader : mem pl ≠ 0 → ∀ k < 4, mem' (pl + k) = mem (pl + k)) :
    (itemAt mem' pl).size = (itemAt mem pl).size ∧
      (itemAt mem' pl).steps = (itemAt mem pl).steps := by
  by_cases hzero : mem pl = 0
  · simp [itemAt, hfirst, hzero]
  · have hbytes := hheader hzero
    have h0 : mem' pl = mem pl := hbytes 0 (by omega)
    have hlength : (decodeHeader mem' pl).blockLength =
        (decodeHeader mem pl).blockLength := by
      simp [decodeHeader, hbytes 2 (by omega), hbytes 3 (by omega)]
    have hkind : (decodeHeader mem' pl).kind = (decodeHeader mem pl).kind := by
      simp [Block.kind, decodeHeader, h0, hbytes 1 (by omega)]
    simp [itemAt, hfirst, hzero, Item.size, Item.steps, Block.branchMove,
      hlength, hkind]

theorem four_le_size {pl : ℕ} (h : mem pl ≠ 0) : 4 ≤ (itemAt mem pl).size := by
  simp [itemAt, h, Item.size]

theorem stateAfter_agrees
    {k : ℕ} (h : ∀ a < (stateAfter mem device k).pl, mem' a = mem a) :
    (stateAfter mem' device k).pl = (stateAfter mem device k).pl ∧
      (stateAfter mem' device k).i = (stateAfter mem device k).i := by
  induction k with
  | zero => exact ⟨rfl, rfl⟩
  | succ k ih =>
      have hsize := (itemAt mem (stateAfter mem device k).pl).size_pos
      simp only [stateAfter_pl_succ] at h
      obtain ⟨hpl, hi⟩ := ih fun a ha => h a (by omega)
      have hmoves : (itemAt mem' (stateAfter mem device k).pl).size =
            (itemAt mem (stateAfter mem device k).pl).size ∧
          (itemAt mem' (stateAfter mem device k).pl).steps =
            (itemAt mem (stateAfter mem device k).pl).steps := by
        apply itemAt_moves
        · exact h _ (by omega)
        · intro hblock j hj
          have hfour := four_le_size hblock
          exact h _ (by omega)
      simp only [stateAfter_pl_succ, stateAfter_i_succ, hpl, hi, hmoves.1,
        hmoves.2, and_self]

theorem blockKind_of_suboption_zero {option : UInt8} (suboption : UInt8)
    (h : blockKind option 0 ≠ .silent) :
    blockKind option suboption = blockKind option 0 := by
  have hip : option ≠ pfDcpOptIp := by
    rintro rfl
    exact h (by decide)
  have hprops : option ≠ pfDcpOptDeviceProperties := by
    rintro rfl
    exact h (by decide)
  have hcontrol : option ≠ pfDcpOptControl := by
    rintro rfl
    exact h (by decide)
  simp [blockKind, hip, hprops, hcontrol]

theorem charLength_zero_le (high low : UInt8) :
    charLength 0 0 ≤ charLength high low ∧
      charLength high 0 ≤ charLength high low := by
  have hzero : charToUint16 0 = 0 := by decide
  constructor
  · simp [charLength, hzero]
  · simp only [charLength, hzero, Nat.or_zero]
    exact Nat.left_le_or

end Agreement

section Zeroed

variable {payload : List UInt8} {device : Device}

def zeroed (payload : List UInt8) : Memory := payloadCopy payload fun _ => 0

theorem payloadCopy_eq_zeroed
    {a : ℕ} (ha : a < payload.length) (heap : Memory) :
    payloadCopy payload heap a = zeroed payload a := by
  rw [zeroed, payloadCopy_inside ha, payloadCopy_inside ha]

theorem payloadCopy_outside
    {a : ℕ} (ha : payload.length ≤ a) (heap : Memory) :
    payloadCopy payload heap a = heap a := by
  rw [payloadCopy, store_outside (by omega)]

theorem zeroed_outside {a : ℕ} (ha : payload.length ≤ a) :
    zeroed payload a = 0 :=
  payloadCopy_outside ha _

/-- Zeros behind the payload move the index least. -/
theorem zeroed_steps_le
    {pl : ℕ} (hpl : pl < payload.length) (heap : Memory) :
    (itemAt (zeroed payload) pl).steps ≤
      (itemAt (payloadCopy payload heap) pl).steps := by
  have hfirst := payloadCopy_eq_zeroed hpl heap
  by_cases hroom : pl + 4 ≤ payload.length
  · have hmoves := @itemAt_moves (zeroed payload) (payloadCopy payload heap) pl
      hfirst fun _ k hk => payloadCopy_eq_zeroed (by omega) heap
    exact hmoves.2.ge
  by_cases hzero : zeroed payload pl = 0
  · simp [itemAt, hfirst, hzero]
  by_cases hsilent : (decodeHeader (zeroed payload) pl).kind = .silent
  · simp [itemAt, hfirst, hzero, Item.steps, Block.branchMove, hsilent]
  · have hkind : (decodeHeader (payloadCopy payload heap) pl).kind =
        (decodeHeader (zeroed payload) pl).kind := by
      by_cases hsub : pl + 1 < payload.length
      · simp [Block.kind, decodeHeader, hfirst,
          payloadCopy_eq_zeroed hsub heap]
      · have hnone := @zeroed_outside payload (pl + 1) (by omega)
        simp only [Block.kind, decodeHeader, hfirst, hnone] at hsilent ⊢
        exact blockKind_of_suboption_zero _ hsilent
    have hlow := @zeroed_outside payload (pl + 3) (by omega)
    have hlength : (decodeHeader (zeroed payload) pl).blockLength ≤
        (decodeHeader (payloadCopy payload heap) pl).blockLength := by
      by_cases hhigh : pl + 2 < payload.length
      · simp only [decodeHeader, hlow, payloadCopy_eq_zeroed hhigh heap]
        exact (charLength_zero_le _ _).2
      · have hhigh' := @zeroed_outside payload (pl + 2) (by omega)
        simp only [decodeHeader, hlow, hhigh']
        exact (charLength_zero_le _ _).1
    simp only [itemAt, hfirst, hzero, if_false, Item.steps, Block.branchMove,
      hkind, hsilent]
    omega

end Zeroed

end ProfinetIo
