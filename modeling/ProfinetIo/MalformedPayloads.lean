import ProfinetIo.ParserPasses
import Mathlib.Tactic

/-!
# Malformed payloads

A payload is well formed when it divides into blocks that lie within it, with
zero bytes between them, and its IP parameter blocks have a length of 14.  The
first block that breaks these rules should leave the addresses of the device
as they are, and the addresses stored for an IP parameter block should be
bytes of that block.

The parser compares neither the length of an IP parameter block nor the end of
the payload with what it is about to read.  What it stores is decided by the
offsets of the IP parameter headers it comes to, and these depend on the heap
as soon as the walk leaves the payload.
-/

namespace ProfinetIo

open ByteMemory WhileLoop

/-! ## The grammar of a payload -/

def wireLength (payload : List UInt8) (offset : ℕ) : ℕ :=
  (payload.getD (offset + 2) 0).toNat * 256 +
    (payload.getD (offset + 3) 0).toNat

structure WellFormedBlock (payload : List UInt8) (offset : ℕ) : Prop where
  header : offset + 4 ≤ payload.length
  content : offset + 4 + wireLength payload offset ≤ payload.length
  ipPar : blockKind (payload.getD offset 0) (payload.getD (offset + 1) 0) =
    .ipPar → wireLength payload offset = 14

/-- The offsets at which a block, a zero byte or the end of the payload is
expected, as long as everything before them is well formed. -/
inductive BlockStart (payload : List UInt8) : ℕ → Prop where
  | first : BlockStart payload 0
  | afterPadding {offset : ℕ} (start : BlockStart payload offset)
      (inside : offset < payload.length)
      (padding : payload.getD offset 0 = 0) :
      BlockStart payload (offset + 1)
  | afterBlock {offset : ℕ} (start : BlockStart payload offset)
      (option : payload.getD offset 0 ≠ 0)
      (block : WellFormedBlock payload offset) :
      BlockStart payload (offset + 4 + wireLength payload offset)

def WellFormedPayload (payload : List UInt8) : Prop :=
  BlockStart payload payload.length

structure MalformedAt (payload : List UInt8) (offset : ℕ) : Prop where
  start : BlockStart payload offset
  inside : offset < payload.length
  option : payload.getD offset 0 ≠ 0
  malformed : ¬ WellFormedBlock payload offset

theorem wellFormed_or_malformed_of_start
    {payload : List UInt8} {offset : ℕ} (hstart : BlockStart payload offset)
    (hle : offset ≤ payload.length) :
    WellFormedPayload payload ∨ ∃ offset, MalformedAt payload offset := by
  induction hgap : payload.length - offset using Nat.strong_induction_on
    generalizing offset with
  | _ gap ih =>
      by_cases hend : offset = payload.length
      · left
        rwa [hend] at hstart
      have hinside : offset < payload.length := by omega
      by_cases hzero : payload.getD offset 0 = 0
      · have hnext := hstart.afterPadding hinside hzero
        exact ih _ (by omega) hnext (by omega) rfl
      by_cases hblock : WellFormedBlock payload offset
      · have hnext := hstart.afterBlock hzero hblock
        have hcontent := hblock.content
        exact ih _ (by omega) hnext hcontent rfl
      · exact Or.inr ⟨offset, hstart, hinside, hzero, hblock⟩

/-- Of two such offsets the later one lies behind the zero byte or the
well-formed block at the earlier one. -/
theorem BlockStart.step_of_lt
    {payload : List UInt8} {offset later : ℕ}
    (hstart : BlockStart payload offset) (hlater : BlockStart payload later)
    (hlt : offset < later) :
    payload.getD offset 0 = 0 ∨
      WellFormedBlock payload offset ∧
        offset + 4 + wireLength payload offset ≤ later := by
  induction later using Nat.strong_induction_on generalizing offset with
  | _ later ih =>
      cases hlater with
      | first => omega
      | @afterPadding previous hprevious _ hpadding =>
          rcases Nat.lt_succ_iff_lt_or_eq.mp hlt with hbefore | rfl
          · rcases ih previous (by omega) hstart hprevious hbefore with
              hzero | ⟨hblock, hle⟩
            · exact Or.inl hzero
            · exact Or.inr ⟨hblock, by omega⟩
          · exact Or.inl hpadding
      | @afterBlock previous hprevious hoption hblock =>
          rcases lt_trichotomy offset previous with hbefore | rfl | hinside
          · rcases ih previous (by omega) hstart hprevious hbefore with
              hzero | ⟨hearlier, hle⟩
            · exact Or.inl hzero
            · exact Or.inr ⟨hearlier, by omega⟩
          · exact Or.inr ⟨hblock, le_refl _⟩
          · rcases ih offset hlt hprevious hstart hinside with
              hzero | ⟨-, hle⟩
            · contradiction
            · omega

/-- A payload is well formed unless it has a malformed block. -/
theorem not_wellFormedPayload_iff {payload : List UInt8} :
    ¬ WellFormedPayload payload ↔ ∃ offset, MalformedAt payload offset := by
  constructor
  · intro h
    have hcases := wellFormed_or_malformed_of_start BlockStart.first
      (Nat.zero_le payload.length)
    exact hcases.resolve_left h
  · rintro ⟨offset, hmalformed⟩ hwell
    rcases hmalformed.start.step_of_lt hwell hmalformed.inside with
      hzero | ⟨hblock, -⟩
    · exact hmalformed.option hzero
    · exact hmalformed.malformed hblock

/-! ## What is asked of the parser -/

/-- The first pass that begins at or past a malformed block finds the
addresses that are there at the end, and the twelve bytes stored for a header
lie in its block and in the payload. -/
structure LeavesDeviceAlone (payload : List UInt8) (device : Device)
    (heap : Memory) (s : ParserState) : Prop where
  kept : ∀ offset, MalformedAt payload offset → ∀ k,
    (stateAfter (payloadCopy payload heap) device k).i < payload.length →
    offset ≤ (stateAfter (payloadCopy payload heap) device k).pl →
    (∀ j < k, (stateAfter (payloadCopy payload heap) device j).pl < offset) →
    s.device.addresses =
      (stateAfter (payloadCopy payload heap) device k).device.addresses
  own : ∀ h ∈ s.headers, h.2.kind = .ipPar →
    h.1 + 6 + 12 ≤ h.1 + 4 + wireLength payload h.1 ∧
      h.1 + 6 + 12 ≤ payload.length

def DeviceLeftAlone (payload : List UInt8) (device : Device) : Prop :=
  ∀ heap, ∃ s, extractBlocksFromPacket payload device heap = some s ∧
    LeavesDeviceAlone payload device heap s

/-! ## The condition -/

def ipParValue (payload : List UInt8) (offset : ℕ) : List UInt8 :=
  (payload.drop (offset + 6)).take 12

/-- IP parameter headers with room for their twelve bytes.  The last of them,
if it comes after a malformed block, repeats the bytes of the last one before
that block. -/
structure HarmlessIpPars (payload : List UInt8) (device : Device)
    (offsets : List ℕ) : Prop where
  room : ∀ offset ∈ offsets,
    14 ≤ wireLength payload offset ∧ offset + 18 ≤ payload.length
  repeated : ∀ offset, MalformedAt payload offset →
    lastStored (ipParValue payload) device.addresses offsets =
      lastStored (ipParValue payload) device.addresses
        (offsets.filter (· < offset))

/-- The items of the payload that the two cursors go through.  Each begins in
the payload, an IP block with its suboption. -/
structure Shielded (payload : List UInt8) (device : Device)
    (items : List Item) : Prop where
  chained : ∀ before item after, items = before ++ item :: after →
    payloadItem payload (sizeOfItems before) = item
  counted : ∀ before item after, items = before ++ item :: after →
    stepsOfItems before < payload.length
  finished : payload.length ≤ stepsOfItems items
  begins : ∀ before item after, items = before ++ item :: after →
    sizeOfItems before < payload.length
  decided : ∀ before b after, items = before ++ .block b :: after →
    b.option = pfDcpOptIp → sizeOfItems before + 1 < payload.length
  ipPars : HarmlessIpPars payload device (ipParOffsets (headersOfItems 0 items))

/-! ## What the heap can change -/

section Heaps

variable {payload : List UInt8} {device : Device} {passes : ℕ}

def PassesInside (payload : List UInt8) (device : Device) (passes : ℕ) :
    Prop :=
  ∀ k < passes,
    (stateAfter (zeroed payload) device k).pl < payload.length ∧
      (zeroed payload (stateAfter (zeroed payload) device k).pl = pfDcpOptIp →
        (stateAfter (zeroed payload) device k).pl + 1 < payload.length)

theorem storeAt_payloadCopy
    {pl : ℕ} (hpl : pl < payload.length)
    (hip : zeroed payload pl = pfDcpOptIp → pl + 1 < payload.length)
    (heap : Memory) :
    storeAt (payloadCopy payload heap) pl = storeAt (zeroed payload) pl := by
  have hfirst := payloadCopy_eq_zeroed hpl heap
  unfold storeAt
  simp only [Block.kind, blockKind_eq_ipPar_iff, decodeHeader, hfirst]
  by_cases hoption : zeroed payload pl = pfDcpOptIp
  · rw [payloadCopy_eq_zeroed (hip hoption) heap]
  · simp [hoption]

/-- On any heap the passes go the same way, except that the last one may move
the index further. -/
theorem stateAfter_follows
    (hinside : PassesInside payload device passes) (heap : Memory)
    {k : ℕ} (hk : k ≤ passes) :
    ipParOffsets (stateAfter (payloadCopy payload heap) device k).headers =
        ipParOffsets (stateAfter (zeroed payload) device k).headers ∧
      (stateAfter (zeroed payload) device k).i ≤
        (stateAfter (payloadCopy payload heap) device k).i ∧
      ((stateAfter (zeroed payload) device k).pl < payload.length →
        (stateAfter (payloadCopy payload heap) device k).pl =
            (stateAfter (zeroed payload) device k).pl ∧
          (stateAfter (payloadCopy payload heap) device k).i =
            (stateAfter (zeroed payload) device k).i) := by
  induction k with
  | zero => exact ⟨rfl, le_refl _, fun _ => ⟨rfl, rfl⟩⟩
  | succ k ih =>
      obtain ⟨hoffsets, -, hsame⟩ := ih (by omega)
      obtain ⟨hlt, hip⟩ := hinside k (by omega)
      obtain ⟨hpl, hi⟩ := hsame hlt
      have hsteps := zeroed_steps_le hlt heap
      refine ⟨?_, ?_, ?_⟩
      · rw [ipParOffsets_succ, ipParOffsets_succ, hoffsets, hpl,
          storeAt_payloadCopy hlt hip]
      · rw [stateAfter_i_succ, stateAfter_i_succ, hpl, hi]
        omega
      · intro hnext
        rw [stateAfter_pl_succ] at hnext
        have hmoves := @itemAt_moves (zeroed payload)
          (payloadCopy payload heap) _ (payloadCopy_eq_zeroed hlt heap)
          fun hblock j hj => payloadCopy_eq_zeroed
            (by have hfour := four_le_size hblock; omega) heap
        simp only [stateAfter_pl_succ, stateAfter_i_succ, hpl, hi, hmoves.1,
          hmoves.2, and_self]

theorem passes_follow
    (hinside : PassesInside payload device passes)
    (hstop : payload.length ≤ (stateAfter (zeroed payload) device passes).i)
    (hrunning : ∀ k < passes,
      (stateAfter (zeroed payload) device k).i < payload.length)
    (heap : Memory) :
    payload.length ≤
        (stateAfter (payloadCopy payload heap) device passes).i ∧
      ∀ k < passes,
        (stateAfter (payloadCopy payload heap) device k).i <
          payload.length := by
  constructor
  · obtain ⟨-, hle, -⟩ := stateAfter_follows hinside heap (le_refl passes)
    omega
  · intro k hk
    obtain ⟨-, -, hsame⟩ := stateAfter_follows hinside heap hk.le
    rw [(hsame (hinside k hk).1).2]
    exact hrunning k hk

end Heaps

/-! ## One heap -/

section Run

variable {payload : List UInt8} {device : Device} {heap : Memory} {passes : ℕ}

theorem slice_eq_ipParValue
    {offset : ℕ} (h : offset + 18 ≤ payload.length)
    (heap : Memory) :
    slice (payloadCopy payload heap) (offset + 6) 12 =
      ipParValue payload offset := by
  have hwithin := @slice_store_within heap 0 (offset + 6) 12 payload (by omega)
  simpa [payloadCopy, ipParValue] using hwithin

theorem addresses_of_room
    (hroom : ∀ offset ∈ ipParOffsets
        (stateAfter (payloadCopy payload heap) device passes).headers,
      offset + 18 ≤ payload.length)
    {k : ℕ} (hk : k ≤ passes) :
    (stateAfter (payloadCopy payload heap) device k).device.addresses =
      lastStored (ipParValue payload) device.addresses
        (ipParOffsets
          (stateAfter (payloadCopy payload heap) device k).headers) := by
  rw [stateAfter_addresses]
  apply lastStored_congr
  intro offset hoffset
  apply slice_eq_ipParValue
  apply hroom
  obtain ⟨j, hj, hpl⟩ := mem_ipParOffsets_iff.mp hoffset
  exact mem_ipParOffsets_iff.mpr ⟨j, by omega, hpl⟩

theorem own_iff {headers : List (ℕ × Block)} :
    (∀ h ∈ headers, h.2.kind = .ipPar →
      h.1 + 6 + 12 ≤ h.1 + 4 + wireLength payload h.1 ∧
        h.1 + 6 + 12 ≤ payload.length) ↔
      ∀ offset ∈ ipParOffsets headers,
        14 ≤ wireLength payload offset ∧ offset + 18 ≤ payload.length := by
  constructor
  · intro h offset hoffset
    simp only [ipParOffsets, List.mem_map, List.mem_filter,
      decide_eq_true_eq] at hoffset
    obtain ⟨header, ⟨hheader, hkind⟩, rfl⟩ := hoffset
    have hown := h header hheader hkind
    omega
  · intro h header hheader hkind
    have hroom := h header.1 (by
      simp only [ipParOffsets, List.mem_map, List.mem_filter,
        decide_eq_true_eq]
      exact ⟨header, ⟨hheader, hkind⟩, rfl⟩)
    omega

theorem leavesDeviceAlone_iff
    (hstop : payload.length ≤
      (stateAfter (payloadCopy payload heap) device passes).i)
    (hrunning : ∀ k < passes,
      (stateAfter (payloadCopy payload heap) device k).i < payload.length) :
    LeavesDeviceAlone payload device heap
        (stateAfter (payloadCopy payload heap) device passes) ↔
      HarmlessIpPars payload device (ipParOffsets
        (stateAfter (payloadCopy payload heap) device passes).headers) := by
  constructor
  · intro h
    have hroom := own_iff.mp h.own
    have haddresses := @addresses_of_room payload device heap passes
      fun offset hoffset => (hroom offset hoffset).2
    refine ⟨hroom, ?_⟩
    intro offset hmalformed
    by_cases hreached : ∃ k, k < passes ∧
        offset ≤ (stateAfter (payloadCopy payload heap) device k).pl
    · classical
      have hk := Nat.find_spec hreached
      have hearlier : ∀ j < Nat.find hreached,
          (stateAfter (payloadCopy payload heap) device j).pl < offset := by
        intro j hj
        have hmin := Nat.find_min hreached hj
        by_contra hlate
        exact hmin ⟨by omega, by omega⟩
      have hkept := h.kept offset hmalformed _ (hrunning _ hk.1) hk.2 hearlier
      rw [ipParOffsets_filter_lt hk.1.le hk.2 hearlier,
        ← haddresses (le_refl passes), ← haddresses hk.1.le]
      exact hkept
    · rw [ipParOffsets_filter_eq_self]
      intro j hj
      by_contra hlate
      exact hreached ⟨j, hj, Nat.not_lt.mp hlate⟩
  · intro h
    have haddresses := @addresses_of_room payload device heap passes
      fun offset hoffset => (h.room offset hoffset).2
    refine ⟨?_, own_iff.mpr h.room⟩
    intro offset hmalformed k hk hreached hearlier
    have hlt := lt_of_running hk hstop
    rw [haddresses (le_refl passes), haddresses hlt.le,
      h.repeated offset hmalformed,
      ipParOffsets_filter_lt hlt.le hreached hearlier]

end Run

/-! ## The exact condition -/

section Exact

variable {payload : List UInt8} {device : Device} {items : List Item}

theorem room_of_heap
    (h : DeviceLeftAlone payload device)
    (hrun : ParserRun payload.length (zeroed payload) device items)
    {before after : List Item} {item : Item}
    (hsplit : items = before ++ item :: after) (heap : Memory)
    (hagree : ∀ a < sizeOfItems before,
      payloadCopy payload heap a = zeroed payload a)
    (hkind : (decodeHeader (payloadCopy payload heap)
      (sizeOfItems before)).kind = .ipPar) :
    sizeOfItems before + 18 ≤ payload.length := by
  obtain ⟨s, hs, hleft⟩ := h heap
  obtain ⟨passes, -, hresult, hstop, -⟩ := exists_passes payload device heap
  rw [hresult, Option.some.injEq] at hs
  subst hs
  obtain ⟨hpl, hi, -⟩ := hrun.position hsplit
  rw [← hpl] at hagree
  obtain ⟨hpl', hi'⟩ := stateAfter_agrees hagree
  rw [hpl] at hpl'
  have hrunning := ((parserRun_iff.mp hrun).1 before item after hsplit).1
  have hlt : before.length < passes := by
    apply lt_of_running _ hstop
    rw [hi', hi]
    exact hrunning
  have hoffset := mem_ipParOffsets_iff.mpr ⟨before.length, hlt, hpl', hkind⟩
  exact (own_iff.mp hleft.own _ hoffset).2

theorem begins_of_deviceLeftAlone
    (h : DeviceLeftAlone payload device)
    (hrun : ParserRun payload.length (zeroed payload) device items)
    {before after : List Item} {item : Item}
    (hsplit : items = before ++ item :: after) :
    sizeOfItems before < payload.length := by
  by_contra hpast
  let header := [pfDcpOptIp, pfDcpSubIpPar]
  let heap := store (fun _ => 0) (sizeOfItems before) header
  have hroom : sizeOfItems before + 18 ≤ payload.length := by
    apply room_of_heap h hrun hsplit heap
    · intro a ha
      by_cases hin : a < payload.length
      · exact payloadCopy_eq_zeroed hin heap
      · rw [payloadCopy_outside (by omega), zeroed_outside (by omega)]
        exact store_outside (Or.inl ha)
    · have hoption : heap (sizeOfItems before) = pfDcpOptIp :=
        @store_inside _ _ 0 header (by decide)
      have hsuboption : heap (sizeOfItems before + 1) = pfDcpSubIpPar :=
        @store_inside _ _ 1 header (by decide)
      rw [Block.kind, blockKind_eq_ipPar_iff, decodeHeader,
        payloadCopy_outside (by omega), payloadCopy_outside (by omega)]
      exact ⟨hoption, hsuboption⟩
  omega

theorem decided_of_deviceLeftAlone
    (h : DeviceLeftAlone payload device)
    (hrun : ParserRun payload.length (zeroed payload) device items)
    {before after : List Item} {b : Block}
    (hsplit : items = before ++ .block b :: after)
    (hip : b.option = pfDcpOptIp) :
    sizeOfItems before + 1 < payload.length := by
  have hbegins := begins_of_deviceLeftAlone h hrun hsplit
  by_contra hcut
  let heap : Memory := fun _ => pfDcpSubIpPar
  have hroom : sizeOfItems before + 18 ≤ payload.length := by
    apply room_of_heap h hrun hsplit heap
    · intro a ha
      exact payloadCopy_eq_zeroed (by omega) heap
    · have hitem := ((parserRun_iff.mp hrun).1 before _ after hsplit).2
      have hoption : zeroed payload (sizeOfItems before) = pfDcpOptIp := by
        unfold itemAt at hitem
        split at hitem
        · contradiction
        · rw [← hip, ← Item.block.inj hitem, decodeHeader]
      rw [Block.kind, blockKind_eq_ipPar_iff, decodeHeader,
        payloadCopy_eq_zeroed hbegins, payloadCopy_outside (by omega)]
      exact ⟨hoption, rfl⟩
  omega

theorem shielded_of_deviceLeftAlone
    (h : DeviceLeftAlone payload device) :
    ∃ items, Shielded payload device items := by
  obtain ⟨s, hs, hleft⟩ := h fun _ => 0
  obtain ⟨items, hrun, rfl⟩ := exists_parserRun hs
  obtain ⟨hpasses, hfinished⟩ := parserRun_iff.mp hrun
  refine ⟨items, ?_, ?_, hfinished, ?_, ?_, ?_⟩
  · intro before item after hsplit
    exact (hpasses before item after hsplit).2
  · intro before item after hsplit
    exact (hpasses before item after hsplit).1
  · intro before item after hsplit
    exact begins_of_deviceLeftAlone h hrun hsplit
  · intro before b after hsplit hip
    exact decided_of_deviceLeftAlone h hrun hsplit hip
  · obtain ⟨hstop, hrunning⟩ := hrun.passes
    have hstate := stateAfter_of_parserRun hrun (List.append_nil items).symm
    have hheaders := (hrun.position (List.append_nil items).symm).2.2
    rw [← hstate] at hleft
    rw [← hheaders]
    exact (leavesDeviceAlone_iff hstop hrunning).mp hleft

theorem deviceLeftAlone_of_shielded
    (h : Shielded payload device items) : DeviceLeftAlone payload device := by
  have hrun : ParserRun payload.length (zeroed payload) device items := by
    rw [parserRun_iff]
    refine ⟨?_, h.finished⟩
    intro before item after hsplit
    exact ⟨h.counted before item after hsplit,
      h.chained before item after hsplit⟩
  obtain ⟨hstop, hrunning⟩ := hrun.passes
  have hinside : PassesInside payload device items.length := by
    intro k hk
    obtain ⟨before, item, after, hsplit, rfl⟩ := exists_split_of_lt hk
    rw [(hrun.position hsplit).1]
    refine ⟨h.begins before item after hsplit, ?_⟩
    intro hip
    have hitem : itemAt (zeroed payload) (sizeOfItems before) = item :=
      h.chained before item after hsplit
    have hne : zeroed payload (sizeOfItems before) ≠ 0 := by
      rw [hip]
      decide
    rw [itemAt, if_neg hne] at hitem
    subst hitem
    exact h.decided before _ after hsplit hip
  intro heap
  obtain ⟨hstop', hrunning'⟩ := passes_follow hinside hstop hrunning heap
  refine ⟨_, extractBlocksFromPacket_eq_stateAfter hstop' hrunning', ?_⟩
  rw [leavesDeviceAlone_iff hstop' hrunning',
    (stateAfter_follows hinside heap (le_refl items.length)).1,
    (hrun.position (List.append_nil items).symm).2.2]
  exact h.ipPars

end Exact

/-- A payload leaves the device alone from its malformed block on, whatever
the heap holds, exactly if it shields the device from its blocks. -/
theorem deviceLeftAlone_iff (payload : List UInt8) (device : Device) :
    DeviceLeftAlone payload device ↔
      ∃ items, Shielded payload device items := by
  constructor
  · exact shielded_of_deviceLeftAlone
  · rintro ⟨items, hitems⟩
    exact deviceLeftAlone_of_shielded hitems

/-- An IP parameter block of length 2 in front of a station name: the header
and the first letters of the name become the addresses. -/
theorem deviceLeftAlone_fails_on_short_block :
    ¬ ∀ (payload : List UInt8) (device : Device), payload.length ≤ 65535 →
      ¬ WellFormedPayload payload → DeviceLeftAlone payload device := by
  intro h
  let payload : List UInt8 :=
    [1, 2, 0, 2, 0, 0, 2, 2, 0, 8, 0, 0, 115, 101, 110, 115, 111, 114]
  have hshort : MalformedAt payload 0 := by
    refine ⟨.first, by decide, by decide, ?_⟩
    intro hblock
    exact absurd (hblock.ipPar (by decide)) (by decide)
  have hmalformed : ¬ WellFormedPayload payload :=
    not_wellFormedPayload_iff.mpr ⟨0, hshort⟩
  obtain ⟨s, hs, hleft⟩ := h payload emptyDevice (by decide) hmalformed
    fun _ => 0
  have hkept : s.device.addresses = emptyDevice.addresses :=
    hleft.kept 0 hshort 0 (by decide) (by decide) (by simp)
  have hstored : some s.device.addresses =
      some [2, 2, 0, 8, 0, 0, 115, 101, 110, 115, 111, 114] := by
    have heq := congrArg (Option.map fun s => s.device.addresses) hs
    rw [Option.map_some] at heq
    rw [← heq]
    decide
  rw [hkept] at hstored
  exact absurd hstored (by decide)

end ProfinetIo
