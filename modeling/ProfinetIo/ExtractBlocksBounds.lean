import ProfinetIo.ExtractBlocksWalk
import Mathlib.Tactic

/-!
# Which payloads keep the parser inside its copy

The loop test bounds `i`, while the reads go through `pl`.  The reads stay
inside the copy exactly when the payload is a chain of items that `i` gets
to the end of before `pl` does: every item the walk reaches has all its reads
before the end, and together the items move `i` to the length.  Heap bytes
past the copy play no part, because the first stray read comes before
anything depends on one.
-/

namespace ProfinetIo

open ByteMemory WhileLoop

/-- Every byte the parser reads through `pl` lies in the copied payload. -/
def ReadsInside (payload : List UInt8) (device : Device) (heap : Memory) :
    Prop :=
  ∃ s, extractBlocksFromPacket payload device heap = some s ∧
    ∀ r ∈ s.reads, r < payload.length

def payloadItem (payload : List UInt8) (offset : ℕ) : Item :=
  itemAt (payloadCopy payload fun _ => 0) offset

structure StaysInside (payload : List UInt8) (items : List Item) : Prop where
  chained : ∀ before item after, items = before ++ item :: after →
    payloadItem payload (sizeOfItems before) = item
  counted : ∀ before item after, items = before ++ item :: after →
    stepsOfItems before < payload.length
  fits : ∀ before item after, items = before ++ item :: after →
    sizeOfItems before + item.reach ≤ payload.length
  finished : payload.length ≤ stepsOfItems items

theorem Item.six_le_reach (item : Item) : 6 ≤ item.reach := by
  cases item with
  | padding => simp [Item.reach]
  | block b =>
      simp only [Item.reach]
      cases b.kind <;> simp

theorem itemAt_congr
    {mem mem' : Memory} {offset : ℕ}
    (h : ∀ k < 6, mem (offset + k) = mem' (offset + k)) :
    itemAt mem offset = itemAt mem' offset := by
  have h0 : mem offset = mem' offset := h 0 (by omega)
  simp only [itemAt, decodeHeader, h0, h 1 (by omega), h 2 (by omega),
    h 3 (by omega), h 4 (by omega), h 5 (by omega)]

theorem payloadCopy_inside
    {payload : List UInt8} {k : ℕ} (hk : k < payload.length) (heap : Memory) :
    payloadCopy payload heap k = payload[k] := by
  have h := @store_inside heap 0 k payload hk
  simpa [payloadCopy] using h

theorem itemAt_payloadCopy
    {payload : List UInt8} {offset : ℕ} (h : offset + 6 ≤ payload.length)
    (heap : Memory) :
    itemAt (payloadCopy payload heap) offset = payloadItem payload offset := by
  apply itemAt_congr
  intro k hk
  rw [payloadCopy_inside (by omega), payloadCopy_inside (by omega)]

theorem parserRun_reads_inside_iff
    {payload : List UInt8} {device : Device} {heap : Memory}
    {items : List Item} :
    (∀ r ∈ (replay (passItem (payloadCopy payload heap)) items
        (ParserState.initial device)).reads, r < payload.length) ↔
      ∀ before item after, items = before ++ item :: after →
        sizeOfItems before + item.reach ≤ payload.length := by
  rw [replay_reads]
  simp only [ParserState.initial, List.nil_append, mem_readsOfItems_iff,
    Nat.zero_add]
  constructor
  · intro h before item after heq
    rw [← Item.forall_reads_iff]
    intro k hk
    exact h _ ⟨before, item, after, heq, k, hk, rfl⟩
  · rintro h r ⟨before, item, after, heq, k, hk, rfl⟩
    exact (Item.forall_reads_iff item _ _).mpr (h before item after heq) k hk

/-- The parser stays inside the copied payload exactly on the payloads that
are a chain of items as described by `StaysInside`. -/
theorem readsInside_iff_staysInside
    (payload : List UInt8) (device : Device) (heap : Memory) :
    ReadsInside payload device heap ↔ ∃ items, StaysInside payload items := by
  constructor
  · rintro ⟨s, hs, hinside⟩
    obtain ⟨items, hrun, rfl⟩ := exists_parserRun hs
    have hfits := parserRun_reads_inside_iff.mp hinside
    obtain ⟨hpasses, hfinished⟩ := parserRun_iff.mp hrun
    refine ⟨items, ⟨?_, ?_, hfits, hfinished⟩⟩
    · intro before item after heq
      have hroom := hfits before item after heq
      have hsix := item.six_le_reach
      rw [← itemAt_payloadCopy (by omega) heap]
      exact (hpasses before item after heq).2
    · intro before item after heq
      exact (hpasses before item after heq).1
  · rintro ⟨items, hitems⟩
    have hrun :
        ParserRun payload.length (payloadCopy payload heap) device items := by
      rw [parserRun_iff]
      refine ⟨?_, hitems.finished⟩
      intro before item after heq
      refine ⟨hitems.counted before item after heq, ?_⟩
      have hroom := hitems.fits before item after heq
      have hsix := item.six_le_reach
      rw [itemAt_payloadCopy (by omega) heap]
      exact hitems.chained before item after heq
    exact ⟨_, extractBlocksFromPacket_eq_replay hrun,
      parserRun_reads_inside_iff.mpr hitems.fits⟩

theorem readsInside_fails_on_one_byte :
    ¬ ∀ (payload : List UInt8) (device : Device) (heap : Memory),
      payload.length ≤ 65535 → ReadsInside payload device heap := by
  intro h
  obtain ⟨s, hs, hinside⟩ := h [1] emptyDevice (fun _ => 0) (by decide)
  have hreads : s.reads = [0, 1, 2, 3, 4, 5] := by
    have heq := congrArg (Option.map ParserState.reads) hs
    simpa using heq.symm.trans (show _ = some [0, 1, 2, 3, 4, 5] by decide)
  have hfive := hinside 5 (by rw [hreads]; decide)
  simp at hfive

end ProfinetIo
