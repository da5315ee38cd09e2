import ProfinetIo.ExtractBlocks
import Mathlib.Tactic

/-!
# The parser's walk as a chain of items

Every pass of the parser consumes one item: a padding byte, or a block with
its decoded header.  A completed run is therefore the replay of a list of
items, and the reads, the headers acted on, the bytes printed and the stored
addresses are functions of that list.  The two cursors drift apart because an
item moves `pl` by its size and `i` by its steps.
-/

namespace ProfinetIo

open ByteMemory WhileLoop

inductive Item where
  | padding
  | block (header : Block)
  deriving DecidableEq, Repr

namespace Item

def size : Item → ℕ
  | padding => 1
  | block b => b.blockLength + 4

/-- How far an item moves `i`, the increment of the `for` loop included. -/
def steps : Item → ℕ
  | padding => 2
  | block b => b.branchMove + 1

def reads : Item → List ℕ
  | padding => List.range 6
  | block b => List.range 6 ++ b.branchReads

def reach : Item → ℕ
  | padding => 6
  | block b =>
      match b.kind with
      | .ipPar => 18
      | .text => b.blockLength + 6
      | .id => 10
      | .role => 7
      | .plain | .silent => 6

theorem forall_reads_iff (item : Item) (start bound : ℕ) :
    (∀ k ∈ item.reads, start + k < bound) ↔ start + item.reach ≤ bound := by
  have hrange (m : ℕ) (hm : 0 < m) :
      (∀ k < m, start + k < bound) ↔ start + m ≤ bound := by
    constructor
    · intro h
      have := h (m - 1) (by omega)
      omega
    · intro h k hk
      omega
  have hblock (m : ℕ) :
      (∀ k ∈ List.range 6 ++ List.range' 6 m, start + k < bound) ↔
        start + (m + 6) ≤ bound := by
    rw [← hrange (m + 6) (by omega)]
    constructor
    · intro h k hk
      apply h
      by_cases hk6 : k < 6
      · exact List.mem_append_left _ (List.mem_range.mpr hk6)
      · exact List.mem_append_right _ (List.mem_range'_1.mpr ⟨by omega, by omega⟩)
    · intro h k hk
      apply h
      rcases List.mem_append.mp hk with hlow | hhigh
      · have := List.mem_range.mp hlow
        omega
      · have := List.mem_range'_1.mp hhigh
        omega
  cases item with
  | padding => simpa [reads, reach] using hrange 6 (by omega)
  | block b =>
      simp only [reads, reach, Block.branchReads]
      cases b.kind with
      | plain => simpa using hblock 0
      | silent => simpa using hblock 0
      | ipPar => exact hblock 12
      | text => exact hblock b.blockLength
      | id => exact hblock 4
      | role => exact hblock 1

end Item

def itemAt (mem : Memory) (pl : ℕ) : Item :=
  if mem pl = 0 then .padding else .block (decodeHeader mem pl)

def passItem (mem : Memory) (item : Item) (s : ParserState) : ParserState where
  i := s.i + item.steps
  pl := s.pl + item.size
  device :=
    match item with
    | .padding => s.device
    | .block b =>
        if b.kind = .ipPar then (s.copyAddresses mem).device else s.device
  reads := s.reads ++ item.reads.map (s.pl + ·)
  headers := s.headers ++
    match item with
    | .padding => []
    | .block b => [(s.pl, b)]
  printed := s.printed ++
    match item with
    | .padding => []
    | .block b =>
        if b.kind = .text then [slice mem (s.pl + 6) b.blockLength] else []

theorem extractPass_eq_passItem (mem : Memory) (s : ParserState) :
    extractPass mem s = passItem mem (itemAt mem s.pl) s := by
  by_cases h : mem s.pl = 0
  · rw [extractPass_of_padding h, itemAt, if_pos h]
    simp [passItem, Item.steps, Item.size, Item.reads]
  · rw [extractPass_of_block h, itemAt, if_neg h]
    simp [passItem, Item.steps, Item.size, Item.reads, Nat.add_assoc]

/-! ## What a list of items does -/

def sizeOfItems (items : List Item) : ℕ := (items.map Item.size).sum

def stepsOfItems (items : List Item) : ℕ := (items.map Item.steps).sum

def readsOfItems : ℕ → List Item → List ℕ
  | _, [] => []
  | start, item :: items =>
      item.reads.map (start + ·) ++ readsOfItems (start + item.size) items

def headersOfItems : ℕ → List Item → List (ℕ × Block)
  | _, [] => []
  | start, .padding :: items => headersOfItems (start + 1) items
  | start, .block b :: items =>
      (start, b) :: headersOfItems (start + (b.blockLength + 4)) items

def printedOfHeaders (mem : Memory) (headers : List (ℕ × Block)) :
    List (List UInt8) :=
  (headers.filter fun h => h.2.kind = .text).map fun h =>
    slice mem (h.1 + 6) h.2.blockLength

def addressesOfHeaders (mem : Memory) (addresses : List UInt8)
    (headers : List (ℕ × Block)) : List UInt8 :=
  headers.foldl
    (fun stored h =>
      if h.2.kind = .ipPar then slice mem (h.1 + 6) 12 else stored)
    addresses

@[simp] theorem sizeOfItems_nil : sizeOfItems [] = 0 := rfl

@[simp] theorem sizeOfItems_cons (item : Item) (items : List Item) :
    sizeOfItems (item :: items) = item.size + sizeOfItems items := by
  simp [sizeOfItems]

@[simp] theorem sizeOfItems_append (left right : List Item) :
    sizeOfItems (left ++ right) = sizeOfItems left + sizeOfItems right := by
  simp [sizeOfItems]

@[simp] theorem stepsOfItems_nil : stepsOfItems [] = 0 := rfl

@[simp] theorem stepsOfItems_cons (item : Item) (items : List Item) :
    stepsOfItems (item :: items) = item.steps + stepsOfItems items := by
  simp [stepsOfItems]

@[simp] theorem stepsOfItems_append (left right : List Item) :
    stepsOfItems (left ++ right) = stepsOfItems left + stepsOfItems right := by
  simp [stepsOfItems]

theorem headersOfItems_append (start : ℕ) (left right : List Item) :
    headersOfItems start (left ++ right) =
      headersOfItems start left ++
        headersOfItems (start + sizeOfItems left) right := by
  induction left generalizing start with
  | nil => simp [headersOfItems]
  | cons item left ih =>
      cases item with
      | padding => simp [headersOfItems, ih, Item.size, Nat.add_assoc]
      | block b => simp [headersOfItems, ih, Item.size, Nat.add_assoc]

theorem mem_readsOfItems_iff {start r : ℕ} {items : List Item} :
    r ∈ readsOfItems start items ↔
      ∃ before item after, items = before ++ item :: after ∧
        ∃ k ∈ item.reads, start + sizeOfItems before + k = r := by
  induction items generalizing start with
  | nil => simp [readsOfItems]
  | cons first items ih =>
      simp only [readsOfItems, List.mem_append, List.mem_map, ih]
      constructor
      · rintro (⟨k, hk, hr⟩ | ⟨before, item, after, heq, k, hk, hr⟩)
        · exact ⟨[], first, items, rfl, k, hk, by simpa using hr⟩
        · refine ⟨first :: before, item, after, by simp [heq], k, hk, ?_⟩
          simp only [sizeOfItems_cons]
          omega
      · rintro ⟨before, item, after, heq, k, hk, hr⟩
        cases before with
        | nil =>
            simp only [List.nil_append, List.cons.injEq] at heq
            obtain ⟨rfl, rfl⟩ := heq
            exact Or.inl ⟨k, hk, by simpa using hr⟩
        | cons head before =>
            simp only [List.cons_append, List.cons.injEq] at heq
            obtain ⟨rfl, heq⟩ := heq
            simp only [sizeOfItems_cons] at hr
            exact Or.inr ⟨before, item, after, heq, k, hk, by omega⟩

section Replay

variable (mem : Memory)

theorem replay_pl (items : List Item) (s : ParserState) :
    (replay (passItem mem) items s).pl = s.pl + sizeOfItems items := by
  induction items generalizing s with
  | nil => simp
  | cons item items ih => simp [ih, passItem, Nat.add_assoc]

theorem replay_i (items : List Item) (s : ParserState) :
    (replay (passItem mem) items s).i = s.i + stepsOfItems items := by
  induction items generalizing s with
  | nil => simp
  | cons item items ih => simp [ih, passItem, Nat.add_assoc]

theorem replay_reads (items : List Item) (s : ParserState) :
    (replay (passItem mem) items s).reads =
      s.reads ++ readsOfItems s.pl items := by
  induction items generalizing s with
  | nil => simp [readsOfItems]
  | cons item items ih => simp [ih, passItem, readsOfItems]

theorem replay_headers (items : List Item) (s : ParserState) :
    (replay (passItem mem) items s).headers =
      s.headers ++ headersOfItems s.pl items := by
  induction items generalizing s with
  | nil => simp [headersOfItems]
  | cons item items ih =>
      cases item with
      | padding => simp [ih, passItem, headersOfItems, Item.size]
      | block b => simp [ih, passItem, headersOfItems, Item.size]

theorem replay_printed (items : List Item) (s : ParserState) :
    (replay (passItem mem) items s).printed =
      s.printed ++ printedOfHeaders mem (headersOfItems s.pl items) := by
  induction items generalizing s with
  | nil => simp [headersOfItems, printedOfHeaders]
  | cons item items ih =>
      cases item with
      | padding => simp [ih, passItem, headersOfItems, Item.size]
      | block b =>
          by_cases hkind : b.kind = .text
          · simp [ih, passItem, headersOfItems, printedOfHeaders, Item.size,
              hkind]
          · simp [ih, passItem, headersOfItems, printedOfHeaders, Item.size,
              hkind]

theorem copyAddresses_addresses (s : ParserState) :
    (s.copyAddresses mem).device.addresses = slice mem (s.pl + 6) 12 := by
  have hsplit : slice mem (s.pl + 6) 12 =
      slice mem (s.pl + 6) 4 ++ slice mem (s.pl + 10) 4 ++
        slice mem (s.pl + 14) 4 := by
    rw [show (12 : ℕ) = 4 + 4 + 4 by rfl, slice_add, slice_add]
  simp [ParserState.copyAddresses, Device.addresses, hsplit]

theorem replay_addresses (items : List Item) (s : ParserState) :
    (replay (passItem mem) items s).device.addresses =
      addressesOfHeaders mem s.device.addresses
        (headersOfItems s.pl items) := by
  induction items generalizing s with
  | nil => simp [headersOfItems, addressesOfHeaders]
  | cons item items ih =>
      cases item with
      | padding => simp [ih, passItem, headersOfItems, Item.size]
      | block b =>
          by_cases hkind : b.kind = .ipPar
          · simp [ih, passItem, headersOfItems, addressesOfHeaders, Item.size,
              hkind, copyAddresses_addresses]
          · simp [ih, passItem, headersOfItems, addressesOfHeaders, Item.size,
              hkind]

end Replay

/-! ## Chains of items in memory -/

def Chained (mem : Memory) : ℕ → List Item → Prop
  | _, [] => True
  | start, item :: items =>
      itemAt mem start = item ∧ Chained mem (start + item.size) items

theorem chained_append
    {mem : Memory} {start : ℕ} {left right : List Item} :
    Chained mem start (left ++ right) ↔
      Chained mem start left ∧
        Chained mem (start + sizeOfItems left) right := by
  induction left generalizing start with
  | nil => simp [Chained]
  | cons item left ih => simp [Chained, ih, and_assoc, Nat.add_assoc]

theorem chained_iff_splits
    {mem : Memory} {start : ℕ} {items : List Item} :
    Chained mem start items ↔
      ∀ before item after, items = before ++ item :: after →
        itemAt mem (start + sizeOfItems before) = item := by
  constructor
  · rintro h before item after rfl
    exact (chained_append.mp h).2.1
  · intro h
    induction items generalizing start with
    | nil => trivial
    | cons first items ih =>
        refine ⟨by simpa using h [] first items rfl, ?_⟩
        apply ih
        intro before item after heq
        have hsplit := h (first :: before) item after (by simp [heq])
        simpa [Nat.add_assoc] using hsplit

theorem Chained.prefix_or_prefix
    {mem : Memory} {start : ℕ} {left right : List Item}
    (hleft : Chained mem start left) (hright : Chained mem start right) :
    left <+: right ∨ right <+: left := by
  induction left generalizing start right with
  | nil => exact Or.inl (List.nil_prefix)
  | cons item left ih =>
      cases right with
      | nil => exact Or.inr (List.nil_prefix)
      | cons item' right =>
          obtain ⟨hitem, hleft⟩ := hleft
          obtain ⟨hitem', hright⟩ := hright
          have heq : item' = item := hitem'.symm.trans hitem
          rw [heq] at hright ⊢
          rcases ih hleft hright with h | h
          · exact Or.inl (List.cons_prefix_cons.mpr ⟨rfl, h⟩)
          · exact Or.inr (List.cons_prefix_cons.mpr ⟨rfl, h⟩)

theorem Chained.header_eq
    {mem : Memory} {start : ℕ} {items : List Item}
    (h : Chained mem start items) :
    ∀ entry ∈ headersOfItems start items,
      entry.2 = decodeHeader mem entry.1 := by
  induction items generalizing start with
  | nil => simp [headersOfItems]
  | cons item items ih =>
      obtain ⟨hitem, hrest⟩ := h
      cases item with
      | padding => exact ih hrest
      | block b =>
          have hb : b = decodeHeader mem start := by
            unfold itemAt at hitem
            split at hitem
            · contradiction
            · exact (Item.block.inj hitem).symm
          intro entry hentry
          simp only [headersOfItems, List.mem_cons] at hentry
          rcases hentry with rfl | hentry
          · exact hb
          · exact ih hrest entry hentry

/-! ## Completed runs -/

/-- The parser's passes on a payload consume exactly these items. -/
abbrev ParserRun (length : ℕ) (mem : Memory) (device : Device)
    (items : List Item) : Prop :=
  LabelledRun (extractRunning length) (fun s => itemAt mem s.pl)
    (passItem mem) (ParserState.initial device) items

theorem parserRun_iff
    {length : ℕ} {mem : Memory} {device : Device} {items : List Item} :
    ParserRun length mem device items ↔
      (∀ before item after, items = before ++ item :: after →
        stepsOfItems before < length ∧
          itemAt mem (sizeOfItems before) = item) ∧
      length ≤ stepsOfItems items := by
  constructor
  · intro hrun
    refine ⟨?_, ?_⟩
    · intro before item after heq
      have hrunning := hrun.running before item after heq
      have hlabel := hrun.labelled before item after heq
      simp only [extractRunning, replay_i, ParserState.initial, Nat.zero_add,
        decide_eq_true_eq] at hrunning
      simp only [replay_pl, ParserState.initial, Nat.zero_add] at hlabel
      exact ⟨hrunning, hlabel⟩
    · have hstop := hrun.stopped
      simpa [extractRunning, replay_i, ParserState.initial] using hstop
  · rintro ⟨hpasses, hstop⟩
    constructor
    · intro before item after heq
      simpa [extractRunning, replay_i, ParserState.initial] using
        (hpasses before item after heq).1
    · intro before item after heq
      simpa [replay_pl, ParserState.initial] using
        (hpasses before item after heq).2
    · simpa [extractRunning, replay_i, ParserState.initial] using hstop

theorem ParserRun.chained
    {length : ℕ} {mem : Memory} {device : Device} {items : List Item}
    (hrun : ParserRun length mem device items) : Chained mem 0 items := by
  rw [chained_iff_splits]
  intro before item after heq
  rw [Nat.zero_add]
  exact ((parserRun_iff.mp hrun).1 before item after heq).2

theorem ParserRun.prefix_of_finished
    {length : ℕ} {mem : Memory} {device : Device} {ran items : List Item}
    (hrun : ParserRun length mem device ran) (hitems : Chained mem 0 items)
    (hfinished : length ≤ stepsOfItems items) : ran <+: items := by
  rcases hrun.chained.prefix_or_prefix hitems with h | ⟨more, rfl⟩
  · exact h
  · cases more with
    | nil => simp
    | cons item more =>
        have hlt := ((parserRun_iff.mp hrun).1 items item more rfl).1
        omega

theorem ParserRun.continues_of_unfinished
    {length : ℕ} {mem : Memory} {device : Device} {ran items : List Item}
    (hrun : ParserRun length mem device ran) (hitems : Chained mem 0 items)
    (hunfinished : stepsOfItems items < length) :
    ∃ more, ran = items ++ itemAt mem (sizeOfItems items) :: more := by
  have hstop := (parserRun_iff.mp hrun).2
  rcases hrun.chained.prefix_or_prefix hitems with ⟨more, rfl⟩ | ⟨more, rfl⟩
  · simp only [stepsOfItems_append] at hunfinished
    omega
  · cases more with
    | nil =>
        simp only [List.append_nil] at hstop
        omega
    | cons item more =>
        have hitem := ((parserRun_iff.mp hrun).1 items item more rfl).2
        exact ⟨more, by rw [hitem]⟩

/-- Each payload has one list of items, and the parser's result is their
replay. -/
theorem extractBlocksFromPacket_eq_replay
    {payload : List UInt8} {device : Device} {heap : Memory}
    {items : List Item}
    (hrun : ParserRun payload.length (payloadCopy payload heap) device items) :
    extractBlocksFromPacket payload device heap =
      some (replay (passItem (payloadCopy payload heap)) items
        (ParserState.initial device)) := by
  obtain ⟨s, hs⟩ := extractBlocksFromPacket_total payload device heap
  have hreplay := hrun.returns
    (fun s _ => extractPass_eq_passItem (payloadCopy payload heap) s)
  have hsame := Returns.unique ⟨_, hs⟩ hreplay
  rw [hs, hsame]

theorem exists_parserRun
    {payload : List UInt8} {device : Device} {heap : Memory}
    {s : ParserState}
    (hs : extractBlocksFromPacket payload device heap = some s) :
    ∃ items, ParserRun payload.length (payloadCopy payload heap) device items ∧
      s = replay (passItem (payloadCopy payload heap)) items
        (ParserState.initial device) :=
  exists_labelledRun
    (fun s _ => extractPass_eq_passItem (payloadCopy payload heap) s) ⟨_, hs⟩

end ProfinetIo
