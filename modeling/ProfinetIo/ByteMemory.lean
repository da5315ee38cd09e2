import Mathlib.Tactic
import Mathlib.Logic.Function.Basic

/-!
# Byte-addressed memory

Memory is a total map from addresses to bytes, so that a read or a write past
the end of an object is an ordinary value and can be talked about.  `slice`
reads a run of consecutive bytes and `store` overwrites one; the frame lemmas
say which reads a store can be seen by.  Multi-byte integers are encoded by
`bigEndian` and `littleEndian`.
-/

namespace ByteMemory

abbrev Memory := ℕ → UInt8

def slice (mem : Memory) (start len : ℕ) : List UInt8 :=
  (List.range len).map fun k => mem (start + k)

/-- Memory after the bytes have been copied to address `start`. -/
def store (mem : Memory) (start : ℕ) (bytes : List UInt8) : Memory :=
  fun address =>
    if start ≤ address ∧ address < start + bytes.length then
      bytes.getD (address - start) 0
    else mem address

/-! ## Reading -/

@[simp] theorem slice_length (mem : Memory) (start len : ℕ) :
    (slice mem start len).length = len := by
  simp [slice]

@[simp] theorem slice_zero (mem : Memory) (start : ℕ) :
    slice mem start 0 = [] := rfl

@[simp] theorem slice_getElem
    (mem : Memory) (start len k : ℕ) (hk : k < (slice mem start len).length) :
    (slice mem start len)[k] = mem (start + k) := by
  simp [slice]

theorem slice_getD
    {mem : Memory} {start len k : ℕ} (hk : k < len) (default : UInt8) :
    (slice mem start len).getD k default = mem (start + k) := by
  simp [slice, hk]

theorem slice_add (mem : Memory) (start a b : ℕ) :
    slice mem start (a + b) = slice mem start a ++ slice mem (start + a) b := by
  simp [slice, List.range_add, Function.comp_def, Nat.add_assoc]

theorem slice_congr
    {mem mem' : Memory} {start start' len : ℕ}
    (h : ∀ k < len, mem (start + k) = mem' (start' + k)) :
    slice mem start len = slice mem' start' len := by
  apply List.map_congr_left
  intro k hk
  exact h k (List.mem_range.mp hk)

theorem slice_eq_iff {mem : Memory} {start : ℕ} {bytes : List UInt8} :
    slice mem start bytes.length = bytes ↔
      ∀ k (hk : k < bytes.length), mem (start + k) = bytes[k] := by
  constructor
  · intro h k hk
    have hget := List.getElem_of_eq h.symm hk
    simpa using hget.symm
  · intro h
    apply List.ext_getElem
    · simp
    · intro k _ hk
      simpa using h k hk

theorem slice_append_iff {mem : Memory} {start : ℕ} {left right : List UInt8} :
    slice mem start (left ++ right).length = left ++ right ↔
      slice mem start left.length = left ∧
        slice mem (start + left.length) right.length = right := by
  rw [List.length_append, slice_add]
  constructor
  · intro h
    exact List.append_inj h (by simp)
  · rintro ⟨hleft, hright⟩
    rw [hleft, hright]

theorem slice_within
    {mem : Memory} {start k len : ℕ} {bytes : List UInt8}
    (h : slice mem start bytes.length = bytes)
    (hroom : k + len ≤ bytes.length) :
    slice mem (start + k) len = (bytes.drop k).take len := by
  have hbytes := slice_eq_iff.mp h
  apply List.ext_getElem
  · simp
    omega
  · intro j hj _
    simp only [slice_length] at hj
    simp only [slice_getElem, List.getElem_take, List.getElem_drop]
    rw [Nat.add_assoc]
    exact hbytes (k + j) (by omega)

/-! ## Writing -/

theorem store_outside
    {mem : Memory} {start address : ℕ} {bytes : List UInt8}
    (h : address < start ∨ start + bytes.length ≤ address) :
    store mem start bytes address = mem address := by
  unfold store
  rw [if_neg (by omega)]

theorem store_inside
    {mem : Memory} {start k : ℕ} {bytes : List UInt8} (hk : k < bytes.length) :
    store mem start bytes (start + k) = bytes[k] := by
  unfold store
  rw [if_pos (by omega)]
  simp [hk]

@[simp] theorem store_nil (mem : Memory) (start : ℕ) :
    store mem start [] = mem := by
  funext address
  exact store_outside (by simp; omega)

theorem store_append
    (mem : Memory) (start : ℕ) (left right : List UInt8) :
    store (store mem start left) (start + left.length) right =
      store mem start (left ++ right) := by
  funext address
  by_cases hlow : address < start
  · rw [store_outside (by omega), store_outside (by omega),
      store_outside (by omega)]
  by_cases hleft : address < start + left.length
  · obtain ⟨k, rfl⟩ : ∃ k, address = start + k := ⟨address - start, by omega⟩
    rw [store_outside (by omega), store_inside (by omega),
      store_inside (by simp; omega), List.getElem_append_left (by omega)]
  by_cases hright : address < start + left.length + right.length
  · obtain ⟨k, rfl⟩ : ∃ k, address = start + left.length + k :=
      ⟨address - (start + left.length), by omega⟩
    rw [store_inside (by omega), Nat.add_assoc,
      store_inside (by simp; omega), List.getElem_append_right (by omega)]
    simp
  · rw [store_outside (by omega), store_outside (by omega),
      store_outside (by simp; omega)]

theorem store_store_same
    {mem : Memory} {start : ℕ} {old new : List UInt8}
    (h : new.length = old.length) :
    store (store mem start old) start new = store mem start new := by
  funext address
  by_cases hinside : start ≤ address ∧ address < start + new.length
  · obtain ⟨k, rfl⟩ : ∃ k, address = start + k :=
      ⟨address - start, by omega⟩
    rw [store_inside (by omega), store_inside (by omega)]
  · rw [store_outside (by omega), store_outside (by omega),
      store_outside (by omega)]

theorem store_comm
    {mem : Memory} {start start' : ℕ} {bytes bytes' : List UInt8}
    (h : start + bytes.length ≤ start' ∨ start' + bytes'.length ≤ start) :
    store (store mem start bytes) start' bytes' =
      store (store mem start' bytes') start bytes := by
  funext address
  by_cases hinside : start ≤ address ∧ address < start + bytes.length
  · obtain ⟨k, rfl⟩ : ∃ k, address = start + k :=
      ⟨address - start, by omega⟩
    rw [store_outside (by omega), store_inside (by omega),
      store_inside (by omega)]
  by_cases hinside' : start' ≤ address ∧ address < start' + bytes'.length
  · obtain ⟨k, rfl⟩ : ∃ k, address = start' + k :=
      ⟨address - start', by omega⟩
    rw [store_inside (by omega), store_outside (by omega),
      store_inside (by omega)]
  · rw [store_outside (by omega), store_outside (by omega),
      store_outside (by omega), store_outside (by omega)]

/-- Overwriting a part of a stored run stores the changed run. -/
theorem store_store_within
    {mem : Memory} {start : ℕ} {left old new right : List UInt8}
    (h : new.length = old.length) :
    store (store mem start (left ++ (old ++ right))) (start + left.length)
        new =
      store mem start (left ++ (new ++ right)) := by
  rw [← store_append mem start left (old ++ right),
    ← store_append mem start left (new ++ right),
    ← store_append (store mem start left) (start + left.length) old right,
    ← store_append (store mem start left) (start + left.length) new right,
    store_comm (Or.inr (by omega)), store_store_same h, h]

@[simp] theorem slice_store_self
    (mem : Memory) (start : ℕ) (bytes : List UInt8) :
    slice (store mem start bytes) start bytes.length = bytes := by
  rw [slice_eq_iff]
  intro k hk
  exact store_inside hk

theorem slice_store_disjoint
    {mem : Memory} {start offset len : ℕ} {bytes : List UInt8}
    (h : offset + len ≤ start ∨ start + bytes.length ≤ offset) :
    slice (store mem start bytes) offset len = slice mem offset len := by
  apply slice_congr
  intro k hk
  exact store_outside (by omega)

theorem slice_store_within
    {mem : Memory} {start k len : ℕ} {bytes : List UInt8}
    (h : k + len ≤ bytes.length) :
    slice (store mem start bytes) (start + k) len =
      (bytes.drop k).take len :=
  slice_within (slice_store_self mem start bytes) h

/-- The front of a zeroed buffer after some bytes have been stored at its
start. -/
theorem slice_store_zeroed
    {mem : Memory} {front back : List UInt8} {room size : ℕ}
    (hsize : front.length + room ≤ size) :
    slice (store (store mem 0 (List.replicate size 0)) 0 (front ++ back)) 0
        (front.length + room) =
      front ++ (back ++ List.replicate room 0).take room := by
  have hfront : slice (store (store mem 0 (List.replicate size 0)) 0
      (front ++ back)) 0 front.length = front := by
    have hwithin := @slice_store_within
      (store mem 0 (List.replicate size 0)) 0 0 front.length (front ++ back)
      (by simp)
    simpa using hwithin
  rw [slice_add, hfront, Nat.zero_add]
  congr 1
  apply List.ext_getElem
  · simp
  · intro k hk _
    simp only [slice_length] at hk
    rw [slice_getElem, List.getElem_take]
    by_cases hback : k < back.length
    · have hinside := @store_inside (store mem 0 (List.replicate size 0)) 0
        (front.length + k) (front ++ back) (by simp; omega)
      rw [Nat.zero_add] at hinside
      rw [hinside, List.getElem_append_right (by omega),
        List.getElem_append_left hback]
      simp
    · have hzero := @store_inside mem 0 (front.length + k)
        (List.replicate size 0) (by simp; omega)
      rw [Nat.zero_add] at hzero
      rw [store_outside (by simp; omega), hzero, List.getElem_replicate,
        List.getElem_append_right (by omega), List.getElem_replicate]

/-! ## Integers of several bytes -/

/-- Big-endian encoding in `width` bytes; higher bytes are dropped. -/
def bigEndian : ℕ → ℕ → List UInt8
  | 0, _ => []
  | width + 1, value => bigEndian width (value / 256) ++ [UInt8.ofNat value]

def littleEndian : ℕ → ℕ → List UInt8
  | 0, _ => []
  | width + 1, value => UInt8.ofNat value :: littleEndian width (value / 256)

def littleEndianValue : List UInt8 → ℕ
  | [] => 0
  | byte :: bytes => byte.toNat + 256 * littleEndianValue bytes

def bigEndianValue (bytes : List UInt8) : ℕ := littleEndianValue bytes.reverse

/-- The integer whose little-endian bytes are the big-endian bytes of `value`. -/
def byteSwap (width value : ℕ) : ℕ := littleEndianValue (bigEndian width value)

@[simp] theorem bigEndian_length (width value : ℕ) :
    (bigEndian width value).length = width := by
  induction width generalizing value with
  | zero => rfl
  | succ width ih => simp [bigEndian, ih]

@[simp] theorem littleEndian_length (width value : ℕ) :
    (littleEndian width value).length = width := by
  induction width generalizing value with
  | zero => rfl
  | succ width ih => simp [littleEndian, ih]

theorem littleEndian_reverse (width value : ℕ) :
    (littleEndian width value).reverse = bigEndian width value := by
  induction width generalizing value with
  | zero => rfl
  | succ width ih => simp [littleEndian, bigEndian, ih]

theorem littleEndian_of_littleEndianValue (bytes : List UInt8) :
    littleEndian bytes.length (littleEndianValue bytes) = bytes := by
  induction bytes with
  | nil => rfl
  | cons byte bytes ih =>
      have hbyte : byte.toNat < 256 := byte.toNat_lt
      have hdiv : (byte.toNat + 256 * littleEndianValue bytes) / 256 = littleEndianValue bytes := by
        omega
      simp only [List.length_cons, littleEndian, littleEndianValue, hdiv, ih]
      congr 1
      rw [← UInt8.toNat_inj]
      simp only [UInt8.toNat_ofNat']
      omega

theorem littleEndianValue_littleEndian
    {width value : ℕ} (h : value < 256 ^ width) :
    littleEndianValue (littleEndian width value) = value := by
  induction width generalizing value with
  | zero =>
      simp only [pow_zero] at h
      simp [littleEndian, littleEndianValue]
      omega
  | succ width ih =>
      have hrest : value / 256 < 256 ^ width := by
        rw [pow_succ] at h
        omega
      simp only [littleEndian, littleEndianValue, ih hrest, UInt8.toNat_ofNat']
      omega

theorem bigEndianValue_bigEndian
    {width value : ℕ} (h : value < 256 ^ width) :
    bigEndianValue (bigEndian width value) = value := by
  rw [bigEndianValue, ← littleEndian_reverse, List.reverse_reverse, littleEndianValue_littleEndian h]

theorem littleEndianValue_lt (bytes : List UInt8) :
    littleEndianValue bytes < 256 ^ bytes.length := by
  induction bytes with
  | nil => simp [littleEndianValue]
  | cons byte bytes ih =>
      have hbyte := byte.toNat_lt
      simp only [littleEndianValue, List.length_cons, pow_succ]
      omega

theorem bigEndian_of_bigEndianValue (bytes : List UInt8) :
    bigEndian bytes.length (bigEndianValue bytes) = bytes := by
  have hreverse := littleEndian_of_littleEndianValue bytes.reverse
  rw [List.length_reverse] at hreverse
  rw [bigEndianValue, ← littleEndian_reverse, hreverse, List.reverse_reverse]

@[simp] theorem littleEndian_byteSwap (width value : ℕ) :
    littleEndian width (byteSwap width value) = bigEndian width value := by
  have h := littleEndian_of_littleEndianValue (bigEndian width value)
  rwa [bigEndian_length] at h

theorem littleEndianValue_littleEndian_mod (width value : ℕ) :
    littleEndianValue (littleEndian width value) = value % 256 ^ width := by
  induction width generalizing value with
  | zero => simp [littleEndian, littleEndianValue, Nat.mod_one]
  | succ width ih =>
      rw [pow_succ, Nat.mul_comm, Nat.mod_mul]
      simp only [littleEndian, littleEndianValue, ih, UInt8.toNat_ofNat']

/-! ## Swapping bytes -/

theorem bigEndian_byteSwap (width value : ℕ) :
    bigEndian width (byteSwap width value) = littleEndian width value := by
  rw [← littleEndian_reverse, littleEndian_byteSwap, ← littleEndian_reverse,
    List.reverse_reverse]

theorem byteSwap_lt (width value : ℕ) :
    byteSwap width value < 256 ^ width := by
  have hlt := littleEndianValue_lt (bigEndian width value)
  rwa [bigEndian_length] at hlt

theorem byteSwap_byteSwap_mod (width value : ℕ) :
    byteSwap width (byteSwap width value) = value % 256 ^ width := by
  rw [byteSwap, bigEndian_byteSwap, littleEndianValue_littleEndian_mod]

theorem byteSwap_eq_iff {width value value' : ℕ} :
    byteSwap width value = byteSwap width value' ↔
      value % 256 ^ width = value' % 256 ^ width := by
  rw [← byteSwap_byteSwap_mod, ← byteSwap_byteSwap_mod]
  constructor
  · intro h
    rw [h]
  · intro h
    have hswap := congrArg (byteSwap width) h
    rwa [byteSwap_byteSwap_mod, byteSwap_byteSwap_mod,
      Nat.mod_eq_of_lt (byteSwap_lt width value),
      Nat.mod_eq_of_lt (byteSwap_lt width value')] at hswap

end ByteMemory
