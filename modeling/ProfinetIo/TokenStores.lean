import ProfinetIo.MqttMsgHdlr
import Mathlib.Tactic

/-!
# Where the bytes of a write request go

The write branch of `mqtt_msg_hdlr` stores one byte for each token of the data
into `string[128]`, and `send_write_IO_Packet` copies them behind the headers of
its payload.  Neither counts what it stores.  A token takes a character and,
unless it is the last one, a delimiter, so the size of the field the data comes
from bounds both.
-/

namespace ProfinetIo

open ByteMemory CStrings

/-! ## Counting tokens -/

@[simp] theorem tokens_nil (delim : UInt8) : tokens delim [] = [] := rfl

theorem tokens_length_le (delim : UInt8) (text : List UInt8) :
    2 * (tokens delim text).length ≤ text.length + 1 := by
  induction hlength : text.length using Nat.strong_induction_on
    generalizing text with
  | _ n ih =>
      rw [tokens_eq]
      cases hnext : strtok delim text with
      | none => simp
      | some next =>
          obtain ⟨token, rest⟩ := next
          obtain ⟨hsmaller, hlengths⟩ := strtok_lengths hnext
          have hrest := ih rest.length (by omega) rest rfl
          simp only [List.length_cons]
          rcases hlengths with hnil | htwo
          · rw [hnil, tokens_nil, List.length_nil]
            omega
          · omega

/-! ## The stores -/

def storeToken (s : ℕ × Memory) (token : List UInt8) : ℕ × Memory :=
  (s.1 + 1, store s.2 s.1 [toUChar (hexToInt token)])

/-- The final `i` and the memory from `string` on. -/
def tokenisedString (stack : Memory) (data : List UInt8) : ℕ × Memory :=
  (tokens 32 data).foldl storeToken (0, store stack 0 (List.replicate 128 0))

theorem foldl_storeToken (i : ℕ) (string : Memory) (tokens : List (List UInt8)) :
    tokens.foldl storeToken (i, string) =
      (i + tokens.length, store string i
        (tokens.map fun token => toUChar (hexToInt token))) := by
  induction tokens generalizing i string with
  | nil => simp
  | cons token tokens ih =>
      have hstore := store_append string i [toUChar (hexToInt token)]
        (tokens.map fun token => toUChar (hexToInt token))
      rw [List.length_singleton] at hstore
      rw [List.foldl_cons, storeToken, ih, List.length_cons, hstore]
      simp only [Prod.mk.injEq, List.map_cons, List.singleton_append, and_true]
      omega

theorem tokenisedString_eq (stack : Memory) (data : List UInt8) :
    tokenisedString stack data =
      ((writeData data).length,
        store (store stack 0 (List.replicate 128 0)) 0 (writeData data)) := by
  rw [tokenisedString, foldl_storeToken, writeData, List.length_map,
    Nat.zero_add]

def dataValueOffset (api slot subslot len : ℕ) : ℕ :=
  (rpcHeader 0x03).encode.length + pnioArgs.encode.length +
    (writeReqHdr api slot subslot len).encode.length

/-- The tokens of the data stay inside `string`, and the bytes copied from there
inside the payload; what lies behind either keeps its content. -/
structure StoresFit (api slot subslot : ℕ) (data : List UInt8) : Prop where
  count_le : (tokens 32 data).length ≤ 64
  count : ∀ stack, (tokenisedString stack data).1 = (tokens 32 data).length
  string : ∀ stack address, 128 ≤ address →
    (tokenisedString stack data).2 address = stack address
  copied : ∀ stack, slice (tokenisedString stack data).2 0
    (tokenisedString stack data).1 = writeData data
  copy_le : dataValueOffset api slot subslot (writeData data).length +
    (writeData data).length ≤ 2048
  payload : ∀ heap address, 2048 ≤ address →
    writeBuffer heap api slot subslot (writeData data) address = heap address

theorem dataValueOffset_eq (api slot subslot len : ℕ) :
    dataValueOffset api slot subslot len = 140 := by
  simp [dataValueOffset]

theorem writeBuffer_outside
    {api slot subslot address : ℕ} {data : List UInt8}
    (hdata : 140 + data.length ≤ 2048) (haddress : 2048 ≤ address)
    (heap : Memory) :
    writeBuffer heap api slot subslot data address = heap address := by
  have hstored : 0 + (writeHeaders api slot subslot data.length ++
      data).length ≤ address := by
    rw [List.length_append, writeHeaders_length]
    omega
  have hzeroed : 0 + (List.replicate 2048 (0 : UInt8)).length ≤ address := by
    rw [List.length_replicate]
    omega
  rw [writeBuffer_eq_store, store_outside (Or.inr hstored), osBufAlloc,
    store_outside (Or.inr hzeroed)]

/-- Data that fits its field with the terminating byte has at most 64 tokens,
for which there is room on the whole way. -/
theorem storesFit_of_field
    (api slot subslot : ℕ) (data : List UInt8) (hfield : data.length + 1 ≤ 128) :
    StoresFit api slot subslot data := by
  have htokens := tokens_length_le 32 data
  have hlength : (writeData data).length = (tokens 32 data).length := by
    rw [writeData, List.length_map]
  constructor
  · omega
  · intro stack
    rw [tokenisedString_eq, hlength]
  · intro stack address haddress
    have hzeroed : 0 + (List.replicate 128 (0 : UInt8)).length ≤ address := by
      rw [List.length_replicate]
      omega
    rw [tokenisedString_eq]
    simp only
    rw [store_outside (Or.inr (by omega)), store_outside (Or.inr hzeroed)]
  · intro stack
    rw [tokenisedString_eq]
    exact slice_store_self _ 0 (writeData data)
  · rw [dataValueOffset_eq]
    omega
  · intro heap address haddress
    exact writeBuffer_outside (by omega) haddress heap

theorem storesFit_of_64_tokens :
    StoresFit 0 1 1 (List.replicate 64 [49, 32]).flatten.dropLast :=
  storesFit_of_field 0 1 1 _ (by simp)

end ProfinetIo
