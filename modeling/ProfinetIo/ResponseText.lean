import ProfinetIo.MqttMsgHdlr
import Mathlib.Tactic

/-!
# The text of a response

Both branches of the handler write the response into a zeroed array of 2048
bytes: the opening, then each byte as two digits with a blank between two
bytes, then the closing, all by `strcat`, which looks at no size.  The text is
the one that is published, and it decodes to the response; but it is three
times as long, and the array ends long before the longest response.
-/

namespace ProfinetIo

open CStrings

/-! ## Building the text -/

/-- `char mqtt_res[2048]`. -/
def mqttResSize : ℕ := 2048

/-- The loop over the response bytes that are left. -/
def appendResponse : List UInt8 → List UInt8 → List UInt8
  | res, [] => res
  | res, byte :: bytes =>
      let res := strcat res (hexByte byte)
      let res := if bytes ≠ [] then strcat res (asciiBytes " ") else res
      appendResponse res bytes

/-- What both branches leave in `mqtt_res`. -/
def mqttRes (response : List UInt8) : List UInt8 :=
  let res := List.replicate mqttResSize 0
  let res := strcpy res 0 (asciiBytes "\x7b\"response\": \"")
  let res := appendResponse res response
  strcat res (asciiBytes "\" \x7d")

/-- The bytes as two-digit numbers separated by single blanks. -/
def hexPairs (response : List UInt8) : List UInt8 :=
  (asciiBytes " ").intercalate (response.map hexByte)

/-- The text and its zero byte lie inside the array, the text is the response
between the quotes and is what either branch publishes, and what is between the
quotes decodes to the response. -/
structure ResponseFits (response : List UInt8) : Prop where
  inside : (mqttRes response).length = mqttResSize
  text : stringAt (mqttRes response) 0 =
    asciiBytes "\x7b\"response\": \"" ++ hexPairs response ++
      asciiBytes "\" \x7d"
  published : ∀ result : IoResult, result.response.getD [] = response →
    (publishResponse result).published = some (stringAt (mqttRes response) 0)
  decodes : writeData (hexPairs response) = response

/-! ## Hexadecimal digits -/

theorem hexDigit_upperHexDigit (value : ℕ) (h : value < 16) :
    hexDigit (upperHexDigit value) = some (value : ℤ) := by
  interval_cases value <;> rfl

theorem nibbles_lt (byte : UInt8) :
    byte.toNat / 16 < 16 ∧ byte.toNat % 16 < 16 := by
  have hbyte : byte.toNat < 256 := byte.toNat_lt
  omega

theorem toInt32_of_lt {value : ℤ} (hlow : 0 ≤ value)
    (hhigh : value < 2147483648) : toInt32 value = value := by
  unfold toInt32
  exact Int.bmod_eq_of_le (by omega) (by omega)

theorem hexStep_upperHexDigit
    {value : ℕ} (hvalue : value < 16) {result mult : ℤ}
    (hresult : 0 ≤ result) (hmult : 0 < mult)
    (hroom : result + mult * 16 ≤ 2147483647) :
    hexStep (upperHexDigit value) (result, mult) =
      (result + value * mult, mult * 16) := by
  have hdigit : (0 : ℤ) ≤ value * mult ∧ value * mult ≤ mult * 15 := by
    constructor
    · positivity
    · nlinarith
  have hproduct : toInt32 (value * mult) = value * mult :=
    toInt32_of_lt hdigit.1 (by omega)
  have hsum : toInt32 (result + value * mult) = result + value * mult :=
    toInt32_of_lt (by omega) (by omega)
  have hnext : toInt32 (mult * 16) = mult * 16 :=
    toInt32_of_lt (by omega) (by omega)
  simp only [hexStep, hexDigit_upperHexDigit value hvalue, hproduct, hsum,
    hnext]

theorem hexToInt_hexByte (byte : UInt8) :
    hexToInt (hexByte byte) = byte.toNat := by
  obtain ⟨hhigh, hlow⟩ := nibbles_lt byte
  unfold hexToInt hexByte
  rw [List.foldr_cons, List.foldr_cons, List.foldr_nil,
    hexStep_upperHexDigit hlow (by omega) (by omega) (by omega),
    hexStep_upperHexDigit hhigh (by omega) (by omega) (by omega)]
  dsimp only
  omega

theorem toUChar_toNat (byte : UInt8) : toUChar byte.toNat = byte := by
  have hbyte : byte.toNat < 256 := byte.toNat_lt
  have hmod : ((byte.toNat : ℤ) % 256).toNat = byte.toNat := by omega
  rw [toUChar, hmod, UInt8.ofNat_toNat]

/-! ## Decoding -/

theorem hexDigit_isSome_of_mem {digit byte : UInt8}
    (h : digit ∈ hexByte byte) : (hexDigit digit).isSome = true := by
  obtain ⟨hhigh, hlow⟩ := nibbles_lt byte
  simp only [hexByte, List.mem_cons, List.not_mem_nil, or_false] at h
  rcases h with rfl | rfl
  · rw [hexDigit_upperHexDigit _ hhigh]
    rfl
  · rw [hexDigit_upperHexDigit _ hlow]
    rfl

theorem zero_not_mem_hexByte (byte : UInt8) : 0 ∉ hexByte byte := by
  intro h
  have hdigit := hexDigit_isSome_of_mem h
  revert hdigit
  decide

theorem blank_not_mem_hexByte (byte : UInt8) : 32 ∉ hexByte byte := by
  intro h
  have hdigit := hexDigit_isSome_of_mem h
  revert hdigit
  decide

theorem hexText_cons_cons (byte next : UInt8) (bytes : List UInt8) :
    hexText (byte :: next :: bytes) =
      hexByte byte ++ (asciiBytes " " ++ hexText (next :: bytes)) := by
  have hstep : hexText (byte :: next :: bytes) =
      hexByte byte ++ [32] ++ hexText (next :: bytes) := by
    rw [hexText]
    exact List.cons_ne_nil next bytes
  rw [hstep, List.append_assoc]
  rfl

theorem hexText_eq_hexPairs (response : List UInt8) :
    hexText response = hexPairs response := by
  unfold hexPairs
  induction response with
  | nil => rfl
  | cons byte bytes ih =>
      cases bytes with
      | nil => simp [hexText, List.intercalate]
      | cons next bytes =>
          rw [hexText_cons_cons, ih]
          simp [List.intercalate]

theorem tokens_hexText (response : List UInt8) :
    tokens 32 (hexText response) = response.map hexByte := by
  induction response with
  | nil => rfl
  | cons byte bytes ih =>
      have hne : hexByte byte ≠ [] := by simp [hexByte]
      have hblank := blank_not_mem_hexByte byte
      cases bytes with
      | nil =>
          have htoken := strtok_of_token hne hblank (Or.inl rfl)
          rw [List.append_nil] at htoken
          rw [hexText, tokens_eq, htoken]
          rfl
      | cons next bytes =>
          have htoken := strtok_of_token hne hblank
            (show asciiBytes " " ++ hexText (next :: bytes) = [] ∨ _ from
              Or.inr rfl)
          have htail : (asciiBytes " " ++ hexText (next :: bytes)).tail =
              hexText (next :: bytes) := rfl
          rw [hexText_cons_cons, tokens_eq, htoken, htail]
          dsimp only
          rw [ih]
          rfl

theorem writeData_hexText (response : List UInt8) :
    writeData (hexText response) = response := by
  have hbyte : ∀ byte : UInt8, toUChar (hexToInt (hexByte byte)) = byte := by
    intro byte
    rw [hexToInt_hexByte, toUChar_toNat]
  rw [writeData, tokens_hexText, List.map_map]
  simp [Function.comp_def, hbyte]

/-! ## The text in the array -/

theorem zero_not_mem_hexText (response : List UInt8) :
    0 ∉ hexText response := by
  induction response with
  | nil => simp [hexText]
  | cons byte bytes ih =>
      have hbyte := zero_not_mem_hexByte byte
      cases bytes with
      | nil => exact hbyte
      | cons next bytes =>
          rw [hexText_cons_cons]
          simp [hbyte, ih, asciiBytes]

theorem hexText_length (response : List UInt8) :
    (hexText response).length = 3 * response.length - 1 := by
  induction response with
  | nil => rfl
  | cons byte bytes ih =>
      cases bytes with
      | nil => rfl
      | cons next bytes =>
          have hblank : (asciiBytes " ").length = 1 := rfl
          have hpair : (hexByte byte).length = 2 := rfl
          rw [hexText_cons_cons, List.length_append, List.length_append, ih,
            hblank, hpair]
          simp only [List.length_cons]
          omega

theorem appendResponse_filled
    (size : ℕ) (response : List UInt8) {text : List UInt8}
    (htext : 0 ∉ text) :
    appendResponse (filled size text) response =
      filled size (text ++ hexText response) := by
  induction response generalizing text with
  | nil => simp [appendResponse, hexText]
  | cons byte bytes ih =>
      have hbyte : (0 : UInt8) ∉ text ++ hexByte byte := by
        intro h
        rcases List.mem_append.mp h with h | h
        · exact htext h
        · exact zero_not_mem_hexByte byte h
      unfold appendResponse
      dsimp only
      rw [strcat_filled htext]
      cases bytes with
      | nil => simp [appendResponse, hexText]
      | cons next bytes =>
          have hblank : (0 : UInt8) ∉
              text ++ hexByte byte ++ asciiBytes " " := by
            intro h
            rcases List.mem_append.mp h with h | h
            · exact hbyte h
            · revert h
              decide
          rw [if_pos (List.cons_ne_nil next bytes), strcat_filled hbyte,
            ih hblank, hexText_cons_cons byte]
          simp

/-- The array holds the text, and grows when the text does not fit. -/
theorem mqttRes_eq_filled (response : List UInt8) :
    mqttRes response = filled mqttResSize (responseText response) := by
  have hopening : (0 : UInt8) ∉ asciiBytes "\x7b\"response\": \"" := by
    decide
  have hstart : strcpy (List.replicate mqttResSize 0) 0
      (asciiBytes "\x7b\"response\": \"") =
      filled mqttResSize (asciiBytes "\x7b\"response\": \"") := by
    rw [← filled_nil (show 0 < mqttResSize by decide)]
    exact strcpy_filled mqttResSize [] _
  have htext : 0 ∉ asciiBytes "\x7b\"response\": \"" ++ hexText response := by
    intro h
    rcases List.mem_append.mp h with h | h
    · exact hopening h
    · exact zero_not_mem_hexText response h
  unfold mqttRes
  dsimp only
  rw [hstart, appendResponse_filled _ _ hopening, strcat_filled htext]
  rfl

theorem zero_not_mem_responseText (response : List UInt8) :
    0 ∉ responseText response := by
  intro h
  rcases List.mem_append.mp h with h | h
  · rcases List.mem_append.mp h with h | h
    · revert h
      decide
    · exact zero_not_mem_hexText response h
  · revert h
    decide

theorem stringAt_mqttRes (response : List UInt8) :
    stringAt (mqttRes response) 0 = responseText response := by
  rw [mqttRes_eq_filled]
  exact stringAt_filled (zero_not_mem_responseText response)

/-- The text handed on by both branches is the string in the array. -/
theorem publishResponse_published (result : IoResult) :
    (publishResponse result).published =
      some (stringAt (mqttRes (result.response.getD [])) 0) := by
  rw [stringAt_mqttRes]
  rfl

theorem responseText_length (response : List UInt8) :
    (responseText response).length = 17 + (3 * response.length - 1) := by
  have hopening : (asciiBytes "\x7b\"response\": \"").length = 14 := by decide
  have hclosing : (asciiBytes "\" \x7d").length = 3 := by decide
  rw [responseText, List.length_append, List.length_append, hopening,
    hclosing, hexText_length]
  omega

/-! ## Responses that fit -/

theorem mqttRes_length (response : List UInt8) :
    (mqttRes response).length =
      max mqttResSize (17 + (3 * response.length - 1) + 1) := by
  rw [mqttRes_eq_filled, filled_length, responseText_length]

theorem responseFits_iff (response : List UInt8) :
    ResponseFits response ↔ response.length ≤ 677 := by
  constructor
  · intro h
    have hinside := h.inside
    rw [mqttRes_length, mqttResSize] at hinside
    omega
  · intro h
    constructor
    · rw [mqttRes_length, mqttResSize]
      omega
    · rw [stringAt_mqttRes, ← hexText_eq_hexPairs]
      rfl
    · intro result hresult
      rw [publishResponse_published, hresult]
    · rw [← hexText_eq_hexPairs, writeData_hexText]

theorem responseFits_fails_on_678_bytes :
    ¬ ResponseFits (List.replicate 678 0) := by
  intro h
  have hinside := h.inside
  rw [mqttRes_length, List.length_replicate, mqttResSize] at hinside
  omega

end ProfinetIo
