import ProfinetIo.ResponseText
import Mathlib.Tactic

/-!
# The hexadecimal tokens of a write

`HexToInt` adds up the digits of a token from right to left and multiplies
`nDigitMult` by 16 for every character, hexadecimal or not, the first one
included.  Up to seven characters everything stays inside an `int` and the
result is the positional value; the eighth character takes the multiplier past
it.  The tokens of one and two digits that the write branch is meant for decode
to their bytes, however they are spaced.
-/

namespace ProfinetIo

open CStrings

/-! ## The arithmetic without wrapping -/

def exactHexStep (ch : UInt8) (acc : ℤ × ℤ) : ℤ × ℤ :=
  match hexDigit ch with
  | some digit => (acc.1 + digit * acc.2, acc.2 * 16)
  | none => (acc.1, acc.2 * 16)

def exactHex (hex : List UInt8) : ℤ × ℤ := hex.foldr exactHexStep (0, 1)

/-- The digit product, `nResult` and `nDigitMult` of one pass. -/
def hexPassInts (ch : UInt8) (acc : ℤ × ℤ) : List ℤ :=
  match hexDigit ch with
  | some digit => [digit * acc.2, acc.1 + digit * acc.2, acc.2 * 16]
  | none => [acc.2 * 16]

/-- Every value that `HexToInt` computes for a token, starting with the initial
ones; the loop runs from the last character to the first. -/
def hexInts : List UInt8 → List ℤ
  | [] => [0, 1]
  | ch :: hex => hexInts hex ++ hexPassInts ch (exactHex hex)

def HexFits (token : List UInt8) : Prop :=
  ∀ value ∈ hexInts token, FitsInt value

@[simp] theorem exactHex_cons (ch : UInt8) (hex : List UInt8) :
    exactHex (ch :: hex) = exactHexStep ch (exactHex hex) := rfl

theorem hexDigit_range {ch : UInt8} {digit : ℤ}
    (h : hexDigit ch = some digit) : 0 ≤ digit ∧ digit ≤ 15 := by
  simp only [hexDigit, UInt8.le_iff_toNat_le, UInt8.reduceToNat] at h
  split_ifs at h <;> cases h <;> omega

theorem hexDigit_mul_range {ch : UInt8} {digit mult : ℤ}
    (h : hexDigit ch = some digit) (hmult : 0 < mult) :
    0 ≤ digit * mult ∧ digit * mult ≤ 15 * mult := by
  obtain ⟨hlow, hhigh⟩ := hexDigit_range h
  constructor
  · positivity
  · exact mul_le_mul_of_nonneg_right hhigh hmult.le

theorem exactHex_snd (hex : List UInt8) :
    (exactHex hex).2 = 16 ^ hex.length := by
  induction hex with
  | nil => rfl
  | cons ch hex ih =>
      rw [List.length_cons, pow_succ, ← ih, exactHex_cons]
      cases hdigit : hexDigit ch <;> simp [exactHexStep, hdigit]

theorem exactHex_fst (hex : List UInt8) :
    0 ≤ (exactHex hex).1 ∧ (exactHex hex).1 < 16 ^ hex.length := by
  induction hex with
  | nil => decide
  | cons ch hex ih =>
      have hmult := exactHex_snd hex
      have hpositive : (0 : ℤ) < 16 ^ hex.length := by positivity
      rw [List.length_cons, pow_succ, exactHex_cons]
      cases hdigit : hexDigit ch with
      | none =>
          simp only [exactHexStep, hdigit]
          omega
      | some digit =>
          have hproduct := hexDigit_mul_range hdigit hpositive
          simp only [exactHexStep, hdigit, hmult]
          omega

theorem hexPassInts_le (ch : UInt8) (hex : List UInt8) :
    ∀ value ∈ hexPassInts ch (exactHex hex),
      0 ≤ value ∧ value ≤ 16 ^ (hex.length + 1) := by
  obtain ⟨hlow, hhigh⟩ := exactHex_fst hex
  have hmult := exactHex_snd hex
  have hpositive : (0 : ℤ) < 16 ^ hex.length := by positivity
  unfold hexPassInts
  rw [hmult, pow_succ]
  cases hdigit : hexDigit ch with
  | none =>
      simp only [List.mem_singleton, forall_eq]
      omega
  | some digit =>
      have hproduct := hexDigit_mul_range hdigit hpositive
      simp only [List.mem_cons, List.not_mem_nil, or_false, forall_eq_or_imp,
        forall_eq]
      omega

theorem mult_mem_hexInts (ch : UInt8) (hex : List UInt8) :
    (16 : ℤ) ^ (hex.length + 1) ∈ hexInts (ch :: hex) := by
  rw [hexInts, List.mem_append, pow_succ, ← exactHex_snd]
  right
  unfold hexPassInts
  cases hexDigit ch <;> simp

theorem hexInts_le (token : List UInt8) :
    ∀ value ∈ hexInts token, 0 ≤ value ∧ value ≤ 16 ^ token.length := by
  induction token with
  | nil => decide
  | cons ch hex ih =>
      have hgrow : (16 : ℤ) ^ hex.length ≤ 16 ^ (hex.length + 1) :=
        pow_le_pow_right₀ (by decide) (Nat.le_succ _)
      intro value hvalue
      rcases List.mem_append.mp hvalue with hearlier | hpass
      · obtain ⟨hlow, hhigh⟩ := ih value hearlier
        exact ⟨hlow, hhigh.trans hgrow⟩
      · exact hexPassInts_le ch hex value hpass

theorem hexFits_of_short {token : List UInt8} (hshort : token.length ≤ 7) :
    HexFits token := by
  intro value hvalue
  obtain ⟨hlow, hhigh⟩ := hexInts_le token value hvalue
  have hpower : (16 : ℤ) ^ token.length ≤ 16 ^ 7 :=
    pow_le_pow_right₀ (by decide) hshort
  constructor <;> omega

/-- Nothing overflows exactly in tokens of at most seven characters. -/
theorem hexFits_iff (token : List UInt8) :
    HexFits token ↔ token.length ≤ 7 := by
  constructor
  · intro h
    by_contra hlong
    obtain ⟨ch, hex, rfl⟩ : ∃ ch hex, token = ch :: hex := by
      cases token with
      | nil => simp at hlong
      | cons ch hex => exact ⟨ch, hex, rfl⟩
    rw [List.length_cons] at hlong
    have hpower : (16 : ℤ) ^ 8 ≤ 16 ^ (hex.length + 1) :=
      pow_le_pow_right₀ (by decide) (by omega)
    have hfits := (h _ (mult_mem_hexInts ch hex)).2
    omega
  · exact hexFits_of_short

theorem hexFits_fails_on_eight_digits :
    ¬ ∀ data : List UInt8, data.length ≤ 127 →
      ∀ token ∈ tokens 32 data, HexFits token := by
  intro h
  have hzeros := h (asciiBytes "00000000") (by decide)
    (asciiBytes "00000000") (by decide)
  have hmult := hzeros _ (mult_mem_hexInts 48 (asciiBytes "0000000"))
  revert hmult
  decide

/-! ## Decoding -/

theorem foldr_hexStep_of_fits {token : List UInt8} (h : HexFits token) :
    token.foldr hexStep (0, 1) = exactHex token := by
  induction token with
  | nil => rfl
  | cons ch hex ih =>
      have hhex : HexFits hex := by
        intro value hvalue
        exact h value (List.mem_append_left _ hvalue)
      have hpass : ∀ value ∈ hexPassInts ch (exactHex hex), FitsInt value := by
        intro value hvalue
        exact h value (List.mem_append_right _ hvalue)
      rw [List.foldr_cons, ih hhex, exactHex_cons]
      unfold hexPassInts at hpass
      unfold hexStep exactHexStep
      cases hdigit : hexDigit ch with
      | none =>
          simp only [hdigit, List.mem_singleton, forall_eq] at hpass
          simp only [toInt32_of_fits hpass]
      | some digit =>
          simp only [hdigit, List.mem_cons, List.not_mem_nil, or_false,
            forall_eq_or_imp, forall_eq] at hpass
          obtain ⟨hproduct, hsum, hmult⟩ := hpass
          simp only [toInt32_of_fits hproduct, toInt32_of_fits hsum,
            toInt32_of_fits hmult]

def IsHexDigit (value : ℕ) (ch : UInt8) : Prop :=
  (asciiBytes "0123456789abcdef")[value]? = some ch ∨
    (asciiBytes "0123456789ABCDEF")[value]? = some ch

/-- The ways of writing a byte: one digit, or two. -/
def Spells (token : List UInt8) (byte : UInt8) : Prop :=
  (∃ digit, token = [digit] ∧ IsHexDigit byte.toNat digit) ∨
    ∃ high low, token = [high, low] ∧
      IsHexDigit (byte.toNat / 16) high ∧ IsHexDigit (byte.toNat % 16) low

theorem IsHexDigit.hexDigit_eq {value : ℕ} {ch : UInt8}
    (h : IsHexDigit value ch) : hexDigit ch = some (value : ℤ) := by
  have hvalue : value < 16 := by
    rcases h with h | h
    · exact (List.getElem?_eq_some_iff.mp h).1
    · exact (List.getElem?_eq_some_iff.mp h).1
  unfold IsHexDigit at h
  interval_cases value <;> rcases h with h | h <;> cases h <;> rfl

theorem IsHexDigit.ne_blank {value : ℕ} {ch : UInt8}
    (h : IsHexDigit value ch) : 32 ≠ ch := by
  rintro rfl
  have hdigit := h.hexDigit_eq
  revert hdigit
  rw [show hexDigit 32 = none by decide]
  exact nofun

theorem Spells.token {token : List UInt8} {byte : UInt8}
    (h : Spells token byte) : token ≠ [] ∧ 32 ∉ token := by
  rcases h with ⟨digit, rfl, hdigit⟩ | ⟨high, low, rfl, hhigh, hlow⟩
  · simp [hdigit.ne_blank]
  · simp [hhigh.ne_blank, hlow.ne_blank]

theorem Spells.hexToInt_eq {token : List UInt8} {byte : UInt8}
    (h : Spells token byte) : hexToInt token = byte.toNat := by
  have hshort : token.length ≤ 7 := by
    rcases h with ⟨digit, rfl, -⟩ | ⟨high, low, rfl, -, -⟩
    · simp
    · simp
  rw [hexToInt, foldr_hexStep_of_fits (hexFits_of_short hshort)]
  rcases h with ⟨digit, rfl, hdigit⟩ | ⟨high, low, rfl, hhigh, hlow⟩
  · simp [exactHex, exactHexStep, hdigit.hexDigit_eq]
  · simp only [exactHex, exactHexStep, List.foldr_cons, List.foldr_nil,
      hhigh.hexDigit_eq, hlow.hexDigit_eq]
    omega

section Spelled

variable {bytes : List UInt8} {spelled : List (List UInt8)}

theorem tokens_of_spelled (h : List.Forall₂ Spells spelled bytes) :
    ∀ token ∈ spelled, token ≠ [] ∧ 32 ∉ token := by
  induction h with
  | nil => simp
  | cons hspell _ ih => exact List.forall_mem_cons.mpr ⟨hspell.token, ih⟩

theorem map_of_spelled (h : List.Forall₂ Spells spelled bytes) :
    (spelled.map fun token => toUChar (hexToInt token)) = bytes := by
  induction h with
  | nil => rfl
  | cons hspell _ ih =>
      rw [List.map_cons, ih, hspell.hexToInt_eq, toUChar_toNat]

end Spelled

/-- However the bytes are spelled and spaced, the write branch decodes them;
the text of a response is one of those spellings. -/
theorem writeData_of_spelled :
    (∀ (bytes : List UInt8) (spelled : List (List UInt8)) (text : List UInt8),
      List.Forall₂ Spells spelled bytes → Spaced 32 text spelled →
        writeData text = bytes) ∧
    ∀ response : List UInt8, writeData (hexText response) = response := by
  refine ⟨?_, writeData_hexText⟩
  intro bytes spelled text hspells hspaced
  rw [writeData, tokens_of_spaced hspaced (tokens_of_spelled hspells)]
  exact map_of_spelled hspells

theorem writeData_of_mixed_spelling :
    writeData (asciiBytes " a fF  07 ") = [10, 255, 7] := by
  have hspells : List.Forall₂ Spells
      [asciiBytes "a", asciiBytes "fF", asciiBytes "07"] [10, 255, 7] := by
    refine .cons (Or.inl ⟨97, rfl, Or.inl rfl⟩) (.cons (Or.inr ?_)
      (.cons (Or.inr ?_) .nil))
    · exact ⟨102, 70, rfl, Or.inl rfl, Or.inr rfl⟩
    · exact ⟨48, 55, rfl, Or.inl rfl, Or.inl rfl⟩
  have hspaced : Spaced 32 (asciiBytes " a fF  07 ")
      [asciiBytes "a", asciiBytes "fF", asciiBytes "07"] :=
    .more 1 (asciiBytes "a") (.more 0 (asciiBytes "fF")
      (.more 1 (asciiBytes "07") (.blanks 0)))
  exact writeData_of_spelled.1 _ _ _ hspells hspaced

end ProfinetIo
