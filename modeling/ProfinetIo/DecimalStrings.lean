import ProfinetIo.CStrings
import Mathlib.Data.List.TakeWhile
import Mathlib.Tactic

/-!
# Decimal strings

A value is written as its digits, possibly with zeros in front; only as many
of them as the array for the string has room for.  `atoi` reads such a string
back up to the wrap-around of `int`, which the low bits do not notice.
-/

namespace CStrings

structure DecimalString (capacity value : ℕ) (text : List UInt8) : Prop where
  nonempty : text ≠ []
  digits : text.all isDigit = true
  value_eq : decimalValue text = value
  leadingZeros : text.head? = some 48 → text.length < capacity

/-! ## Written numbers -/

/-- The number that a text starts with, behind blanks and with its sign if it
has one.  There is no limit to it, and without digits it is zero. -/
def writtenNumber (text : List UInt8) : ℤ :=
  match text.dropWhile isSpace with
  | [] => 0
  | sign :: digits =>
      if sign = 45 then -decimalValue (digits.takeWhile isDigit)
      else if sign = 43 then decimalValue (digits.takeWhile isDigit)
      else decimalValue ((sign :: digits).takeWhile isDigit)

/-- A number beyond the range of `long` becomes the nearest one inside. -/
def nearestLong (number : ℤ) : ℤ :=
  max (-9223372036854775808) (min 9223372036854775807 number)

theorem nearestLong_natCast (magnitude : ℕ) :
    nearestLong magnitude = min 9223372036854775807 (magnitude : ℤ) :=
  max_eq_right (le_min (by decide) (by omega))

theorem nearestLong_neg_natCast (magnitude : ℕ) :
    nearestLong (-magnitude) = max (-9223372036854775808) (-magnitude : ℤ) :=
  congrArg (max (-9223372036854775808)) (min_eq_right (by omega))

theorem strtol_eq_nearestLong (text : List UInt8) :
    strtol text = nearestLong (writtenNumber text) := by
  unfold strtol writtenNumber
  cases text.dropWhile isSpace with
  | nil => decide
  | cons sign digits =>
      by_cases hminus : sign = 45
      · simp [hminus, nearestLong_neg_natCast]
      · by_cases hplus : sign = 43
        · simp [hplus, nearestLong_natCast]
        · simp [hminus, hplus, nearestLong_natCast]

theorem nearestLong_of_fits {number : ℤ} (h : FitsInt number) :
    nearestLong number = number := by
  obtain ⟨hlow, hhigh⟩ := h
  unfold nearestLong
  omega

/-- The conversion gives the number that an `int` can hold and that differs by
a multiple of 2^32. -/
theorem toInt32_eq_iff {value number : ℤ} :
    toInt32 value = number ↔
      FitsInt number ∧ value ≡ number [ZMOD 4294967296] := by
  have hiff := @Int.bmod_eq_iff value 4294967296 number (by decide)
  rw [toInt32, hiff, Int.modEq_iff_dvd]
  unfold FitsInt
  constructor
  · rintro ⟨hlow, hhigh, hmultiple⟩
    exact ⟨⟨by omega, by omega⟩, by simpa using hmultiple⟩
  · rintro ⟨⟨hlow, hhigh⟩, hmultiple⟩
    exact ⟨by omega, by omega, by simpa using hmultiple⟩

/-! ## Strings of digits -/

section Digits

variable {text : List UInt8}

theorem digit_bounds {byte : UInt8} (h : isDigit byte = true) :
    48 ≤ byte.toNat ∧ byte.toNat ≤ 57 := by
  unfold isDigit at h
  simp only [Bool.and_eq_true, decide_eq_true_eq, UInt8.le_iff_toNat_le] at h
  exact h

theorem pow_le_foldl_digits (digits : List UInt8) (value : ℕ) :
    value * 10 ^ digits.length ≤
      digits.foldl (fun value digit => 10 * value + (digit.toNat - 48))
        value := by
  induction digits generalizing value with
  | nil => simp
  | cons digit digits ih =>
      have hstep : 10 * value ≤ 10 * value + (digit.toNat - 48) :=
        Nat.le_add_right _ _
      calc
        value * 10 ^ (digit :: digits).length =
            10 * value * 10 ^ digits.length := by
          rw [List.length_cons, pow_succ]
          ring
        _ ≤ (10 * value + (digit.toNat - 48)) * 10 ^ digits.length :=
          Nat.mul_le_mul_right _ hstep
        _ ≤ _ := ih _

/-- A string without a zero in front is as short as its value is small. -/
theorem length_lt_of_head
    {byte : UInt8} {digits : List UInt8} (hbyte : 48 < byte.toNat)
    {bound : ℕ} (hvalue : decimalValue (byte :: digits) < 10 ^ bound) :
    digits.length < bound := by
  have hhead : 10 ^ digits.length ≤ decimalValue (byte :: digits) := by
    have hone : 1 ≤ 10 * 0 + (byte.toNat - 48) := by omega
    calc
      10 ^ digits.length = 1 * 10 ^ digits.length := (one_mul _).symm
      _ ≤ (10 * 0 + (byte.toNat - 48)) * 10 ^ digits.length :=
        Nat.mul_le_mul_right _ hone
      _ ≤ decimalValue (byte :: digits) := pow_le_foldl_digits digits _
  exact (Nat.pow_lt_pow_iff_right (by decide)).mp (hhead.trans_lt hvalue)

theorem DecimalString.length_lt
    {capacity value : ℕ} (h : DecimalString (capacity + 1) value text)
    (hvalue : value < 10 ^ capacity) : text.length < capacity + 1 := by
  cases htext : text with
  | nil => simp
  | cons byte digits =>
      have hdigits := h.digits
      rw [htext, List.all_cons, Bool.and_eq_true] at hdigits
      have hbyte := digit_bounds hdigits.1
      rcases Nat.eq_or_lt_of_le hbyte.1 with hzero | hpositive
      · have hhead : text.head? = some 48 := by
          rw [htext, List.head?_cons, Option.some.injEq, ← UInt8.toNat_inj]
          exact hzero.symm
        rw [← htext]
        exact h.leadingZeros hhead
      · have hfold := h.value_eq
        rw [htext] at hfold
        have hlength := length_lt_of_head hpositive
          (hfold.trans_lt hvalue)
        rw [List.length_cons]
        omega

/-- A string of digits has no blank and no sign to skip, and nothing behind
the digits. -/
theorem strtol_of_digits
    (hne : text ≠ []) (hdigits : text.all isDigit = true) :
    strtol text = min 9223372036854775807 (decimalValue text : ℤ) := by
  cases text with
  | nil => contradiction
  | cons byte digits =>
      have hdigit := List.all_eq_true.mp hdigits
      have hbyte := digit_bounds (hdigit byte List.mem_cons_self)
      have hspace : ¬ isSpace byte = true := by
        unfold isSpace
        simp only [Bool.or_eq_true, Bool.and_eq_true, decide_eq_true_eq,
          UInt8.le_iff_toNat_le, ← UInt8.toNat_inj]
        intro h
        rcases h with h | h
        · have h32 : byte.toNat = 32 := h
          omega
        · have h13 : byte.toNat ≤ 13 := h.2
          omega
      have hplus : ¬ (byte = 43 ∨ byte = 45) := by
        intro h
        rcases h with rfl | rfl
        · exact absurd hbyte.1 (by decide)
        · exact absurd hbyte.1 (by decide)
      have hminus : ¬ byte = 45 := fun h => hplus (Or.inr h)
      have hall : (byte :: digits).takeWhile isDigit = byte :: digits :=
        List.takeWhile_eq_self_iff.mpr hdigit
      unfold strtol
      rw [List.dropWhile_cons_of_neg hspace]
      dsimp only
      rw [if_neg hplus, if_neg hminus, hall]

theorem atoi_of_digits
    (hne : text ≠ []) (hdigits : text.all isDigit = true)
    (hvalue : decimalValue text < 9223372036854775808) :
    atoi text = Int.bmod (decimalValue text) 4294967296 := by
  have hmin : min 9223372036854775807 (decimalValue text : ℤ) =
      decimalValue text := by omega
  rw [atoi, strtol_of_digits hne hdigits, hmin]
  rfl

/-- The low bits of the converted value, taken as unsigned, are the value. -/
theorem DecimalString.atoi_emod
    {capacity value : ℕ} (h : DecimalString capacity value text)
    {bits : ℕ} (hbits : bits ≤ 32) (hvalue : value < 2 ^ bits) :
    (atoi text % (2 ^ bits : ℕ)).toNat = value := by
  have hpow : (2 : ℕ) ^ bits ≤ 2 ^ 32 :=
    Nat.pow_le_pow_right (by decide) hbits
  have hdvd : ((2 ^ bits : ℕ) : ℤ) ∣ (4294967296 : ℕ) := by
    exact_mod_cast Nat.pow_dvd_pow 2 hbits
  have hsmall : decimalValue text < 9223372036854775808 := by
    rw [h.value_eq]
    omega
  rw [atoi_of_digits h.nonempty h.digits hsmall, h.value_eq]
  have hmod : Int.bmod (value : ℤ) 4294967296 % ((2 ^ bits : ℕ) : ℤ) =
      (value : ℤ) % ((2 ^ bits : ℕ) : ℤ) := by
    rw [← Int.emod_emod_of_dvd _ hdvd, Int.bmod_emod,
      Int.emod_emod_of_dvd _ hdvd]
  rw [hmod, ← Int.natCast_mod, Int.toNat_natCast, Nat.mod_eq_of_lt hvalue]

end Digits

end CStrings
