import Mathlib.Tactic

/-!
# C strings

A string is the list of its bytes without the terminating zero byte.  Storage
that strings are copied into is a list of bytes that grows when a copy runs
past its end, so that an overflow is visible as a changed length.

`strtok`, `strcasecmp` and the numeric conversion follow the C library in the
C locale on a platform with 64-bit `long` and 32-bit `int`.
-/

namespace CStrings

def asciiBytes (text : String) : List UInt8 :=
  text.toList.map fun c => UInt8.ofNat c.toNat

/-! ## Storage -/

def overwrite (storage : List UInt8) (start : ℕ) (bytes : List UInt8) :
    List UInt8 :=
  storage.take start ++ bytes ++ storage.drop (start + bytes.length)

/-- `strcpy` to offset `start` of the storage. -/
def strcpy (storage : List UInt8) (start : ℕ) (text : List UInt8) :
    List UInt8 :=
  overwrite storage start (text ++ [0])

def stringAt (storage : List UInt8) (start : ℕ) : List UInt8 :=
  (storage.drop start).takeWhile (· ≠ 0)

/-- `strcat` to the string at the start of the storage. -/
def strcat (storage text : List UInt8) : List UInt8 :=
  strcpy storage (stringAt storage 0).length text

/-- A buffer of zeros after a string has been put at its start; a string that
is too long ends in the first byte behind it. -/
def filled (size : ℕ) (text : List UInt8) : List UInt8 :=
  text ++ List.replicate (max (size - text.length) 1) 0

section Storage

theorem stringAt_add
    {storage : List UInt8} {start n : ℕ}
    (h : n ≤ (stringAt storage start).length) :
    stringAt storage (start + n) = (stringAt storage start).drop n := by
  unfold stringAt at h ⊢
  rw [← List.drop_drop]
  generalize storage.drop start = bytes at h ⊢
  induction n generalizing bytes with
  | zero => rfl
  | succ n ih =>
      cases bytes with
      | nil => simp at h
      | cons byte bytes =>
          by_cases hbyte : byte = 0
          · simp [hbyte] at h
          · rw [List.takeWhile_cons_of_pos (by simpa using hbyte)] at h ⊢
            simp only [List.length_cons, Nat.add_le_add_iff_right] at h
            simpa using ih bytes h

theorem stringAt_of_terminated
    {front text bytes : List UInt8} (htext : 0 ∉ text)
    (h : text ++ [0] <+: bytes) :
    stringAt (front ++ bytes) front.length = text := by
  obtain ⟨rest, rfl⟩ := h
  have hnonzero : ∀ byte ∈ text, decide (byte ≠ 0) = true := by
    intro byte hbyte
    rw [decide_eq_true_eq]
    intro hzero
    exact htext (hzero ▸ hbyte)
  unfold stringAt
  rw [List.drop_left, List.append_assoc,
    List.takeWhile_append_of_pos hnonzero]
  simp

theorem stringAt_of_take
    {front text storage : List UInt8} (htext : 0 ∉ text)
    (h : storage.take (front.length + text.length + 1) =
      front ++ (text ++ [0])) :
    stringAt storage front.length = text := by
  have hstorage := List.take_append_drop (front.length + text.length + 1)
    storage
  rw [h, List.append_assoc] at hstorage
  rw [← hstorage]
  exact stringAt_of_terminated htext (List.prefix_append _ _)

theorem overwrite_append
    (front back bytes : List UInt8) :
    overwrite (front ++ back) front.length bytes =
      front ++ (bytes ++ back.drop bytes.length) := by
  simp [overwrite]

variable {size : ℕ} {text : List UInt8}

@[simp] theorem filled_length (size : ℕ) (text : List UInt8) :
    (filled size text).length = max size (text.length + 1) := by
  simp only [filled, List.length_append, List.length_replicate]
  omega

theorem filled_nil (h : 0 < size) :
    filled size [] = List.replicate size 0 := by
  have hmax : max (size - 0) 1 = size := by omega
  rw [filled, List.length_nil, hmax, List.nil_append]

theorem stringAt_filled (htext : 0 ∉ text) :
    stringAt (filled size text) 0 = text := by
  have hone : max (size - text.length) 1 =
      max (size - text.length) 1 - 1 + 1 := by omega
  have hprefix : text ++ [0] <+: filled size text := by
    rw [filled, hone, List.replicate_succ]
    exact ⟨List.replicate (max (size - text.length) 1 - 1) 0, by simp⟩
  exact @stringAt_of_terminated [] text (filled size text) htext hprefix

theorem strcpy_filled (size : ℕ) (text more : List UInt8) :
    strcpy (filled size text) text.length more =
      filled size (text ++ more) := by
  have hzeros : max (size - text.length) 1 - (more.length + 1) + 1 =
      max (size - (text.length + more.length)) 1 := by omega
  rw [strcpy, filled, overwrite_append, filled, List.length_append,
    List.length_append, ← hzeros, List.replicate_succ]
  simp

theorem strcat_filled (htext : 0 ∉ text) (more : List UInt8) :
    strcat (filled size text) more = filled size (text ++ more) := by
  rw [strcat, stringAt_filled htext, strcpy_filled]

end Storage

/-! ## Comparison and conversion -/

def toLower (byte : UInt8) : UInt8 :=
  if 65 ≤ byte ∧ byte ≤ 90 then byte + 32 else byte

/-- `strcasecmp(left, right) == 0`. -/
def sameIgnoringCase (left right : List UInt8) : Prop :=
  left.map toLower = right.map toLower

instance (left right : List UInt8) :
    Decidable (sameIgnoringCase left right) :=
  inferInstanceAs (Decidable (_ = _))

def isSpace (byte : UInt8) : Bool := byte = 32 || (9 ≤ byte && byte ≤ 13)

def isDigit (byte : UInt8) : Bool := 48 ≤ byte && byte ≤ 57

def decimalValue (digits : List UInt8) : ℕ :=
  digits.foldl (fun value digit => 10 * value + (digit.toNat - 48)) 0

/-- `strtol` in base 10, which saturates. -/
def strtol (text : List UInt8) : ℤ :=
  match text.dropWhile isSpace with
  | [] => 0
  | byte :: rest =>
      let digits := if byte = 43 ∨ byte = 45 then rest else byte :: rest
      let magnitude := decimalValue (digits.takeWhile isDigit)
      if byte = 45 then max (-9223372036854775808) (-magnitude)
      else min 9223372036854775807 magnitude

/-- The conversion to a 32-bit `int`, which keeps the low bits. -/
def toInt32 (value : ℤ) : ℤ := Int.bmod value 4294967296

/-- The values of a 32-bit `int`; an operation on `int` whose result is not
one of them overflows. -/
def FitsInt (value : ℤ) : Prop := -2147483648 ≤ value ∧ value ≤ 2147483647

instance (value : ℤ) : Decidable (FitsInt value) :=
  inferInstanceAs (Decidable (_ ∧ _))

theorem toInt32_of_fits {value : ℤ} (h : FitsInt value) :
    toInt32 value = value :=
  Int.bmod_eq_of_le h.1 (by have := h.2; omega)

def atoi (text : List UInt8) : ℤ := toInt32 (strtol text)

/-! ## Tokens -/

/-- One call of `strtok`: the token and what is left behind its delimiter. -/
def strtok (delim : UInt8) (text : List UInt8) :
    Option (List UInt8 × List UInt8) :=
  match text.dropWhile (· = delim) with
  | [] => none
  | byte :: rest =>
      some ((byte :: rest).takeWhile (· ≠ delim),
        ((byte :: rest).dropWhile (· ≠ delim)).tail)

def tokensWithFuel (delim : UInt8) : ℕ → List UInt8 → List (List UInt8)
  | 0, _ => []
  | fuel + 1, text =>
      match strtok delim text with
      | none => []
      | some (token, rest) => token :: tokensWithFuel delim fuel rest

/-- Every token of the text, which has no more tokens than bytes. -/
def tokens (delim : UInt8) (text : List UInt8) : List (List UInt8) :=
  tokensWithFuel delim text.length text

section Tokens

variable {delim : UInt8} {text token rest : List UInt8}

/-- What is skipped, the token, and what is left with its delimiter. -/
theorem strtok_parts (h : strtok delim text = some (token, rest)) :
    ∃ skipped behind, text = skipped ++ (token ++ behind) ∧ token ≠ [] ∧
      rest = behind.tail := by
  unfold strtok at h
  split at h
  · contradiction
  · next byte tail hdrop =>
      simp only [Option.some.injEq, Prod.mk.injEq] at h
      obtain ⟨htoken, hrest⟩ := h
      have hhead := List.head?_dropWhile_not
        (fun b => decide (b = delim)) text
      rw [hdrop] at hhead
      have hne : ¬ byte = delim := by simpa using hhead
      refine ⟨text.takeWhile (· = delim),
        (byte :: tail).dropWhile (· ≠ delim), ?_, ?_, hrest.symm⟩
      · rw [← htoken, List.takeWhile_append_dropWhile, ← hdrop,
          List.takeWhile_append_dropWhile]
      · rw [← htoken, List.takeWhile_cons_of_pos (by simpa using hne)]
        exact List.cons_ne_nil _ _

theorem strtok_lengths (h : strtok delim text = some (token, rest)) :
    rest.length + 1 ≤ text.length ∧
      (rest = [] ∨ rest.length + 2 ≤ text.length) := by
  obtain ⟨skipped, behind, rfl, htoken, rfl⟩ := strtok_parts h
  have hpos := List.length_pos_of_ne_nil htoken
  simp only [List.length_append, List.length_tail]
  constructor
  · omega
  · rcases Nat.lt_or_ge 1 behind.length with hmore | hlast
    · right
      omega
    · left
      apply List.eq_nil_of_length_eq_zero
      rw [List.length_tail]
      omega

theorem strtok_smaller (h : strtok delim text = some (token, rest)) :
    rest.length < text.length :=
  (strtok_lengths h).1

theorem tokensWithFuel_eq_of_le
    {fuel fuel' : ℕ} (h : text.length ≤ fuel) (h' : text.length ≤ fuel') :
    tokensWithFuel delim fuel text = tokensWithFuel delim fuel' text := by
  induction fuel generalizing fuel' text with
  | zero =>
      have hnil : text = [] := List.eq_nil_of_length_eq_zero (by omega)
      cases fuel' <;> simp [tokensWithFuel, strtok, hnil]
  | succ fuel ih =>
      cases fuel' with
      | zero =>
          have hnil : text = [] := List.eq_nil_of_length_eq_zero (by omega)
          simp [tokensWithFuel, strtok, hnil]
      | succ fuel' =>
          simp only [tokensWithFuel]
          cases hnext : strtok delim text with
          | none => rfl
          | some next =>
              have hsmaller := strtok_smaller hnext
              have hrest : tokensWithFuel delim fuel next.2 =
                  tokensWithFuel delim fuel' next.2 :=
                ih (by omega) (by omega)
              simp only [hrest]

theorem tokens_eq (delim : UInt8) (text : List UInt8) :
    tokens delim text =
      match strtok delim text with
      | none => []
      | some (token, rest) => token :: tokens delim rest := by
  have hfuel : tokens delim text =
      tokensWithFuel delim (text.length + 1) text :=
    tokensWithFuel_eq_of_le (le_refl _) (Nat.le_succ _)
  rw [hfuel, tokensWithFuel]
  cases hnext : strtok delim text with
  | none => rfl
  | some next =>
      have hsmaller := strtok_smaller hnext
      have hrest : tokensWithFuel delim text.length next.2 =
          tokens delim next.2 :=
        tokensWithFuel_eq_of_le (by omega) (le_refl _)
      simp only [hrest]

theorem strtok_of_token
    (hne : token ≠ []) (htoken : delim ∉ token)
    (hrest : rest = [] ∨ rest.head? = some delim) :
    strtok delim (token ++ rest) = some (token, rest.tail) := by
  have hall : ∀ byte ∈ token, decide (byte ≠ delim) = true := by
    intro byte hbyte
    rw [decide_eq_true_eq]
    intro heq
    exact htoken (heq ▸ hbyte)
  have hstart : (token ++ rest).dropWhile (· = delim) = token ++ rest := by
    cases token with
    | nil => contradiction
    | cons byte token =>
        have hbyte := hall byte List.mem_cons_self
        rw [List.cons_append, List.dropWhile_cons_of_neg]
        simpa using hbyte
  have htake : (token ++ rest).takeWhile (· ≠ delim) = token := by
    rw [List.takeWhile_append_of_pos hall]
    cases rest with
    | nil => simp
    | cons byte rest =>
        have hbyte : byte = delim := by simpa using hrest
        simp [hbyte]
  have hdrop : (token ++ rest).dropWhile (· ≠ delim) = rest := by
    rw [List.dropWhile_append_of_pos hall]
    cases rest with
    | nil => rfl
    | cons byte rest =>
        have hbyte : byte = delim := by simpa using hrest
        simp [hbyte]
  unfold strtok
  rw [hstart]
  split
  · next hnil => simp [hne] at hnil
  · next byte tail hcons => rw [← hcons, htake, hdrop]

theorem strtok_of_blanks (count : ℕ) (text : List UInt8) :
    strtok delim (List.replicate count delim ++ text) = strtok delim text := by
  have hall : ∀ byte ∈ List.replicate count delim,
      decide (byte = delim) = true := by
    intro byte hbyte
    simpa using List.eq_of_mem_replicate hbyte
  unfold strtok
  rw [List.dropWhile_append_of_pos hall]

/-- The text is these tokens with delimiters around them, at least one between
two tokens. -/
inductive Spaced (delim : UInt8) : List UInt8 → List (List UInt8) → Prop where
  | blanks (count : ℕ) : Spaced delim (List.replicate count delim) []
  | last (count : ℕ) (token : List UInt8) :
      Spaced delim (List.replicate count delim ++ token) [token]
  | more (count : ℕ) (token : List UInt8) {rest : List UInt8}
      {others : List (List UInt8)} (hrest : Spaced delim rest others) :
      Spaced delim (List.replicate count delim ++ (token ++ delim :: rest))
        (token :: others)

theorem tokens_of_spaced {found : List (List UInt8)}
    (h : Spaced delim text found)
    (hfound : ∀ token ∈ found, token ≠ [] ∧ delim ∉ token) :
    tokens delim text = found := by
  induction h with
  | blanks count =>
      have hnone : strtok delim (List.replicate count delim) = none := by
        have hempty : strtok delim ([] : List UInt8) = none := rfl
        rw [← hempty, ← @strtok_of_blanks delim count [], List.append_nil]
      rw [tokens_eq, hnone]
  | last count token =>
      obtain ⟨hne, hdelim⟩ := hfound token (by simp)
      have hlast := strtok_of_token hne hdelim (Or.inl rfl)
      rw [List.append_nil] at hlast
      rw [tokens_eq, strtok_of_blanks, hlast]
      rfl
  | more count token hrest ih =>
      obtain ⟨hne, hdelim⟩ := hfound token (by simp)
      have hothers := ih fun other hother => hfound other (by simp [hother])
      rw [tokens_eq, strtok_of_blanks, strtok_of_token hne hdelim
        (Or.inr rfl), List.tail_cons]
      dsimp only
      rw [hothers]

end Tokens

end CStrings
