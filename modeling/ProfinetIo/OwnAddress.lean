import ProfinetIo.CStrings
import ProfinetIo.ProfinetHeader
import Mathlib.Tactic

/-!
# The text of the own address

`getMyIP` copies the text of the interface's address into a buffer that both
senders of PNIO packets declare with fifteen bytes.  An octet takes up to three
digits and each of them is followed by a dot or by the terminating zero byte,
so the text of four octets can need sixteen.
-/

namespace ProfinetIo

open CStrings

def octetText (octet : UInt8) : List UInt8 :=
  (Nat.toDigits 10 octet.toNat).map fun digit => UInt8.ofNat digit.toNat

def inetNtoa (sinAddr : Octets 4) : List UInt8 :=
  [46].intercalate (sinAddr.val.map octetText)

/-- The size of `IPbuffer` in `send_read_IO_Packet` and in
`send_write_IO_Packet`. -/
def ipBufferSize : ℕ := 15

/-- `getMyIP` for the address that the interface reports; the storage grows
when the text runs past its end. -/
def getMyIP (sinAddr : Octets 4) (ipAddress : List UInt8) : List UInt8 :=
  strcpy ipAddress 0 (inetNtoa sinAddr)

/-! ## Lengths -/

theorem octetText_length_le (octet : UInt8) : (octetText octet).length ≤ 3 := by
  have hoctet : octet.toNat < 256 := octet.toNat_lt
  have hthree := Nat.length_toDigits_le_iff (b := 10) (n := octet.toNat) (k := 3)
    (by decide) (by decide)
  rw [octetText, List.length_map]
  exact hthree.mpr (by omega)

theorem octetText_length_lt_iff (octet : UInt8) :
    (octetText octet).length < 3 ↔ octet.toNat < 100 := by
  have htwo := Nat.length_toDigits_le_iff (b := 10) (n := octet.toNat) (k := 2)
    (by decide) (by decide)
  rw [octetText, List.length_map]
  omega

theorem intercalate_length {α : Type*} (separator : α) {texts : List (List α)}
    (h : texts ≠ []) :
    ([separator].intercalate texts).length + 1 =
      (texts.map fun text => text.length + 1).sum := by
  induction texts with
  | nil => contradiction
  | cons text texts ih =>
      cases texts with
      | nil => simp
      | cons next texts =>
          have hrest := ih (List.cons_ne_nil next texts)
          rw [List.intercalate_cons_cons, List.map_cons, List.sum_cons, ← hrest]
          simp only [List.length_append, List.length_cons, List.length_nil]
          omega

theorem sum_octetText_length_le (octets : List UInt8) :
    ((octets.map octetText).map fun text => text.length + 1).sum ≤
      4 * octets.length := by
  induction octets with
  | nil => simp
  | cons octet octets ih =>
      have hoctet := octetText_length_le octet
      simp only [List.map_cons, List.sum_cons, List.length_cons]
      omega

theorem sum_octetText_length_lt_iff (octets : List UInt8) :
    ((octets.map octetText).map fun text => text.length + 1).sum <
        4 * octets.length ↔
      octets.any (fun octet => octet.toNat < 100) = true := by
  induction octets with
  | nil => simp
  | cons octet octets ih =>
      have hoctet := octetText_length_le octet
      have hrest := sum_octetText_length_le octets
      have hsmall := octetText_length_lt_iff octet
      simp only [List.map_cons, List.sum_cons, List.length_cons, List.any_cons,
        Bool.or_eq_true, decide_eq_true_eq, ← ih]
      omega

theorem inetNtoa_length_lt_iff (sinAddr : Octets 4) :
    (inetNtoa sinAddr).length + 1 ≤ ipBufferSize ↔
      sinAddr.val.any (fun octet => octet.toNat < 100) = true := by
  have hlength := sinAddr.length
  have hne : sinAddr.val.map octetText ≠ [] := by
    intro hnil
    rw [List.map_eq_nil_iff] at hnil
    simp [hnil] at hlength
  rw [inetNtoa, intercalate_length 46 hne, ← sum_octetText_length_lt_iff,
    hlength, ipBufferSize]
  omega

theorem strcpy_length (storage text : List UInt8) :
    (strcpy storage 0 text).length = max storage.length (text.length + 1) := by
  simp only [strcpy, overwrite, List.take_zero, List.nil_append,
    List.length_append, List.length_cons, List.length_nil, List.length_drop]
  omega

/-! ## The copy -/

/-- The copy stays inside the buffer unless every octet has three digits. -/
theorem getMyIP_length_iff
    (sinAddr : Octets 4) (ipBuffer : Octets ipBufferSize) :
    (getMyIP sinAddr ipBuffer.val).length = ipBufferSize ↔
      ∃ octet ∈ sinAddr.val, octet.toNat < 100 := by
  have hfits := inetNtoa_length_lt_iff sinAddr
  rw [List.any_eq_true] at hfits
  simp only [decide_eq_true_eq] at hfits
  rw [getMyIP, strcpy_length, ipBuffer.length, ← hfits]
  omega

theorem getMyIP_overflows :
    ¬ ∀ (sinAddr : Octets 4) (ipBuffer : Octets ipBufferSize),
      (getMyIP sinAddr ipBuffer.val).length = ipBufferSize := by
  intro h
  have hlength := h ⟨[192, 168, 100, 100], rfl⟩
    ⟨List.replicate 15 0, rfl⟩
  exact absurd hlength (by decide)

end ProfinetIo
