import ProfinetIo.DeviceBook
import ProfinetIo.OwnAddress
import ProfinetIo.ResponseText
import ProfinetIo.UniqueReading
import Mathlib.Tactic

/-!
# The listing of a device list

`show_all_devices` numbers the nodes of a list from the head on and prints the
three addresses and the MAC of each.  The listing can be read back, so it tells
any two lists apart whose nodes differ.
-/

namespace ProfinetIo

open CStrings UniqueReading

def lowerHexDigit (value : ℕ) : UInt8 :=
  if value < 10 then UInt8.ofNat (48 + value) else UInt8.ofNat (87 + value)

/-- `%.2x` for a byte. -/
def lowerHexByte (byte : UInt8) : List UInt8 :=
  [lowerHexDigit (byte.toNat / 16), lowerHexDigit (byte.toNat % 16)]

def macText (mac : Octets 6) : List UInt8 :=
  [58].intercalate (mac.val.map lowerHexByte)

/-- `%d` for a positive number. -/
def decimalText (value : ℕ) : List UInt8 :=
  (Nat.toDigits 10 value).map fun digit => UInt8.ofNat digit.toNat

namespace DeviceList

variable {ι κ : Type*}

/-- What is printed for the node with this number; four bytes with `%d` and dots
between them are printed as `inet_ntoa` writes them. -/
def nodeText (count : ℕ) (node : DeviceNode) : List UInt8 :=
  asciiBytes "Device " ++ decimalText count ++ asciiBytes ":\nIP- " ++
    inetNtoa node.ip ++ asciiBytes "\nSubnet Mask- " ++
    inetNtoa node.subnet ++ asciiBytes "\nGateway- " ++
    inetNtoa node.gateway ++ asciiBytes "\nMAC- " ++
    macText node.mac ++ asciiBytes "\n\n"

def showAllDevices (s : State ι) (list : ι) : List UInt8 :=
  match s.heads list with
  | [] => asciiBytes "nothing to show, list is empty\n"
  | nodes => numbered nodeText 0 (nodes.map s.nodes)

end DeviceList

/-! ## Addresses and MACs -/

theorem digit_toNat {octet : UInt8} {digit : Char}
    (h : digit ∈ Nat.toDigits 10 octet.toNat) :
    48 ≤ digit.toNat ∧ digit.toNat ≤ 57 :=
  Char.isDigit_iff_toNat.mp
    (Nat.isDigit_of_mem_toDigits (by decide) (by decide) h)

theorem octetText_mem {octet byte : UInt8} (h : byte ∈ octetText octet) :
    48 ≤ byte.toNat ∧ byte.toNat < 58 := by
  obtain ⟨digit, hdigit, rfl⟩ := List.mem_map.mp h
  have hchar := digit_toNat hdigit
  rw [UInt8.toNat_ofNat', Nat.mod_eq_of_lt (by omega)]
  omega

/-- The digits are read back from their bytes. -/
theorem octetText_injective : Function.Injective octetText := by
  have hread : ∀ octet : UInt8, (octetText octet).map
      (fun byte => Char.ofNat byte.toNat) = Nat.toDigits 10 octet.toNat := by
    intro octet
    rw [octetText, List.map_map]
    refine (List.map_congr_left ?_).trans (List.map_id _)
    intro digit hdigit
    have hchar := digit_toNat hdigit
    simp only [Function.comp_apply, UInt8.toNat_ofNat', id_eq]
    rw [Nat.mod_eq_of_lt (by omega), Char.ofNat_toNat]
  intro a b h
  have hdigits : Nat.toDigits 10 a.toNat = Nat.toDigits 10 b.toNat := by
    rw [← hread a, h, hread b]
  have hvalue := congrArg (fun digits => Nat.ofDigitChars 10 digits 0) hdigits
  simp only [Nat.ofDigitChars_ten_toDigits] at hvalue
  exact UInt8.toNat_inj.mp hvalue

theorem lowerHexByte_injective : Function.Injective lowerHexByte := by
  have hdigit : ∀ a < 16, ∀ b < 16,
      lowerHexDigit a = lowerHexDigit b → a = b := by decide
  intro a b h
  have hbounds := nibbles_lt a
  have hbounds' := nibbles_lt b
  simp only [lowerHexByte, List.cons.injEq, and_true] at h
  have hhigh := hdigit _ hbounds.1 _ hbounds'.1 h.1
  have hlow := hdigit _ hbounds.2 _ hbounds'.2 h.2
  apply UInt8.toNat_inj.mp
  omega

theorem lowerHexByte_mem {octet byte : UInt8} (h : byte ∈ lowerHexByte octet) :
    byte ≠ 58 ∧ byte ≠ 10 := by
  have hdigit : ∀ value < 16, lowerHexDigit value ≠ 58 ∧
      lowerHexDigit value ≠ 10 := by
    decide
  have hbounds := nibbles_lt octet
  simp only [lowerHexByte, List.mem_cons, List.not_mem_nil, or_false] at h
  rcases h with rfl | rfl
  · exact hdigit _ hbounds.1
  · exact hdigit _ hbounds.2

/-- The bytes of an address, joined and with a newline behind them. -/
theorem uniquelyRead_octets
    {text : UInt8 → List UInt8} {separator : UInt8}
    (hinjective : Function.Injective text)
    (hseparator : ∀ octet, separator ∉ text octet)
    (hnewline : ∀ octet, 10 ∉ text octet) (hdiffer : separator ≠ 10)
    (length : ℕ) :
    UniquelyRead fun octets : Octets (length + 1) =>
      [separator].intercalate (octets.val.map text) ++ [10] := by
  have hsome : ∀ octets : Octets (length + 1), octets.val ≠ [] := by
    intro octets hnil
    have hlength := octets.length
    rw [hnil] at hlength
    contradiction
  have hjoined := uniquelyRead_joined hinjective hseparator hnewline hdiffer
  have hsame : Function.Injective fun octets : Octets (length + 1) =>
      (⟨octets.val, hsome octets⟩ : { items : List UInt8 // items ≠ [] }) := by
    intro a b h
    exact Subtype.ext (Subtype.mk.inj h)
  exact hjoined.comp hsame

theorem uniquelyRead_inetNtoa :
    UniquelyRead fun address : Octets 4 => inetNtoa address ++ [10] := by
  apply uniquelyRead_octets octetText_injective
  · intro octet hmem
    exact absurd (octetText_mem hmem).1 (by decide)
  · intro octet hmem
    exact absurd (octetText_mem hmem).1 (by decide)
  · decide

theorem uniquelyRead_macText :
    UniquelyRead fun mac : Octets 6 => macText mac ++ [10] := by
  apply uniquelyRead_octets lowerHexByte_injective
  · intro octet hmem
    exact (lowerHexByte_mem hmem).1 rfl
  · intro octet hmem
    exact (lowerHexByte_mem hmem).2 rfl
  · decide

/-! ## Nodes and lists -/

namespace DeviceList

variable {ι κ : Type*}

/-- The newlines that end the addresses stand at the front of the words behind
them. -/
theorem nodeText_eq (count : ℕ) (node : DeviceNode) :
    nodeText count node =
      (asciiBytes "Device " ++ decimalText count ++ asciiBytes ":\nIP- ") ++
        ((inetNtoa node.ip ++ [10]) ++ (asciiBytes "Subnet Mask- " ++
          ((inetNtoa node.subnet ++ [10]) ++ (asciiBytes "Gateway- " ++
            ((inetNtoa node.gateway ++ [10]) ++ (asciiBytes "MAC- " ++
              ((macText node.mac ++ [10]) ++ [10]))))))) := by
  have hsubnet : asciiBytes "\nSubnet Mask- " =
      10 :: asciiBytes "Subnet Mask- " := by decide
  have hgateway : asciiBytes "\nGateway- " = 10 :: asciiBytes "Gateway- " := by
    decide
  have hmac : asciiBytes "\nMAC- " = 10 :: asciiBytes "MAC- " := by decide
  have hend : asciiBytes "\n\n" = [10, 10] := by decide
  simp only [nodeText, hsubnet, hgateway, hmac, hend, List.append_assoc,
    List.cons_append, List.nil_append]

theorem uniquelyRead_nodeText (count : ℕ) : UniquelyRead (nodeText count) := by
  have hmac := (uniquelyRead_macText.before [10]).after (asciiBytes "MAC- ")
  have hgateway := (uniquelyRead_inetNtoa.pair hmac).after
    (asciiBytes "Gateway- ")
  have hsubnet := (uniquelyRead_inetNtoa.pair hgateway).after
    (asciiBytes "Subnet Mask- ")
  have hnode := (uniquelyRead_inetNtoa.pair hsubnet).after
    (asciiBytes "Device " ++ decimalText count ++ asciiBytes ":\nIP- ")
  have hfields : Function.Injective fun node : DeviceNode =>
      (node.ip, node.subnet, node.gateway, node.mac) := by
    rintro ⟨mac, ip, subnet, gateway⟩ ⟨mac', ip', subnet', gateway'⟩ h
    cases h
    rfl
  have hread := hnode.comp hfields
  intro a b rest rest' h
  rw [nodeText_eq, nodeText_eq] at h
  exact hread a b rest rest' h

theorem nodeText_head (count : ℕ) (node : DeviceNode) :
    (nodeText count node).head? = some 68 := by
  rw [nodeText_eq]
  rfl

/-- Two listings are the same only if the lists have the same nodes in the same
order, and the text of an empty list is that of no other. -/
theorem showAllDevices_eq_iff
    (s : State ι) (list : ι) (s' : State κ) (list' : κ) :
    showAllDevices s list = showAllDevices s' list' ↔
      (s.heads list).map s.nodes = (s'.heads list').map s'.nodes := by
  have hsome : ∀ count node, nodeText count node ≠ [] := by
    intro count node hnil
    have hhead := nodeText_head count node
    rw [hnil] at hhead
    contradiction
  have hempty : ∀ node nodes,
      asciiBytes "nothing to show, list is empty\n" ≠
        numbered nodeText 0 (node :: nodes) := by
    intro node nodes h
    have hhead : (numbered nodeText 0 (node :: nodes)).head? = some 68 := by
      rw [numbered, List.head?_append, nodeText_head]
      rfl
    rw [← h] at hhead
    exact absurd hhead (by decide)
  unfold showAllDevices
  cases hfirst : s.heads list with
  | nil =>
      cases hsecond : s'.heads list' with
      | nil => simp
      | cons node' nodes' =>
          refine iff_of_false (hempty _ _) ?_
          simp
  | cons node nodes =>
      cases hsecond : s'.heads list' with
      | nil =>
          refine iff_of_false (hempty _ _).symm ?_
          simp
      | cons node' nodes' =>
          exact (numbered_injective uniquelyRead_nodeText hsome 0).eq_iff

end DeviceList

end ProfinetIo
