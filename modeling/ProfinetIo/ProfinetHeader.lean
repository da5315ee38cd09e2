import ProfinetIo.ByteMemory
import Mathlib.Tactic

/-!
# Shared declarations of `profinet.h`

The protocol constants, the packed structures the builders overlay on their
buffers, and the device record.  Fixed-size byte arrays are lists that carry
their length.
-/

namespace ProfinetIo

open ByteMemory

abbrev Octets (n : ℕ) := { bytes : List UInt8 // bytes.length = n }

def Octets.ofMemory (mem : Memory) (start n : ℕ) : Octets n :=
  ⟨slice mem start n, slice_length mem start n⟩

@[simp] theorem Octets.ofMemory_val (mem : Memory) (start n : ℕ) :
    (Octets.ofMemory mem start n).val = slice mem start n := rfl

@[simp] theorem Octets.length {n : ℕ} (octets : Octets n) :
    octets.val.length = n := octets.property

/-! ## DCP constants -/

def pfDcpServiceGet : ℕ := 0x03
def pfDcpServiceSet : ℕ := 0x04
def pfDcpServiceIdentify : ℕ := 0x05
def pfDcpServiceHello : ℕ := 0x06

def pfDcpServiceTypeRequest : ℕ := 0x00
def pfDcpServiceTypeSuccess : ℕ := 0x01

def pfDcpHelloFrameId : ℕ := 0xfefc
def pfDcpGetSetFrameId : ℕ := 0xfefd
def pfDcpIdReqFrameId : ℕ := 0xfefe
def pfDcpIdResFrameId : ℕ := 0xfeff

def ethtypeProfinet : ℕ := 0x8892

def pfDcpOptReserved0 : UInt8 := 0x00
def pfDcpOptIp : UInt8 := 0x01
def pfDcpOptDeviceProperties : UInt8 := 0x02
def pfDcpOptDhcp : UInt8 := 0x03
def pfDcpOptReserved4 : UInt8 := 0x04
def pfDcpOptControl : UInt8 := 0x05
def pfDcpOptDeviceInitiative : UInt8 := 0x06

def pfDcpSubIpMac : UInt8 := 0x01
def pfDcpSubIpPar : UInt8 := 0x02
def pfDcpSubIpSuite : UInt8 := 0x03

def pfDcpSubDevPropVendor : UInt8 := 0x01
def pfDcpSubDevPropName : UInt8 := 0x02
def pfDcpSubDevPropId : UInt8 := 0x03
def pfDcpSubDevPropRole : UInt8 := 0x04
def pfDcpSubDevPropOptions : UInt8 := 0x05

def pfDcpSubControlStart : UInt8 := 0x01
def pfDcpSubControlStop : UInt8 := 0x02
def pfDcpSubControlSignal : UInt8 := 0x03
def pfDcpSubControlResponse : UInt8 := 0x04
def pfDcpSubControlFactoryReset : UInt8 := 0x05

def dcpMcAddress : Octets 6 := ⟨[0x01, 0x0e, 0xcf, 0x00, 0x00, 0x00], rfl⟩

/-! ## Structures -/

structure Block where
  option : UInt8
  suboption : UInt8
  blockLength : ℕ
  blockInfo : ℕ
  deriving DecidableEq, Repr

/-- `struct profinet_device` without its link: the list it is chained in is a
Lean list.  A `device_name` is `NULL` or a C string. -/
structure Device where
  deviceName : Option (List UInt8)
  mac : Octets 6
  ip : Octets 4
  subnet : Octets 4
  gateway : Octets 4
  deriving DecidableEq

theorem length_six_zeros : ([0, 0, 0, 0, 0, 0] : List UInt8).length = 6 := rfl

theorem length_four_zeros : ([0, 0, 0, 0] : List UInt8).length = 4 := rfl

def emptyDevice : Device :=
  ⟨none, ⟨[0, 0, 0, 0, 0, 0], length_six_zeros⟩,
    ⟨[0, 0, 0, 0], length_four_zeros⟩, ⟨[0, 0, 0, 0], length_four_zeros⟩,
    ⟨[0, 0, 0, 0], length_four_zeros⟩⟩

/-- The twelve bytes of the three addresses in the order in which an IP
parameter block carries them. -/
def Device.addresses (device : Device) : List UInt8 :=
  device.ip.val ++ device.subnet.val ++ device.gateway.val

@[simp] theorem Device.addresses_length (device : Device) :
    device.addresses.length = 12 := by
  simp [Device.addresses]

/-! ## Plain `char` -/

/-- The value of a byte read through a plain, signed `char`. -/
def charToInt (byte : UInt8) : ℤ :=
  if byte.toNat < 128 then byte.toNat else byte.toNat - 256

def charToUint16 (byte : UInt8) : ℕ := (charToInt byte % 65536).toNat

theorem charToUint16_of_lt {byte : UInt8} (h : byte.toNat < 128) :
    charToUint16 byte = byte.toNat := by
  simp only [charToUint16, charToInt, if_pos h]
  omega

theorem charToUint16_of_ge {byte : UInt8} (h : 128 ≤ byte.toNat) :
    charToUint16 byte = 65280 + byte.toNat := by
  have hlt := byte.toNat_lt
  simp only [charToUint16, charToInt, if_neg (Nat.not_lt.mpr h)]
  omega

end ProfinetIo
