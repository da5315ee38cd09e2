import ProfinetIo.ProfinetHeader
import Mathlib.Tactic

/-!
# The tables of known devices

Two stores remember devices.  `check` and `addDevice` work on the rows of a
global array and its `device_count`.  The array is declared with one row; a
second one overlaps what lies behind it, which is `device_count` itself in the
program as it is built.  The further rows are modelled as memory of their own,
so what is said of them does not hold of the program.  The lookups of
`MainApp.c` walk the list that starts at `top`, and fall off the end of the
function when the list has nodes but none that matches.
-/

namespace ProfinetIo

/-! ## The MAC table -/

/-- The rows from `devices` on, as far as they are counted. -/
structure DeviceTable where
  rows : ℕ → Octets 6
  deviceCount : ℕ

def DeviceTable.initial : DeviceTable where
  rows := fun _ => ⟨[0, 0, 0, 0, 0, 0], length_six_zeros⟩
  deviceCount := 0

def check (table : DeviceTable) (mac : Octets 6) : Bool :=
  (List.range table.deviceCount).any fun i => table.rows i = mac

def addDevice (table : DeviceTable) (mac : Octets 6) : DeviceTable :=
  if check table mac then table
  else
    { rows := Function.update table.rows table.deviceCount mac
      deviceCount := table.deviceCount + 1 }

theorem check_initial (mac : Octets 6) :
    check DeviceTable.initial mac = false := rfl

/-! ## The device list -/

/-- What a lookup gives back: `NULL`, a node of the list, or, where control
reaches the end of the function, no defined value. -/
inductive Lookup where
  | null
  | node (index : ℕ)
  | undefined
  deriving DecidableEq, Repr

/-- The walk the three lookups have in common. -/
def findDevice (found : Device → Bool) (top : List Device) : Lookup :=
  if top.isEmpty then .null
  else
    match top.findIdx? found with
    | some index => .node index
    | none => .undefined

def findDeviceByMAC (top : List Device) (mac : Octets 6) : Lookup :=
  findDevice (fun node => node.mac = mac) top

theorem findDeviceByMAC_nil (mac : Octets 6) :
    findDeviceByMAC [] mac = .null := rfl

end ProfinetIo
