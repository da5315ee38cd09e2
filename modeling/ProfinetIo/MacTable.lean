import ProfinetIo.DeviceTables
import ProfinetIo.DistinctItems
import ProfinetIo.TransitionRuns
import Mathlib.Tactic

/-!
# Runs of the MAC table

As long as `addDevice` is only ever called with one MAC, every write goes to
the row that the array has, and the second MAC is already written behind it.
With rows of their own for all of them, as in the model, the MACs that are
counted are the distinct ones in order of first addition.
-/

namespace ProfinetIo

open DistinctItems TransitionRuns

/-- The rows of `devices[][6]={0}`, whose initialiser fixes their number. -/
def devicesRows : ℕ := 1

def DeviceTable.known (table : DeviceTable) : List (Octets 6) :=
  (List.range table.deviceCount).map table.rows

/-- The row that `addDevice` writes the MAC to, if it writes it. -/
def writtenRow (table : DeviceTable) (mac : Octets 6) : Option ℕ :=
  if check table mac then none else some table.deviceCount

def addDevices (table : DeviceTable) (macs : List (Octets 6)) : DeviceTable :=
  macs.foldl addDevice table

/-- What holds after adding the MACs one after the other to the empty table. -/
structure MacTableKept (macs : List (Octets 6)) : Prop where
  inside : StepsAllowed (fun table mac => some (addDevice table mac))
    (fun table mac => ∀ row, writtenRow table mac = some row →
      row < devicesRows) DeviceTable.initial macs
  known : ∀ mac,
    check (addDevices DeviceTable.initial macs) mac = true ↔ mac ∈ macs
  distinct : (addDevices DeviceTable.initial macs).known.Nodup
  ordered : (addDevices DeviceTable.initial macs).known = macs.eraseDups
  unchanged : ∀ mac ∈ macs,
    addDevice (addDevices DeviceTable.initial macs) mac =
      addDevices DeviceTable.initial macs

/-! ## The table as a collection -/

/-- The counted rows of the table are the items of the collection. -/
def Represents (table : DeviceTable) (known : Collection (Octets 6)) : Prop :=
  table.known = known.items

theorem DeviceTable.known_length (table : DeviceTable) :
    table.known.length = table.deviceCount := by
  simp [DeviceTable.known]

theorem check_iff_mem_known {table : DeviceTable} {mac : Octets 6} :
    check table mac = true ↔ mac ∈ table.known := by
  simp [check, DeviceTable.known]

theorem addDevice_of_known {table : DeviceTable} {mac : Octets 6}
    (h : check table mac = true) : addDevice table mac = table := by
  simp [addDevice, h]

theorem addDevice_of_unknown {table : DeviceTable} {mac : Octets 6}
    (h : check table mac = false) :
    addDevice table mac =
      ⟨Function.update table.rows table.deviceCount mac,
        table.deviceCount + 1⟩ := by
  simp [addDevice, h]

theorem known_addDevice_of_unknown {table : DeviceTable} {mac : Octets 6}
    (h : check table mac = false) :
    (addDevice table mac).known = table.known ++ [mac] := by
  have hkept : ∀ i ∈ List.range table.deviceCount,
      Function.update table.rows table.deviceCount mac i = table.rows i := by
    intro i hi
    exact Function.update_of_ne (List.mem_range.mp hi).ne _ _
  rw [addDevice_of_unknown h]
  simp only [DeviceTable.known, List.range_succ, List.map_append,
    List.map_congr_left hkept, List.map_cons, List.map_nil,
    Function.update_self]

theorem Represents.initial : Represents DeviceTable.initial .empty := rfl

theorem Represents.addDevice
    {table : DeviceTable} {known : Collection (Octets 6)}
    (h : Represents table known) (mac : Octets 6) :
    Represents (addDevice table mac) (known.add mac) := by
  unfold Represents at h ⊢
  cases hcheck : check table mac with
  | false =>
      have hnew : mac ∉ known.items := by
        rw [← h, ← check_iff_mem_known, hcheck]
        exact Bool.false_ne_true
      rw [known_addDevice_of_unknown hcheck,
        Collection.items_add_of_not_mem hnew, h]
  | true =>
      have hold : mac ∈ known.items := by
        rw [← h, ← check_iff_mem_known, hcheck]
      rw [addDevice_of_known hcheck, Collection.add_of_mem hold, h]

theorem Represents.addDevices
    {table : DeviceTable} {known : Collection (Octets 6)}
    (h : Represents table known) (macs : List (Octets 6)) :
    Represents (addDevices table macs) (known.addAll macs) := by
  induction macs generalizing table known with
  | nil => exact h
  | cons mac macs ih => exact ih (h.addDevice mac)

theorem known_addDevices (macs : List (Octets 6)) :
    (addDevices DeviceTable.initial macs).known = macs.eraseDups := by
  rw [← Collection.items_addAll_empty macs]
  exact Represents.initial.addDevices macs

theorem known_addDevices_nodup (macs : List (Octets 6)) :
    (addDevices DeviceTable.initial macs).known.Nodup := by
  have hrep := Represents.initial.addDevices macs
  unfold Represents at hrep
  rw [hrep]
  exact (Collection.addAll .empty macs).distinct

theorem check_addDevices (macs : List (Octets 6)) (mac : Octets 6) :
    check (addDevices DeviceTable.initial macs) mac = true ↔ mac ∈ macs := by
  rw [check_iff_mem_known, known_addDevices, List.mem_eraseDups]

/-! ## The rows that are written -/

theorem deviceCount_le_addDevice (table : DeviceTable) (mac : Octets 6) :
    table.deviceCount ≤ (addDevice table mac).deviceCount := by
  unfold addDevice
  split
  · exact le_refl _
  · exact Nat.le_succ _

theorem deviceCount_le_addDevices
    (table : DeviceTable) (macs : List (Octets 6)) :
    table.deviceCount ≤ (addDevices table macs).deviceCount := by
  induction macs generalizing table with
  | nil => exact le_refl _
  | cons mac macs ih =>
      have hstep := deviceCount_le_addDevice table mac
      exact hstep.trans (ih (addDevice table mac))

theorem writes_inside_iff
    {table : DeviceTable} (htable : table.deviceCount ≤ devicesRows)
    (macs : List (Octets 6)) :
    StepsAllowed (fun table mac => some (addDevice table mac))
        (fun table mac => ∀ row, writtenRow table mac = some row →
          row < devicesRows) table macs ↔
      (addDevices table macs).deviceCount ≤ devicesRows := by
  induction macs generalizing table with
  | nil => simp [StepsAllowed, addDevices, htable]
  | cons mac macs ih =>
      have hstep : (∀ row, writtenRow table mac = some row →
          row < devicesRows) ↔
          (addDevice table mac).deviceCount ≤ devicesRows := by
        cases hcheck : check table mac with
        | false =>
            simp [writtenRow, hcheck, addDevice_of_unknown hcheck]
        | true =>
            simp [writtenRow, hcheck, addDevice_of_known hcheck, htable]
      have hlater := deviceCount_le_addDevices (addDevice table mac) macs
      have hunfold : addDevices table (mac :: macs) =
          addDevices (addDevice table mac) macs := rfl
      rw [hunfold]
      constructor
      · intro h
        obtain ⟨hhead, hrest⟩ := h
        have hnext := hstep.mp hhead
        exact (ih hnext).mp (hrest _ rfl)
      · intro h
        have hnext : (addDevice table mac).deviceCount ≤ devicesRows := by
          omega
        refine ⟨hstep.mpr hnext, ?_⟩
        intro next heq
        cases heq
        exact (ih hnext).mpr h

theorem deviceCount_addDevices_le_iff (macs : List (Octets 6)) :
    (addDevices DeviceTable.initial macs).deviceCount ≤ devicesRows ↔
      ∀ mac ∈ macs, ∀ mac' ∈ macs, mac = mac' := by
  have hlength := Collection.length_le_one_iff
    (Collection.addAll .empty macs)
  rw [Collection.items_addAll_empty] at hlength
  rw [← DeviceTable.known_length, known_addDevices, devicesRows, hlength]
  simp only [List.mem_eraseDups]

/-! ## The table kept -/

/-- The table is what it should be exactly after runs that add no two
different MACs. -/
theorem macTableKept_iff_one_mac (macs : List (Octets 6)) :
    MacTableKept macs ↔ ∀ mac ∈ macs, ∀ mac' ∈ macs, mac = mac' := by
  have hinside := @writes_inside_iff DeviceTable.initial
    (Nat.zero_le devicesRows) macs
  constructor
  · intro h
    exact (deviceCount_addDevices_le_iff macs).mp (hinside.mp h.inside)
  · intro h
    have hcount := (deviceCount_addDevices_le_iff macs).mpr h
    constructor
    · exact hinside.mpr hcount
    · exact check_addDevices macs
    · exact known_addDevices_nodup macs
    · exact known_addDevices macs
    · intro mac hmac
      exact addDevice_of_known ((check_addDevices macs mac).mpr hmac)

theorem macTable_overflows_on_second_mac :
    ¬ MacTableKept
      [⟨[0xc8, 0x1f, 0x66, 0x43, 0x6a, 0x45], rfl⟩,
        ⟨[0xac, 0xb9, 0xff, 0x21, 0xaf, 0xac], rfl⟩] := by
  intro h
  have hcount := (@writes_inside_iff DeviceTable.initial
    (Nat.zero_le devicesRows) _).mp h.inside
  rw [deviceCount_addDevices_le_iff] at hcount
  have hsame := hcount _ (List.mem_cons_self) _
    (List.mem_cons_of_mem _ List.mem_cons_self)
  revert hsame
  decide

end ProfinetIo
