import ProfinetIo.ProfinetHeader
import ProfinetIo.TransitionRuns
import ProfinetIo.WhileLoop
import Mathlib.Tactic

/-!
# Adding to the device list

`addNewDevice` allocates a node in a variable that shadows its argument, so
nothing of the argument reaches the node, whose contents stay what the memory
held.  On a list that is not empty it walks to the end of the list and past
it: the pointer that is dereferenced there is the one that ended the walk.
-/

namespace ProfinetIo

open TransitionRuns WhileLoop

/-- A `struct profinet_device` in memory; address zero is `NULL`. -/
structure LinkedDevice where
  fields : Device
  next : ℕ

structure DeviceHeap where
  memory : ℕ → LinkedDevice
  top : ℕ
  numberOfDevices : ℕ

def DeviceHeap.initial (memory : ℕ → LinkedDevice) : DeviceHeap :=
  ⟨memory, 0, 0⟩

inductive AddOutcome where
  | returned (ret : ℤ) (state : DeviceHeap)
  | nullDereference
  | outOfFuel

/-- `while(n) n=n->next;` from `top`. -/
def walkToEnd (fuel : ℕ) (s : DeviceHeap) : Option ℕ :=
  whileFuel (fun n => n ≠ 0) (fun n => (s.memory n).next) fuel s.top

/-- `malloc` is the address of the new node, and `node` the argument. -/
def addNewDevice (fuel malloc : ℕ) (node : Option Device) (s : DeviceHeap) :
    AddOutcome :=
  match node with
  | none => .returned 0 s
  | some _ =>
      if s.top = 0 then
        .returned 1 ⟨s.memory, malloc, s.numberOfDevices + 1⟩
      else
        match walkToEnd fuel s with
        | none => .outOfFuel
        | some n =>
            if n = 0 then .nullDereference
            else
              .returned 1
                ⟨Function.update s.memory n ⟨(s.memory n).fields, malloc⟩,
                  s.top, s.numberOfDevices + 1⟩

/-! ## Runs -/

/-- A call with a device, and the address that `malloc` answers it. -/
structure AddCall where
  device : Device
  malloc : { address : ℕ // address ≠ 0 }

/-- A call that returns 1; nothing comes after any other call. -/
def addStep (fuel : ℕ) (s : DeviceHeap) (call : AddCall) : Option DeviceHeap :=
  match addNewDevice fuel call.malloc.val (some call.device) s with
  | .returned ret next => if ret = 1 then some next else none
  | _ => none

/-- The list that starts at the address holds the devices and ends in
`NULL`. -/
def ListHolds (memory : ℕ → LinkedDevice) : ℕ → List Device → Prop
  | address, [] => address = 0
  | address, device :: devices =>
      address ≠ 0 ∧ (memory address).fields = device ∧
        ListHolds memory (memory address).next devices

/-- Every call returns 1, and then the list holds the devices in their order
and the counter is their number. -/
def DevicesKept (memory : ℕ → LinkedDevice) (calls : List AddCall) : Prop :=
  ∃ fuel s, run (addStep fuel) (.initial memory) calls = some s ∧
    ListHolds s.memory s.top (calls.map AddCall.device) ∧
    s.numberOfDevices = calls.length

section Calls

variable {fuel malloc : ℕ} {device : Device} {s : DeviceHeap}

theorem walkToEnd_null {n : ℕ} (h : walkToEnd fuel s = some n) : n = 0 := by
  have hreturns : Returns (fun n => n ≠ 0)
      (fun n => (s.memory n).next) s.top n := ⟨fuel, h⟩
  simpa using hreturns.stopped

theorem addNewDevice_of_empty (h : s.top = 0) :
    addNewDevice fuel malloc (some device) s =
      .returned 1 ⟨s.memory, malloc, s.numberOfDevices + 1⟩ := by
  simp [addNewDevice, h]

/-- On a list that is not empty the call does not come back. -/
theorem addNewDevice_of_nonempty (h : s.top ≠ 0) :
    addNewDevice fuel malloc (some device) s = .nullDereference ∨
      addNewDevice fuel malloc (some device) s = .outOfFuel := by
  unfold addNewDevice
  dsimp only
  rw [if_neg h]
  cases hwalk : walkToEnd fuel s with
  | none => exact Or.inr rfl
  | some n =>
      left
      simp [walkToEnd_null hwalk]

theorem addStep_of_empty (h : s.top = 0) (call : AddCall) :
    addStep fuel s call =
      some ⟨s.memory, call.malloc.val, s.numberOfDevices + 1⟩ := by
  simp [addStep, addNewDevice_of_empty h]

theorem addStep_of_nonempty (h : s.top ≠ 0) (call : AddCall) :
    addStep fuel s call = none := by
  unfold addStep
  rcases @addNewDevice_of_nonempty fuel call.malloc.val call.device s h with
    hnull | hfuel
  · rw [hnull]
  · rw [hfuel]

end Calls

theorem run_addStep_two
    (fuel : ℕ) (memory : ℕ → LinkedDevice) (first second : AddCall)
    (calls : List AddCall) :
    run (addStep fuel) (.initial memory) (first :: second :: calls) =
      none := by
  have hfirst := @addStep_of_empty fuel (.initial memory) rfl first
  rw [run_cons_of_step hfirst, run, addStep_of_nonempty first.malloc.property]
  rfl

theorem run_addStep_one
    (fuel : ℕ) (memory : ℕ → LinkedDevice) (call : AddCall) :
    run (addStep fuel) (.initial memory) [call] =
      some ⟨memory, call.malloc.val, 1⟩ := by
  have hstep := @addStep_of_empty fuel (.initial memory) rfl call
  rw [run_cons_of_step hstep]
  rfl

theorem devicesKept_one (memory : ℕ → LinkedDevice) (call : AddCall) :
    DevicesKept memory [call] ↔
      memory call.malloc.val = ⟨call.device, 0⟩ := by
  unfold DevicesKept
  constructor
  · intro h
    obtain ⟨fuel, s, hrun, hlist, -⟩ := h
    rw [run_addStep_one, Option.some.injEq] at hrun
    obtain ⟨-, hdevice, hnext⟩ := hlist
    rw [← hrun] at hdevice hnext
    cases hnode : memory call.malloc.val with
    | mk fields next =>
        simp only [hnode] at hdevice hnext
        rw [hdevice, hnext]
  · intro h
    refine ⟨0, _, run_addStep_one 0 memory call, ?_, rfl⟩
    simp [ListHolds, h, call.malloc.property]

/-- The list is what was added only when nothing was, or when a single call
found the device already in the memory it allocated. -/
theorem devicesKept_iff (memory : ℕ → LinkedDevice) (calls : List AddCall) :
    DevicesKept memory calls ↔
      calls = [] ∨ ∃ call, calls = [call] ∧
        memory call.malloc.val = ⟨call.device, 0⟩ := by
  cases calls with
  | nil => simp [DevicesKept, run, ListHolds, DeviceHeap.initial]
  | cons first calls =>
      cases calls with
      | nil => simp [devicesKept_one]
      | cons second calls =>
          constructor
          · intro h
            obtain ⟨fuel, s, hrun, -⟩ := h
            rw [run_addStep_two] at hrun
            contradiction
          · intro h
            rcases h with hnil | ⟨call, hcall, -⟩
            · contradiction
            · simp at hcall

theorem devicesKept_fails_on_two :
    ¬ DevicesKept (fun _ => ⟨emptyDevice, 0⟩)
      [⟨emptyDevice, 1, by decide⟩, ⟨emptyDevice, 2, by decide⟩] := by
  intro h
  obtain ⟨fuel, s, hrun, -⟩ := h
  rw [run_addStep_two] at hrun
  contradiction

end ProfinetIo
