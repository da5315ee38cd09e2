import ProfinetIo.ProfinetHeader
import ProfinetIo.TransitionRuns
import Mathlib.Tactic

/-!
# The lists of `Device_list.c`

Nodes are allocated one after the other and never freed, so a node is named by
the number of nodes allocated before it; what a fresh node contains is whatever
the memory held.  A list is the sequence of its nodes from the head on, and any
number of lists share the globals from which addresses are assigned.

`Tracked` adds to the state which address each node was last assigned, and
which addresses were handed out with which gateway.
-/

namespace ProfinetIo

namespace DeviceList

open TransitionRuns

/-- `struct Device` without its name, which nothing reads or writes, and its
link. -/
structure DeviceNode where
  mac : Octets 6
  ip : Octets 4
  subnet : Octets 4
  gateway : Octets 4

def zeroNode : DeviceNode :=
  ⟨⟨[0, 0, 0, 0, 0, 0], length_six_zeros⟩, ⟨[0, 0, 0, 0], length_four_zeros⟩,
    ⟨[0, 0, 0, 0], length_four_zeros⟩, ⟨[0, 0, 0, 0], length_four_zeros⟩⟩

structure State (ι : Type*) where
  nodes : ℕ → DeviceNode
  allocated : ℕ
  heads : ι → List ℕ
  gateway : Octets 4
  ipRangeMin : Octets 4
  ipRangeMax : Octets 4
  subnet : Octets 4

def gateway : Octets 4 := ⟨[192, 168, 1, 7], rfl⟩
def ipRangeMin : Octets 4 := ⟨[192, 168, 1, 1], rfl⟩
def ipRangeMax : Octets 4 := ⟨[192, 168, 1, 254], rfl⟩
def subnet : Octets 4 := ⟨[255, 255, 255, 0], rfl⟩

variable {ι : Type*}

def State.initial (nodes : ℕ → DeviceNode) : State ι :=
  ⟨nodes, 0, fun _ => [], DeviceList.gateway, DeviceList.ipRangeMin,
    DeviceList.ipRangeMax, DeviceList.subnet⟩

/-- The byte with index 3. -/
def lastOctet (address : Octets 4) : UInt8 := address.val.getD 3 0

/-- `address[3] += 1`. -/
def incrementLast (address : Octets 4) : Octets 4 :=
  ⟨address.val.modify 3 (· + 1), by simp⟩

/-! ## The operations -/

/-- The walk of `find_device_by_mac`, which `add_ip_to_device` makes as well;
`none` is `NULL`. -/
def findDeviceByMac (s : State ι) (list : ι) (mac : Octets 6) : Option ℕ :=
  (s.heads list).find? fun node => (s.nodes node).mac = mac

def findDeviceByIp (s : State ι) (list : ι) (ip : Octets 4) : Option ℕ :=
  (s.heads list).find? fun node => (s.nodes node).ip = ip

/-- The node in front of the list, of which only the MAC is written. -/
def pushNode [DecidableEq ι] (s : State ι) (list : ι) (mac : Octets 6) :
    State ι :=
  { s with
    nodes := Function.update s.nodes s.allocated
      { s.nodes s.allocated with mac := mac }
    allocated := s.allocated + 1
    heads := Function.update s.heads list (s.allocated :: s.heads list) }

/-- `add_device` with a MAC that may be `NULL`. -/
def addDevice [DecidableEq ι] (s : State ι) (list : ι)
    (mac : Option (Octets 6)) : ℤ × State ι :=
  match mac with
  | some mac => (1, pushNode s list mac)
  | none => (0, s)

def assignAddress (s : State ι) (node : ℕ) : State ι :=
  { s with
    nodes := Function.update s.nodes node
      { s.nodes node with
        ip := s.ipRangeMin
        subnet := s.subnet
        gateway := s.gateway }
    ipRangeMin := incrementLast s.ipRangeMin }

/-- `add_ip_to_device` with a head that may be `NULL`; control reaches the end
of the function without a value when no node is found and when one is served. -/
def addIpToDevice (s : State ι) (head : Option ι) (mac : Octets 6) :
    Option ℤ × State ι :=
  match head with
  | none => (some 0, s)
  | some list =>
      match findDeviceByMac s list mac with
      | none => (none, s)
      | some node =>
          if lastOctet s.ipRangeMin < lastOctet s.ipRangeMax then
            (none, assignAddress s node)
          else (some 0, s)

section Nodes

variable (s : State ι) (node : ℕ)

@[simp] theorem assignAddress_ip :
    ((assignAddress s node).nodes node).ip = s.ipRangeMin := by
  simp [assignAddress]

@[simp] theorem assignAddress_gateway :
    ((assignAddress s node).nodes node).gateway = s.gateway := by
  simp [assignAddress]

@[simp] theorem assignAddress_mac (other : ℕ) :
    ((assignAddress s node).nodes other).mac = (s.nodes other).mac := by
  by_cases h : other = node
  · simp [assignAddress, h]
  · simp [assignAddress, Function.update_of_ne h]

variable {s node}

theorem assignAddress_of_ne {other : ℕ} (h : other ≠ node) :
    (assignAddress s node).nodes other = s.nodes other :=
  Function.update_of_ne h _ _

variable [DecidableEq ι]

@[simp] theorem pushNode_mac (s : State ι) (list : ι) (mac : Octets 6) :
    ((pushNode s list mac).nodes s.allocated).mac = mac := by
  simp [pushNode]

@[simp] theorem pushNode_ip (s : State ι) (list : ι) (mac : Octets 6)
    (other : ℕ) :
    ((pushNode s list mac).nodes other).ip = (s.nodes other).ip := by
  by_cases h : other = s.allocated
  · simp [pushNode, h]
  · simp [pushNode, Function.update_of_ne h]

@[simp] theorem pushNode_heads (s : State ι) (list : ι) (mac : Octets 6) :
    (pushNode s list mac).heads list = s.allocated :: s.heads list := by
  simp [pushNode]

theorem pushNode_heads_of_ne {list other : ι} (h : other ≠ list)
    (mac : Octets 6) : (pushNode s list mac).heads other = s.heads other :=
  Function.update_of_ne h _ _

theorem pushNode_of_ne {other : ℕ} (h : other ≠ s.allocated) (list : ι)
    (mac : Octets 6) : (pushNode s list mac).nodes other = s.nodes other :=
  Function.update_of_ne h _ _

end Nodes

/-! ## Runs -/

inductive Call (ι : Type*) where
  | addDevice (list : ι) (mac : Octets 6)
  | addIpToDevice (list : ι) (mac : Octets 6)

structure Tracked (ι : Type*) where
  state : State ι
  assigned : ℕ → Option (Octets 4)
  handedOut : List (Octets 4 × Octets 4)

def Tracked.initial (nodes : ℕ → DeviceNode) : Tracked ι :=
  ⟨.initial nodes, fun _ => none, []⟩

/-- The node that `add_ip_to_device` assigns an address. -/
def servedNode (s : State ι) (list : ι) (mac : Octets 6) : Option ℕ :=
  if lastOctet s.ipRangeMin < lastOctet s.ipRangeMax then
    findDeviceByMac s list mac
  else none

/-- The address and the gateway that the node holds after the call. -/
def Tracked.record (t : Tracked ι) (next : State ι) (node : ℕ) : Tracked ι where
  state := next
  assigned := Function.update t.assigned node (some (next.nodes node).ip)
  handedOut := t.handedOut ++
    [((next.nodes node).ip, (next.nodes node).gateway)]

def step [DecidableEq ι] (t : Tracked ι) : Call ι → Tracked ι
  | .addDevice list mac =>
      { t with state := (addDevice t.state list (some mac)).2 }
  | .addIpToDevice list mac =>
      let next := (addIpToDevice t.state (some list) mac).2
      match servedNode t.state list mac with
      | none => { t with state := next }
      | some node => t.record next node

/-- A call is always possible. -/
def callStep [DecidableEq ι] (t : Tracked ι) (call : Call ι) :
    Option (Tracked ι) := some (step t call)

section Step

variable [DecidableEq ι] {t : Tracked ι} {list : ι} {mac : Octets 6}
  {node : ℕ}

theorem step_addDevice :
    step t (.addDevice list mac) =
      { t with state := pushNode t.state list mac } := rfl

theorem step_addIpToDevice_of_unserved
    (h : servedNode t.state list mac = none) :
    step t (.addIpToDevice list mac) = t := by
  have hsame : (addIpToDevice t.state (some list) mac).2 = t.state := by
    unfold addIpToDevice
    unfold servedNode at h
    cases hfind : findDeviceByMac t.state list mac with
    | none => simp [hfind]
    | some node =>
        simp only [hfind, ite_eq_right_iff, reduceCtorEq, imp_false] at h
        simp [hfind, h]
  simp only [step, h, hsame]

theorem step_addIpToDevice_of_served
    (h : servedNode t.state list mac = some node) :
    step t (.addIpToDevice list mac) =
      t.record (assignAddress t.state node) node := by
  have hnext : (addIpToDevice t.state (some list) mac).2 =
      assignAddress t.state node := by
    unfold servedNode at h
    split at h
    · next hroom => simp [addIpToDevice, h, hroom]
    · contradiction
  simp only [step, h, hnext]

theorem step_addIpToDevice_heads (t : Tracked ι) (list : ι)
    (mac : Octets 6) :
    (step t (.addIpToDevice list mac)).state.heads = t.state.heads := by
  cases hserved : servedNode t.state list mac with
  | none => rw [step_addIpToDevice_of_unserved hserved]
  | some node =>
      rw [step_addIpToDevice_of_served hserved]
      rfl

theorem statesMeet_callStep_cons {Good : Tracked ι → Prop}
    {t : Tracked ι} {call : Call ι} {calls : List (Call ι)} :
    StatesMeet callStep Good t (call :: calls) ↔
      Good t ∧ StatesMeet callStep Good (step t call) calls := by
  simp [StatesMeet, callStep]

end Step

/-! ## The heap -/

/-- Nodes on a list have been allocated, and the others have no address. -/
structure Tracked.HeapFormed (t : Tracked ι) : Prop where
  listed : ∀ list, ∀ node ∈ t.state.heads list, node < t.state.allocated
  fresh : ∀ node, t.state.allocated ≤ node → t.assigned node = none

theorem mem_heads_of_found {s : State ι} {list : ι} {mac : Octets 6}
    {node : ℕ} (h : findDeviceByMac s list mac = some node) :
    node ∈ s.heads list ∧ (s.nodes node).mac = mac := by
  have hmac := List.find?_some h
  exact ⟨List.mem_of_find?_eq_some h, by simpa using hmac⟩

theorem found_of_servedNode {s : State ι} {list : ι} {mac : Octets 6}
    {node : ℕ} (h : servedNode s list mac = some node) :
    findDeviceByMac s list mac = some node ∧
      lastOctet s.ipRangeMin < lastOctet s.ipRangeMax := by
  unfold servedNode at h
  split at h
  · next hroom => exact ⟨h, hroom⟩
  · contradiction

theorem Tracked.HeapFormed.initial (nodes : ℕ → DeviceNode) :
    (Tracked.initial nodes : Tracked ι).HeapFormed := by
  constructor
  · intro list node hnode
    exact absurd hnode List.not_mem_nil
  · intro node _
    rfl

theorem Tracked.HeapFormed.step [DecidableEq ι] {t : Tracked ι}
    (h : t.HeapFormed) (call : Call ι) :
    (DeviceList.step t call).HeapFormed := by
  cases call with
  | addDevice list mac =>
      rw [step_addDevice]
      constructor
      · intro list' node hnode
        change node < t.state.allocated + 1
        by_cases hlist : list' = list
        · rw [hlist, pushNode_heads, List.mem_cons] at hnode
          rcases hnode with rfl | hnode
          · omega
          · have hlt := h.listed list node hnode
            omega
        · rw [pushNode_heads_of_ne hlist] at hnode
          have hlt := h.listed list' node hnode
          omega
      · intro node hnode
        exact h.fresh node ((Nat.le_succ _).trans hnode)
  | addIpToDevice list mac =>
      cases hserved : servedNode t.state list mac with
      | none =>
          rw [step_addIpToDevice_of_unserved hserved]
          exact h
      | some served =>
          have hfound := (found_of_servedNode hserved).1
          have hlt := h.listed list served (mem_heads_of_found hfound).1
          rw [step_addIpToDevice_of_served hserved]
          constructor
          · exact h.listed
          · intro node hnode
            have hne : node ≠ served := by
              intro heq
              have hle : t.state.allocated ≤ node := hnode
              omega
            simp only [Tracked.record, Function.update_of_ne hne]
            exact h.fresh node hnode

end DeviceList

end ProfinetIo
