import ProfinetIo.AddressAllocation
import Mathlib.Tactic

/-!
# Requests for an address

`add_ip_to_device` takes the next address of the pool for every request of a
listed device, also for one that holds an address already.  It has a return
statement for a null handle and for an exhausted range only; after an
assignment and after a search in vain control reaches the end of the function.
-/

namespace ProfinetIo

namespace DeviceList

open SerialPools TransitionRuns

variable {ι : Type*}

/-! ## What a call reports -/

section Reports

variable {s : State ι} {head : Option ι} {mac : Octets 6}

def OnList (s : State ι) (head : Option ι) (mac : Octets 6) : Prop :=
  ∃ list, head = some list ∧ ∃ node ∈ s.heads list, (s.nodes node).mac = mac

def RangeLeft (s : State ι) : Prop :=
  lastOctet s.ipRangeMin < lastOctet s.ipRangeMax

/-- The state after the call is the one before it with an address assigned to
a node with the MAC. -/
def AssignedTo (s : State ι) (head : Option ι) (mac : Octets 6)
    (after : State ι) : Prop :=
  ∃ list, head = some list ∧ ∃ node ∈ s.heads list,
    (s.nodes node).mac = mac ∧ after = assignAddress s node

/-- The call returns a value that tells an assignment from a failure, and a
failure changes nothing. -/
structure ReportsOutcome (s : State ι) (head : Option ι) (mac : Octets 6)
    (ret : ℤ) (after : State ι) : Prop where
  returned : addIpToDevice s head mac = (some ret, after)
  nonzero_iff : ret ≠ 0 ↔ AssignedTo s head mac after
  refused : ¬ OnList s head mac ∨ ¬ RangeLeft s → ret = 0
  unchanged : ret = 0 → after = s

theorem incrementLast_ne (address : Octets 4) :
    incrementLast address ≠ address := by
  intro h
  rcases address with ⟨octets, hoctets⟩
  obtain ⟨a, b, c, d, rfl⟩ := List.length_eq_four.mp hoctets
  have hlast : d + 1 = d := by
    simpa [incrementLast, List.modify] using congrArg Subtype.val h
  have hvalue := congrArg UInt8.toNat hlast
  rw [UInt8.toNat_add] at hvalue
  have hbyte : d.toNat < 256 := d.toNat_lt
  have hone : (1 : UInt8).toNat = 1 := rfl
  omega

theorem assignAddress_ne (s : State ι) (node : ℕ) :
    assignAddress s node ≠ s := by
  intro h
  exact incrementLast_ne s.ipRangeMin (congrArg State.ipRangeMin h)

theorem found_of_onList {list : ι} (h : OnList s (some list) mac) :
    ∃ node, findDeviceByMac s list mac = some node := by
  obtain ⟨list', hlist, hnode⟩ := h
  cases hlist
  exact Option.isSome_iff_exists.mp (findDeviceByMac_isSome_iff.mpr hnode)

theorem onList_of_found {list : ι} {node : ℕ}
    (h : findDeviceByMac s list mac = some node) : OnList s (some list) mac :=
  ⟨list, rfl, node, mem_heads_of_found h⟩

theorem reportsOutcome_of_refused
    (h : addIpToDevice s head mac = (some 0, s)) :
    ReportsOutcome s head mac 0 s := by
  constructor
  · exact h
  · constructor
    · intro hzero
      contradiction
    · rintro ⟨list, -, node, -, -, hsame⟩
      exact absurd hsame.symm (assignAddress_ne s node)
  · intro _
    rfl
  · intro _
    rfl

/-- A call reports its outcome exactly if the handle is null, or the device is
listed and no address is left. -/
theorem addIpToDevice_reports_iff
    (s : State ι) (head : Option ι) (mac : Octets 6) :
    (∃ ret after, ReportsOutcome s head mac ret after) ↔
      head = none ∨ OnList s head mac ∧ ¬ RangeLeft s := by
  cases head with
  | none =>
      constructor
      · intro _
        exact Or.inl rfl
      · intro _
        exact ⟨0, s, reportsOutcome_of_refused rfl⟩
  | some list =>
      constructor
      · rintro ⟨ret, after, h⟩
        right
        have hreturned := h.returned
        unfold addIpToDevice at hreturned
        cases hfind : findDeviceByMac s list mac with
        | none => simp [hfind] at hreturned
        | some node =>
            refine ⟨onList_of_found hfind, ?_⟩
            intro hroom
            unfold RangeLeft at hroom
            simp [hfind, hroom] at hreturned
      · rintro (hnull | ⟨hlisted, hfull⟩)
        · contradiction
        · obtain ⟨node, hfind⟩ := found_of_onList hlisted
          unfold RangeLeft at hfull
          refine ⟨0, s, reportsOutcome_of_refused ?_⟩
          simp [addIpToDevice, hfind, hfull]

theorem addIpToDevice_reports_nothing :
    ¬ ∀ (s : State Unit) (head : Option Unit) (mac : Octets 6),
      ∃ ret after, ReportsOutcome s head mac ret after := by
  intro h
  obtain ⟨ret, after, hreports⟩ := h
    (pushNode (.initial fun _ => zeroNode) ()
      ⟨[0xac, 0xb9, 0xff, 0x21, 0xaf, 0xac], rfl⟩) (some ())
    ⟨[0xac, 0xb9, 0xff, 0x21, 0xaf, 0xac], rfl⟩
  have hnone : (none : Option ℤ) = some ret :=
    congrArg Prod.fst hreports.returned
  contradiction

end Reports

/-! ## Asking again -/

/-- No device that was assigned an address gets another one by the call. -/
def KeepsAddresses [DecidableEq ι] (t : Tracked ι) (call : Call ι) : Prop :=
  ∀ node, t.assigned node ≠ none →
    ((step t call).state.nodes node).ip = (t.state.nodes node).ip

/-- The MACs of the calls that take an address from the pool, in order. -/
def consumers [DecidableEq ι] : Tracked ι → List (Call ι) → List (Octets 6)
  | _, [] => []
  | t, .addDevice list mac :: calls =>
      consumers (step t (.addDevice list mac)) calls
  | t, .addIpToDevice list mac :: calls =>
      let next := step t (.addIpToDevice list mac)
      if next.state.ipRangeMin = t.state.ipRangeMin then consumers next calls
      else mac :: consumers next calls

/-- A device keeps its address, and a MAC uses up one address at most. -/
structure OneAddressEach [DecidableEq ι] (nodes : ℕ → DeviceNode)
    (calls : List (Call ι)) : Prop where
  kept : StepsMeet callStep KeepsAddresses (Tracked.initial nodes) calls
  once : (consumers (Tracked.initial nodes) calls).Nodup

/-- The MACs of the requests by devices that were added to the list before. -/
def requests [DecidableEq ι] :
    List (ι × Octets 6) → List (Call ι) → List (Octets 6)
  | _, [] => []
  | listed, .addDevice list mac :: calls =>
      requests ((list, mac) :: listed) calls
  | listed, .addIpToDevice list mac :: calls =>
      if listed.contains (list, mac) then mac :: requests listed calls
      else requests listed calls

def poolSize : ℕ := (lastOctet ipRangeMax).toNat - (lastOctet ipRangeMin).toNat

section Again

variable [DecidableEq ι] {t : Tracked ι} {pool : SerialPool ℕ}
  {listed : List (ι × Octets 6)} {taken : List (Octets 6)} {list : ι}
  {mac : Octets 6} {node : ℕ} {calls : List (Call ι)}

theorem consumers_of_unserved (h : servedNode t.state list mac = none) :
    consumers t (.addIpToDevice list mac :: calls) = consumers t calls := by
  rw [consumers, step_addIpToDevice_of_unserved h, if_pos rfl]

theorem consumers_of_served (h : servedNode t.state list mac = some node) :
    consumers t (.addIpToDevice list mac :: calls) =
      mac :: consumers (step t (.addIpToDevice list mac)) calls := by
  have hmoved : (step t (.addIpToDevice list mac)).state.ipRangeMin ≠
      t.state.ipRangeMin := by
    rw [step_addIpToDevice_of_served h]
    exact incrementLast_ne t.state.ipRangeMin
  rw [consumers, if_neg hmoved]

theorem requests_of_listed (h : (list, mac) ∈ listed) :
    requests listed (.addIpToDevice list mac :: calls) =
      mac :: requests listed calls := by
  rw [requests, if_pos (List.contains_iff_mem.mpr h)]

theorem requests_of_unlisted (h : (list, mac) ∉ listed) :
    requests listed (.addIpToDevice list mac :: calls) =
      requests listed calls := by
  rw [requests, if_neg (mt List.contains_iff_mem.mp h)]

/-- As long as there are addresses, every request of a listed device takes
one. -/
theorem consumers_eq_take
    (hpool : Represents t pool) (hheap : t.HeapFormed)
    (hlisted : Listed listed t.state) :
    consumers t calls =
      (requests listed calls).take (pool.limit - pool.next) := by
  induction calls generalizing t pool listed with
  | nil => simp [consumers, requests]
  | cons call calls ih =>
      cases call with
      | addDevice list mac =>
          exact ih (hpool.pushNode hheap list mac)
            (hheap.step (.addDevice list mac))
            (hlisted.pushNode hheap list mac)
      | addIpToDevice list mac =>
          cases hserved : servedNode t.state list mac with
          | none =>
              rw [consumers_of_unserved hserved, ih hpool hheap hlisted]
              by_cases hmem : (list, mac) ∈ listed
              · have hfull : ¬ pool.next < pool.limit := by
                  intro hroom
                  obtain ⟨node, hnode⟩ :=
                    (hlisted.served_iff hpool).mpr ⟨hroom, hmem⟩
                  rw [hserved] at hnode
                  contradiction
                have hzero : pool.limit - pool.next = 0 := by omega
                rw [hzero, List.take_zero, List.take_zero]
              · rw [requests_of_unlisted hmem]
          | some node =>
              obtain ⟨hroom, hmem⟩ :=
                (hlisted.served_iff hpool).mp ⟨node, hserved⟩
              have hnext := step_addIpToDevice_of_served hserved
              have hheap' := hheap.step (.addIpToDevice list mac)
              have hpool' := hpool.give hroom node
              have hlisted' := hlisted.assignAddress node
              rw [hnext] at hheap'
              have hrest := ih hpool' hheap' hlisted'
              have hleft : pool.limit - pool.next =
                  pool.limit - (pool.next + 1) + 1 := by omega
              rw [consumers_of_served hserved, hnext, hrest,
                requests_of_listed hmem, hleft, List.take_succ_cons]
              rfl

def HeldBy (taken : List (Octets 6)) (t : Tracked ι) : Prop :=
  ∀ node, t.assigned node ≠ none → (t.state.nodes node).mac ∈ taken

theorem HeldBy.pushNode (h : HeldBy taken t) (hheap : t.HeapFormed)
    (list : ι) (mac : Octets 6) :
    HeldBy taken (step t (.addDevice list mac)) := by
  intro node hnode
  have hne : node ≠ t.state.allocated := by
    intro heq
    exact hnode (hheap.fresh node (Nat.le_of_eq heq.symm))
  rw [step_addDevice, pushNode_of_ne hne]
  exact h node hnode

omit [DecidableEq ι] in
theorem HeldBy.give (h : HeldBy taken t)
    (hmac : (t.state.nodes node).mac = mac) :
    HeldBy (taken ++ [mac]) (t.record (assignAddress t.state node) node) := by
  intro other hother
  simp only [Tracked.record, assignAddress_mac, List.mem_append,
    List.mem_singleton] at hother ⊢
  by_cases heq : other = node
  · right
    rw [heq, hmac]
  · left
    rw [Function.update_of_ne heq] at hother
    exact h other hother

omit [DecidableEq ι] in
theorem HeldBy.keeps (h : HeldBy taken t)
    (hmac : (t.state.nodes node).mac = mac) (hnew : mac ∉ taken)
    {other : ℕ} (hother : t.assigned other ≠ none) :
    (assignAddress t.state node).nodes other = t.state.nodes other := by
  have hne : other ≠ node := by
    intro heq
    have htaken := h other hother
    rw [heq, hmac] at htaken
    exact hnew htaken
  exact assignAddress_of_ne hne

/-- If nobody asks twice, every call leaves the assigned addresses alone. -/
theorem stepsMeet_keepsAddresses (hheap : t.HeapFormed)
    (hheld : HeldBy taken t) (hnodup : (taken ++ consumers t calls).Nodup) :
    StepsMeet callStep KeepsAddresses t calls := by
  induction calls generalizing t taken with
  | nil => trivial
  | cons call calls ih =>
      intro next hnext
      cases hnext
      have hheap' := hheap.step call
      cases call with
      | addDevice list mac =>
          refine ⟨?_, ih hheap' (hheld.pushNode hheap list mac) hnodup⟩
          intro node _
          exact pushNode_ip t.state list mac node
      | addIpToDevice list mac =>
          cases hserved : servedNode t.state list mac with
          | none =>
              have hsame := step_addIpToDevice_of_unserved hserved
              rw [consumers_of_unserved hserved] at hnodup
              rw [hsame]
              refine ⟨?_, ih hheap hheld hnodup⟩
              intro node _
              rw [hsame]
          | some node =>
              have hmac :=
                (mem_heads_of_found (found_of_servedNode hserved).1).2
              have hserve := step_addIpToDevice_of_served hserved
              rw [consumers_of_served hserved] at hnodup
              have hnew : mac ∉ taken := by
                intro htaken
                exact List.disjoint_of_nodup_append hnodup htaken
                  List.mem_cons_self
              rw [← List.singleton_append, ← List.append_assoc] at hnodup
              rw [hserve] at hheap' hnodup ⊢
              refine ⟨?_, ih hheap' (hheld.give hmac) hnodup⟩
              intro other hother
              rw [hserve]
              exact congrArg DeviceNode.ip (hheld.keeps hmac hnew hother)

end Again

/-- Every device has one address at most exactly in the runs in which none of
the requests that the pool can serve has the MAC of an earlier one. -/
theorem oneAddressEach_iff [DecidableEq ι]
    (nodes : ℕ → DeviceNode) (calls : List (Call ι)) :
    OneAddressEach nodes calls ↔
      ((requests [] calls).take poolSize).Nodup := by
  have htake : consumers (Tracked.initial nodes) calls =
      (requests [] calls).take poolSize :=
    consumers_eq_take (.initial nodes) (.initial nodes)
      (listed_initial nodes)
  rw [← htake]
  constructor
  · intro h
    exact h.once
  · intro hnodup
    constructor
    · refine @stepsMeet_keepsAddresses ι _ _ [] calls (.initial nodes) ?_ hnodup
      intro node hnode
      exact absurd rfl hnode
    · exact hnodup

theorem address_changed_by_second_request :
    ¬ OneAddressEach (fun _ => zeroNode)
      [.addDevice () ⟨[0xac, 0xb9, 0xff, 0x21, 0xaf, 0xac], rfl⟩,
        .addIpToDevice () ⟨[0xac, 0xb9, 0xff, 0x21, 0xaf, 0xac], rfl⟩,
        .addIpToDevice () ⟨[0xac, 0xb9, 0xff, 0x21, 0xaf, 0xac], rfl⟩] := by
  intro h
  have hsecond := (((h.kept _ rfl).2 _ rfl).2 _ rfl).1 0 (by decide)
  revert hsecond
  decide

end DeviceList

end ProfinetIo
