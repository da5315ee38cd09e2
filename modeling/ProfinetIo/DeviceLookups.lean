import ProfinetIo.AddressAllocation
import ProfinetIo.DeviceList
import Mathlib.Tactic

/-!
# The two lookups of a device list

`find_device_by_ip` compares the bytes of every node, assigned or not, and a
fresh node contains whatever the memory held.  On a list whose nodes have all
been assigned an address and have different MACs the two lookups agree; but
each node that is added goes through a state in which it is found under an
address that it was never given.
-/

namespace ProfinetIo

namespace DeviceList

open TransitionRuns

variable {ι : Type*}

/-- Both lookups find each assigned node, by its MAC and by its address, and
no node is found under an address that no node holds by assignment. -/
structure LookupsAgree (t : Tracked ι) (list : ι) : Prop where
  assigned : ∀ node ∈ t.state.heads list, ∀ address,
    t.assigned node = some address →
      (t.state.nodes node).ip = address ∧
      findDeviceByMac t.state list (t.state.nodes node).mac = some node ∧
      findDeviceByIp t.state list address = some node
  absent : ∀ address,
    (∀ node ∈ t.state.heads list, t.assigned node ≠ some address) →
      findDeviceByIp t.state list address = none

theorem lookupsAgree_of_empty {t : Tracked ι} {list : ι}
    (h : t.state.heads list = []) : LookupsAgree t list := by
  constructor
  · intro node hnode
    rw [h] at hnode
    exact absurd hnode List.not_mem_nil
  · intro address _
    rw [findDeviceByIp, h]
    rfl

section Runs

variable [DecidableEq ι]

/-- The node just added is found by its uninitialised address. -/
theorem not_lookupsAgree_of_added {t : Tracked ι} (hheap : t.HeapFormed)
    (list : ι) (mac : Octets 6) :
    ¬ LookupsAgree (step t (.addDevice list mac)) list := by
  intro h
  have hfound : findDeviceByIp (step t (.addDevice list mac)).state list
      (t.state.nodes t.state.allocated).ip = some t.state.allocated := by
    rw [step_addDevice]
    simp [findDeviceByIp]
  have hfresh := hheap.fresh t.state.allocated (le_refl _)
  have hnone := h.absent (t.state.nodes t.state.allocated).ip (by
    intro node hnode hassigned
    have hother := (h.assigned node hnode _ hassigned).2.2
    rw [hfound, Option.some.injEq] at hother
    rw [← hother, step_addDevice] at hassigned
    rw [hfresh] at hassigned
    contradiction)
  rw [hfound] at hnone
  contradiction

theorem statesMeet_lookupsAgree_from (calls : List (Call ι))
    {t : Tracked ι} {list : ι} (hheap : t.HeapFormed)
    (hempty : t.state.heads list = []) :
    StatesMeet callStep (fun t => LookupsAgree t list) t calls ↔
      ∀ mac, .addDevice list mac ∉ calls := by
  have hagree := lookupsAgree_of_empty hempty
  induction calls generalizing t with
  | nil =>
      simp only [StatesMeet, List.not_mem_nil, not_false_eq_true,
        implies_true, iff_true]
      exact hagree
  | cons call calls ih =>
      have hheap' := hheap.step call
      rw [statesMeet_callStep_cons, and_iff_right hagree]
      cases call with
      | addDevice list' mac =>
          by_cases hlist : list' = list
          · rw [hlist]
            constructor
            · intro h
              exact absurd h.head (not_lookupsAgree_of_added hheap list mac)
            · intro h
              exact absurd List.mem_cons_self (h mac)
          · have hempty' : (step t (.addDevice list' mac)).state.heads list =
                [] := by
              rw [step_addDevice, ← hempty]
              exact pushNode_heads_of_ne (Ne.symm hlist) mac
            have hrest := ih hheap' hempty' (lookupsAgree_of_empty hempty')
            simpa [Ne.symm hlist] using hrest
      | addIpToDevice list' mac =>
          have hempty' :
              (step t (.addIpToDevice list' mac)).state.heads list = [] := by
            rw [step_addIpToDevice_heads, hempty]
          have hrest := ih hheap' hempty' (lookupsAgree_of_empty hempty')
          simpa using hrest

/-- The lookups agree in every state of a run exactly when it adds no device
to the list. -/
theorem statesMeet_lookupsAgree_iff
    (nodes : ℕ → DeviceNode) (list : ι) (calls : List (Call ι)) :
    StatesMeet callStep (fun t => LookupsAgree t list)
        (Tracked.initial nodes) calls ↔
      ∀ mac, .addDevice list mac ∉ calls :=
  statesMeet_lookupsAgree_from calls (.initial nodes) rfl

end Runs

theorem lookups_disagree_on_fresh_device :
    ¬ StatesMeet callStep (fun t => LookupsAgree t ())
      (Tracked.initial fun _ => zeroNode)
      [.addDevice () ⟨[0xac, 0xb9, 0xff, 0x21, 0xaf, 0xac], rfl⟩] := by
  intro h
  rw [statesMeet_lookupsAgree_from _ (.initial _) rfl] at h
  exact absurd List.mem_cons_self (h _)

end DeviceList

end ProfinetIo
