import ProfinetIo.AddressAllocation
import ProfinetIo.SerialBooks
import Mathlib.Tactic

/-!
# What the device lists are for

Any number of lists with one counter are a book of serial numbers whose keys
are a list and a MAC.  The newest node of a MAC on a list is its entry: a node
without an address still holds what the memory held, and every other one the
address of the last serial number it was assigned.
-/

namespace ProfinetIo

namespace DeviceList

open SerialBooks SerialPools TransitionRuns

variable {ι : Type*}

/-- The call as an order to the book. -/
def Call.order : Call ι → Order (ι × Octets 6)
  | .addDevice list mac => .register (list, mac)
  | .addIpToDevice list mac => .assign (list, mac)

/-- The numbers from the first address up to the one that is never handed
out. -/
def emptyBook : Book (ι × Octets 6) :=
  .opened (lastOctet ipRangeMin).toNat (lastOctet ipRangeMax).toNat

/-- The node that the lookup finds is what the entry says; `nodes` is what the
memory held. -/
def Shows (nodes : ℕ → DeviceNode) (s : State ι) (list : ι) (mac : Octets 6) :
    Option (Option ℕ) → Prop
  | none => findDeviceByMac s list mac = none
  | some none => ∃ node, findDeviceByMac s list mac = some node ∧
      s.nodes node = { nodes node with mac := mac }
  | some (some serial) => ∃ node, findDeviceByMac s list mac = some node ∧
      s.nodes node =
        ⟨mac, serialAddress serial, DeviceList.subnet, DeviceList.gateway⟩

/-! ## The lookup -/

section Lookup

variable {s : State ι} {list other : ι} {mac mac' : Octets 6}

theorem assignAddress_node {s : State ι} {node : ℕ}
    (hsubnet : s.subnet = DeviceList.subnet)
    (hgateway : s.gateway = DeviceList.gateway) :
    (assignAddress s node).nodes node =
      ⟨(s.nodes node).mac, s.ipRangeMin, DeviceList.subnet,
        DeviceList.gateway⟩ := by
  simp [assignAddress, hsubnet, hgateway]

/-- The lookup reads nothing but the MACs. -/
theorem findDeviceByMac_assignAddress (s : State ι) (served : ℕ) (list : ι)
    (mac : Octets 6) :
    findDeviceByMac (assignAddress s served) list mac =
      findDeviceByMac s list mac := by
  simp only [findDeviceByMac, assignAddress_mac]
  rfl

variable [DecidableEq ι]

theorem findDeviceByMac_pushNode
    (hlisted : ∀ node ∈ s.heads other, node < s.allocated) :
    findDeviceByMac (pushNode s list mac) other mac' =
      if (other, mac') = (list, mac) then some s.allocated
      else findDeviceByMac s other mac' := by
  have hkept : (s.heads other).find? (fun node =>
      ((pushNode s list mac).nodes node).mac = mac') =
        findDeviceByMac s other mac' := by
    apply List.find?_congr
    intro node hnode
    rw [pushNode_of_ne (hlisted node hnode).ne]
  unfold findDeviceByMac at hkept ⊢
  by_cases hlist : other = list
  · subst hlist
    rw [pushNode_heads, List.find?_cons]
    by_cases hmac : mac' = mac
    · simp [hmac]
    · simp [Ne.symm hmac, hmac, hkept]
  · rw [pushNode_heads_of_ne hlist, hkept, if_neg]
    simp [hlist]

end Lookup

section Entries

variable {nodes : ℕ → DeviceNode} {s next : State ι} {list : ι}
  {mac : Octets 6} {entry : Option (Option ℕ)}

theorem Shows.found_iff (h : Shows nodes s list mac entry) :
    findDeviceByMac s list mac ≠ none ↔ entry ≠ none := by
  rcases entry with _ | _ | serial
  · exact iff_of_false (not_not.mpr h) (not_not.mpr rfl)
  · obtain ⟨node, hfound, -⟩ := h
    rw [hfound]
    exact iff_of_true nofun nofun
  · obtain ⟨node, hfound, -⟩ := h
    rw [hfound]
    exact iff_of_true nofun nofun

/-- An entry stays as it is with the lookup and the node that it finds. -/
theorem Shows.of_same (h : Shows nodes s list mac entry)
    (hfind : findDeviceByMac next list mac = findDeviceByMac s list mac)
    (hnodes : ∀ node, findDeviceByMac s list mac = some node →
      next.nodes node = s.nodes node) :
    Shows nodes next list mac entry := by
  rcases entry with _ | _ | serial
  · exact hfind.trans h
  · obtain ⟨node, hfound, hnode⟩ := h
    exact ⟨node, hfind.trans hfound, (hnodes node hfound).trans hnode⟩
  · obtain ⟨node, hfound, hnode⟩ := h
    exact ⟨node, hfind.trans hfound, (hnodes node hfound).trans hnode⟩

end Entries

/-! ## The refinement -/

/-- No node is on two lists, and the memory behind the last node is as it
was. -/
structure Refines (nodes : ℕ → DeviceNode) (t : Tracked ι)
    (book : Book (ι × Octets 6)) : Prop where
  heap : t.HeapFormed
  apart : ∀ list other node, node ∈ t.state.heads list →
    node ∈ t.state.heads other → list = other
  untouched : ∀ node, t.state.allocated ≤ node →
    t.state.nodes node = nodes node
  counter : t.state.ipRangeMin = serialAddress book.next
  rangeMax : t.state.ipRangeMax = DeviceList.ipRangeMax
  subnet : t.state.subnet = DeviceList.subnet
  gateway : t.state.gateway = DeviceList.gateway
  within : book.Within 1
  limit : book.limit = 254
  shows : ∀ list mac,
    Shows nodes t.state list mac (book.entries (list, mac))

namespace Refines

variable {nodes : ℕ → DeviceNode} {t : Tracked ι} {book : Book (ι × Octets 6)}

theorem initial (nodes : ℕ → DeviceNode) :
    Refines nodes (Tracked.initial nodes : Tracked ι) emptyBook where
  heap := .initial nodes
  apart := nofun
  untouched := fun _ _ => rfl
  counter := rfl
  rangeMax := rfl
  subnet := rfl
  gateway := rfl
  within := .opened (by decide)
  limit := rfl
  shows := fun _ _ => rfl

theorem room_iff (h : Refines nodes t book) :
    lastOctet t.state.ipRangeMin < lastOctet t.state.ipRangeMax ↔
      book.next < book.limit := by
  have hupper := h.within.upper
  have hlimit := h.limit
  rw [h.counter, h.rangeMax, UInt8.lt_iff_toNat_lt, lastOctet_ipRangeMax,
    lastOctet_serialAddress (by omega), hlimit]

theorem serves_iff (h : Refines nodes t book) {list : ι} {mac : Octets 6} :
    book.Serves (list, mac) ↔
      ∃ node, servedNode t.state list mac = some node := by
  unfold Book.Serves servedNode
  rw [← h.room_iff, ← (h.shows list mac).found_iff,
    Option.ne_none_iff_exists']
  constructor
  · rintro ⟨hroom, node, hnode⟩
    exact ⟨node, by rw [if_pos hroom, hnode]⟩
  · rintro ⟨node, hnode⟩
    split_ifs at hnode with hroom
    exact ⟨hroom, node, hnode⟩

variable [DecidableEq ι]

theorem addDevice (h : Refines nodes t book) (list : ι) (mac : Octets 6) :
    Refines nodes (DeviceList.step t (.addDevice list mac))
      (book.register (list, mac)) where
  heap := h.heap.step _
  apart := by
    intro first second node hfirst hsecond
    rw [step_addDevice] at hfirst hsecond
    have hfresh : ∀ other, node ∈ t.state.heads other →
        node ≠ t.state.allocated := fun other hnode =>
      (h.heap.listed other node hnode).ne
    by_cases hlist : first = list
    · by_cases hother : second = list
      · rw [hlist, hother]
      · rw [hlist, pushNode_heads, List.mem_cons] at hfirst
        rw [pushNode_heads_of_ne hother] at hsecond
        have hnode := hfirst.resolve_left (hfresh second hsecond)
        rw [hlist]
        exact h.apart list second node hnode hsecond
    · rw [pushNode_heads_of_ne hlist] at hfirst
      by_cases hother : second = list
      · rw [hother, pushNode_heads, List.mem_cons] at hsecond
        have hnode := hsecond.resolve_left (hfresh first hfirst)
        rw [hother]
        exact h.apart first list node hfirst hnode
      · rw [pushNode_heads_of_ne hother] at hsecond
        exact h.apart first second node hfirst hsecond
  untouched := by
    intro node hnode
    rw [step_addDevice] at hnode ⊢
    have hlt : t.state.allocated < node := hnode
    rw [pushNode_of_ne hlt.ne']
    exact h.untouched node hlt.le
  counter := h.counter
  rangeMax := h.rangeMax
  subnet := h.subnet
  gateway := h.gateway
  within := h.within.apply (.register (list, mac))
  limit := h.limit
  shows := by
    intro other mac'
    rw [step_addDevice, Book.entries_register]
    have hfind := @findDeviceByMac_pushNode _ t.state list other mac mac' _
      (h.heap.listed other)
    split_ifs at hfind ⊢ with hkey
    · refine ⟨t.state.allocated, hfind, ?_⟩
      cases hkey
      rw [← h.untouched t.state.allocated (le_refl _)]
      simp [pushNode]
    · refine (h.shows other mac').of_same hfind ?_
      intro node hnode
      have hlisted := h.heap.listed other node (mem_heads_of_found hnode).1
      exact pushNode_of_ne hlisted.ne list mac

theorem addIpToDevice (h : Refines nodes t book) (list : ι) (mac : Octets 6) :
    Refines nodes (DeviceList.step t (.addIpToDevice list mac))
      (book.assign (list, mac)) := by
  cases hserved : servedNode t.state list mac with
  | none =>
      have hserves : ¬ book.Serves (list, mac) := by
        rw [h.serves_iff, hserved]
        rintro ⟨node, hnode⟩
        contradiction
      rw [step_addIpToDevice_of_unserved hserved,
        Book.assign_of_not_serves hserves]
      exact h
  | some served =>
      have hserves : book.Serves (list, mac) :=
        h.serves_iff.mpr ⟨served, hserved⟩
      have hfound := (found_of_servedNode hserved).1
      obtain ⟨hlisted, hmac⟩ := mem_heads_of_found hfound
      have hheap := h.heap.step (.addIpToDevice list mac)
      have hwithin := h.within.apply (.assign (list, mac))
      rw [step_addIpToDevice_of_served hserved] at hheap ⊢
      have hshows : ∀ other mac', Shows nodes
          (assignAddress t.state served) other mac'
          ((book.assign (list, mac)).entries (other, mac')) := by
        intro other mac'
        have hfind := findDeviceByMac_assignAddress t.state served other mac'
        rw [Book.entries_assign_of_serves hserves]
        split_ifs with hkey
        · cases hkey
          refine ⟨served, hfind.trans hfound, ?_⟩
          rw [assignAddress_node h.subnet h.gateway, hmac, h.counter]
        · refine (h.shows other mac').of_same hfind ?_
          intro node hnode
          obtain ⟨hnodeListed, hnodeMac⟩ := mem_heads_of_found hnode
          apply assignAddress_of_ne
          rintro rfl
          have hsameList := h.apart other list node hnodeListed hlisted
          exact hkey (Prod.ext hsameList (hnodeMac.symm.trans hmac))
      refine ⟨hheap, h.apart, ?_, ?_, h.rangeMax, h.subnet, h.gateway,
        hwithin, ?_, hshows⟩
      · intro node hnode
        have hlt := h.heap.listed list served hlisted
        have hne : node ≠ served := by
          rintro rfl
          exact absurd hlt (Nat.not_lt.mpr hnode)
        exact (assignAddress_of_ne hne).trans (h.untouched node hnode)
      · rw [Book.assign_of_serves hserves]
        exact (congrArg incrementLast h.counter).trans
          (incrementLast_serialAddress book.next)
      · rw [Book.assign_of_serves hserves]
        exact h.limit

theorem step (h : Refines nodes t book) (call : Call ι) :
    Refines nodes (DeviceList.step t call) (book.apply call.order) := by
  cases call with
  | addDevice list mac => exact h.addDevice list mac
  | addIpToDevice list mac => exact h.addIpToDevice list mac

theorem run (h : Refines nodes t book) (calls : List (Call ι)) :
    ∃ final, TransitionRuns.run callStep t calls = some final ∧
      Refines nodes final (book.applyAll (calls.map Call.order)) := by
  induction calls generalizing t book with
  | nil => exact ⟨t, rfl, h⟩
  | cons call calls ih =>
      obtain ⟨final, hrun, hfinal⟩ := ih (h.step call)
      exact ⟨final, hrun, hfinal⟩

end Refines

/-- After any calls on any number of lists, every lookup finds what the book of
these calls says: nothing, a node of which only the MAC was written, or one
with the address of its serial number, which lies in the range. -/
theorem lists_refine_book [DecidableEq ι]
    (nodes : ℕ → DeviceNode) (calls : List (Call ι)) :
    let book : Book (ι × Octets 6) :=
      emptyBook.applyAll (calls.map Call.order)
    ∃ t, run callStep (Tracked.initial nodes) calls = some t ∧
      ∀ list mac, Shows nodes t.state list mac (book.entries (list, mac)) ∧
        ∀ serial, book.entries (list, mac) = some (some serial) →
          1 ≤ serial ∧ serial < 254 := by
  intro book
  obtain ⟨t, hrun, hrefines⟩ := (Refines.initial nodes).run calls
  refine ⟨t, hrun, ?_⟩
  intro list mac
  refine ⟨hrefines.shows list mac, ?_⟩
  intro serial hserial
  have hbounds := hrefines.within.entries (list, mac) serial hserial
  have hupper := hrefines.within.upper
  have hlimit := hrefines.limit
  omega

end DeviceList

end ProfinetIo
