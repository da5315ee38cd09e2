import ProfinetIo.DeviceList
import ProfinetIo.SerialPool
import Mathlib.Tactic

/-!
# Which addresses are assigned

All lists take their addresses from one counter, the last byte of
`ip_range_min`.  The state represents a pool of serial numbers: the nodes hold
different numbers, the addresses go up one by one, and the counter stops below
the last address of the range.  The gateway's own address lies inside the
range, so it is the seventh to be handed out.
-/

namespace ProfinetIo

namespace DeviceList

open ByteMemory SerialPools TransitionRuns

variable {ι : Type*}

/-- The address lies in the range that the globals start with. -/
def InRange (address : Octets 4) : Prop :=
  bigEndianValue ipRangeMin.val ≤ bigEndianValue address.val ∧
    bigEndianValue address.val ≤ bigEndianValue ipRangeMax.val

/-- No address is held twice, none is out of range, and the counter has gone up
by one for each address without passing the end of the range. -/
structure AddressesUnique (t : Tracked ι) : Prop where
  unique : ∀ node node' address, t.assigned node = some address →
    t.assigned node' = some address → node = node'
  held : ∀ node address, t.assigned node = some address →
    (t.state.nodes node).ip = address
  inRange : ∀ node address, t.assigned node = some address → InRange address
  counter : (lastOctet t.state.ipRangeMin).toNat =
    (lastOctet ipRangeMin).toNat + t.handedOut.length
  bound : lastOctet t.state.ipRangeMin ≤ lastOctet t.state.ipRangeMax

/-- No address has been handed out with itself as the gateway. -/
def GatewayKept (t : Tracked ι) : Prop :=
  ∀ given ∈ t.handedOut, given.1 ≠ given.2

/-! ## Addresses by serial number -/

def serialAddress (serial : ℕ) : Octets 4 :=
  ⟨[192, 168, 1, UInt8.ofNat serial], rfl⟩

theorem lastOctet_ipRangeMin : (lastOctet ipRangeMin).toNat = 1 := rfl

theorem lastOctet_ipRangeMax : (lastOctet ipRangeMax).toNat = 254 := rfl

theorem lastOctet_serialAddress {serial : ℕ} (h : serial < 256) :
    (lastOctet (serialAddress serial)).toNat = serial := by
  have hbyte : lastOctet (serialAddress serial) = UInt8.ofNat serial := rfl
  rw [hbyte, UInt8.toNat_ofNat']
  omega

theorem serialAddress_inj {a b : ℕ} (ha : a < 256) (hb : b < 256)
    (h : serialAddress a = serialAddress b) : a = b := by
  rw [← lastOctet_serialAddress ha, ← lastOctet_serialAddress hb, h]

theorem incrementLast_serialAddress (serial : ℕ) :
    incrementLast (serialAddress serial) = serialAddress (serial + 1) := by
  have hbyte : UInt8.ofNat serial + 1 = UInt8.ofNat (serial + 1) := by
    rw [UInt8.ofNat_add]
    rfl
  apply Subtype.ext
  change [192, 168, 1, UInt8.ofNat serial + 1] = _
  rw [hbyte]
  rfl

theorem bigEndianValue_serialAddress {serial : ℕ} (h : serial < 256) :
    bigEndianValue (serialAddress serial).val = 3232235776 + serial := by
  have hbyte : (UInt8.ofNat serial).toNat = serial := by
    rw [UInt8.toNat_ofNat']
    omega
  simp [bigEndianValue, serialAddress, littleEndianValue]
  omega

theorem inRange_serialAddress {serial : ℕ} (hlow : 1 ≤ serial)
    (hhigh : serial < 254) : InRange (serialAddress serial) := by
  have hvalue := bigEndianValue_serialAddress
    (show serial < 256 by omega)
  have hmin : bigEndianValue ipRangeMin.val = 3232235777 := by decide
  have hmax : bigEndianValue ipRangeMax.val = 3232236030 := by decide
  unfold InRange
  omega

/-- The addresses up to the serial number that is next, each with the
gateway. -/
def addressesBelow (next : ℕ) : List (Octets 4 × Octets 4) :=
  (List.range (next - 1)).map fun k =>
    (serialAddress (k + 1), DeviceList.gateway)

theorem addressesBelow_succ {next : ℕ} (h : 1 ≤ next) :
    addressesBelow (next + 1) =
      addressesBelow next ++ [(serialAddress next, DeviceList.gateway)] := by
  have hnext : next + 1 - 1 = next - 1 + 1 := by omega
  have hserial : next - 1 + 1 = next := by omega
  rw [addressesBelow, hnext, List.range_succ, List.map_append,
    List.map_singleton, hserial]
  rfl

@[simp] theorem addressesBelow_length (next : ℕ) :
    (addressesBelow next).length = next - 1 := by
  simp [addressesBelow]

/-! ## The state as a pool -/

/-- The nodes hold the addresses of their numbers in the pool, and the counter
stands at its next number. -/
structure Represents (t : Tracked ι) (pool : SerialPool ℕ) : Prop where
  first : pool.first = 1
  limit : pool.limit = 254
  counter : t.state.ipRangeMin = serialAddress pool.next
  rangeMax : t.state.ipRangeMax = ipRangeMax
  gateway : t.state.gateway = DeviceList.gateway
  assigned : ∀ node,
    t.assigned node = (pool.serial node).map serialAddress
  held : ∀ node address, t.assigned node = some address →
    (t.state.nodes node).ip = address
  handedOut : t.handedOut = addressesBelow pool.next

section Represents

variable {t : Tracked ι} {pool : SerialPool ℕ}

theorem Represents.next_bounds (h : Represents t pool) :
    1 ≤ pool.next ∧ pool.next ≤ 254 := by
  have hlow := pool.first_le
  have hhigh := pool.next_le
  have hfirst := h.first
  have hlimit := h.limit
  omega

theorem Represents.initial (nodes : ℕ → DeviceNode) :
    Represents (Tracked.initial nodes : Tracked ι)
      (SerialPool.untouched (show 1 ≤ 254 by decide)) := by
  constructor
  · rfl
  · rfl
  · rfl
  · rfl
  · rfl
  · intro node
    rfl
  · intro node address h
    contradiction
  · rfl

theorem Represents.room_iff (h : Represents t pool) :
    lastOctet t.state.ipRangeMin < lastOctet t.state.ipRangeMax ↔
      pool.next < pool.limit := by
  have hbounds := h.next_bounds
  rw [h.counter, h.rangeMax, h.limit, UInt8.lt_iff_toNat_lt,
    lastOctet_ipRangeMax, lastOctet_serialAddress (by omega)]

theorem Represents.give (h : Represents t pool)
    (hroom : pool.next < pool.limit) (node : ℕ) :
    Represents (t.record (assignAddress t.state node) node)
      (pool.give hroom node) := by
  have hbounds := h.next_bounds
  have hip : ((assignAddress t.state node).nodes node).ip =
      serialAddress pool.next := by
    rw [assignAddress_ip, h.counter]
  have hgateway : ((assignAddress t.state node).nodes node).gateway =
      DeviceList.gateway := by
    rw [assignAddress_gateway, h.gateway]
  constructor
  · exact h.first
  · exact h.limit
  · exact (congrArg incrementLast h.counter).trans
      (incrementLast_serialAddress pool.next)
  · exact h.rangeMax
  · exact h.gateway
  · intro other
    simp only [Tracked.record, hip, SerialPool.give_serial]
    by_cases hother : other = node
    · rw [hother, Function.update_self, Function.update_self]
      rfl
    · rw [Function.update_of_ne hother, Function.update_of_ne hother]
      exact h.assigned other
  · intro other address hother
    simp only [Tracked.record] at hother ⊢
    by_cases heq : other = node
    · rw [heq, Function.update_self, Option.some.injEq] at hother
      rw [heq, hother]
    · rw [Function.update_of_ne heq] at hother
      rw [assignAddress_of_ne heq]
      exact h.held other address hother
  · simp only [Tracked.record, hip, hgateway, SerialPool.give_next,
      h.handedOut, addressesBelow_succ hbounds.1]

variable [DecidableEq ι]

theorem Represents.pushNode (h : Represents t pool) (hheap : t.HeapFormed)
    (list : ι) (mac : Octets 6) :
    Represents { t with state := pushNode t.state list mac } pool := by
  constructor
  · exact h.first
  · exact h.limit
  · exact h.counter
  · exact h.rangeMax
  · exact h.gateway
  · exact h.assigned
  · intro node address hnode
    have hne : node ≠ t.state.allocated := by
      intro heq
      have hfresh := hheap.fresh node (by omega)
      rw [hfresh] at hnode
      contradiction
    rw [pushNode_of_ne hne]
    exact h.held node address hnode
  · exact h.handedOut

theorem Represents.step (h : Represents t pool) (hheap : t.HeapFormed)
    (call : Call ι) :
    Represents (DeviceList.step t call) pool ∨
      ∃ hroom node,
        Represents (DeviceList.step t call) (pool.give hroom node) := by
  cases call with
  | addDevice list mac => exact Or.inl (h.pushNode hheap list mac)
  | addIpToDevice list mac =>
      cases hserved : servedNode t.state list mac with
      | none =>
          rw [step_addIpToDevice_of_unserved hserved]
          exact Or.inl h
      | some node =>
          have hroom := h.room_iff.mp (found_of_servedNode hserved).2
          rw [step_addIpToDevice_of_served hserved]
          exact Or.inr ⟨hroom, node, h.give hroom node⟩

theorem Represents.exists_next (h : Represents t pool) (hheap : t.HeapFormed)
    (call : Call ι) :
    ∃ pool', Represents (DeviceList.step t call) pool' := by
  rcases h.step hheap call with hsame | ⟨hroom, node, hgiven⟩
  · exact ⟨pool, hsame⟩
  · exact ⟨pool.give hroom node, hgiven⟩

omit [DecidableEq ι] in
theorem Represents.addressesUnique (h : Represents t pool) :
    AddressesUnique t := by
  have hbounds := h.next_bounds
  have hissued : ∀ node address, t.assigned node = some address →
      ∃ k, pool.serial node = some k ∧ address = serialAddress k ∧
        1 ≤ k ∧ k < 254 := by
    intro node address hnode
    rw [h.assigned, Option.map_eq_some_iff] at hnode
    obtain ⟨k, hk, rfl⟩ := hnode
    have hissue := pool.issued node k hk
    have hfirst := h.first
    exact ⟨k, hk, rfl, by omega, by omega⟩
  have hcounter : (lastOctet t.state.ipRangeMin).toNat = pool.next := by
    rw [h.counter]
    exact lastOctet_serialAddress (by omega)
  constructor
  · intro node node' address hnode hnode'
    obtain ⟨k, hk, haddress, hlow, hhigh⟩ := hissued node address hnode
    obtain ⟨k', hk', haddress', hlow', hhigh'⟩ :=
      hissued node' address hnode'
    have hsame : k = k' := serialAddress_inj (by omega) (by omega)
      (haddress.symm.trans haddress')
    exact pool.distinct node node' k hk (hsame ▸ hk')
  · exact h.held
  · intro node address hnode
    obtain ⟨k, -, rfl, hlow, hhigh⟩ := hissued node address hnode
    exact inRange_serialAddress hlow hhigh
  · rw [hcounter, lastOctet_ipRangeMin, h.handedOut, addressesBelow_length]
    omega
  · rw [UInt8.le_iff_toNat_le, hcounter, h.rangeMax, lastOctet_ipRangeMax]
    exact hbounds.2

end Represents

/-- In every state of every run, on any number of lists, the assigned
addresses are distinct and in range, and the counter does not wrap. -/
theorem statesMeet_addressesUnique [DecidableEq ι]
    (nodes : ℕ → DeviceNode) (calls : List (Call ι)) :
    StatesMeet callStep AddressesUnique (Tracked.initial nodes) calls := by
  refine statesMeet_of_invariant
    (fun t : Tracked ι => t.HeapFormed ∧ ∃ pool, Represents t pool) ?_ ?_
    ⟨.initial nodes, _, .initial nodes⟩ calls
  · intro t call next h hnext
    obtain ⟨hheap, pool, hpool⟩ := h
    cases hnext
    exact ⟨hheap.step call, hpool.exists_next hheap call⟩
  · intro t h
    obtain ⟨-, pool, hpool⟩ := h
    exact hpool.addressesUnique

/-! ## The gateway's address -/

/-- The calls of `add_ip_to_device` whose MAC is on the list, which `listed`
says for the MACs added before. -/
def servedCalls [DecidableEq ι] :
    List (ι × Octets 6) → List (Call ι) → ℕ
  | _, [] => 0
  | listed, .addDevice list mac :: calls =>
      servedCalls ((list, mac) :: listed) calls
  | listed, .addIpToDevice list mac :: calls =>
      (if (list, mac) ∈ listed then 1 else 0) + servedCalls listed calls

theorem mem_addressesBelow {next : ℕ} {given : Octets 4 × Octets 4} :
    given ∈ addressesBelow next ↔
      ∃ k, 1 ≤ k ∧ k < next ∧
        given = (serialAddress k, DeviceList.gateway) := by
  simp only [addressesBelow, List.mem_map, List.mem_range]
  constructor
  · rintro ⟨k, hk, rfl⟩
    exact ⟨k + 1, by omega, by omega, rfl⟩
  · rintro ⟨k, hlow, hhigh, rfl⟩
    have hk : k - 1 + 1 = k := by omega
    exact ⟨k - 1, by omega, by rw [hk]⟩

theorem gateway_eq_serialAddress : DeviceList.gateway = serialAddress 7 := rfl

section Gateway

variable {t : Tracked ι} {pool : SerialPool ℕ}

theorem Represents.handedOut_length (h : Represents t pool) :
    t.handedOut.length = pool.next - 1 := by
  rw [h.handedOut, addressesBelow_length]

/-- The seventh address is the gateway's. -/
theorem Represents.gatewayKept_iff (h : Represents t pool) :
    GatewayKept t ↔ t.handedOut.length ≤ 6 := by
  have hbounds := h.next_bounds
  rw [h.handedOut_length]
  unfold GatewayKept
  rw [h.handedOut]
  constructor
  · intro hkept
    by_contra hmore
    have hseventh : (serialAddress 7, DeviceList.gateway) ∈
        addressesBelow pool.next :=
      mem_addressesBelow.mpr ⟨7, by decide, by omega, rfl⟩
    exact hkept _ hseventh gateway_eq_serialAddress.symm
  · intro hfew given hgiven heq
    obtain ⟨k, hlow, hhigh, rfl⟩ := mem_addressesBelow.mp hgiven
    have hserial : k = 7 := serialAddress_inj (by omega) (by decide)
      (heq.trans gateway_eq_serialAddress)
    omega

end Gateway

/-- The MACs on the lists are those that were added. -/
def Listed (listed : List (ι × Octets 6)) (s : State ι) : Prop :=
  ∀ list mac, (list, mac) ∈ listed ↔
    ∃ node ∈ s.heads list, (s.nodes node).mac = mac

theorem findDeviceByMac_isSome_iff
    {s : State ι} {list : ι} {mac : Octets 6} :
    (findDeviceByMac s list mac).isSome = true ↔
      ∃ node ∈ s.heads list, (s.nodes node).mac = mac := by
  simp [findDeviceByMac]

section Served

variable [DecidableEq ι] {t : Tracked ι} {listed : List (ι × Octets 6)}

theorem Listed.pushNode (h : Listed listed t.state) (hheap : t.HeapFormed)
    (list : ι) (mac : Octets 6) :
    Listed ((list, mac) :: listed)
      (DeviceList.pushNode t.state list mac) := by
  have hkept : ∀ other, ∀ node ∈ t.state.heads other,
      (DeviceList.pushNode t.state list mac).nodes node =
        t.state.nodes node := by
    intro other node hnode
    exact pushNode_of_ne (hheap.listed other node hnode).ne list mac
  intro other mac'
  rw [List.mem_cons, h other mac', Prod.mk.injEq]
  by_cases hother : other = list
  · rw [hother, pushNode_heads]
    constructor
    · rintro (⟨-, rfl⟩ | ⟨node, hnode, hmac⟩)
      · exact ⟨_, List.mem_cons_self, pushNode_mac t.state list mac'⟩
      · refine ⟨node, List.mem_cons_of_mem _ hnode, ?_⟩
        rw [hkept list node hnode, hmac]
    · rintro ⟨node, hnode, hmac⟩
      rcases List.mem_cons.mp hnode with rfl | hnode
      · left
        rw [pushNode_mac] at hmac
        exact ⟨rfl, hmac.symm⟩
      · right
        rw [hkept list node hnode] at hmac
        exact ⟨node, hnode, hmac⟩
  · rw [pushNode_heads_of_ne hother]
    constructor
    · rintro (⟨heq, -⟩ | ⟨node, hnode, hmac⟩)
      · exact absurd heq hother
      · exact ⟨node, hnode, by rw [hkept other node hnode, hmac]⟩
    · rintro ⟨node, hnode, hmac⟩
      rw [hkept other node hnode] at hmac
      exact Or.inr ⟨node, hnode, hmac⟩

omit [DecidableEq ι] in
theorem Listed.assignAddress (h : Listed listed t.state) (node : ℕ) :
    Listed listed (DeviceList.assignAddress t.state node) := by
  intro list mac
  rw [h list mac]
  simp only [assignAddress_mac]
  rfl

omit [DecidableEq ι] in
theorem Listed.servedNode (h : Listed listed t.state) {pool : SerialPool ℕ}
    (hpool : Represents t pool) (hroom : pool.next < pool.limit)
    {list : ι} {mac : Octets 6} (hmem : (list, mac) ∈ listed) :
    ∃ node, DeviceList.servedNode t.state list mac = some node := by
  have hfound := findDeviceByMac_isSome_iff.mpr ((h list mac).mp hmem)
  unfold DeviceList.servedNode
  rw [if_pos (hpool.room_iff.mpr hroom)]
  exact Option.isSome_iff_exists.mp hfound

omit [DecidableEq ι] in
theorem Listed.servedNode_none (h : Listed listed t.state)
    {list : ι} {mac : Octets 6} (hmem : (list, mac) ∉ listed) :
    DeviceList.servedNode t.state list mac = none := by
  have hnone : findDeviceByMac t.state list mac = none := by
    rw [← Option.not_isSome_iff_eq_none, findDeviceByMac_isSome_iff,
      ← h list mac]
    exact hmem
  unfold DeviceList.servedNode
  rw [hnone, ite_self]

omit [DecidableEq ι] in
theorem Listed.served_iff (h : Listed listed t.state) {pool : SerialPool ℕ}
    (hpool : Represents t pool) {list : ι} {mac : Octets 6} :
    (∃ node, DeviceList.servedNode t.state list mac = some node) ↔
      pool.next < pool.limit ∧ (list, mac) ∈ listed := by
  constructor
  · rintro ⟨node, hserved⟩
    refine ⟨hpool.room_iff.mp (found_of_servedNode hserved).2, ?_⟩
    by_contra hmem
    rw [h.servedNode_none hmem] at hserved
    contradiction
  · rintro ⟨hroom, hmem⟩
    exact h.servedNode hpool hroom hmem

theorem servedCalls_of_listed {list : ι} {mac : Octets 6}
    (h : (list, mac) ∈ listed) (calls : List (Call ι)) :
    servedCalls listed (.addIpToDevice list mac :: calls) =
      1 + servedCalls listed calls := by
  rw [servedCalls, if_pos h]

theorem servedCalls_of_unlisted {list : ι} {mac : Octets 6}
    (h : (list, mac) ∉ listed) (calls : List (Call ι)) :
    servedCalls listed (.addIpToDevice list mac :: calls) =
      servedCalls listed calls := by
  rw [servedCalls, if_neg h, Nat.zero_add]

end Served

/-- From any state that six addresses at most have been handed out in, the
calls that are still served have to stay within six. -/
theorem statesMeet_gatewayKept_from [DecidableEq ι] (calls : List (Call ι))
    {t : Tracked ι} {pool : SerialPool ℕ} {listed : List (ι × Octets 6)}
    (hpool : Represents t pool) (hheap : t.HeapFormed)
    (hlisted : Listed listed t.state) (hfew : t.handedOut.length ≤ 6) :
    StatesMeet callStep GatewayKept t calls ↔
      t.handedOut.length + servedCalls listed calls ≤ 6 := by
  have hkept := hpool.gatewayKept_iff.mpr hfew
  induction calls generalizing t pool listed with
  | nil =>
      simp only [StatesMeet, servedCalls, Nat.add_zero]
      exact hpool.gatewayKept_iff
  | cons call calls ih =>
      have hheap' := hheap.step call
      obtain ⟨pool', hpool'⟩ := hpool.exists_next hheap call
      rw [statesMeet_callStep_cons, and_iff_right hkept]
      cases call with
      | addDevice list mac =>
          exact ih hpool' hheap' (hlisted.pushNode hheap list mac) hfew hkept
      | addIpToDevice list mac =>
          by_cases hmem : (list, mac) ∈ listed
          · have hlength := hpool.handedOut_length
            have hlimit := hpool.limit
            obtain ⟨node, hserved⟩ := hlisted.servedNode hpool (by omega) hmem
            have hnext : (step t (.addIpToDevice list mac)).handedOut.length =
                t.handedOut.length + 1 := by
              rw [step_addIpToDevice_of_served hserved]
              simp [Tracked.record]
            have hlisted' : Listed listed
                (step t (.addIpToDevice list mac)).state := by
              rw [step_addIpToDevice_of_served hserved]
              exact hlisted.assignAddress node
            have hcount := servedCalls_of_listed hmem calls
            by_cases hroom : t.handedOut.length + 1 ≤ 6
            · have hfew' := hnext.trans_le hroom
              have hrest := ih hpool' hheap' hlisted' hfew'
                (hpool'.gatewayKept_iff.mpr hfew')
              rw [hnext, Nat.add_assoc, ← hcount] at hrest
              exact hrest
            · constructor
              · intro h
                have hhead := hpool'.gatewayKept_iff.mp h.head
                omega
              · intro h
                omega
          · have hserved := hlisted.servedNode_none hmem
            rw [step_addIpToDevice_of_unserved hserved,
              servedCalls_of_unlisted hmem]
            exact ih hpool hheap hlisted hfew hkept

theorem listed_initial (nodes : ℕ → DeviceNode) :
    Listed [] (State.initial nodes : State ι) := by
  intro list mac
  simp [State.initial]

/-- The gateway's address stays with the gateway exactly in the runs that serve
at most six calls. -/
theorem statesMeet_gatewayKept_iff [DecidableEq ι]
    (nodes : ℕ → DeviceNode) (calls : List (Call ι)) :
    StatesMeet callStep GatewayKept (Tracked.initial nodes) calls ↔
      servedCalls [] calls ≤ 6 := by
  have hfrom := statesMeet_gatewayKept_from calls
    (Represents.initial nodes : Represents (Tracked.initial nodes) _)
    (.initial nodes) (listed_initial nodes) (Nat.zero_le 6)
  have hzero : (Tracked.initial nodes : Tracked ι).handedOut.length = 0 := rfl
  rw [hfrom, hzero, Nat.zero_add]

theorem gateway_handed_out_to_seventh :
    ¬ StatesMeet callStep GatewayKept
      (Tracked.initial fun _ => zeroNode)
      (.addDevice () ⟨[0xac, 0xb9, 0xff, 0x21, 0xaf, 0xac], rfl⟩ ::
        List.replicate 7 (.addIpToDevice ()
          ⟨[0xac, 0xb9, 0xff, 0x21, 0xaf, 0xac], rfl⟩)) := by
  intro h
  have hserved := (statesMeet_gatewayKept_from _ (.initial _) (.initial _)
    (listed_initial _) (Nat.zero_le 6)).mp h
  revert hserved
  decide

end DeviceList

end ProfinetIo
