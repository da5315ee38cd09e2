import ProfinetIo.DeviceTables
import Mathlib.Tactic

/-!
# The three searches of the device list

The lookups of `MainApp.c` by MAC, by address and by name make the same walk.
Each has a return statement for a null key, for an empty list and for a node
that is found, but none for a walk that ends without one.  The search by name
also hands the name of each node it passes to `strcmp`, which a null name is no
argument for.
-/

namespace ProfinetIo

/-! ## The searches -/

def findDeviceByIP (top : List Device) (ip : Octets 4) : Lookup :=
  findDevice (fun node => node.ip = ip) top

/-- The walk by name ends at a null name as well, which `strcmp` cannot
compare. -/
def endsWalk (name : List UInt8) (node : Device) : Bool :=
  node.deviceName = none ∨ node.deviceName = some name

def findDeviceByName (top : List Device) (name : List UInt8) : Lookup :=
  match findDevice (endsWalk name) top with
  | .node index =>
      if top[index]?.bind Device.deviceName = none then .undefined
      else .node index
  | result => result

def withKey {κ : Type*} (find : κ → Lookup) : Option κ → Lookup
  | none => .null
  | some key => find key

/-- A node is the first one that matches the key, and `NULL` says that there is
none. -/
def FirstMatch {κ : Type*} (same : κ → Device → Prop) (top : List Device)
    (key : Option κ) : Lookup → Prop
  | .null => ∀ value, key = some value → ∀ node ∈ top, ¬ same value node
  | .node index => ∃ value before node after, key = some value ∧
      top = before ++ node :: after ∧ before.length = index ∧
      same value node ∧ ∀ other ∈ before, ¬ same value other
  | .undefined => False

/-! ## Where a walk ends -/

section Walk

variable {α : Type*} {found : α → Bool} {items : List α}

theorem findIdx?_parts {index : ℕ} (h : items.findIdx? found = some index) :
    ∃ before item after, items = before ++ item :: after ∧
      before.length = index ∧ found item = true ∧
      ∀ other ∈ before, ¬ found other = true := by
  obtain ⟨hindex, hfound, hbefore⟩ := List.findIdx?_eq_some_iff_getElem.mp h
  refine ⟨items.take index, items[index], items.drop (index + 1), ?_, ?_,
    hfound, ?_⟩
  · rw [List.getElem_cons_drop, List.take_append_drop]
  · rw [List.length_take, Nat.min_eq_left hindex.le]
  · intro other hother
    obtain ⟨j, hj, rfl⟩ := List.mem_take_iff_getElem.mp hother
    exact hbefore j (by omega)

theorem findIdx?_isSome {item : α} (hmem : item ∈ items)
    (hitem : found item = true) : ∃ index, items.findIdx? found = some index := by
  cases h : items.findIdx? found with
  | none =>
      have habsent := List.findIdx?_eq_none_iff.mp h item hmem
      rw [hitem] at habsent
      contradiction
  | some index => exact ⟨index, rfl⟩

end Walk

section Search

variable {top : List Device} {found : Device → Bool} {index : ℕ}

theorem findDevice_of_found (h : top.findIdx? found = some index) :
    findDevice found top = .node index := by
  cases top with
  | nil => contradiction
  | cons node nodes => simp [findDevice, h]

theorem findDevice_of_absent (hne : top ≠ [])
    (h : ∀ node ∈ top, ¬ found node = true) :
    findDevice found top = .undefined := by
  have hnone : top.findIdx? found = none := by
    rw [List.findIdx?_eq_none_iff]
    simpa using h
  cases top with
  | nil => contradiction
  | cons node nodes => simp [findDevice, hnone]

theorem firstMatch_null {κ : Type*} {same : κ → Device → Prop} :
    FirstMatch same top none .null := by
  intro value hvalue
  contradiction

/-- The common walk is right on the empty list and where a node matches. -/
theorem firstMatch_findDevice_iff
    {κ : Type*} {same : κ → Device → Prop} {value : κ}
    (hsame : ∀ node, found node = true ↔ same value node) :
    FirstMatch same top (some value) (findDevice found top) ↔
      top = [] ∨ ∃ node ∈ top, same value node := by
  by_cases hempty : top = []
  · subst hempty
    simp [findDevice, FirstMatch]
  · by_cases hexists : ∃ node ∈ top, same value node
    · obtain ⟨node, hnode, hmatch⟩ := hexists
      obtain ⟨index, hindex⟩ := findIdx?_isSome hnode ((hsame node).mpr hmatch)
      obtain ⟨before, item, after, htop, hlength, hitem, hbefore⟩ :=
        findIdx?_parts hindex
      rw [findDevice_of_found hindex]
      constructor
      · intro _
        exact Or.inr ⟨node, hnode, hmatch⟩
      · intro _
        refine ⟨value, before, item, after, rfl, htop, hlength,
          (hsame item).mp hitem, ?_⟩
        intro other hother hsome
        exact hbefore other hother ((hsame other).mpr hsome)
    · have habsent : ∀ node ∈ top, ¬ found node = true := by
        intro node hnode hfound
        exact hexists ⟨node, hnode, (hsame node).mp hfound⟩
      rw [findDevice_of_absent hempty habsent]
      simp [FirstMatch, hempty, hexists]

end Search

/-! ## The search by name -/

section Name

variable {top before after : List Device} {node : Device} {name : List UInt8}

/-- A node has the name, and the names in front of it can be compared. -/
def NameReached (top : List Device) (name : List UInt8) : Prop :=
  ∃ before node after, top = before ++ node :: after ∧
    node.deviceName = some name ∧
    ∀ other ∈ before, other.deviceName ≠ none

theorem endsWalk_iff : endsWalk name node = true ↔
    node.deviceName = none ∨ node.deviceName = some name := by
  simp [endsWalk]

theorem findDeviceByName_of_stop
    (hstop : endsWalk name node = true)
    (hbefore : ∀ other ∈ before, ¬ endsWalk name other = true) :
    findDeviceByName (before ++ node :: after) name =
      if node.deviceName = none then .undefined else .node before.length := by
  have hskipped : before.findIdx? (endsWalk name) = none := by
    rw [List.findIdx?_eq_none_iff]
    simpa using hbefore
  have hindex : (before ++ node :: after).findIdx? (endsWalk name) =
      some before.length := by
    rw [List.findIdx?_append, hskipped]
    simp [List.findIdx?_cons, hstop]
  rw [findDeviceByName, findDevice_of_found hindex]
  simp

theorem nameReached_cons :
    NameReached (node :: top) name ↔
      node.deviceName = some name ∨
        node.deviceName ≠ none ∧ NameReached top name := by
  constructor
  · rintro ⟨before, reached, after, hsplit, hname, hnames⟩
    cases before with
    | nil =>
        rw [List.nil_append, List.cons.injEq] at hsplit
        rw [hsplit.1]
        exact Or.inl hname
    | cons first before =>
        rw [List.cons_append, List.cons.injEq] at hsplit
        rw [hsplit.1]
        right
        constructor
        · exact hnames first List.mem_cons_self
        · exact ⟨before, reached, after, hsplit.2, hname,
            fun other h => hnames other (List.mem_cons_of_mem _ h)⟩
  · rintro (hname | ⟨hnonnull, before, reached, after, rfl, hname, hnames⟩)
    · exact ⟨[], node, top, rfl, hname, by simp⟩
    · refine ⟨node :: before, reached, after, rfl, hname, ?_⟩
      intro other hother
      rcases List.mem_cons.mp hother with rfl | hother
      · exact hnonnull
      · exact hnames other hother

theorem not_nameReached_of_null
    (hnull : node.deviceName = none)
    (hbefore : ∀ other ∈ before, other.deviceName ≠ some name) :
    ¬ NameReached (before ++ node :: after) name := by
  induction before with
  | nil =>
      rw [List.nil_append, nameReached_cons, hnull]
      simp
  | cons first before ih =>
      rw [List.cons_append, nameReached_cons]
      rintro (hname | ⟨-, hreached⟩)
      · exact hbefore first List.mem_cons_self hname
      · exact ih (fun other h => hbefore other (List.mem_cons_of_mem _ h))
          hreached

theorem firstMatch_findDeviceByName_iff :
    FirstMatch (fun name node => node.deviceName = some name) top (some name)
        (findDeviceByName top name) ↔
      top = [] ∨ NameReached top name := by
  by_cases hempty : top = []
  · subst hempty
    simp [findDeviceByName, findDevice, FirstMatch]
  · rw [or_iff_right hempty]
    by_cases hstops : ∃ node ∈ top, endsWalk name node = true
    · obtain ⟨node, hnode, hstop⟩ := hstops
      obtain ⟨index, hindex⟩ := findIdx?_isSome hnode hstop
      obtain ⟨before, item, after, rfl, -, hitem, hbefore⟩ :=
        findIdx?_parts hindex
      rw [findDeviceByName_of_stop hitem hbefore]
      rw [endsWalk_iff] at hitem
      by_cases hnull : item.deviceName = none
      · have hnot : ¬ NameReached (before ++ item :: after) name := by
          apply not_nameReached_of_null hnull
          intro other hother hsame
          exact hbefore other hother (endsWalk_iff.mpr (Or.inr hsame))
        rw [if_pos hnull]
        simp [FirstMatch, hnot]
      · have hname := hitem.resolve_left hnull
        rw [if_neg hnull]
        constructor
        · intro _
          refine ⟨before, item, after, rfl, hname, ?_⟩
          intro other hother hnone
          exact hbefore other hother (endsWalk_iff.mpr (Or.inl hnone))
        · intro _
          refine ⟨name, before, item, after, rfl, rfl, rfl, hname, ?_⟩
          intro other hother hsame
          exact hbefore other hother (endsWalk_iff.mpr (Or.inr hsame))
    · have habsent : ∀ node ∈ top, ¬ endsWalk name node = true := by
        intro node hnode hstop
        exact hstops ⟨node, hnode, hstop⟩
      have hnot : ¬ NameReached top name := by
        rintro ⟨before, node, after, rfl, hname, -⟩
        exact hstops ⟨node, by simp, endsWalk_iff.mpr (Or.inr hname)⟩
      rw [findDeviceByName, findDevice_of_absent hempty habsent]
      simp [FirstMatch, hnot]

end Name

/-- The searches return the first match or `NULL` exactly if the key is null,
the list is empty or a node matches; before that node the search by name must
meet no null name. -/
theorem findDevice_firstMatch_iff
    (top : List Device) (mac : Option (Octets 6)) (ip : Option (Octets 4))
    (name : Option (List UInt8)) :
    (FirstMatch (fun mac node => node.mac = mac) top mac
        (withKey (findDeviceByMAC top) mac) ↔
      ∀ key, mac = some key → top = [] ∨ ∃ node ∈ top, node.mac = key) ∧
    (FirstMatch (fun ip node => node.ip = ip) top ip
        (withKey (findDeviceByIP top) ip) ↔
      ∀ key, ip = some key → top = [] ∨ ∃ node ∈ top, node.ip = key) ∧
    (FirstMatch (fun name node => node.deviceName = some name) top name
        (withKey (findDeviceByName top) name) ↔
      ∀ key, name = some key → top = [] ∨ NameReached top key) := by
  refine ⟨?_, ?_, ?_⟩
  · cases mac with
    | none => simp [withKey, firstMatch_null]
    | some key =>
        have hsearch := @firstMatch_findDevice_iff top
          (fun node => node.mac = key) _ (fun mac node => node.mac = mac) key
          (by simp)
        simpa [withKey, findDeviceByMAC] using hsearch
  · cases ip with
    | none => simp [withKey, firstMatch_null]
    | some key =>
        have hsearch := @firstMatch_findDevice_iff top
          (fun node => node.ip = key) _ (fun ip node => node.ip = ip) key
          (by simp)
        simpa [withKey, findDeviceByIP] using hsearch
  · cases name with
    | none => simp [withKey, firstMatch_null]
    | some key =>
        have hsearch := @firstMatch_findDeviceByName_iff top key
        simpa [withKey] using hsearch

theorem findDeviceByMAC_without_result :
    ¬ ∀ (top : List Device) (mac : Option (Octets 6)),
      FirstMatch (fun mac node => node.mac = mac) top mac
        (withKey (findDeviceByMAC top) mac) := by
  intro h
  exact h [emptyDevice] (some ⟨[0xac, 0xb9, 0xff, 0x21, 0xaf, 0xac], rfl⟩)

end ProfinetIo
