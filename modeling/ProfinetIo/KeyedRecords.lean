import Mathlib.Tactic

/-!
# Lists of records with keys

The record of a key is the first one in the list.  Writing a record with the
same key to its place changes what is found for this key and for no other.
-/

namespace KeyedRecords

variable {α κ : Type*} [DecidableEq κ] {key : α → κ} {records : List α}
  {index : ℕ} {k : κ}

def lookup (key : α → κ) (records : List α) (k : κ) : Option α :=
  records.find? fun record => key record = k

theorem lookup_cons (record : α) (records : List α) (k : κ) :
    lookup key (record :: records) k =
      if key record = k then some record else lookup key records k := by
  by_cases h : key record = k <;> simp [lookup, h]

/-- The place of a key holds its record. -/
theorem getElem?_of_findIdx?
    (h : (records.findIdx? fun record => key record = k) = some index) :
    records[index]? = lookup key records k := by
  rw [lookup, List.find?_eq_bind_findIdx?_getElem?, h, Option.bind_some]

theorem findIdx?_eq_none_iff_not_mem :
    (records.findIdx? fun record => key record = k) = none ↔
      k ∉ records.map key := by
  simp [List.findIdx?_eq_none_iff]

theorem mem_of_lookup {record : α} (h : lookup key records k = some record) :
    k ∈ records.map key := by
  have hkey : key record = k := by simpa using List.find?_some h
  rw [← hkey]
  exact List.mem_map_of_mem (List.mem_of_find?_eq_some h)

theorem lookup_set
    {record : α} (hrecord : key record = k)
    (h : (records.findIdx? fun record => key record = k) = some index)
    (other : κ) :
    lookup key (records.set index record) other =
      if other = k then some record else lookup key records other := by
  induction records generalizing index with
  | nil => contradiction
  | cons head records ih =>
      rw [List.findIdx?_cons] at h
      by_cases hhead : key head = k
      · simp only [hhead, decide_true, if_true, Option.some.injEq] at h
        subst h
        rw [List.set_cons_zero, lookup_cons, lookup_cons, hrecord, hhead]
        by_cases hother : other = k
        · rw [if_pos hother.symm, if_pos hother]
        · rw [if_neg (Ne.symm hother), if_neg hother, if_neg (Ne.symm hother)]
      · simp only [hhead, decide_false, Bool.false_eq_true, if_false,
          Option.map_eq_some_iff] at h
        obtain ⟨rest, hrest, rfl⟩ := h
        rw [List.set_cons_succ, lookup_cons, lookup_cons, ih hrest]
        by_cases hother : other = k
        · rw [if_pos hother, if_pos hother, hother, if_neg hhead]
        · rw [if_neg hother, if_neg hother]

theorem keys_set
    {record : α} (hrecord : key record = k)
    (h : (records.findIdx? fun record => key record = k) = some index) :
    (records.set index record).map key = records.map key := by
  induction records generalizing index with
  | nil => contradiction
  | cons head records ih =>
      rw [List.findIdx?_cons] at h
      by_cases hhead : key head = k
      · simp only [hhead, decide_true, if_true, Option.some.injEq] at h
        subst h
        rw [List.set_cons_zero, List.map_cons, List.map_cons, hrecord, hhead]
      · simp only [hhead, decide_false, Bool.false_eq_true, if_false,
          Option.map_eq_some_iff] at h
        obtain ⟨rest, hrest, rfl⟩ := h
        rw [List.set_cons_succ, List.map_cons, List.map_cons, ih hrest]

end KeyedRecords
